import SceneTree.Script
import SceneTree.Proofs.Numbering
import SceneTree.Proofs.Scope

/-! Frames drawn by scripts. The ids of a script are the next numbers of its generator, a material
before those inside it, so they differ wherever the materials are placed; and a material only knows
the ids of those around it, so every ref leads outwards. -/
namespace SceneTree
open Node (materialsAll ScopedAll Scoped)
open IdGen (names greatest)
open Decimal (digits)

namespace Slot

/- What holds of the empty layout, and of one with one more slot in front, holds of every layout. -/
mutual
theorem layouts_slot {P : List Slot → Prop} (nil : P [])
    (shape : ∀ s slots, P slots → P (.shape s :: slots))
    (made : ∀ n slots, P slots → P (.made n :: slots))
    (transform : ∀ m inside slots, P inside → P slots → P (.transform m inside :: slots)) :
    ∀ (slot : Slot) (slots : List Slot), P slots → P (slot :: slots)
  | .shape s, slots, rest => shape s slots rest
  | .made n, slots, rest => made n slots rest
  | .transform m inside, slots, rest =>
    transform m inside slots (layouts nil shape made transform inside) rest

@[elab_as_elim]
theorem layouts {P : List Slot → Prop} (nil : P [])
    (shape : ∀ s slots, P slots → P (.shape s :: slots))
    (made : ∀ n slots, P slots → P (.made n :: slots))
    (transform : ∀ m inside slots, P inside → P slots → P (.transform m inside :: slots)) :
    ∀ slots : List Slot, P slots
  | [] => nil
  | slot :: slots => layouts_slot nil shape made transform slot slots
      (layouts nil shape made transform slots)
end

variable (made : List (Node Unit))

theorem materialsAll_placeAll (slots : List Slot) :
    materialsAll (placeAll made slots) =
      (takenAll slots).flatMap fun n => materialsAll made[n]?.toList := by
  induction slots using layouts with
  | nil => rfl
  | shape s slots ih => simpa [placeAll, place, takenAll, taken] using ih
  | made n slots ih => simp [placeAll, place, takenAll, taken, ih]
  | transform m inside slots within ih =>
    simp [placeAll, place, takenAll, taken, List.flatMap_append, within, ih]

theorem flatMap_range : ((List.range made.length).flatMap fun n => materialsAll made[n]?.toList) =
    materialsAll made := by
  induction made with
  | nil => rfl
  | cons node made ih =>
    rw [List.length_cons, List.range_succ_eq_map, List.flatMap_cons, List.flatMap_map]
    exact congrArg₂ (· ++ ·) (List.append_nil _) ih

theorem scopedAll_placeAll {free : String → Prop} {around : List String} {made : List (Node Unit)}
    (scope : ScopedAll free around made) (slots : List Slot) :
    ScopedAll free around (placeAll made slots) := by
  have each (n : Nat) : ScopedAll free around made[n]?.toList := by
    induction made generalizing n with
    | nil => trivial
    | cons node made ih =>
      cases n with
      | zero => exact ⟨scope.1, trivial⟩
      | succ n => exact ih scope.2 n
  induction slots using layouts with
  | nil => trivial
  | shape s slots ih => exact ⟨trivial, ih⟩
  | made n slots ih => exact (Node.scopedAll_append _ _).2 ⟨each n, ih⟩
  | transform m inside slots within ih => exact ⟨within, ih⟩

end Slot

def Parent.Outward : Parent → Prop
  | .named id => id = rootId
  | .around _ => True

theorem Parent.Outward.id_mem {p : Parent} (outward : p.Outward) (around : List String) :
    p.id around = rootId ∨ p.id around ∈ around := by
  cases p with
  | named id => exact .inl outward
  | around n =>
    rw [Parent.id]
    cases found : around[n]? with
    | none => exact .inl rfl
    | some id => exact .inr (List.mem_of_getElem? found)

namespace Script

/-- All parents of a script lead outwards. -/
def Outward : Script → Prop
  | .layOut _ => True
  | .material parent _ children next => parent.Outward ∧ children.Outward ∧ next.Outward

/-- What every layout of a script takes, compared with the materials in the order they are made. -/
def Lays (R : List Nat → List Nat → Prop) (made : Nat) : Script → Prop
  | .layOut layout => R (Slot.takenAll layout) (List.range made)
  | .material _ _ children next => children.Lays R 0 ∧ next.Lays R (made + 1)

/-- Every material that is made is placed, and placed once. -/
abbrev Placed (script : Script) : Prop := script.Lays List.Perm 0

/-- They are placed in the order in which they are made. -/
abbrev InOrder (script : Script) : Prop := script.Lays Eq 0

/-- A comparison of lists that may be made piece by piece. -/
structure Piecewise (R : ∀ {α : Type}, List α → List α → Prop) : Prop where
  flatMap {α β : Type} {xs ys : List α} (f : α → List β) : R xs ys → R (xs.flatMap f) (ys.flatMap f)
  map {α β : Type} {xs ys : List α} (f : α → β) : R xs ys → R (xs.map f) (ys.map f)
  inside {α : Type} {xs ys : List α} (front back : List α) :
    R xs ys → R (front ++ xs ++ back) (front ++ ys ++ back)
  trans {α : Type} {xs ys zs : List α} : R xs ys → R ys zs → R xs zs

theorem Piecewise.perm : Piecewise List.Perm where
  flatMap _ same := same.flatMap_right _
  map _ same := same.map _
  inside _ _ same := (same.append_left _).append_right _
  trans := List.Perm.trans

theorem Piecewise.eq : Piecewise Eq where
  flatMap _ same := congrArg _ same
  map _ same := congrArg _ same
  inside _ _ same := same ▸ rfl
  trans := Eq.trans

def past (hand : Hand) (n : Nat) : Hand :=
  { hand with ids := { hand.ids with number := hand.ids.number + n } }

theorem past_past (hand : Hand) (m n : Nat) : past (past hand m) n = past hand (m + n) := by
  simp [past, Nat.add_assoc]

theorem layer_material {hand : Hand} (room : hand.ids.number < greatest) (around : List String)
    (parent : Parent) (style : Style) :
    let id := IdGen.id hand.ids.stem hand.ids.number
    hand.layer around (.material parent style) =
      (.material ⟨id, parent.id around, style⟩, id :: around, past hand 1) := by
  simp only [Hand.layer, IdGen.next_eq room, past]

theorem run_ids {R : ∀ {α : Type}, List α → List α → Prop} (piecewise : Piecewise R)
    (script : Script) (around : List String) (hand : Hand) (made : List (Node Unit))
    (room : hand.ids.number + script.count ≤ greatest) (lays : script.Lays R made.length) :
    (script.run around hand made).2 = past hand script.count ∧
      R ((materialsAll (script.run around hand made).1).map Material.id)
        ((materialsAll made).map Material.id ++
          names hand.ids.stem hand.ids.number script.count) := by
  induction script generalizing around hand made with
  | layOut layout =>
    refine ⟨rfl, ?_⟩
    have taken := piecewise.flatMap (fun n => materialsAll made[n]?.toList) lays
    rw [← Slot.materialsAll_placeAll, Slot.flatMap_range] at taken
    have ids := piecewise.map Material.id taken
    rwa [← List.append_nil ((materialsAll made).map Material.id)] at ids
  | material parent style children next within later =>
    rw [count] at room ⊢
    rw [run, layer_material (by omega) around parent style]
    simp only
    have numbers : names hand.ids.stem hand.ids.number (1 + children.count + next.count) =
        IdGen.id hand.ids.stem hand.ids.number ::
          (names hand.ids.stem (hand.ids.number + 1) children.count ++
            names hand.ids.stem (hand.ids.number + (1 + children.count)) next.count) := by
      rw [IdGen.names_add, IdGen.names_add]
      rfl
    rw [numbers]
    generalize IdGen.id hand.ids.stem hand.ids.number = id
    obtain ⟨inside, kids⟩ := within (id :: around) (past hand 1) []
      (by simp only [past]; omega) lays.1
    rw [inside, past_past]
    obtain ⟨after, rest⟩ := later around (past hand (1 + children.count))
      (made ++ [.group () (.material ⟨id, parent.id around, style⟩)
        (children.run (id :: around) (past hand 1) []).1])
      (by simp only [past]; omega) (by simpa using lays.2)
    rw [after, past_past]
    have own := piecewise.inside ((materialsAll made).map Material.id ++ [id])
      (names hand.ids.stem (hand.ids.number + (1 + children.count)) next.count) kids
    refine ⟨rfl, piecewise.trans rest ?_⟩
    simpa [past] using own

theorem run_scoped (script : Script) (outward : script.Outward) (around : List String)
    (hand : Hand) (made : List (Node Unit)) (scope : ScopedAll (· = rootId) around made) :
    ScopedAll (· = rootId) around (script.run around hand made).1 := by
  induction script generalizing around hand made with
  | layOut layout => exact Slot.scopedAll_placeAll scope layout
  | material parent style children next within later =>
    obtain ⟨here, inside, rest⟩ := outward
    have kids := within inside (hand.ids.next.1 :: around) { hand with ids := hand.ids.next.2 } []
      trivial
    refine later rest _ _ _ ((Node.scopedAll_append _ _).2 ⟨scope, ?_, trivial⟩)
    exact ⟨here.id_mem around, kids⟩

theorem rootId_notMem_names (stem : String) (first count : Nat) :
    rootId ∉ names stem first count := by
  intro mem
  obtain ⟨n, -, -, same⟩ := IdGen.mem_names.1 mem
  have text : rootId.toList = stem.toList ++ digits n := by
    simpa [IdGen.id, String.toList_append, String.toList_ofList] using congrArg String.toList same
  have last : 't' ∈ (digits n).getLast? := by
    rw [← List.getLast?_append_of_ne_nil stem.toList (Json.Numeral.digits_ne_nil n), ← text]
    rfl
  have digit := Nat.isDigit_of_mem_toDigits (b := 10) (by decide) le_rfl
    (List.mem_of_getLast? last : 't' ∈ digits n)
  exact absurd digit (by decide)

/-- A frame drawn by a script, some ids being skipped first, is well formed if every material is
placed once where it was made and refers to one around it or to the root; and where the materials
are placed in the order in which they are made, their ids count on from those that were skipped. -/
theorem frame_wellFormed (viewport : Viewport) (background : Option String) (paint : Paint)
    (stem : String) (skipped : Nat) (script : Script) (outward : script.Outward)
    (placed : script.Placed) (room : skipped + script.count < 2 ^ 64 - 1) :
    let f := script.frame viewport background paint (.skip skipped (.new stem))
    f.WellFormed ∧ (script.InOrder → f.ids = names stem (skipped + 1) script.count) := by
  intro f
  have start : IdGen.skip skipped (.new stem) = ⟨stem, skipped + 1⟩ := by
    rw [IdGen.skip_eq]
    · simp only [IdGen.new, Nat.add_comm 1]
    · simp only [IdGen.new, greatest]
      omega
  have enough : skipped + 1 + script.count ≤ greatest := by
    rw [greatest]
    omega
  have ids {R : ∀ {α : Type}, List α → List α → Prop} (piecewise : Piecewise R)
      (lays : script.Lays R 0) : R f.ids (names stem (skipped + 1) script.count) := by
    change R ((materialsAll (script.run [] ⟨.skip skipped (.new stem), []⟩ []).1).map Material.id) _
    rw [start]
    exact (script.run_ids piecewise [] ⟨⟨stem, skipped + 1⟩, []⟩ [] enough lays).2
  have same := ids .perm placed
  refine ⟨⟨?_, ?_, ?_⟩, ids .eq⟩
  · exact same.nodup_iff.2 (IdGen.nodup_names _ _ _)
  · exact fun mem => rootId_notMem_names _ _ _ (same.subset mem)
  · exact script.run_scoped outward [] _ [] trivial

theorem frame_wellFormed_swapped :
    let script := fun layout : List Slot =>
      Script.material (.named rootId) .inherit
        (.material (.around 0) .inherit (.layOut []) <|
          .material (.around 0) ⟨some "red", none, none⟩ (.layOut [.shape (.circle ⟨0, 0⟩ 1)]) <|
          .layOut layout)
        (.layOut [.translate 1 2 [.made 0]])
    let frame := fun layout =>
      (script layout).frame ⟨1, 1, .fit⟩ none Drawing.plain (.skip 3 (.new "roo"))
    let ordered := [.made 0, .transform .identity [.made 1]]
    let swapped := [.transform .identity [.made 1], .made 0]
    (script swapped).Outward ∧ (script swapped).Placed ∧ 3 + (script swapped).count < 2 ^ 64 - 1 ∧
      (frame swapped).WellFormed ∧
      (script ordered).InOrder ∧ (frame ordered).ids = ["roo4", "roo5", "roo6"] := by
  intro script frame ordered swapped
  have outward (layout : List Slot) : (script layout).Outward :=
    ⟨rfl, ⟨trivial, trivial, trivial, trivial, trivial⟩, trivial⟩
  have placed : (script swapped).Placed := ⟨⟨.refl _, .refl _, .swap _ _ _⟩, .refl _⟩
  have room : 3 + (script swapped).count < 2 ^ 64 - 1 := by decide
  have inOrder : (script ordered).InOrder := ⟨⟨rfl, rfl, rfl⟩, rfl⟩
  have keeps := (frame_wellFormed ⟨1, 1, .fit⟩ none Drawing.plain "roo" 3 (script swapped)
    (outward _) placed room).1
  have ids := (frame_wellFormed ⟨1, 1, .fit⟩ none Drawing.plain "roo" 3 (script ordered)
    (outward _) ⟨⟨.refl _, .refl _, .refl _⟩, .refl _⟩ room).2 inOrder
  exact ⟨outward _, placed, room, keeps, inOrder, ids.trans (by decide +kernel)⟩

end Script

end SceneTree
