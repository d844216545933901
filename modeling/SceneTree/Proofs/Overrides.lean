import SceneTree.Edit
import SceneTree.Proofs.Recovery

/-! Overrides that come back. A colour is written whenever it is set, and so is a background. A
stroke width that is set is written too; but one that is not finite is written `null`, and `null` is
read as a width that is not set. -/
namespace SceneTree
open Node (materialsAll)
variable {ι : Type}

/-- Which fields of a style are set. -/
structure Overrides where
  fill : Bool
  stroke : Bool
  strokeWidth : Bool
deriving DecidableEq

namespace Style

def overrides (s : Style) : Overrides := ⟨s.fill.isSome, s.stroke.isSome, s.strokeWidth.isSome⟩

/-- The fields that are set and are not written `null`. -/
def legible (s : Style) : Overrides :=
  { s.overrides with strokeWidth := s.strokeWidth.any Float.isFinite }

theorem overrides_recovered (s : Style) : s.recovered.overrides = s.legible := by
  cases width : s.strokeWidth with
  | none => simp [overrides, legible, recovered, width]
  | some w => simp [overrides, legible, recovered, width, Json.isSome_recovered]

theorem legible_eq_iff (s : Style) :
    s.legible = s.overrides ↔ ∀ w, s.strokeWidth = some w → w.isFinite := by
  cases width : s.strokeWidth <;> simp [overrides, legible, width]

end Style

def Material.recovered (m : Material) : Material := { m with style := m.style.recovered }

theorem Node.materialsAll_recovered (ns : List (Node ι)) (ms : List (Node Unit))
    (back : recoveredAll ns = some ms) :
    materialsAll ms = (materialsAll ns).map Material.recovered := by
  induction ns using forest generalizing ms with
  | nil =>
    obtain rfl := Option.some.inj back
    rfl
  | shape i s ns ih =>
    simp only [recoveredAll, recovered, Option.bind_eq_bind, Option.pure_def,
      Option.bind_eq_some_iff] at back
    obtain ⟨_, ⟨s', -, same⟩, ms', later, rest⟩ := back
    cases same
    cases rest
    exact ih ms' later
  | group i h kids ns inside ih =>
    simp only [recoveredAll, recovered, Option.bind_eq_bind, Option.pure_def,
      Option.bind_eq_some_iff] at back
    obtain ⟨_, ⟨h', head, kids', below, same⟩, ms', later, rest⟩ := back
    cases same
    cases rest
    have below := inside kids' below
    have later := ih ms' later
    cases h with
    | material m =>
      cases head
      simp [below, later, Material.recovered]
    | transform m =>
      obtain ⟨m', -, same⟩ := Option.bind_eq_some_iff.1 head
      cases same
      simp [below, later]

namespace Frame

theorem recovered_parts (f : Frame ι) (g : Frame Unit) (back : f.recovered = some g) :
    g.background = f.background ∧ g.materials = f.materials.map Material.recovered := by
  simp only [recovered, Root.recovered, Option.bind_eq_bind, Option.pure_def,
    Option.bind_eq_some_iff] at back
  obtain ⟨v, -, root, ⟨paint, -, kids, below, same⟩, whole⟩ := back
  cases same
  cases whole
  exact ⟨rfl, Node.materialsAll_recovered _ _ below⟩

/-- Where a frame is read back from its own text, a colour or a background is set if it was set
before, and a stroke width if it was set and finite. So every material has the same fields set as
before if and only if no width among them is infinite or not a number. -/
theorem overrides_ofText (f : Frame ι) (g : Frame Unit) (read : ofText f.text = .ok g) :
    g.background.isSome = f.background.isSome ∧
    g.materials.map (·.style.overrides) = f.materials.map (·.style.legible) ∧
    (g.materials.map (·.style.overrides) = f.materials.map (·.style.overrides) ↔
      ∀ m ∈ f.materials, ∀ w, m.style.strokeWidth = some w → w.isFinite) := by
  have back : f.recovered = some g := by
    rw [← ofSymbols_text, ← toOption_ofText, read]
    rfl
  obtain ⟨background, materials⟩ := f.recovered_parts g back
  have set : g.materials.map (·.style.overrides) = f.materials.map (·.style.legible) := by
    rw [materials, List.map_map]
    exact List.map_congr_left fun m _ => m.style.overrides_recovered
  refine ⟨congrArg Option.isSome background, set, ?_⟩
  rw [set, List.map_inj_left]
  exact forall₂_congr fun m _ => m.style.legible_eq_iff

theorem overrides_ofText_nested :
    let f : Frame Unit := ⟨⟨1, 1, .fit⟩, some "white", (), ⟨"black", "black", 1⟩,
      [.group () (.material ⟨"outer", rootId, ⟨some "red", none, none⟩⟩)
        [.group () (.material ⟨"inner", "outer", ⟨none, none, some 2⟩⟩) []]]⟩
    ofText f.text = .ok f ∧
      f.materials.map (·.style.overrides) = f.materials.map (·.style.legible) := by
  intro f
  have numbers : ∀ x ∈ f.numbers, Json.recovered x = some (id x) := by decide +kernel
  have read : ofText f.text = .ok f := (ofText_of_recovered (f.recovered_eq numbers)).1
  exact ⟨read, (overrides_ofText f f read).2.1⟩

theorem overrides_lost :
    let f : Frame Unit := ⟨⟨1, 1, .fit⟩, none, (), ⟨"black", "black", 1⟩,
      [.group () (.material ⟨"m1", rootId, ⟨none, none, some (0 / 0)⟩⟩) []]⟩
    ∃ g, ofText f.text = .ok g ∧
      g.materials.map (·.style.overrides) ≠ f.materials.map (·.style.overrides) := by
  intro f
  let g : Frame Unit := f.withChildren [.group () (.material ⟨"m1", rootId, .inherit⟩) []]
  have one : Json.recovered 1 = some 1 := by decide +kernel
  have nan : Json.recovered (0 / 0) = none := by decide +kernel
  have back : f.recovered = some g := by
    simp [f, g, recovered, Viewport.recovered, Root.recovered, Paint.recovered, Node.recoveredAll,
      Node.recovered, Head.recovered, Style.recovered, one, nan, withChildren, Style.inherit]
  refine ⟨g, (ofText_of_recovered back).1, ?_⟩
  decide

end Frame
end SceneTree
