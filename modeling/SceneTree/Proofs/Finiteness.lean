import SceneTree.Failure
import SceneTree.Proofs.Acceptance
import SceneTree.Proofs.Numbers
import SceneTree.Proofs.Readers

/-! Only finite numbers are read. A product that leaves the range is refused, a quotient cannot
leave it; and whatever is made of what was read has no other numbers in it. -/
namespace SceneTree
open Json (Read Form Tree Context Quoted Field)
open Binary (Measures Stands)

namespace Json.Numeral

theorem measures_ofNat {s : Nat} (small : s < 2 ^ 64) : Measures (Float.ofNat s) := by
  obtain rfl | pos := Nat.eq_zero_or_pos s
  · exact .inl (by decide +kernel)
  · obtain ⟨v, stands, -⟩ := near_ofNat pos small
    exact .inr ⟨v, stands⟩

theorem one_le_powerOfTen {n : Nat} (pos : 0 < n) (room : n ≤ 308) :
    ∃ w, Stands (powerOfTen n) w ∧ 1 ≤ w := by
  obtain ⟨w, stands, error⟩ := near_powerOfTen room
  refine ⟨w, stands, ?_⟩
  have ten : (10 : ℚ) ≤ 10 ^ n := le_self_pow₀ (by norm_num) pos.ne'
  have low := (abs_le.1 error).1
  linarith

theorem measures_divide {steps : Nat} {f : Float} {e : Nat} (measures : Measures f) (pos : 0 < e) :
    Measures (divide steps f e) := by
  induction steps generalizing f e with
  | zero => exact measures
  | succ steps ih =>
    rw [divide]
    split
    next room =>
      obtain ⟨w, stands, one⟩ := one_le_powerOfTen pos room
      exact measures.div stands one
    next =>
      obtain ⟨w, stands, one⟩ := one_le_powerOfTen (n := 308) (by decide) le_rfl
      exact ih (measures.div stands one) (by omega)

theorem measures_scale {s : Nat} {e : ℤ} {x : Float} (small : s < 2 ^ 64)
    (read : scale s e = some x) : Measures x := by
  have start := measures_ofNat small
  rw [scale] at read
  split at read
  next down =>
    cases read
    exact measures_divide start (by omega)
  next up =>
    split at read
    next beyond =>
      split at read
      · cases read
        exact start
      · cases read
    next room =>
      simp only at read
      split at read
      · cases read
      next finite =>
        cases read
        obtain ⟨w, power, -⟩ := near_powerOfTen (n := e.natAbs) (by omega)
        exact (start.mul power).resolve_right finite

theorem accumulate_lt {s : Nat} {ds : List Nat} (fits : s < 2 ^ 64) :
    (accumulate s ds).1 < 2 ^ 64 :=
  (accumulate_le fits rfl).2.1

theorem measures_magnitude {n : Numeral} {x : Float} (read : n.magnitude = some x) :
    Measures x := by
  have whole : (accumulate 0 n.whole).1 < 2 ^ 64 := accumulate_lt (by decide)
  have small : (accumulate (accumulate 0 n.whole).1 n.fraction).1 < 2 ^ 64 := accumulate_lt whole
  simp only [magnitude] at read
  split at read
  · exact measures_scale small read
  · split at read
    · exact measures_scale small read
    · split at read
      · cases read
        exact .inl (by decide +kernel)
      · cases read

theorem isFinite_value {n : Numeral} {v : Number} (read : n.value = some v) :
    v.toFloat.isFinite := by
  have small : (accumulate 0 n.whole).1 < 2 ^ 64 := accumulate_lt (by decide)
  simp only [value] at read
  split at read
  · split at read
    · cases read
      exact (measures_ofNat small).isFinite
    · split at read <;> cases read <;> exact (measures_ofNat small).isFinite_neg
  · obtain ⟨x, magnitude, rfl⟩ := Option.map_eq_some_iff.1 read
    have measures := measures_magnitude magnitude
    rw [Number.toFloat, signed]
    split
    · exact measures.isFinite_neg
    · exact measures.isFinite

end Json.Numeral

theorem Json.Read.gives_number : Read.number.Gives (fun _ => True) fun x => x.isFinite := by
  intro ctx t x _ read
  cases t with
  | number n => 
    simp only [number] at read
    split at read
    · rename_i v value
      cases read
      exact Numeral.isFinite_value value
    · cases read
  | list items ending | object members ending | word w | string q | broken b =>
    exact absurd read (Tree.mismatch_ne_ok _ _ _)

def AllFinite (xs : List Float) : Prop := ∀ x ∈ xs, x.isFinite

instance (xs : List Float) : Decidable (AllFinite xs) :=
  inferInstanceAs (Decidable (∀ x ∈ xs, x.isFinite))

namespace AllFinite

@[simp] theorem nil : AllFinite [] := nofun

@[simp] theorem cons_iff (x : Float) (xs : List Float) :
    AllFinite (x :: xs) ↔ x.isFinite ∧ AllFinite xs := List.forall_mem_cons

@[simp] theorem append_iff (xs ys : List Float) :
    AllFinite (xs ++ ys) ↔ AllFinite xs ∧ AllFinite ys := List.forall_mem_append

end AllFinite

open Json.Form

theorem Point.form_gives : Point.form.Gives (fun _ => True) fun p => AllFinite p.numbers := by
  have number := Read.gives_number
  refine gives_map (gives_and (gives_required number _) (gives_required number _)) ?_
  rintro ⟨x, y⟩ ⟨hx, hy⟩
  simp [Point.numbers, hx, hy]

theorem Affine.form_gives :
    Affine.form.Gives (fun _ => True) fun m => AllFinite m.coefficients := by
  have number (name : String) := gives_required Read.gives_number name
  refine gives_map (gives_and (number _) <| gives_and (number _) <| gives_and (number _) <|
    gives_and (number _) <| gives_and (number _) (number _)) ?_
  rintro ⟨a, b, c, d, e, f⟩ ⟨ha, hb, hc, hd, he, hf⟩
  simp [Affine.coefficients, ha, hb, hc, hd, he, hf]

namespace Entry

/-- Where the place is read as a list of children, that has only finite numbers. -/
def Finite (entry : Entry) : Prop :=
  ∀ ns, entry.children () = .ok ns → AllFinite (Node.numbersAll ns)

theorem gives_reads {α : Type} {read : Read Tree α} {P : α → Prop}
    (gives : read.Gives (fun _ => True) P) : (reads read).Gives Entry.Finite P :=
  fun ctx entry a _ done => gives ctx entry.tree a trivial done

theorem gives_text (name : String) : (text name).Gives Entry.Finite fun _ => True :=
  gives_required (fun _ _ _ _ _ => trivial) name

theorem gives_number (name : String) : (number name).Gives Entry.Finite fun x => x.isFinite :=
  gives_required (gives_reads Read.gives_number) name

theorem gives_point (name : String) :
    (point name).Gives Entry.Finite fun p => AllFinite p.numbers :=
  gives_required (gives_reads (Read.gives_record Point.form_gives _)) name

theorem gives_style : style.Gives Entry.Finite fun s => AllFinite s.strokeWidth.toList := by
  have text (name : String) : (override name Read.text).Gives Entry.Finite fun _ => True :=
    gives_optional (fun _ _ _ _ _ => trivial) name trivial
  have width : (override "strokeWidth" Read.number).Gives Entry.Finite
      fun w => ∀ x, w = some x → x.isFinite :=
    gives_optional (gives_reads (Read.gives_nullable Read.gives_number)) _ nofun
  refine gives_map (gives_and (text _) (gives_and (text _) width)) ?_
  rintro ⟨fill, stroke, w⟩ ⟨-, -, hw⟩ x mem
  exact hw x (Option.mem_toList.1 mem)

theorem gives_group : group.Gives Entry.Finite fun ns => AllFinite (Node.numbersAll ns) :=
  gives_optional (fun _ _ ns source done => source ns done) _ .nil

end Entry

open Entry in
theorem Kind.form_gives (k : Kind) : k.form.Gives Entry.Finite fun n => AllFinite n.numbers := by
  cases k with
  | material =>
    refine gives_map (gives_and (gives_text _) <| gives_and (gives_text _) <|
      gives_and gives_style gives_group) ?_
    rintro ⟨id, ref, style, kids⟩ ⟨-, -, hs, hk⟩
    exact (AllFinite.append_iff _ _).2 ⟨hs, hk⟩
  | transform =>
    have matrix := gives_required (gives_reads (Read.gives_tuple Affine.form_gives)) "matrix"
    refine gives_map (gives_and matrix gives_group) ?_
    rintro ⟨m, kids⟩ ⟨hm, hk⟩
    exact (AllFinite.append_iff _ _).2 ⟨hm, hk⟩
  | circle =>
    refine gives_map (gives_and (gives_point _) (gives_number _)) ?_
    rintro ⟨c, r⟩ ⟨hc, hr⟩
    simpa [Node.numbers, Shape.numbers] using ⟨hc, hr⟩
  | line =>
    refine gives_map (gives_and (gives_point _) (gives_point _)) ?_
    rintro ⟨s, t⟩ ⟨hs, ht⟩
    simpa [Node.numbers, Shape.numbers] using ⟨hs, ht⟩
  | rectangle =>
    refine gives_map (gives_and (gives_point _) <| gives_and (gives_number _) (gives_number _)) ?_
    rintro ⟨c, w, h⟩ ⟨hc, hw, hh⟩
    simpa [Node.numbers, Shape.numbers] using ⟨hc, hw, hh⟩
  | image =>
    refine gives_map (gives_and (gives_text _) <| gives_and (gives_point _) <|
      gives_and (gives_number _) (gives_number _)) ?_
    rintro ⟨u, p, w, h⟩ ⟨-, hp, hw, hh⟩
    simpa [Node.numbers, Shape.numbers] using ⟨hp, hw, hh⟩

namespace Node

mutual
theorem finite_ofTree : ∀ (t : Tree) (n : Node Unit), ofTree t = .ok n → AllFinite n.numbers
  | .object members ending, n, read => by
    rw [ofTree] at read
    obtain ⟨kind, -, read⟩ := Json.bind_ok read
    obtain ⟨kind, -, read⟩ := Json.bind_ok read
    exact (Kind.form_gives kind).ofMembers (finite_members members) read
  | .list [] _, n, read => by
    rw [ofTree] at read
    cases read
  | .list (t :: ts) ending, n, read => by
    rw [ofTree] at read
    obtain ⟨kind, -, read⟩ := Json.bind_ok read
    exact (Kind.form_gives kind).ofItems (finite_items ts) read
  | .word w, n, read | .number w, n, read | .string w, n, read | .broken w, n, read => by
    rw [ofTree] at read
    exact absurd read (Json.Tree.mismatch_ne_ok _ _ _)

theorem finite_childrenOfTree : ∀ (t : Tree) (ns : List (Node Unit)), childrenOfTree t = .ok ns →
    AllFinite (numbersAll ns)
  | .list items ending, ns, read => by
    rw [childrenOfTree] at read
    exact finite_ofTrees items ns read
  | .object _ _, n, read | .word w, n, read | .number w, n, read | .string w, n, read
  | .broken w, n, read => by
    rw [childrenOfTree] at read
    exact absurd read (Json.Tree.mismatch_ne_ok _ _ _)

theorem finite_ofTrees : ∀ (ts : List Tree) (ns : List (Node Unit)), ofTrees ts = .ok ns →
    AllFinite (numbersAll ns)
  | [], ns, read => by
    cases read
    exact .nil
  | t :: ts, ns, read => by
    rw [ofTrees] at read
    obtain ⟨n, here, read⟩ := Json.bind_ok read
    obtain ⟨rest, later, same⟩ := Json.bind_ok read
    cases same
    exact (AllFinite.append_iff _ _).2 ⟨finite_ofTree t n here, finite_ofTrees ts rest later⟩

theorem finite_items : ∀ ts : List Tree, ∀ e ∈ entriesOfItems ts, e.Finite
  | [] => nofun
  | t :: ts => List.forall_mem_cons.2 ⟨finite_childrenOfTree t, finite_items ts⟩

theorem finite_members : ∀ ms : List (Quoted × Tree), ∀ m ∈ entriesOfMembers ms, m.2.Finite
  | [] => nofun
  | (_, t) :: ms => List.forall_mem_cons.2 ⟨finite_childrenOfTree t, finite_members ms⟩
end

theorem gives_read : Node.read.Gives (fun _ => True) fun n => AllFinite n.numbers := by
  intro ctx t n _ read
  obtain ⟨-, -, read⟩ := Json.bind_ok read
  exact finite_ofTree t n read

theorem allFinite_numbersAll {ns : List (Node Unit)} (each : ∀ n ∈ ns, AllFinite n.numbers) :
    AllFinite (numbersAll ns) := by
  induction ns with
  | nil => exact .nil
  | cons n ns ih =>
    obtain ⟨here, later⟩ := List.forall_mem_cons.1 each
    exact (AllFinite.append_iff _ _).2 ⟨here, ih later⟩

end Node

theorem Viewport.gives_read : Viewport.read.Gives (fun _ => True) fun v =>
    v.halfWidth.isFinite ∧ v.halfHeight.isFinite := by
  have number (name : String) := gives_required Read.gives_number name
  have mode : (Form.optional "scaleMode" ScaleMode.read .fit).Gives (fun _ => True) fun _ => True :=
    gives_optional (fun _ _ _ _ _ => trivial) _ trivial
  refine Read.gives_record (gives_map (gives_and (number _) (gives_and (number _) mode)) ?_) _
  rintro ⟨w, h, m⟩ ⟨hw, hh, -⟩
  exact ⟨hw, hh⟩

theorem Root.gives_read : Root.read.Gives (fun _ => True) fun r =>
    r.paint.strokeWidth.isFinite ∧ AllFinite (Node.numbersAll r.children) := by
  have free {α : Type} (read : Read Tree α) (name : String) :
      (Form.required name read).Gives (fun _ => True) fun _ => True :=
    gives_required (fun _ _ _ _ _ => trivial) name
  have width := gives_required Read.gives_number "strokeWidth"
  have kids : (Form.optional "children" (Read.list Node.read) []).Gives (fun _ => True)
      fun ns => ∀ n ∈ ns, AllFinite n.numbers :=
    gives_optional (Read.gives_list Node.gives_read) _ nofun
  have form : Root.form.Gives (fun _ => True) fun p =>
      p.2.paint.strokeWidth.isFinite ∧ AllFinite (Node.numbersAll p.2.children) := by
    refine gives_map (gives_and (free _ _) <| gives_and (free _ _) <| gives_and (free _ _) <|
      gives_and (free _ _) <| gives_and width kids) ?_
    rintro ⟨_, id, fill, stroke, w, ns⟩ ⟨-, -, -, -, hw, hk⟩
    exact ⟨hw, Node.allFinite_numbersAll hk⟩
  intro ctx t r _ read
  obtain ⟨⟨id, root⟩, record, read⟩ := Json.bind_ok read
  have finite := Read.gives_record form _ ctx t _ trivial record
  dsimp only at read
  split at read
  · cases read
    exact finite
  · cases read

namespace Frame

theorem gives_read : Frame.read.Gives (fun _ => True) fun f => AllFinite f.numbers := by
  have viewport := gives_required Viewport.gives_read "viewport"
  have background : (Form.optional "background" (Read.nullable Read.text) none).Gives
      (fun _ => True) fun _ => True := gives_optional (fun _ _ _ _ _ => trivial) _ trivial
  have root := gives_required Root.gives_read "root"
  refine Read.gives_record (gives_map (gives_and viewport (gives_and background root)) ?_) _
  rintro ⟨v, b, r⟩ ⟨⟨hw, hh⟩, -, hs, hk⟩
  simpa [numbers] using ⟨hw, hh, hs, hk⟩

/-- Only finite numbers get into a frame. -/
theorem finite_ofText {s : String} {f : Frame Unit} (read : ofText s = .ok f) :
    AllFinite f.numbers := by
  rw [ofText] at read
  cases symbols : ofSymbols (Json.Symbol.ofString s) with
  | error e =>
    rw [symbols] at read
    cases read
  | ok g =>
    rw [symbols] at read
    cases read
    exact Read.of_whole gives_read symbols

end Frame
end SceneTree
