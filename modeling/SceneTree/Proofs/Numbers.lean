import Mathlib
import SceneTree.Proofs.Materials

/-! The numbers of a frame. By equality of floats a scene equals itself, whatever marks its nodes
have, unless some number of it is none; and scenes that are equal are of one size. -/
namespace SceneTree
open Node (mapAll sizeAll)
variable {ι κ : Type}

def Point.numbers (p : Point) : List Float := [p.x, p.y]

def Shape.numbers : Shape → List Float
  | .circle center radius => center.numbers ++ [radius]
  | .line start stop => start.numbers ++ stop.numbers
  | .rectangle center width height => center.numbers ++ [width, height]
  | .image _ position width height => position.numbers ++ [width, height]

def Head.numbers : Head → List Float
  | .material m => m.style.strokeWidth.toList
  | .transform m => m.coefficients

namespace Node

mutual
def numbers : Node κ → List Float
  | .shape _ s => s.numbers
  | .group _ h kids => h.numbers ++ numbersAll kids

def numbersAll : List (Node κ) → List Float
  | [] => []
  | n :: ns => n.numbers ++ numbersAll ns
end

end Node

/-- The sizes of the viewport, the stroke width at the root, and all numbers below the root. -/
def Frame.numbers (f : Frame κ) : List Float :=
  [f.viewport.halfWidth, f.viewport.halfHeight, f.root.paint.strokeWidth] ++
    Node.numbersAll f.root.children

/-- Nothing in the list is not a number. -/
def Numeric (xs : List Float) : Prop := ∀ x ∈ xs, x.isNaN = false

instance (xs : List Float) : Decidable (Numeric xs) :=
  inferInstanceAs (Decidable (∀ x ∈ xs, x.isNaN = false))

namespace Numeric

@[simp] theorem cons_iff (x : Float) (xs : List Float) :
    Numeric (x :: xs) ↔ x ≠ Float.nan ∧ Numeric xs := by
  rw [Numeric, List.forall_mem_cons, Float.isNaN_eq_decide_eq_nan, decide_eq_false_iff_not]
  rfl

@[simp] theorem append_iff (xs ys : List Float) :
    Numeric (xs ++ ys) ↔ Numeric xs ∧ Numeric ys := List.forall_mem_append

end Numeric

theorem Point.same_self (p : Point) (numeric : Numeric p.numbers) : p.same p := by
  simp only [numbers, Numeric.cons_iff] at numeric
  simp [same, numeric]

theorem Shape.same_self (s : Shape) (numeric : Numeric s.numbers) : s.same s := by
  cases s with
  | circle center radius | line start stop | rectangle center width height
  | image url position width height =>
    simp only [numbers, Numeric.append_iff, Numeric.cons_iff] at numeric
    simp [same, Point.same_self, numeric]

theorem Style.same_self (s : Style) (numeric : Numeric s.strokeWidth.toList) : s.same s := by
  cases width : s.strokeWidth with
  | none => simp [same, width]
  | some w =>
    simp only [width, Option.toList_some, Numeric.cons_iff] at numeric
    simp [same, width, numeric]

theorem Head.same_self (h : Head) (numeric : Numeric h.numbers) : h.same h := by
  cases h with
  | material m =>
    simp [same, m.style.same_self numeric]
  | transform m =>
    simp only [numbers, Affine.coefficients, Numeric.cons_iff] at numeric
    simp [same, Affine.same, numeric]

namespace Node

theorem sameAll_mapAll (f : ι → κ) (ns : List (Node ι)) (numeric : Numeric (numbersAll ns)) :
    sameAll (mapAll f ns) ns := by
  induction ns using forest with
  | nil => rfl
  | shape i s ns ih =>
    obtain ⟨here, later⟩ := (Numeric.append_iff _ _).1 numeric
    simp [mapAll, map, sameAll, same, s.same_self here, ih later]
  | group i h kids ns inside ih =>
    obtain ⟨here, later⟩ := (Numeric.append_iff _ _).1 numeric
    obtain ⟨head, below⟩ := (Numeric.append_iff _ _).1 here
    simp [mapAll, map, sameAll, same, h.same_self head, inside below, ih later]

theorem size_of_sameAll {ns : List (Node ι)} {ms : List (Node κ)} (same : sameAll ns ms) :
    sizeAll ns = sizeAll ms := by
  induction ns using forest generalizing ms with
  | nil =>
    cases ms with
    | nil => rfl
    | cons m ms => simp [sameAll] at same
  | shape i s ns ih =>
    obtain _ | ⟨⟨j, t⟩ | ⟨j, h', kids'⟩, ms⟩ := ms
    · simp [sameAll] at same
    · simp only [sameAll, Bool.and_eq_true] at same
      simp [sizeAll, size, ih same.2]
    · simp [sameAll, Node.same] at same
  | group i h kids ns inside ih =>
    obtain _ | ⟨⟨j, t⟩ | ⟨j, h', kids'⟩, ms⟩ := ms
    · simp [sameAll] at same
    · simp [sameAll, Node.same] at same
    · simp only [sameAll, Node.same, Bool.and_eq_true] at same
      simp [sizeAll, size, inside same.1.2, ih same.2]

end Node

namespace Frame

theorem same_map (g : ι → κ) (f : Frame ι) (numeric : Numeric f.numbers) : (f.map g).same f := by
  simp only [numbers, Numeric.append_iff, Numeric.cons_iff] at numeric
  simp [same, map, Viewport.same, Paint.same, numeric, Node.sameAll_mapAll]

theorem count_of_same {f : Frame ι} {g : Frame κ} (same : f.same g) : f.count = g.count := by
  simp only [Frame.same, Bool.and_eq_true] at same
  rw [count_eq, count_eq, Node.size_of_sameAll same.2]

end Frame
end SceneTree
