import SceneTree.Proofs.Exactness
import SceneTree.Proofs.Numbers

/-! What comes back of a frame. If every number is recovered the frame is, and nothing but its
numbers may have changed; those with few digits have not. -/
namespace SceneTree
variable {ι κ : Type} (g : Float → Float)

def Point.mapNumbers (p : Point) : Point := ⟨g p.x, g p.y⟩

def Affine.mapNumbers (m : Affine) : Affine := ⟨g m.a, g m.b, g m.c, g m.d, g m.e, g m.f⟩

def Style.mapNumbers (s : Style) : Style := { s with strokeWidth := s.strokeWidth.map g }

def Shape.mapNumbers : Shape → Shape
  | .circle center radius => .circle (center.mapNumbers g) (g radius)
  | .line start stop => .line (start.mapNumbers g) (stop.mapNumbers g)
  | .rectangle center width height => .rectangle (center.mapNumbers g) (g width) (g height)
  | .image url position width height => .image url (position.mapNumbers g) (g width) (g height)

def Head.mapNumbers : Head → Head
  | .material m => .material { m with style := m.style.mapNumbers g }
  | .transform m => .transform (m.mapNumbers g)

namespace Node

mutual
def mapNumbers : Node κ → Node κ
  | .shape i s => .shape i (s.mapNumbers g)
  | .group i h kids => .group i (h.mapNumbers g) (mapNumbersAll kids)

def mapNumbersAll : List (Node κ) → List (Node κ)
  | [] => []
  | n :: ns => n.mapNumbers :: mapNumbersAll ns
end

end Node

def Viewport.mapNumbers (v : Viewport) : Viewport :=
  { v with halfWidth := g v.halfWidth, halfHeight := g v.halfHeight }

def Paint.mapNumbers (p : Paint) : Paint := { p with strokeWidth := g p.strokeWidth }

def Frame.mapNumbers (f : Frame κ) : Frame κ where
  viewport := f.viewport.mapNumbers g
  background := f.background
  root := ⟨f.root.origin, f.root.paint.mapNumbers g, Node.mapNumbersAll g f.root.children⟩

section
variable {g : Float → Float}

def Returns (g : Float → Float) (xs : List Float) : Prop := ∀ x ∈ xs, Json.recovered x = some (g x)

namespace Returns

@[simp] theorem cons_iff (x : Float) (xs : List Float) :
    Returns g (x :: xs) ↔ Json.recovered x = some (g x) ∧ Returns g xs := List.forall_mem_cons

@[simp] theorem append_iff (xs ys : List Float) :
    Returns g (xs ++ ys) ↔ Returns g xs ∧ Returns g ys := List.forall_mem_append

end Returns

theorem Point.recovered_eq (p : Point) (returns : Returns g p.numbers) :
    p.recovered = some (p.mapNumbers g) := by
  simp only [numbers, Returns.cons_iff] at returns
  simp [recovered, mapNumbers, returns]

theorem Affine.recovered_eq (m : Affine) (returns : Returns g m.coefficients) :
    m.recovered = some (m.mapNumbers g) := by
  simp only [coefficients, Returns.cons_iff] at returns
  simp [recovered, mapNumbers, returns]

theorem Style.recovered_eq (s : Style) (returns : Returns g s.strokeWidth.toList) :
    s.recovered = s.mapNumbers g := by
  cases width : s.strokeWidth with
  | none => simp [recovered, mapNumbers, width]
  | some w =>
    simp only [width, Option.toList_some, Returns.cons_iff] at returns
    simp [recovered, mapNumbers, width, returns]

theorem Shape.recovered_eq (s : Shape) (returns : Returns g s.numbers) :
    s.recovered = some (s.mapNumbers g) := by
  cases s with
  | circle center radius | line start stop | rectangle center width height
  | image url position width height =>
    simp only [numbers, Returns.append_iff, Returns.cons_iff] at returns
    simp [recovered, mapNumbers, Point.recovered_eq (g := g), returns]

theorem Head.recovered_eq (h : Head) (returns : Returns g h.numbers) :
    h.recovered = some (h.mapNumbers g) := by
  cases h with
  | material m => simp [recovered, mapNumbers, m.style.recovered_eq returns]
  | transform m => simp [recovered, mapNumbers, m.recovered_eq returns]

namespace Node

theorem recoveredAll_eq (ns : List (Node ι)) (returns : Returns g (numbersAll ns)) :
    recoveredAll ns = some (mapNumbersAll g (mapAll (fun _ => ()) ns)) := by
  induction ns using forest with
  | nil => rfl
  | shape i s ns ih =>
    obtain ⟨here, later⟩ := (Returns.append_iff _ _).1 returns
    simp [recoveredAll, recovered, mapAll, map, mapNumbersAll, mapNumbers, s.recovered_eq here,
      ih later]
  | group i h kids ns inside ih =>
    obtain ⟨here, later⟩ := (Returns.append_iff _ _).1 returns
    obtain ⟨head, below⟩ := (Returns.append_iff _ _).1 here
    simp [recoveredAll, recovered, mapAll, map, mapNumbersAll, mapNumbers, h.recovered_eq head,
      inside below, ih later]

end Node

theorem Frame.recovered_eq (f : Frame ι) (returns : Returns g f.numbers) :
    f.recovered = some (f.bare.mapNumbers g) := by
  simp only [numbers, Returns.append_iff, Returns.cons_iff] at returns
  simp [recovered, Viewport.recovered, Root.recovered, Paint.recovered, mapNumbers, bare, map,
    Viewport.mapNumbers, Paint.mapNumbers, Node.recoveredAll_eq (g := g), returns]

end

/-! The numbers of the frame with other numbers are the other numbers. -/

@[simp] theorem Point.numbers_mapNumbers (p : Point) :
    (p.mapNumbers g).numbers = p.numbers.map g := rfl

theorem Shape.numbers_mapNumbers (s : Shape) : (s.mapNumbers g).numbers = s.numbers.map g := by
  cases s <;> rfl

theorem Head.numbers_mapNumbers (h : Head) : (h.mapNumbers g).numbers = h.numbers.map g := by
  cases h with
  | transform m => rfl
  | material m => exact Option.toList_map ..

theorem Node.numbersAll_mapNumbersAll (ns : List (Node κ)) :
    numbersAll (mapNumbersAll g ns) = (numbersAll ns).map g := by
  induction ns using forest with
  | nil => rfl
  | shape i s ns ih =>
    simp [mapNumbersAll, mapNumbers, numbersAll, numbers, s.numbers_mapNumbers, ih]
  | group i h kids ns inside ih =>
    simp [mapNumbersAll, mapNumbers, numbersAll, numbers, h.numbers_mapNumbers, inside, ih]

theorem Node.numbersAll_mapAll (f : ι → κ) (ns : List (Node ι)) :
    numbersAll (mapAll f ns) = numbersAll ns := by
  induction ns using forest with
  | nil => rfl
  | shape i s ns ih => simp [mapAll, map, numbersAll, numbers, ih]
  | group i h kids ns inside ih => simp [mapAll, map, numbersAll, numbers, inside, ih]

namespace Frame

theorem numbers_mapNumbers (f : Frame κ) : (f.mapNumbers g).numbers = f.numbers.map g := by
  simp [numbers, mapNumbers, Viewport.mapNumbers, Paint.mapNumbers, Node.numbersAll_mapNumbersAll]

@[simp] theorem numbers_map (m : ι → κ) (f : Frame ι) : (f.map m).numbers = f.numbers := by
  simp [numbers, map, Node.numbersAll_mapAll]

theorem toOption_ofText (s : String) :
    (ofText s).toOption = (ofSymbols (Json.Symbol.ofString s)).toOption := by
  rw [ofText]
  cases ofSymbols (Json.Symbol.ofString s) <;> rfl

theorem ofText_of_recovered {f : Frame ι} {g : Frame Unit} (back : f.recovered = some g) :
    ofText f.text = .ok g ∧ ofText f.prettyText = .ok g := by
  constructor <;> refine Json.eq_ok_of_toOption ?_
  · rw [toOption_ofText, ofSymbols_text, back]
  · rw [toOption_ofText, ofSymbols_prettyText, back]

/-- A frame whose numbers are all read from their texts is read from both of its own, with the
numbers that were read in their places. Only finite numbers are. -/
theorem ofText_written (f : Frame ι) (value : Float → Float)
    (read : ∀ x ∈ f.numbers, Json.recovered x = some (value x)) :
    ofText f.text = .ok (f.bare.mapNumbers value) ∧
      ofText f.prettyText = .ok (f.bare.mapNumbers value) :=
  ofText_of_recovered (f.recovered_eq read)

theorem ofText_written_drift :
    let f : Frame Unit := ⟨⟨4, 1e-23, .stretch⟩, some "\"ink\"", (), ⟨"пар", "b\\", 1⟩,
      [.group () (.material ⟨"α", rootId, ⟨none, some "\n", some 0.5⟩⟩)
        [.group () (.transform ⟨1, 0, 0, 1, -0.0, 2.5⟩) [.shape () (.image "u" ⟨3, 4⟩ 1 1)]]]⟩
    let value (x : Float) := if x == 1e-23 then 1.0000000000000001e-23 else x
    (∀ x ∈ f.numbers, Json.recovered x = some (value x)) ∧
      ofText f.text = .ok (f.bare.mapNumbers value) ∧
        ofText f.prettyText = .ok (f.bare.mapNumbers value) := by
  intro f value
  have read : ∀ x ∈ f.numbers, Json.recovered x = some (value x) := by decide +kernel
  exact ⟨read, ofText_written f value read⟩

/-- Every frame with finite numbers is read from its text. Each number comes back as what is read
from its own text, and that is the number itself if its digits are few. -/
theorem numbers_ofText (f : Frame ι) (finite : ∀ x ∈ f.numbers, x.isFinite) :
    ∃ g, ofText f.text = .ok g ∧ List.Forall₂ (fun x y => Json.recovered x = some y ∧
      ((Json.Numeral.ofFloat Json.numberLayout x).Short → y = x)) f.numbers g.numbers := by
  obtain ⟨value, read⟩ : ∃ value : Float → Float,
      ∀ x ∈ f.numbers, Json.recovered x = some (value x) := by
    refine ⟨fun x => (Json.recovered x).getD x, fun x mem => ?_⟩
    have back : (Json.recovered x).isSome := by rw [Json.isSome_recovered, finite x mem]
    obtain ⟨y, here⟩ := Option.isSome_iff_exists.1 back
    simp [here]
  refine ⟨f.bare.mapNumbers value, ?_, ?_⟩
  · exact (ofText_of_recovered (f.recovered_eq read)).1
  · rw [numbers_mapNumbers, bare, numbers_map, List.forall₂_map_right_iff, List.forall₂_same]
    intro x mem
    refine ⟨read x mem, fun short => ?_⟩
    exact Option.some.inj ((read x mem).symm.trans (Json.recovered_short (finite x mem) short))

theorem numbers_ofText_few :
    let f : Frame Unit := ⟨⟨0.1, 123456.789, .fit⟩, none, (), ⟨"black", "black", 1e-7⟩,
      [.shape () (.circle ⟨-3.25, 1e12⟩ 2.5e-10)]⟩
    (∀ x ∈ f.numbers, x.isFinite) ∧ ∃ g, ofText f.text = .ok g ∧
      List.Forall₂ (fun x y => Json.recovered x = some y ∧
        ((Json.Numeral.ofFloat Json.numberLayout x).Short → y = x)) f.numbers g.numbers := by
  intro f
  have finite : ∀ x ∈ f.numbers, x.isFinite := by decide +kernel
  exact ⟨finite, numbers_ofText f finite⟩

theorem numbers_drift :
    let f : Frame Unit := ⟨⟨1e-23, 1, .fit⟩, none, (), ⟨"black", "black", 1⟩, []⟩
    (∀ x ∈ f.numbers, x.isFinite) ∧
      ¬ ∃ g, ofText f.text = .ok g ∧ List.Forall₂ (fun x y => x == y) f.numbers g.numbers := by
  intro f
  refine ⟨by decide +kernel, ?_⟩
  rintro ⟨g, read, same⟩
  have back : f.recovered = some g := by
    rw [← ofSymbols_text, ← toOption_ofText, read]
    rfl
  have drifted : f.recovered.map (·.viewport.halfWidth) = some 1.0000000000000001e-23 := by
    decide +kernel
  rw [back, Option.map_some, Option.some_inj] at drifted
  have kept := (List.forall₂_cons.1 same).1
  rw [drifted] at kept
  exact absurd kept (by decide +kernel)

end Frame
end SceneTree
