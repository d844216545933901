import SceneTree.Pipeline
import SceneTree.Proofs.Finiteness
import SceneTree.Proofs.Recovery
import SceneTree.Proofs.Styles

/-! Optimized texts as input. Only finite numbers are read, and a pass makes no numbers but the
coefficients of merged transforms; so these alone decide whether the text of the result is read
again. -/
namespace SceneTree
open Node (mapAll)
variable {ι κ : Type} {o : Options}

def Head.matrices : Head → List Affine
  | .material _ => []
  | .transform m => [m]

namespace Node

mutual
def shapeNumbers : Node κ → List Float
  | .shape _ s => s.numbers
  | .group _ _ kids => shapeNumbersAll kids

def shapeNumbersAll : List (Node κ) → List Float
  | [] => []
  | n :: ns => n.shapeNumbers ++ shapeNumbersAll ns
end

mutual
def matrices : Node κ → List Affine
  | .shape _ _ => []
  | .group _ h kids => h.matrices ++ matricesAll kids

def matricesAll : List (Node κ) → List Affine
  | [] => []
  | n :: ns => n.matrices ++ matricesAll ns
end

@[simp] theorem shapeNumbersAll_append (ns ms : List (Node κ)) :
    shapeNumbersAll (ns ++ ms) = shapeNumbersAll ns ++ shapeNumbersAll ms := by
  induction ns with
  | nil => rfl
  | cons n ns ih => simp [shapeNumbersAll, ih]

@[simp] theorem matricesAll_append (ns ms : List (Node κ)) :
    matricesAll (ns ++ ms) = matricesAll ns ++ matricesAll ms := by
  induction ns with
  | nil => rfl
  | cons n ns ih => simp [matricesAll, ih]

theorem shapeNumbersAll_mapAll (f : ι → κ) (ns : List (Node ι)) :
    shapeNumbersAll (mapAll f ns) = shapeNumbersAll ns := by
  induction ns using forest with
  | nil => rfl
  | shape i s ns ih => simp [mapAll, map, shapeNumbersAll, shapeNumbers, ih]
  | group i h kids ns inside ih => simp [mapAll, map, shapeNumbersAll, shapeNumbers, inside, ih]

theorem matricesAll_mapAll (f : ι → κ) (ns : List (Node ι)) :
    matricesAll (mapAll f ns) = matricesAll ns := by
  induction ns using forest with
  | nil => rfl
  | shape i s ns ih => simp [mapAll, map, matricesAll, matrices, ih]
  | group i h kids ns inside ih => simp [mapAll, map, matricesAll, matrices, inside, ih]

/- The numbers of a forest are those of its shapes, those of its transforms, and stroke widths. -/
theorem finite_parts {ns : List (Node κ)} (finite : AllFinite (numbersAll ns)) :
    AllFinite (shapeNumbersAll ns) ∧ ∀ m ∈ matricesAll ns, AllFinite m.coefficients := by
  induction ns using forest with
  | nil => exact ⟨.nil, nofun⟩
  | shape i s ns ih =>
    obtain ⟨here, later⟩ := (AllFinite.append_iff _ _).1 finite
    exact ⟨(AllFinite.append_iff _ _).2 ⟨here, (ih later).1⟩, (ih later).2⟩
  | group i h kids ns inside ih =>
    obtain ⟨here, later⟩ := (AllFinite.append_iff _ _).1 finite
    obtain ⟨head, below⟩ := (AllFinite.append_iff _ _).1 here
    obtain ⟨shapes, matrices⟩ := inside below
    obtain ⟨shapes', matrices'⟩ := ih later
    refine ⟨(AllFinite.append_iff _ _).2 ⟨shapes, shapes'⟩,
      List.forall_mem_append.2 ⟨?_, matrices'⟩⟩
    refine List.forall_mem_append.2 ⟨?_, matrices⟩
    cases h with
    | material m => nofun
    | transform m => exact List.forall_mem_singleton.2 head

end Node

theorem Rewrite.shapeNumbers {ns ns' : List (Node κ)} (step : Rewrite o ns ns') :
    Node.shapeNumbersAll ns' = Node.shapeNumbersAll ns := by
  induction step with
  | merge | splice | squash | renew => simp [Node.shapeNumbersAll, Node.shapeNumbers]
  | inside step ih => simpa [Node.shapeNumbersAll, Node.shapeNumbers] using ih
  | among step ih => simp [ih]

/-- Only the rule that merges transforms makes a new one. -/
theorem Rewrite.matrices (off : o.mergeTransforms = false) {ns ns' : List (Node κ)}
    (step : Rewrite o ns ns') : Node.matricesAll ns' ⊆ Node.matricesAll ns := by
  induction step with
  | merge on => simp [off] at on
  | splice | squash => simp [Node.matricesAll, Node.matrices, Head.matrices]
  | renew => simp [Node.matricesAll, Node.matrices]
  | inside step ih => simp [Node.matricesAll, Node.matrices, List.subset_append_of_subset_right, ih]
  | among step ih =>
    simp [List.subset_append_of_subset_left, List.subset_append_of_subset_right, ih]

theorem any_const {α : Type} (x : Option α) (b : Bool) : (x.any fun _ => b) = (x.isSome && b) := by
  cases x <;> rfl

theorem Point.isSome_recovered (p : Point) : p.recovered.isSome ↔ AllFinite p.numbers := by
  simp [numbers, recovered, ← Json.isSome_recovered, Option.isSome_bind, any_const]

theorem Affine.isSome_recovered (m : Affine) : m.recovered.isSome ↔ AllFinite m.coefficients := by
  simp [coefficients, recovered, ← Json.isSome_recovered, Option.isSome_bind, any_const]

theorem Shape.isSome_recovered (s : Shape) : s.recovered.isSome ↔ AllFinite s.numbers := by
  cases s with
  | circle _ _ | line _ _ | rectangle _ _ _ | image _ _ _ _ =>
    simp [numbers, recovered, ← Json.isSome_recovered, ← Point.isSome_recovered, Option.isSome_bind,
      any_const]

theorem Head.isSome_recovered (h : Head) :
    h.recovered.isSome ↔ ∀ m ∈ h.matrices, AllFinite m.coefficients := by
  cases h with
  | material m => simp [recovered, matrices]
  | transform m =>
    simp [recovered, matrices, ← Affine.isSome_recovered, Option.isSome_bind]

theorem Node.isSome_recoveredAll (ns : List (Node ι)) : (recoveredAll ns).isSome ↔
    AllFinite (shapeNumbersAll ns) ∧ ∀ m ∈ matricesAll ns, AllFinite m.coefficients := by
  induction ns using forest with
  | nil => simp [recoveredAll, shapeNumbersAll, matricesAll]
  | shape i s ns ih =>
    simp [recoveredAll, recovered, Option.isSome_bind, any_const, ih, s.isSome_recovered,
      shapeNumbersAll, shapeNumbers, matricesAll, matrices, and_assoc]
  | group i h kids ns inside ih =>
    simp only [recoveredAll, recovered, Option.bind_eq_bind, Option.pure_def, Option.isSome_bind,
      Option.isSome_some, any_const, Bool.and_true, Bool.and_eq_true, inside, ih,
      h.isSome_recovered, shapeNumbersAll, shapeNumbers, matricesAll, matrices,
      AllFinite.append_iff, List.forall_mem_append]
    tauto

namespace Frame

theorem isSome_recovered (f : Frame ι) : f.recovered.isSome ↔
    AllFinite [f.viewport.halfWidth, f.viewport.halfHeight, f.root.paint.strokeWidth] ∧
      AllFinite (Node.shapeNumbersAll f.root.children) ∧
        ∀ m ∈ Node.matricesAll f.root.children, AllFinite m.coefficients := by
  simp [recovered, Viewport.recovered, Root.recovered, Paint.recovered, Option.isSome_bind,
    any_const, Node.isSome_recoveredAll, ← Json.isSome_recovered]
  tauto

theorem readable_iff (f : Frame ι) : (∃ g, ofText f.text = .ok g) ↔ f.recovered.isSome := by
  rw [← ofSymbols_text, ← toOption_ofText]
  cases ofText f.text <;> simp

theorem isSome_recovered_optimize (o : Options) {f : Frame ι} (finite : AllFinite f.numbers) :
    (f.optimize o).1.recovered.isSome ↔
      ∀ m ∈ Node.matricesAll (f.optimize o).1.root.children, AllFinite m.coefficients := by
  obtain ⟨measures, below⟩ := (AllFinite.append_iff _ _).1 finite
  have shapes : AllFinite (Node.shapeNumbersAll (f.optimize o).1.root.children) := by
    refine f.optimize_keeps o (P := fun ns => AllFinite (Node.shapeNumbersAll ns)) ?_ ?_
    · rw [Node.shapeNumbersAll_mapAll]
      exact (Node.finite_parts below).1
    · exact fun ns ns' step kept => step.shapeNumbers ▸ kept
  rw [isSome_recovered, root_paint_optimize]
  exact ⟨fun all => all.2.2, fun all => ⟨measures, shapes, all⟩⟩

theorem finite_matrices (o : Options) (off : o.mergeTransforms = false) {f : Frame ι}
    (finite : AllFinite f.numbers) :
    ∀ m ∈ Node.matricesAll (f.optimize o).1.root.children, AllFinite m.coefficients := by
  obtain ⟨-, below⟩ := (AllFinite.append_iff _ _).1 finite
  refine f.optimize_keeps o
    (P := fun ns => ∀ m ∈ Node.matricesAll ns, AllFinite m.coefficients) ?_ ?_
  · rw [Node.matricesAll_mapAll]
    exact (Node.finite_parts below).2
  · exact fun ns ns' step kept m mem => kept m (step.matrices off mem)

end Frame

theorem optimizeText_eq (o : Options) (s : String) :
    optimizeText o s = (Frame.ofText s).map fun f => (f.optimize o).1.text := by
  unfold optimizeText Pipeline.runText
  cases Frame.ofText s <;> rfl

/-- The text of an optimized frame is read again if and only if all its transforms are finite, as
they are where none is merged. -/
theorem optimizeText_readable (o : Options) (s t : String) (done : optimizeText o s = .ok t) :
    ∃ f, Frame.ofText s = .ok f ∧ t = (f.optimize o).1.text ∧
      ((∃ g, Frame.ofText t = .ok g) ↔
        ∀ m ∈ Node.matricesAll (f.optimize o).1.root.children, AllFinite m.coefficients) ∧
      (o.mergeTransforms = false → ∃ g, Frame.ofText t = .ok g) := by
  rw [optimizeText_eq] at done
  cases read : Frame.ofText s with
  | error e =>
    rw [read] at done
    cases done
  | ok f =>
    rw [read] at done
    obtain rfl := Except.ok.inj done
    have finite := Frame.finite_ofText read
    have readable : (∃ g, Frame.ofText (f.optimize o).1.text = .ok g) ↔
        ∀ m ∈ Node.matricesAll (f.optimize o).1.root.children, AllFinite m.coefficients := by
      rw [← Frame.isSome_recovered_optimize o finite, Frame.readable_iff]
    exact ⟨f, rfl, rfl, readable, fun off => readable.2 (Frame.finite_matrices o off finite)⟩

theorem optimizeText_text (o : Options) {f : Frame Unit} (back : f.recovered = some f) :
    optimizeText o f.text = .ok (f.optimize o).1.text := by
  rw [optimizeText_eq, (Frame.ofText_of_recovered back).1]
  rfl

theorem optimizeText_readable_nested :
    let f : Frame Unit := ⟨⟨1, 1, .fit⟩, none, (), ⟨"black", "black", 1⟩,
      [.group () (.transform ⟨2, 0, 0, 2, 1, 0.5⟩) [.group () (.transform ⟨2, 0, 0, 2, 1, 3⟩) []]]⟩
    let t := (f.optimize .allRules).1.text
    optimizeText .allRules f.text = .ok t ∧
      ∃ g, Frame.ofText f.text = .ok g ∧ t = (g.optimize .allRules).1.text ∧
        ((∃ h, Frame.ofText t = .ok h) ↔
          ∀ m ∈ Node.matricesAll (g.optimize .allRules).1.root.children, AllFinite m.coefficients) ∧
        (Options.allRules.mergeTransforms = false → ∃ h, Frame.ofText t = .ok h) := by
  intro f t
  have all : ∀ x ∈ f.numbers, Json.recovered x = some (id x) := by decide +kernel
  have done : optimizeText .allRules f.text = .ok t := optimizeText_text _ (f.recovered_eq all)
  exact ⟨done, optimizeText_readable .allRules f.text t done⟩

theorem optimizeText_overflow :
    let s := "\x7b\"viewport\":\x7b\"halfWidth\":1.0,\"halfHeight\":1.0," ++
      "\"scaleMode\":\"fit\"\x7d,\"root\":\x7b\"type\":\"material\",\"id\":\"root\"," ++
      "\"fill\":\"black\",\"stroke\":\"black\",\"strokeWidth\":1.0," ++
      "\"children\":[\x7b\"type\":\"transform\"," ++
      "\"matrix\":[1e+200,0.0,0.0,1.0,0.0,0.0],\"children\":[\x7b\"type\":\"transform\"," ++
      "\"matrix\":[1e+200,0.0,0.0,1.0,0.0,0.0],\"children\":[]\x7d]\x7d]\x7d\x7d"
    ∃ t, optimizeText .allRules s = .ok t ∧ ∀ g, Frame.ofText t ≠ .ok g := by
  intro s
  let wide : Affine := ⟨1e200, 0, 0, 1, 0, 0⟩
  let f : Frame Unit := ⟨⟨1, 1, .fit⟩, none, (), ⟨"black", "black", 1⟩,
    [.group () (.transform wide) [.group () (.transform wide) []]]⟩
  have written : f.text = s := by decide +kernel
  have numbers : ∀ x ∈ f.numbers, Json.recovered x = some (id x) ∧ x.isFinite := by decide +kernel
  have back := f.recovered_eq fun x mem => (numbers x mem).1
  refine ⟨_, written ▸ optimizeText_text .allRules back, fun g again => ?_⟩
  have legible := (Frame.readable_iff _).1 ⟨g, again⟩
  rw [Frame.isSome_recovered_optimize _ fun x mem => (numbers x mem).2,
    Frame.optimize_eq] at legible
  exact absurd legible (by decide +kernel)

end SceneTree
