import SceneTree.Proofs.Settled
import SceneTree.Proofs.Sharing

/-! Where a rule is due. Each rule has its pattern, a node with what is below it, and a pass does
something exactly if one of the patterns of its rules is found in the scene: it misses none, however
deep a ref that forbids a squash may stand, and applies no rule elsewhere. -/
namespace SceneTree
open Node (materialsAll postorderAll)
variable {ι κ : Type} {o : Options}

/-- The node is a place for one of the rules that are on. -/
inductive Node.Due (o : Options) : Node κ → Prop
  | merge {i j : κ} {a b : Affine} {kids : List (Node κ)} (on : o.mergeTransforms) :
    Due o (.group i (.transform a) [.group j (.transform b) kids])
  | splice {i : κ} {m : Affine} {kids : List (Node κ)} (on : o.removeIdentities)
    (unit : m.isIdentity) : Due o (.group i (.transform m) kids)
  | squash {i j : κ} {m c : Material} {kids : List (Node κ)} (on : o.squashMaterials)
    (child : c.ref = m.id) (free : ∀ x ∈ materialsAll kids, x.ref ≠ m.id) :
    Due o (.group i (.material m) [.group j (.material c) kids])

namespace Node

theorem not_due_shape (i : κ) (s : Shape) : ¬(Node.shape i s).Due o := by
  intro due
  cases due

theorem due_group (i : κ) (h : Head) (kids : List (Node κ)) :
    (Node.group i h kids).Due o ↔
      o.Joins h kids ∨ o.removeIdentities ∧ (Node.group i h kids).isIdentity := by
  constructor
  · intro due
    cases due with
    | merge on => exact .inl (.transforms on)
    | splice on unit => exact .inr ⟨on, unit⟩
    | squash on child free => exact .inl (.materials on child free)
  · rintro (joins | ⟨on, unit⟩)
    · cases joins with
      | transforms on => exact .merge on
      | materials on child free => exact .squash on child free
    · cases h with
      | transform m => exact .splice on unit
      | material m => cases unit

theorem settledAll_iff (ns : List (Node κ)) :
    SettledAll o ns ↔ ∀ n ∈ postorderAll ns, ¬n.Due o := by
  induction ns using forest with
  | nil => simp [SettledAll, postorderAll]
  | shape i s ns ih =>
    simp only [SettledAll, Settled, isIdentity, postorderAll, postorder, List.mem_append,
      List.mem_singleton, or_imp, forall_and, forall_eq, ← ih]
    simp [not_due_shape]
  | group i h kids ns inside ih =>
    simp only [SettledAll, Settled, postorderAll, postorder, List.mem_append, List.mem_singleton,
      or_imp, forall_and, forall_eq, ← inside, ← ih, due_group, not_or]
    constructor
    · rintro ⟨other, ⟨apart, below⟩, later⟩
      exact ⟨⟨below, apart, other⟩, later⟩
    · rintro ⟨⟨below, apart, other⟩, later⟩
      exact ⟨other, ⟨apart, below⟩, later⟩

end Node

namespace Frame

theorem settled_of_still (o : Options) (f : Frame ι) (still : (f.optimize o).2.applied = 0) :
    Node.SettledAll o f.root.children := by
  have settled := f.settled_optimize o
  rw [f.optimize_still o still] at settled
  exact (Node.settledAll_mapAll some _).1 settled

/-- A pass applies a rule if and only if one is due somewhere; and if none is, it hands on the very
same root. -/
theorem applied_eq_zero_iff (o : Options) (f : Frame ι) :
    ((f.optimize o).2.applied = 0 ↔ ∀ n ∈ f.nodes, ¬n.Due o) ∧
      ((f.optimize o).1.root.origin = some f.root.origin ↔ ∀ n ∈ f.nodes, ¬n.Due o) := by
  have still_iff : (f.optimize o).2.applied = 0 ↔ ∀ n ∈ f.nodes, ¬n.Due o := by
    simp only [f.mem_nodes]
    rw [← Node.settledAll_iff]
    exact ⟨f.settled_of_still o, fun settled => (f.optimize_of_settled o settled).1⟩
  exact ⟨still_iff, (f.root_origin_iff o).trans still_iff⟩

end Frame
end SceneTree
