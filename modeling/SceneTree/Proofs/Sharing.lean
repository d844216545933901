import SceneTree.Proofs.Numbers
import SceneTree.Proofs.Styles

/-! What a pass hands on as it is. A visit counts the rules it applies and notes whether anything
has changed; the two agree at every node. So a node comes back as itself exactly if no rule was
applied to it or below it, and otherwise smaller by one node for each rule. -/
namespace SceneTree
open Node (mapAll sizeAll preorderAll)
variable {ι κ : Type}

namespace Chain

theorem size_along (outer : Affine) (n : Node κ) :
    sizeAll (along outer n).children + (along outer n).merged = n.size := by
  fun_induction along outer n with
  | case1 outer i inner only ih =>
    simp only [oneMore, Node.size, sizeAll]
    omega
  | case2 outer i inner kids many => simp only [Node.size, Nat.add_comm]
  | case3 outer n other => simp [sizeAll]

theorem along_still (outer : Affine) (n : Node κ) (still : (along outer n).merged = 0) :
    along outer n = ⟨outer, [n], 0⟩ := by
  fun_induction along outer n with
  | case1 outer i inner only ih => simp [oneMore] at still
  | case2 outer i inner kids many => cases still
  | case3 outer n other => rfl

end Chain

theorem Node.size_spliced (n : Node κ) :
    sizeAll n.spliced + (if n.isIdentity then 1 else 0) = n.size := by
  obtain ⟨i, m, kids, rfl, unit, same⟩ | ⟨other, same⟩ := n.spliced_eq
  · simp only [same, isIdentity, unit, size, if_pos]
    omega
  · simp [same, other, sizeAll]

namespace Options

theorem size_merge (o : Options) (m : Affine) (kids : List (Node κ)) :
    sizeAll (o.merge m kids).children + (o.merge m kids).merged = sizeAll kids := by
  obtain ⟨only, rfl, -, same⟩ | ⟨-, same⟩ := o.merge_eq m kids
  · rw [same, Chain.size_along]
    rfl
  · rw [same]
    rfl

theorem merge_still (o : Options) (m : Affine) (kids : List (Node κ))
    (still : (o.merge m kids).merged = 0) : o.merge m kids = ⟨m, kids, 0⟩ := by
  obtain ⟨only, rfl, -, same⟩ | ⟨-, same⟩ := o.merge_eq m kids
  · rw [same] at still ⊢
    exact Chain.along_still m only still
  · exact same

theorem size_splice (o : Options) (kids : List (Node κ)) :
    sizeAll (o.splice kids).1 + (o.splice kids).2 = sizeAll kids := by
  unfold splice
  split
  next =>
    induction kids with
    | nil => rfl
    | cons n ns ih =>
      have here := n.size_spliced
      simp only [List.flatMap_cons, List.countP_cons, Node.sizeAll_append, sizeAll] at ih ⊢
      omega
  next => rfl

theorem splice_still (o : Options) (kids : List (Node κ)) (still : (o.splice kids).2 = 0) :
    o.splice kids = (kids, 0) := by
  unfold splice at still ⊢
  split at still
  next on =>
    have plain : ∀ n ∈ kids, n.spliced = [n] := by
      intro n mem
      rw [Node.spliced, if_neg (List.countP_eq_zero.1 still n mem)]
    rw [if_pos on, List.flatMap_congr plain, List.flatMap_singleton']
    exact congrArg _ still
  next off => rw [if_neg off]

end Options

/-- What the rules applied at a group itself make of it, once its children have been revised. -/
structure Revised.Remakes (r : Revised ι) (i : ι) (h : Head) (g : Gathered ι) (applied : Nat) :
    Prop where
  changed : r.changed = (g.changed || decide (applied ≠ 0))
  origin : r.node.origin = keep r.changed i
  same : applied = 0 → r.node = .group (keep g.changed i) h g.nodes
  size : r.node.size + applied = 1 + sizeAll g.nodes

namespace Options

theorem remakes_transform (o : Options) (i : ι) (m : Affine) (g : Gathered ι) :
    (o.reviseTransform i m g).1.Remakes i (.transform m) g (o.reviseTransform i m g).2.applied where
  changed := by simp [reviseTransform, Tally.applied]
  origin := rfl
  same := by
    intro still
    simp only [reviseTransform, Tally.applied, Nat.add_zero, Nat.add_eq_zero_iff] at still
    obtain ⟨⟨first, -⟩, removed⟩ := still
    have merged := o.merge_still m g.nodes first
    rw [merged] at removed
    simp [reviseTransform, merged, o.splice_still g.nodes removed]
  size := by
    have first := o.size_merge m g.nodes
    have spliced := o.size_splice (o.merge m g.nodes).children
    have second := o.size_merge (o.merge m g.nodes).matrix
      (o.splice (o.merge m g.nodes).children).1
    simp only [reviseTransform, Tally.applied, Node.size]
    omega

theorem remakes_squash (o : Options) (i : ι) (m : Material) (g : Gathered ι)
    {kids : List (Node (Option ι))} (counted : ∀ x, g.refs.count x = Node.refsTo x kids)
    {removed : Nat} (size : sizeAll kids + removed = sizeAll g.nodes) {r : Revised ι}
    (done : o.squash m kids g.refs = some r) :
    r.Remakes i (.material m) g (removed + 1) := by
  obtain ⟨j, c, grandkids, rfl, -, rfl⟩ := o.squash_some m kids g.refs counted r done
  refine ⟨by simp, rfl, fun still => absurd still (Nat.succ_ne_zero _), ?_⟩
  simp only [Node.size, sizeAll] at size ⊢
  omega

theorem remakes_material (o : Options) (i : ι) (m : Material) (g : Gathered ι)
    (counted : g.Counted) :
    (o.reviseMaterial i m g).1.Remakes i (.material m) g (o.reviseMaterial i m g).2.applied := by
  have size := o.size_splice g.nodes
  unfold reviseMaterial
  split
  next r done => exact o.remakes_squash i m g counted (Nat.add_zero _) done
  next =>
    dsimp only
    split
    next r done =>
      have remakes := o.remakes_squash i m g (o.counted_splice g counted) size done
      simpa [Tally.applied, Nat.add_comm] using remakes
    next =>
      refine ⟨by simp [Tally.applied], rfl, fun still => ?_, ?_⟩
      · have none : (o.splice g.nodes).2 = 0 := by simpa [Tally.applied] using still
        simp [o.splice_still g.nodes none]
      · simp only [Tally.applied, Node.size]
        omega

theorem remakes_reviseGroup (o : Options) (i : ι) (h : Head) (done : List (Revised ι))
    (counted : ∀ r ∈ done, r.Counted) :
    (o.reviseGroup i h done).1.Remakes i h (.ofList done) (o.reviseGroup i h done).2.applied := by
  cases h with
  | transform m => exact o.remakes_transform i m _
  | material m => exact o.remakes_material i m _ (Gathered.counted_ofList done counted)

end Options

/-- What a visit hands back, against the number of rules applied in it. -/
structure Revised.Shares (r : Revised ι) (n : Node ι) (applied : Nat) : Prop where
  changed : r.changed = decide (applied ≠ 0)
  same : applied = 0 → r.node = n.map some
  fresh : applied ≠ 0 → r.node.origin = none
  size : r.node.size + applied = n.size

structure Gathered.Shares (g : Gathered ι) (ns : List (Node ι)) (applied : Nat) : Prop where
  changed : g.changed = decide (applied ≠ 0)
  same : applied = 0 → g.nodes = mapAll some ns
  size : sizeAll g.nodes + applied = sizeAll ns

theorem Gathered.Shares.cons {r : Revised ι} {n : Node ι} {rs : List (Revised ι)}
    {ns : List (Node ι)} {a b : Nat} (first : r.Shares n a)
    (others : (Gathered.ofList rs).Shares ns b) :
    (Gathered.ofList (r :: rs)).Shares (n :: ns) (a + b) where
  changed := by
    have later := others.changed
    rw [changed_ofList] at later ⊢
    rw [List.any_cons, first.changed, later, ← Bool.decide_or]
    exact decide_eq_decide.2 (by omega)
  same := by
    intro still
    have later := others.same (by omega)
    rw [nodes_ofList] at later ⊢
    rw [List.map_cons, first.same (by omega), later]
    rfl
  size := by
    have here := first.size
    have later := others.size
    simp only [nodes_ofList, List.map_cons, sizeAll] at later ⊢
    omega

theorem Revised.Remakes.shares {r : Revised ι} {i : ι} {h : Head} {g : Gathered ι}
    {kids : List (Node ι)} {below here : Nat} (remakes : r.Remakes i h g here)
    (shares : g.Shares kids below) : r.Shares (.group i h kids) (below + here) := by
  have changed : r.changed = decide (below + here ≠ 0) := by
    rw [remakes.changed, shares.changed, ← Bool.decide_or]
    exact decide_eq_decide.2 (by omega)
  refine ⟨changed, fun still => ?_, fun moved => ?_, ?_⟩
  · obtain ⟨below, here⟩ := Nat.add_eq_zero_iff.1 still
    have kept : g.changed = false := by simp [shares.changed, below]
    rw [remakes.same here, shares.same below, kept]
    rfl
  · rw [remakes.origin, changed, keep, decide_eq_true moved]
    rfl
  · have all := remakes.size
    have inside := shares.size
    simp only [Node.size]
    omega

theorem Revised.Shares.origin_iff {r : Revised ι} {n : Node ι} {applied : Nat}
    (shares : r.Shares n applied) : r.node.origin = some n.origin ↔ applied = 0 := by
  constructor
  · intro kept
    by_contra moved
    rw [shares.fresh moved] at kept
    cases kept
  · intro still
    rw [shares.same still]
    cases n <;> rfl

namespace Options

theorem shares_reviseAll (o : Options) (ns : List (Node ι)) :
    (Gathered.ofList (o.reviseAll ns).1).Shares ns (o.reviseAll ns).2.applied := by
  induction ns using Node.forest with
  | nil => exact ⟨rfl, fun _ => rfl, rfl⟩
  | shape i s ns ih =>
    have here : (Revised.shape i s).Shares (.shape i s) 0 :=
      ⟨rfl, fun _ => rfl, fun moved => absurd rfl moved, rfl⟩
    rw [reviseAll, Tally.applied_add]
    exact Gathered.Shares.cons here ih
  | group i h kids ns inside ih =>
    have here := (o.remakes_reviseGroup i h _ (o.counted_reviseAll kids)).shares inside
    rw [reviseAll, revise, Tally.applied_add, Tally.applied_add]
    exact Gathered.Shares.cons here ih

/-- A node without a rule applied in its visit comes back as itself. Any other comes back as a new
node, smaller by as many nodes as rules have been applied. -/
theorem shares_revise (o : Options) (n : Node ι) :
    (o.revise n).1.Shares n (o.revise n).2.applied := by
  cases n with
  | shape i s => exact ⟨rfl, fun _ => rfl, fun moved => absurd rfl moved, rfl⟩
  | group i h kids =>
    have here := o.remakes_reviseGroup i h _ (o.counted_reviseAll kids)
    rw [revise, Tally.applied_add]
    exact here.shares (o.shares_reviseAll kids)

end Options

namespace Node

theorem preorder_eq (n : Node κ) (rest : List (Node κ)) :
    n.preorder rest = n :: preorderAll n.children rest := by
  cases n <;> rfl

theorem preorderAll_rest (ns rest : List (Node κ)) :
    preorderAll ns rest = preorderAll ns [] ++ rest := by
  induction ns using forest generalizing rest with
  | nil => rfl
  | shape i s ns ih =>
    rw [preorderAll, preorder, ih, preorderAll, preorder, List.cons_append]
  | group i h kids ns inside ih =>
    rw [preorderAll, preorder, inside, ih, preorderAll, preorder, inside (preorderAll ns [])]
    simp only [List.cons_append, List.append_assoc]

theorem preorderAll_append (ns ms rest : List (Node κ)) :
    preorderAll (ns ++ ms) rest = preorderAll ns (preorderAll ms rest) := by
  induction ns with
  | nil => rfl
  | cons n ns ih => simp only [List.cons_append, preorderAll, ih]

theorem preorder_spliced (n : Node κ) (rest : List (Node κ)) :
    (preorderAll n.spliced rest).Sublist (n.preorder rest) := by
  obtain ⟨i, m, kids, rfl, -, same⟩ | ⟨-, same⟩ := n.spliced_eq
  · rw [same]
    exact List.sublist_cons_self _ _
  · rw [same]
    exact .refl _

end Node

namespace Options

theorem preorder_merge (o : Options) (m : Affine) (kids rest : List (Node κ)) :
    (preorderAll (o.merge m kids).children rest).Sublist (preorderAll kids rest) := by
  refine o.merge_keeps (P := fun ns => (preorderAll ns rest).Sublist (preorderAll kids rest)) ?_ m
    kids (.refl _)
  intro i a ns within
  exact (List.sublist_cons_self _ _).trans within

theorem preorder_splice (o : Options) (kids rest : List (Node κ)) :
    (preorderAll (o.splice kids).1 rest).Sublist (preorderAll kids rest) := by
  unfold splice
  split
  next =>
    induction kids with
    | nil => exact .refl _
    | cons n ns ih =>
      have others : (n.preorder (preorderAll (ns.flatMap Node.spliced) rest)).Sublist
          (n.preorder (preorderAll ns rest)) := by
        have wide := ih.append_left (n.preorder [])
        have whole (later : List (Node κ)) : n.preorder later = n.preorder [] ++ later :=
          Node.preorderAll_rest [n] later
        rwa [← whole, ← whole] at wide
      rw [List.flatMap_cons, Node.preorderAll_append]
      exact (n.preorder_spliced _).trans others
  next => exact .refl _

theorem preorder_squash (o : Options) (m : Material) (kids : List (Node (Option ι)))
    (refs : RefCount) (counted : ∀ x, refs.count x = Node.refsTo x kids) {r : Revised ι}
    (done : o.squash m kids refs = some r) (rest : List (Node (Option ι))) :
    (preorderAll r.node.children rest).Sublist (preorderAll kids rest) := by
  obtain ⟨j, c, grandkids, rfl, -, rfl⟩ := o.squash_some m kids refs counted r done
  exact List.sublist_cons_self _ _

theorem preorder_reviseGroup (o : Options) (i : ι) (h : Head) (done : List (Revised ι))
    (counted : ∀ r ∈ done, r.Counted) (rest : List (Node (Option ι))) :
    (preorderAll (o.reviseGroup i h done).1.node.children rest).Sublist
      (preorderAll (done.map Revised.node) rest) := by
  have all := Gathered.counted_ofList done counted
  rw [← Gathered.nodes_ofList]
  cases h with
  | transform m =>
    have first := o.preorder_merge m (Gathered.ofList done).nodes rest
    have spliced := o.preorder_splice (o.merge m (Gathered.ofList done).nodes).children rest
    exact ((o.preorder_merge _ _ rest).trans spliced).trans first
  | material m =>
    have spliced := o.preorder_splice (Gathered.ofList done).nodes rest
    simp only [reviseGroup, reviseMaterial]
    split
    next r done' => exact o.preorder_squash m _ _ all done' rest
    next =>
      split
      next r done' =>
        exact (o.preorder_squash m _ _ (o.counted_splice _ all) done' rest).trans spliced
      next => exact spliced

theorem preorder_reviseAll (o : Options) (ns rest : List (Node ι)) (rest' : List (Node (Option ι)))
    (later : rest'.Sublist (rest.map fun n => (o.revise n).1.node)) :
    (preorderAll ((o.reviseAll ns).1.map Revised.node) rest').Sublist
      ((preorderAll ns rest).map fun n => (o.revise n).1.node) := by
  induction ns using Node.forest generalizing rest rest' with
  | nil => exact later
  | shape i s ns ih => exact (ih rest rest' later).cons_cons _
  | group i h kids ns inside ih =>
    have below := o.preorder_reviseGroup i h _ (o.counted_reviseAll kids)
      (preorderAll ((o.reviseAll ns).1.map Revised.node) rest')
    have handed := below.trans (inside _ _ (ih rest rest' later))
    simp only [reviseAll, List.map_cons, preorderAll, Node.preorder]
    rw [Node.preorder_eq]
    exact handed.cons_cons _

/-- Wherever a pass comes to the node, it makes `r` of it and counts `t` on the way. -/
def Visits (o : Options) (n : Node ι) (r : Revised ι) (t : Tally) : Prop :=
  ∀ (root : Root ι) (s : Tally) (owner : Option (ι × Head)) (pending : List (Node ι))
    (done : List (Revised ι)) (stack : List (Visit ι)),
    o.run root s (⟨owner, n :: pending, done⟩ :: stack) =
      o.run root (s.add t) (⟨owner, pending, r :: done⟩ :: stack)

end Options

namespace Frame

theorem applied_optimize (o : Options) (f : Frame ι) :
    (f.optimize o).2.applied = (o.reviseAll f.root.children).2.applied +
      (o.splice (Gathered.ofList (o.reviseAll f.root.children).1).nodes).2 := by
  rw [optimize_eq, Tally.applied_add]
  simp [Options.reviseRoot, Tally.applied]

theorem root_origin (o : Options) (f : Frame ι) :
    (f.optimize o).1.root.origin = keep (decide ((f.optimize o).2.applied ≠ 0)) f.root.origin := by
  have shares := o.shares_reviseAll f.root.children
  have changed : (f.optimize o).1.root.origin =
      keep ((Gathered.ofList (o.reviseAll f.root.children).1).changed ||
        decide ((o.splice (Gathered.ofList (o.reviseAll f.root.children).1).nodes).2 ≠ 0))
        f.root.origin := by
    rw [root_optimize]
    rfl
  rw [changed, shares.changed, ← Bool.decide_or, f.applied_optimize o]
  congr 1
  exact decide_eq_decide.2 (by omega)

theorem root_origin_iff (o : Options) (f : Frame ι) :
    (f.optimize o).1.root.origin = some f.root.origin ↔ (f.optimize o).2.applied = 0 := by
  rw [root_origin, keep]
  simp

theorem optimize_still (o : Options) (f : Frame ι) (still : (f.optimize o).2.applied = 0) :
    (f.optimize o).1 = f.map some := by
  have shares := o.shares_reviseAll f.root.children
  rw [applied_optimize, Nat.add_eq_zero_iff] at still
  obtain ⟨below, removed⟩ := still
  have unchanged : (Gathered.ofList (o.reviseAll f.root.children).1).changed = false := by
    rw [shares.changed, below]
    rfl
  have same := shares.same below
  rw [same] at removed
  rw [optimize_eq]
  simp only [Options.reviseRoot, same, unchanged, o.splice_still _ removed]
  rfl

theorem count_optimize (o : Options) (f : Frame ι) :
    (f.optimize o).1.count + (f.optimize o).2.applied = f.count := by
  have shares := o.shares_reviseAll f.root.children
  have size := o.size_splice (Gathered.ofList (o.reviseAll f.root.children).1).nodes
  have all := shares.size
  rw [count_eq, count_eq, applied_optimize, root_optimize]
  simp only [Options.reviseRoot]
  omega

theorem nodes_optimize (o : Options) (f : Frame ι) :
    (f.optimize o).1.nodes.Sublist (f.nodes.map fun n => (o.revise n).1.node) := by
  have handed := o.preorder_reviseAll f.root.children [] [] (.refl _)
  have spliced := o.preorder_splice ((o.reviseAll f.root.children).1.map Revised.node) []
  rw [nodes, root_optimize, Options.reviseRoot, Gathered.nodes_ofList]
  exact spliced.trans handed

theorem same_optimize (o : Options) (f : Frame ι) (numeric : Numeric f.numbers) :
    (f.optimize o).1.same f ↔ (f.optimize o).2.applied = 0 := by
  constructor
  · intro same
    have counts := count_of_same same
    have lost := f.count_optimize o
    omega
  · intro still
    rw [f.optimize_still o still]
    exact f.same_map some numeric

/-- A node comes back from its visit as itself if no rule is applied there, and as a new node with
one node fewer for each rule otherwise; and so does the root. The nodes after the pass are among
those that came back, in their old order, and all leaves are there. A frame all of whose numbers are
numbers equals what it was only if its root is handed on. -/
theorem sharing_exact (o : Options) (f : Frame ι) :
    (∀ n ∈ f.nodes, o.Visits n (o.revise n).1 (o.revise n).2 ∧
      ((o.revise n).1.node.origin = some n.origin ↔ (o.revise n).2.applied = 0) ∧
      ((o.revise n).2.applied = 0 → (o.revise n).1.node = n.map some) ∧
      ((o.revise n).2.applied ≠ 0 → (o.revise n).1.node.origin = none) ∧
      (o.revise n).1.node.size + (o.revise n).2.applied = n.size) ∧
    (((f.optimize o).1.root.origin = some f.root.origin ↔ (f.optimize o).2.applied = 0) ∧
      ((f.optimize o).2.applied = 0 → (f.optimize o).1 = f.map some) ∧
      ((f.optimize o).2.applied ≠ 0 → (f.optimize o).1.root.origin = none) ∧
      (f.optimize o).1.count + (f.optimize o).2.applied = f.count) ∧
    (f.optimize o).1.nodes.Sublist (f.nodes.map fun n => (o.revise n).1.node) ∧
    List.Forall₂ (fun l k => k.node = l.node.map some) f.leaves (f.optimize o).1.leaves ∧
    ((∀ x ∈ f.numbers, x.isNaN = false) →
      ((f.optimize o).1.same f ↔ (f.optimize o).1.root.origin = some f.root.origin)) := by
  have leaves := (f.leaves_same o).imp fun _ _ same => same.1
  refine ⟨fun n _ => ?_, ?_, f.nodes_optimize o, leaves, fun numeric => ?_⟩
  · have shares := o.shares_revise n
    have visits : o.Visits n (o.revise n).1 (o.revise n).2 :=
      fun root s owner pending done stack => o.run_node root s owner n pending done stack
    exact ⟨visits, shares.origin_iff, shares.same, shares.fresh, shares.size⟩
  · have fresh : (f.optimize o).2.applied ≠ 0 → (f.optimize o).1.root.origin = none := by
      intro moved
      rw [root_origin, keep, if_pos (decide_eq_true moved)]
    exact ⟨f.root_origin_iff o, f.optimize_still o, fresh, f.count_optimize o⟩
  · rw [f.root_origin_iff o]
    exact f.same_optimize o numeric

theorem sharing_exact_beside :
    let f : Frame Nat := ⟨⟨1, 1, .fit⟩, none, ⟨0, ⟨"white", "black", 1⟩,
      [.group 1 (.transform (.translate 1 0)) [.group 2 (.transform (.translate 0 2))
        [.shape 3 (.line ⟨0, 0⟩ ⟨1, 1⟩)]], .shape 4 (.circle ⟨0, 0⟩ 1)]⟩⟩
    (∀ x ∈ f.numbers, x.isNaN = false) ∧
      ((f.optimize .allRules).1.same f ↔
        (f.optimize .allRules).1.root.origin = some f.root.origin) := by
  intro f
  have numeric : Numeric f.numbers := by decide +kernel
  exact ⟨numeric, (sharing_exact .allRules f).2.2.2.2 numeric⟩

end Frame
end SceneTree
