import SceneTree.Optimize.Rules

/-! One pass over a frame, from the leaves up. `Options.revise` is the plain recursion. The pass
that runs keeps its own stack of visits, so that depth costs memory alone; `Frame.optimize_eq` says
that it does the same. -/
namespace SceneTree
variable {ι : Type}

namespace Options

mutual
def revise (o : Options) : Node ι → Revised ι × Tally
  | .shape i s => (.shape i s, .zero)
  | .group i h kids =>
    let (done, below) := reviseAll o kids
    let (r, here) := o.reviseGroup i h done
    (r, below.add here)

def reviseAll (o : Options) : List (Node ι) → List (Revised ι) × Tally
  | [] => ([], .zero)
  | n :: ns =>
    let (r, first) := revise o n
    let (rs, others) := reviseAll o ns
    (r :: rs, first.add others)
end

end Options

/-- A group under way, or the root: the children to come, and what has become of the others, the
last one first. -/
structure Visit (ι : Type) where
  owner : Option (ι × Head)
  pending : List (Node ι)
  done : List (Revised ι)

/- Every step of the pass makes this smaller. -/
def Visit.work : List (Visit ι) → Nat
  | [] => 0
  | v :: stack => 1 + 2 * Node.sizeAll v.pending + work stack

def Root.kept (root : Root ι) : Root (Option ι) :=
  ⟨some root.origin, root.paint, Node.mapAll some root.children⟩

/- The root's visit is at the bottom of the stack; without it the root would be kept. -/
def Options.run (o : Options) (root : Root ι) (t : Tally) :
    List (Visit ι) → Root (Option ι) × Tally
  | [] => (root.kept, t)
  | ⟨owner, .shape i s :: pending, done⟩ :: stack =>
    run o root t (⟨owner, pending, .shape i s :: done⟩ :: stack)
  | ⟨owner, .group i h kids :: pending, done⟩ :: stack =>
    run o root t (⟨some (i, h), kids, []⟩ :: ⟨owner, pending, done⟩ :: stack)
  | ⟨none, [], done⟩ :: _ =>
    let (r, here) := o.reviseRoot root done.reverse
    (r, t.add here)
  | ⟨some (i, h), [], done⟩ :: stack =>
    let (r, here) := o.reviseGroup i h done.reverse
    match stack with
    | [] => (root.kept, t.add here)
    | parent :: stack =>
      run o root (t.add here) (⟨parent.owner, parent.pending, r :: parent.done⟩ :: stack)
termination_by stack => Visit.work stack
decreasing_by
  all_goals simp only [Visit.work, Node.sizeAll, Node.size]
  all_goals omega

namespace Options

/- What a visit makes of its next child is what the recursion makes of it; so for all of them. -/
mutual
theorem run_node (o : Options) (root : Root ι) (t : Tally) (owner : Option (ι × Head)) (n : Node ι)
    (pending : List (Node ι)) (done : List (Revised ι)) (stack : List (Visit ι)) :
    o.run root t (⟨owner, n :: pending, done⟩ :: stack) =
      o.run root (t.add (o.revise n).2) (⟨owner, pending, (o.revise n).1 :: done⟩ :: stack) := by
  cases n with
  | shape i s => rw [run, revise]; rfl
  | group i h kids =>
    have inside := run_nodes o root t (some (i, h)) kids [] (⟨owner, pending, done⟩ :: stack)
    rw [run, inside, run, revise]
    simp [Tally.add_assoc]

theorem run_nodes (o : Options) (root : Root ι) (t : Tally) (owner : Option (ι × Head))
    (kids : List (Node ι)) (done : List (Revised ι)) (stack : List (Visit ι)) :
    o.run root t (⟨owner, kids, done⟩ :: stack) =
      o.run root (t.add (o.reviseAll kids).2)
        (⟨owner, [], (o.reviseAll kids).1.reverse ++ done⟩ :: stack) := by
  cases kids with
  | nil => rfl
  | cons n ns =>
    rw [run_node, run_nodes, reviseAll]
    simp [Tally.add_assoc]
end

end Options

/-- A pass over a frame, and what it has counted. -/
def Frame.optimize (o : Options) (f : Frame ι) : Frame (Option ι) × Tally :=
  let (root, t) := o.run f.root .zero [⟨none, f.root.children, []⟩]
  (⟨f.viewport, f.background, root⟩, t)

/-- The pass is the recursion, followed by the rules for the root. -/
theorem Frame.optimize_eq (o : Options) (f : Frame ι) :
    f.optimize o =
      let (done, below) := o.reviseAll f.root.children
      let (root, here) := o.reviseRoot f.root done
      (⟨f.viewport, f.background, root⟩, below.add here) := by
  rw [optimize, Options.run_nodes, Options.run]
  simp

end SceneTree
