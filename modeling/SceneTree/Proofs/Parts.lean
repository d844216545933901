import SceneTree.Edit
import SceneTree.Proofs.Separation

/-! Parts of a scene. The children of a node are revised one by one, so a pass makes of a forest
what it makes of its parts, put together again. One part of its own kind is a nest: groups one
inside the other, each but the innermost with a single child. -/
namespace SceneTree
open Node (materialsAll)
variable {ι κ α : Type} {o : Options}

namespace Options

theorem reviseAll_append (o : Options) (ns ms : List (Node ι)) :
    o.reviseAll (ns ++ ms) =
      ((o.reviseAll ns).1 ++ (o.reviseAll ms).1, (o.reviseAll ns).2.add (o.reviseAll ms).2) := by
  induction ns with
  | nil => simp [reviseAll]
  | cons n ns ih => simp [reviseAll, ih, Tally.add_assoc]

theorem reviseAll_fst (o : Options) (ns : List (Node ι)) :
    (o.reviseAll ns).1 = ns.map fun n => (o.revise n).1 := by
  induction ns with
  | nil => rfl
  | cons n ns ih => rw [reviseAll, List.map_cons, ← ih]

theorem splice_append (o : Options) (ns ms : List (Node κ)) :
    o.splice (ns ++ ms) =
      ((o.splice ns).1 ++ (o.splice ms).1, (o.splice ns).2 + (o.splice ms).2) := by
  unfold splice
  split <;> simp

theorem splice_plain (o : Options) {kids : List (Node κ)}
    (plain : ∀ k ∈ kids, k.has Head.isTransform = false) : o.splice kids = (kids, 0) := by
  unfold splice
  split
  next =>
    have other : ∀ k ∈ kids, k.isIdentity = false := fun k mem => k.isIdentity_other (plain k mem)
    have still : ∀ k ∈ kids, k.spliced = [k] := fun k mem => by simp [Node.spliced, other k mem]
    have none : kids.countP Node.isIdentity = 0 :=
      List.countP_eq_zero.2 fun k mem => by simp [other k mem]
    rw [List.flatMap_congr still, List.flatMap_singleton', none]
  next => rfl

theorem reviseAll_transform (o : Options) (i : ι) (m : Affine) (kids : List (Node ι)) :
    let c := o.collapse m ((o.reviseAll kids).1.map Revised.node)
    (∃ j, (o.reviseAll [.group i (.transform m) kids]).1.map Revised.node =
      [.group j (.transform c.1.matrix) c.1.children]) ∧
    (o.reviseAll [.group i (.transform m) kids]).2 =
      (o.reviseAll kids).2.add ⟨1, c.1.merged, 0, c.2⟩ := by
  rw [← Gathered.nodes_ofList]
  exact ⟨⟨_, rfl⟩, rfl⟩

theorem reviseAll_material (o : Options) (i : ι) (m : Material) (kids : List (Node ι)) :
    let spliced := o.splice ((o.reviseAll kids).1.map Revised.node)
    let c := o.fuse m spliced.1
    (∃ j, (o.reviseAll [.group i (.material m) kids]).1.map Revised.node =
      [.group j (.material c.material) c.children]) ∧
    (o.reviseAll [.group i (.material m) kids]).2 =
      (o.reviseAll kids).2.add ⟨1, 0, c.squashed, spliced.2⟩ := by
  have counted := Gathered.counted_ofList _ (o.counted_reviseAll kids)
  obtain ⟨⟨j, node⟩, counts⟩ := o.reviseMaterial_eq i m _ counted
  rw [← Gathered.nodes_ofList]
  exact ⟨⟨j, congrArg (fun n => [n]) node⟩, congrArg (Tally.add _) counts⟩

theorem plain_revise (o : Options) (n : Node ι) (plain : n.kind ≠ .transform) :
    (o.revise n).1.node.has Head.isTransform = false := by
  match n with
  | .shape _ _ => rfl
  | .group _ (.transform _) _ => exact absurd rfl plain
  | .group i (.material m) kids =>
    have counted := Gathered.counted_ofList _ (o.counted_reviseAll kids)
    obtain ⟨⟨j, node⟩, -⟩ := o.reviseMaterial_eq i m _ counted
    simp only [revise, reviseGroup]
    rw [node]
    rfl

theorem plain_reviseAll (o : Options) {ks : List (Node ι)}
    (plain : ∀ k ∈ ks, k.kind ≠ .transform) :
    ∀ k ∈ (o.reviseAll ks).1.map Revised.node, k.has Head.isTransform = false := by
  rw [reviseAll_fst, List.map_map, List.forall_mem_map]
  exact fun k mem => o.plain_revise k (plain k mem)

end Options

namespace Frame

/-- What a pass leaves below the root of the frame if these nodes stand there, and what it
counts. -/
def part (f : Frame ι) (o : Options) (ns : List (Node ι)) : List (Node (Option ι)) × Tally :=
  let (g, t) := (f.withChildren ns).optimize o
  (g.root.children, t)

theorem part_eq (f : Frame ι) (o : Options) (ns : List (Node ι)) :
    f.part o ns = ((o.splice ((o.reviseAll ns).1.map Revised.node)).1, (o.reviseAll ns).2.add
      ⟨1, 0, 0, (o.splice ((o.reviseAll ns).1.map Revised.node)).2⟩) := by
  rw [part, optimize_eq]
  simp [withChildren, Options.reviseRoot]

/-- A pass makes of nodes side by side what it makes of each by itself. -/
theorem part_append (f : Frame ι) (o : Options) (xs ys : List (Node ι)) :
    (f.part o (xs ++ ys)).1 = (f.part o xs).1 ++ (f.part o ys).1 ∧
      Tally.Sums (f.part o (xs ++ ys)).2 (f.part o xs).2 (f.part o ys).2 := by
  simp only [part_eq, o.reviseAll_append, List.map_append, o.splice_append]
  refine ⟨trivial, ?_, ?_, ?_⟩ <;> simp only [Tally.add] <;> omega

theorem part_between (f : Frame ι) (o : Options) (xs ns ys : List (Node ι)) :
    let all := f.part o (xs ++ ns ++ ys)
    all.1 = (f.part o xs).1 ++ (f.part o ns).1 ++ (f.part o ys).1 ∧
    all.2.merged = (f.part o xs).2.merged + (f.part o ns).2.merged + (f.part o ys).2.merged ∧
    all.2.squashed = (f.part o xs).2.squashed + (f.part o ns).2.squashed +
      (f.part o ys).2.squashed ∧
    all.2.removed = (f.part o xs).2.removed + (f.part o ns).2.removed +
      (f.part o ys).2.removed := by
  obtain ⟨left, before⟩ := f.part_append o xs ns
  obtain ⟨whole, after⟩ := f.part_append o (xs ++ ns) ys
  intro all
  refine ⟨?_, ?_, ?_, ?_⟩
  · rw [whole, left]
  · rw [after.merged, before.merged]
  · rw [after.squashed, before.squashed]
  · rw [after.removed, before.removed]

theorem visited_append (f : Frame ι) (o : Options) (xs ys : List (Node ι)) :
    (f.part o (xs ++ ys)).2.visited + 1 = (f.part o xs).2.visited + (f.part o ys).2.visited := by
  simp only [part_eq, o.reviseAll_append, Tally.add]
  omega

/-- Nothing below the root depends on what stands beside it. What a pass leaves of two forests side
by side is what it leaves of each alone, node for node, and their counts add up, with one visit of
the root instead of two. So what stands there twice is there twice afterwards. -/
theorem siblings_apart (o : Options) (f : Frame ι) (xs ys : List (Node ι)) :
    let both := (f.withChildren (xs ++ ys)).optimize o
    let left := (f.withChildren xs).optimize o
    let right := (f.withChildren ys).optimize o
    both.1.root.children = left.1.root.children ++ right.1.root.children ∧
    Tally.Sums both.2 left.2 right.2 ∧
    both.2.visited + 1 = left.2.visited + right.2.visited ∧
    (f.twice.optimize o).1.root.children =
      (f.optimize o).1.root.children ++ (f.optimize o).1.root.children := by
  intro both left right
  obtain ⟨nodes, counts⟩ := f.part_append o xs ys
  obtain ⟨again, -⟩ := f.part_append o f.root.children f.root.children
  exact ⟨nodes, counts, f.visited_append o xs ys, again⟩

end Frame

namespace Node

/-- Groups with such heads one inside the other, the outermost first, and a forest in the last. -/
def nest (head : α → Head) : List (κ × α) → List (Node κ) → List (Node κ)
  | [], kids => kids
  | (i, a) :: links, kids => [.group i (head a) (nest head links kids)]

theorem materialsAll_nest (links : List (κ × Material)) (kids : List (Node κ)) :
    materialsAll (nest .material links kids) = links.map Prod.snd ++ materialsAll kids := by
  induction links with
  | nil => rfl
  | cons link links ih => simp [nest, ih]

end Node
end SceneTree
