import SceneTree.Proofs.Settling

/-! The rules come apart. A squash neither makes nor moves a transform, so all work on transforms
may be done first and all squashing after it, in two passes with the same outcome and counts. Where
no identity is removed, merging neither makes nor moves a material, and the two passes may be
exchanged. -/
namespace SceneTree
open Node (materialsAll)
variable {κ : Type} {o : Options}

namespace Options

def transformsOnly (o : Options) : Options := { o with squashMaterials := false }

def materialsOnly (o : Options) : Options := ⟨false, o.squashMaterials, false⟩

theorem collapse_transformsOnly (o : Options) (m : Affine) (kids : List (Node κ)) :
    o.transformsOnly.collapse m kids = o.collapse m kids := rfl

theorem splice_transformsOnly (o : Options) (kids : List (Node κ)) :
    o.transformsOnly.splice kids = o.splice kids := rfl

theorem collapse_materialsOnly (o : Options) (m : Affine) (kids : List (Node κ)) :
    o.materialsOnly.collapse m kids = (⟨m, kids, 0⟩, 0) := rfl

theorem splice_materialsOnly (o : Options) (kids : List (Node κ)) :
    o.materialsOnly.splice kids = (kids, 0) := rfl

theorem fuse_materialsOnly (o : Options) (m : Material) (kids : List (Node κ)) :
    o.materialsOnly.fuse m kids = o.fuse m kids := rfl

theorem merge_off (off : o.mergeTransforms = false) (m : Affine) (kids : List (Node κ)) :
    o.merge m kids = ⟨m, kids, 0⟩ := by
  simp [merge, off]

theorem splice_off (off : o.removeIdentities = false) (kids : List (Node κ)) :
    o.splice kids = (kids, 0) := by
  simp [splice, off]

theorem fuse_off (off : o.squashMaterials = false) (m : Material) (kids : List (Node κ)) :
    o.fuse m kids = ⟨m, kids, 0⟩ := by
  obtain ⟨_, _, _, -, joins, -⟩ | ⟨-, same⟩ := o.fuse_eq m kids
  · cases joins with
    | materials on child free => simp [off] at on
  · exact same

theorem materialsAll_collapse (o : Options) (m : Affine) (kids : List (Node κ)) :
    materialsAll (o.collapse m kids).1.children = materialsAll kids := by
  simp [collapse]

theorem materialsAll_settleAll (off : o.squashMaterials = false) (ns : List (Node Unit)) :
    materialsAll (o.settleAll ns).1 = materialsAll ns := by
  induction ns using Node.forest with
  | nil => rfl
  | shape i s ns ih => exact ih
  | group i h kids ns inside ih =>
    rw [settleAll_group]
    cases h with
    | transform m => simp [regroup, materialsAll_collapse, inside, ih]
    | material m => simp [regroup, fuse_off off, inside, ih]

end Options

namespace Tally

/-- Each rule was applied as often as in the two others together. -/
structure Sums (t u v : Tally) : Prop where
  merged : t.merged = u.merged + v.merged
  squashed : t.squashed = u.squashed + v.squashed
  removed : t.removed = u.removed + v.removed

theorem Sums.add {t u v t' u' v' : Tally} (first : Sums t u v) (second : Sums t' u' v') :
    Sums (t.add t') (u.add u') (v.add v') where
  merged := by
    simp only [Tally.add, first.merged, second.merged]
    omega
  squashed := by
    simp only [Tally.add, first.squashed, second.squashed]
    omega
  removed := by
    simp only [Tally.add, first.removed, second.removed]
    omega

theorem Sums.later {t u v w x y : Tally} (first : Sums t u v) (second : Sums (v.add w) x y) :
    Sums (t.add w) (u.add x) y where
  merged := by
    have later := second.merged
    simp only [Tally.add, first.merged] at later ⊢
    omega
  squashed := by
    have later := second.squashed
    simp only [Tally.add, first.squashed] at later ⊢
    omega
  removed := by
    have later := second.removed
    simp only [Tally.add, first.removed] at later ⊢
    omega

end Tally

namespace Options

theorem settleAll_none (count : Tally → Nat) (zero : count .zero = 0)
    (add : ∀ s t, count (s.add t) = count s + count t)
    (none : ∀ h kids, count (o.regroup h kids).2 = 0) (ns : List (Node Unit)) :
    count (o.settleAll ns).2 = 0 := by
  induction ns using Node.forest with
  | nil => exact zero
  | shape i s ns ih => rw [settleAll, settle, add, zero, ih]
  | group i h kids ns inside ih => rw [settleAll_group, add, add, inside, none, ih]

theorem merged_settleAll (off : o.mergeTransforms = false) (ns : List (Node Unit)) :
    (o.settleAll ns).2.merged = 0 := by
  refine settleAll_none Tally.merged rfl (fun _ _ => rfl) (fun h kids => ?_) ns
  cases h <;> simp [regroup, collapse, merge_off off]

theorem removed_settleAll (off : o.removeIdentities = false) (ns : List (Node Unit)) :
    (o.settleAll ns).2.removed = 0 := by
  refine settleAll_none Tally.removed rfl (fun _ _ => rfl) (fun h kids => ?_) ns
  cases h <;> simp [regroup, collapse, splice_off off]

/- Transforms count nothing towards squashes, and so merging and splicing leave their number. -/

theorem squashed_transform (o : Options) (i : Unit) (m : Affine) (kids : List (Node Unit)) :
    (o.settleAll [.group i (.transform m) kids]).2.squashed = (o.settleAll kids).2.squashed := by
  simp [settleAll_group, regroup, Tally.add, Tally.zero]

theorem squashed_merge (o p : Options) (m : Affine) (kids : List (Node Unit)) :
    (o.settleAll (p.merge m kids).children).2.squashed = (o.settleAll kids).2.squashed := by
  refine p.merge_keeps (P := fun ns =>
    (o.settleAll ns).2.squashed = (o.settleAll kids).2.squashed) ?_ m kids rfl
  intro i a ns same
  rwa [squashed_transform] at same

theorem squashed_splice (o p : Options) (kids : List (Node Unit)) :
    (o.settleAll (p.splice kids).1).2.squashed = (o.settleAll kids).2.squashed := by
  unfold splice
  split
  next =>
    induction kids with
    | nil => rfl
    | cons n ns ih =>
      have here : (o.settleAll n.spliced).2.squashed = (o.settleAll [n]).2.squashed := by
        obtain ⟨i, m, kids, rfl, -, same⟩ | ⟨-, same⟩ := n.spliced_eq
        · rw [same, squashed_transform]
        · rw [same]
      calc (o.settleAll ((n :: ns).flatMap Node.spliced)).2.squashed
          = (o.settleAll n.spliced).2.squashed +
              (o.settleAll (ns.flatMap Node.spliced)).2.squashed := by
            rw [List.flatMap_cons, settleAll_append]
            rfl
        _ = (o.settleAll [n]).2.squashed + (o.settleAll ns).2.squashed := by
            rw [here]
            exact congrArg _ ih
        _ = (o.settleAll (n :: ns)).2.squashed := rfl
  next => rfl

theorem squashed_collapse (o p : Options) (m : Affine) (kids : List (Node Unit)) :
    (o.settleAll (p.collapse m kids).1.children).2.squashed = (o.settleAll kids).2.squashed := by
  rw [collapse, squashed_merge, squashed_splice, squashed_merge]

theorem settle_materialsOnly_transform (o : Options) (i : Unit) (m : Affine)
    (kids : List (Node Unit)) :
    o.materialsOnly.settle (.group i (.transform m) kids) =
      (.group () (.transform m) (o.materialsOnly.settleAll kids).1,
        (o.materialsOnly.settleAll kids).2.add ⟨1, 0, 0, 0⟩) := by
  simp only [settle_group, regroup, collapse_materialsOnly]

theorem settle_materialsOnly_material (o : Options) (i : Unit) (m : Material)
    (kids : List (Node Unit)) :
    o.materialsOnly.settle (.group i (.material m) kids) =
      let c := o.fuse m (o.materialsOnly.settleAll kids).1
      (.group () (.material c.material) c.children,
        (o.materialsOnly.settleAll kids).2.add ⟨1, 0, c.squashed, 0⟩) := by
  simp only [settle_group, regroup, splice_materialsOnly, fuse_materialsOnly]

theorem regroup_transformsOnly_material (o : Options) (m : Material) (kids : List (Node Unit)) :
    o.transformsOnly.regroup (.material m) kids =
      (.group () (.material m) (o.splice kids).1, ⟨1, 0, 0, (o.splice kids).2⟩) := by
  simp only [regroup, splice_transformsOnly, o.transformsOnly.fuse_off rfl]

theorem preserves_materialsOnly (o : Options) :
    Node.Preserves Head.isTransform fun n => (o.materialsOnly.settle n).1 where
  kept i h kids transform := by
    cases h with
    | material m => cases transform
    | transform m =>
      rw [settle_materialsOnly_transform, settleAll_fst]
      exact ⟨(), rfl⟩
  other n none := by
    match n with
    | .shape _ _ | .group _ (.material _) _ => rfl
    | .group _ (.transform _) _ => cases none

/-- At a group whose children have had their transforms settled and then their materials, the rules
on transforms come before the squash. -/
theorem regroup_separates (o : Options) (h : Head) (kids : List (Node Unit)) :
    (o.regroup h (o.materialsOnly.settleAll kids).1).1 =
        (o.materialsOnly.settle (o.transformsOnly.regroup h kids).1).1 ∧
      Tally.Sums ((o.materialsOnly.settleAll kids).2.add
          (o.regroup h (o.materialsOnly.settleAll kids).1).2)
        (o.transformsOnly.regroup h kids).2
        (o.materialsOnly.settle (o.transformsOnly.regroup h kids).1).2 := by
  have merged (ns : List (Node Unit)) := o.materialsOnly.merged_settleAll rfl ns
  have removed (ns : List (Node Unit)) := o.materialsOnly.removed_settleAll rfl ns
  have keeps := o.preserves_materialsOnly
  cases h with
  | transform m =>
    have squashed := o.materialsOnly.squashed_collapse o m kids
    simp only [regroup, collapse_transformsOnly, settle_materialsOnly_transform]
    simp only [settleAll_fst o.materialsOnly, collapse_map keeps]
    exact ⟨rfl, by simp [Tally.add, merged, Chain.map], by simp [Tally.add, squashed],
      by simp [Tally.add, removed]⟩
  | material m =>
    have squashed := o.materialsOnly.squashed_splice o kids
    rw [regroup_transformsOnly_material]
    simp only [regroup, settle_materialsOnly_material]
    simp only [settleAll_fst o.materialsOnly, splice_map keeps]
    exact ⟨trivial, by simp [Tally.add, merged], by simp [Tally.add, squashed],
      by simp [Tally.add, removed]⟩

/-- All work on transforms may be done before all squashing. -/
theorem settleAll_separates (o : Options) (ns : List (Node Unit)) :
    (o.settleAll ns).1 = (o.materialsOnly.settleAll (o.transformsOnly.settleAll ns).1).1 ∧
      Tally.Sums (o.settleAll ns).2 (o.transformsOnly.settleAll ns).2
        (o.materialsOnly.settleAll (o.transformsOnly.settleAll ns).1).2 := by
  induction ns using Node.forest with
  | nil => exact ⟨rfl, rfl, rfl, rfl⟩
  | shape i s ns ih =>
    obtain ⟨nodes, sums⟩ := ih
    have here : Tally.Sums .zero .zero .zero := ⟨rfl, rfl, rfl⟩
    exact ⟨congrArg (Node.shape i s :: ·) nodes, here.add sums⟩
  | group i h kids ns inside ih =>
    obtain ⟨below, counts⟩ := inside
    obtain ⟨later, others⟩ := ih
    -- what the second pass squashes below the group, it counts when it goes over the group
    obtain ⟨here, sums⟩ := o.regroup_separates h (o.transformsOnly.settleAll kids).1
    rw [← below] at here sums
    rw [settleAll_group, settleAll_group, settleAll]
    exact ⟨List.cons_eq_cons.2 ⟨here, later⟩, (counts.later sums).add others⟩

theorem preserves_transformsOnly (stay : o.removeIdentities = false) :
    Node.Preserves Head.isMaterial fun n => (o.transformsOnly.settle n).1 where
  kept i h kids material := by
    cases h with
    | transform m => cases material
    | material m =>
      refine ⟨(), ?_⟩
      simp only [settle_group, regroup_transformsOnly_material, splice_off stay, settleAll_fst]
  other n none := by
    match n with
    | .shape _ _ | .group _ (.transform _) _ => rfl
    | .group _ (.material _) _ => cases none

/-- Where nothing is spliced, all squashing may be done before all merging. -/
theorem settleAll_exchange (stay : o.removeIdentities = false) (ns : List (Node Unit)) :
    (o.settleAll ns).1 = (o.transformsOnly.settleAll (o.materialsOnly.settleAll ns).1).1 := by
  have keeps := preserves_transformsOnly stay
  have refs (ns : List (Node Unit)) :
      (materialsAll (ns.map fun n => (o.transformsOnly.settle n).1)).map Material.ref =
        (materialsAll ns).map Material.ref := by
    rw [← settleAll_fst, materialsAll_settleAll rfl]
  induction ns using Node.forest with
  | nil => rfl
  | shape i s ns ih => exact congrArg (Node.shape i s :: ·) ih
  | group i h kids ns inside ih =>
    have here : (o.settle (.group i h kids)).1 =
        (o.transformsOnly.settle (o.materialsOnly.settle (.group i h kids)).1).1 := by
      rw [settle_group, inside]
      cases h with
      | transform m =>
        rw [settle_materialsOnly_transform]
        rfl
      | material m =>
        rw [settle_materialsOnly_material, settle_group, regroup_transformsOnly_material]
        simp only [regroup, splice_off stay, settleAll_fst o.transformsOnly, fuse_map keeps refs]
        rfl
    exact List.cons_eq_cons.2 ⟨here, ih⟩

end Options

namespace Frame

theorem settle_separates (o : Options) (f : Frame Unit) :
    (f.settle o).1 = ((f.settle o.transformsOnly).1.settle o.materialsOnly).1 ∧
      Tally.Sums (f.settle o).2 (f.settle o.transformsOnly).2
        ((f.settle o.transformsOnly).1.settle o.materialsOnly).2 := by
  obtain ⟨nodes, sums⟩ := o.settleAll_separates f.root.children
  have keeps := o.preserves_materialsOnly
  have merged (ns : List (Node Unit)) := o.materialsOnly.merged_settleAll rfl ns
  have removed (ns : List (Node Unit)) := o.materialsOnly.removed_settleAll rfl ns
  have squashed := o.materialsOnly.squashed_splice o (o.transformsOnly.settleAll f.root.children).1
  simp only [settle, Options.splice_transformsOnly, Options.splice_materialsOnly, nodes]
  refine ⟨?_, sums.later ⟨?_, ?_, ?_⟩⟩
  · simp only [Options.settleAll_fst o.materialsOnly, Options.splice_map keeps]
  · simp [Tally.add, merged]
  · simp [Tally.add, squashed]
  · simp only [Tally.add, removed, Options.settleAll_fst o.materialsOnly, Options.splice_map keeps]
    omega

theorem settle_exchange {o : Options} (stay : o.removeIdentities = false) (f : Frame Unit) :
    (f.settle o).1 = ((f.settle o.materialsOnly).1.settle o.transformsOnly).1 := by
  simp only [settle, Options.splice_transformsOnly, Options.splice_materialsOnly,
    Options.splice_off stay, Options.settleAll_exchange stay f.root.children]

variable {ι : Type}

theorem bare_optimize_optimize (p o : Options) (f : Frame ι) :
    (((f.optimize p).1.optimize o).1.bare, ((f.optimize p).1.optimize o).2) =
      (f.bare.settle p).1.settle o := by
  rw [bare_optimize o (f.optimize p).1, ← bare_optimize p f]

/-- One pass is two, with the rules on transforms first and the squashing after them, in its outcome
and in each count. Without removal, merging and squashing are two passes in either order. -/
theorem optimize_separates (o : Options) (f : Frame ι) :
    (let first := f.optimize o.transformsOnly
    let second := first.1.optimize o.materialsOnly
    (f.optimize o).1.bare = second.1.bare ∧
      (f.optimize o).2.merged = first.2.merged + second.2.merged ∧
      (f.optimize o).2.squashed = first.2.squashed + second.2.squashed ∧
      (f.optimize o).2.removed = first.2.removed + second.2.removed) ∧
    (let merging : Options := ⟨true, false, false⟩
    let squashing : Options := ⟨false, true, false⟩
    (f.optimize ⟨true, true, false⟩).1.bare = ((f.optimize squashing).1.optimize merging).1.bare ∧
      (f.optimize ⟨true, true, false⟩).1.bare =
        ((f.optimize merging).1.optimize squashing).1.bare) := by
  have one (o : Options) := f.bare_optimize o
  have two (p o : Options) := f.bare_optimize_optimize p o
  obtain ⟨nodes, sums⟩ := f.bare.settle_separates o
  have exchanged := f.bare.settle_exchange (o := ⟨true, true, false⟩) rfl
  have separated := (f.bare.settle_separates ⟨true, true, false⟩).1
  simp only [← two] at nodes sums exchanged separated
  simp only [← one] at nodes sums exchanged separated
  exact ⟨⟨nodes, sums.merged, sums.squashed, sums.removed⟩, exchanged, separated⟩

end Frame
end SceneTree
