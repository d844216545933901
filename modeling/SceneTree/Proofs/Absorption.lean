import SceneTree.Proofs.Separation
import SceneTree.Proofs.Settled

/-! Partial passes leave the outcome of a later, fuller one. Squashing early is squashing late:
materials are joined associatively and are known by the innermost id. The rules on transforms come
first in any pass; so there an earlier pass has done all of that work, or none. With merging and
removal both on this would fail: an identity that is taken out early is otherwise merged, and a
product with it need not keep every float. -/
namespace SceneTree
open Node (materialsAll mapAll)
variable {ι κ κ' : Type} {o p : Options}

namespace Options

/-- Every rule of the one is a rule of the other. -/
structure Within (p o : Options) : Prop where
  merge : p.mergeTransforms → o.mergeTransforms
  squash : p.squashMaterials → o.squashMaterials
  remove : p.removeIdentities → o.removeIdentities

instance (p o : Options) : Decidable (p.Within o) :=
  decidable_of_iff ((p.mergeTransforms → o.mergeTransforms) ∧
      (p.squashMaterials → o.squashMaterials) ∧ (p.removeIdentities → o.removeIdentities))
    ⟨fun ⟨merge, squash, remove⟩ => ⟨merge, squash, remove⟩,
      fun within => ⟨within.merge, within.squash, within.remove⟩⟩

theorem fuse_join (o : Options) (m c : Material) (kids : List (Node κ)) :
    o.fuse (m.join c) kids =
      ⟨m.join (o.fuse c kids).material, (o.fuse c kids).children, (o.fuse c kids).squashed⟩ := by
  have same : (m.join c).id = c.id := rfl
  obtain ⟨i, e, ks, rfl, joins, fused⟩ | ⟨apart, fused⟩ := o.fuse_eq c kids
  · obtain ⟨_, _, _, only, -, joined⟩ | ⟨apart, -⟩ :=
      o.fuse_eq (m.join c) [.group i (.material e) ks]
    · cases only
      rw [fused, joined, Material.join_assoc]
    · exact absurd (joins.of_id same.symm) apart
  · obtain ⟨_, _, _, -, joins, -⟩ | ⟨-, joined⟩ := o.fuse_eq (m.join c) kids
    · exact absurd (joins.of_id same) apart
    · rw [fused, joined]

theorem fuse_refs (o : Options) (m : Material) (kids : List (Node κ)) :
    (o.fuse m kids).material.ref = m.ref ∧
      ((materialsAll (o.fuse m kids).children).map Material.ref).Sublist
        ((materialsAll kids).map Material.ref) := by
  obtain ⟨i, c, ks, rfl, -, fused⟩ | ⟨-, fused⟩ := o.fuse_eq m kids
  · rw [fused]
    exact ⟨rfl, by simp⟩
  · rw [fused]
    exact ⟨rfl, .refl _⟩

theorem refs_settleAll (o : Options) (ns : List (Node Unit)) :
    ((materialsAll (o.settleAll ns).1).map Material.ref).Sublist
      ((materialsAll ns).map Material.ref) := by
  induction ns using Node.forest with
  | nil => exact .refl _
  | shape i s ns ih => exact ih
  | group i h kids ns inside ih =>
    rw [settleAll_group]
    cases h with
    | transform m => simpa [regroup, materialsAll_collapse] using inside.append ih
    | material m =>
      obtain ⟨own, fewer⟩ := o.fuse_refs m (o.splice (o.settleAll kids).1).1
      rw [materialsAll_splice] at fewer
      simpa [regroup, own] using (fewer.trans inside).append ih

/-- A material and its only child may be made one before the rules apply to them, as after. -/
theorem regroup_join (m c : Material) (kids : List (Node Unit)) (on : o.squashMaterials)
    (child : c.ref = m.id) (free : m.id ∉ (materialsAll kids).map Material.ref) :
    (o.regroup (.material (m.join c)) kids).1 =
      (o.regroup (.material m) [(o.regroup (.material c) kids).1]).1 := by
  obtain ⟨own, fewer⟩ := o.fuse_refs c (o.splice kids).1
  rw [materialsAll_splice] at fewer
  have still (i : Unit) (d : Material) (ks : List (Node Unit)) :
      o.splice [.group i (.material d) ks] = ([.group i (.material d) ks], 0) := by
    simp [splice, Node.spliced, Node.isIdentity]
  have fits : o.squashMaterials ∧ (o.fuse c (o.splice kids).1).material.ref = m.id ∧
      m.id ∉ (materialsAll (o.fuse c (o.splice kids).1).children).map Material.ref :=
    ⟨on, own.trans child, fun mem => free (fewer.subset mem)⟩
  simp only [regroup, still, fuse_join]
  rw [fuse, if_pos fits]

/-- Squashing that is done before a pass which squashes is lost in it. -/
theorem settleAll_absorbs (squash : p.squashMaterials → o.squashMaterials)
    (ns : List (Node Unit)) :
    (o.settleAll (p.materialsOnly.settleAll ns).1).1 = (o.settleAll ns).1 := by
  induction ns using Node.forest with
  | nil => rfl
  | shape i s ns ih => exact congrArg (Node.shape i s :: ·) ih
  | group i h kids ns inside ih =>
    have here : (o.settle (p.materialsOnly.settle (.group i h kids)).1).1 =
        (o.settle (.group i h kids)).1 := by
      cases h with
      | transform m => rw [settle_materialsOnly_transform, settle_group, settle_group, inside]
      | material m =>
        rw [settle_materialsOnly_material, settle_group o i (.material m) kids, ← inside]
        obtain ⟨j, c, ks, same, joins, fused⟩ | ⟨-, fused⟩ :=
          p.fuse_eq m (p.materialsOnly.settleAll kids).1
        · rw [same] at joins
          cases joins with
          | materials on child free =>
            -- squashed early; and late it would be too, since no pass makes up a ref to `m.id`
            have apart : m.id ∉ (materialsAll (o.settleAll ks).1).map Material.ref := by
              intro mem
              obtain ⟨x, found, refers⟩ := List.mem_map.1 ((o.refs_settleAll ks).subset mem)
              exact free x found refers
            rw [fused, same]
            exact regroup_join m c _ (squash on) child apart
        · rw [fused, settle_group]
    exact List.cons_eq_cons.2 ⟨here, ih⟩

/-- Where merging and removal are not both on, the transforms of a partial pass are all of those, or
none. -/
theorem Within.transforms (within : p.Within o)
    (apart : ¬(o.mergeTransforms ∧ o.removeIdentities)) :
    p.transformsOnly = o.transformsOnly ∨ p.transformsOnly = noRules := by
  -- the squash is off on both sides, so of each set only two flags count
  obtain ⟨merge, -, remove⟩ := within
  rcases p with ⟨_ | _, _, _ | _⟩ <;> rcases o with ⟨_ | _, _, _ | _⟩ <;>
    simp_all [transformsOnly, noRules]

end Options

namespace Node

theorem mapAll_mapAll (f : ι → κ) (g : κ → κ') (ns : List (Node ι)) :
    mapAll g (mapAll f ns) = mapAll (fun i => g (f i)) ns := by
  induction ns using forest with
  | nil => rfl
  | shape i s ns ih => simp [mapAll, map, ih]
  | group i h kids ns inside ih => simp [mapAll, map, inside, ih]

theorem settledAll_noRules (ns : List (Node κ)) : SettledAll .noRules ns := by
  induction ns using forest with
  | nil => trivial
  | shape i s ns ih => exact ⟨by simp [Options.noRules], trivial, ih⟩
  | group i h kids ns inside ih =>
    have apart : ¬Options.noRules.Joins h kids := by
      intro joins
      cases joins with
      | transforms on => cases on
      | materials on child free => cases on
    exact ⟨by simp [Options.noRules], ⟨apart, inside⟩, ih⟩

end Node

namespace Frame

theorem bare_map (g : ι → κ) (f : Frame ι) : (f.map g).bare = f.bare := by
  simp only [bare, map, Node.mapAll_mapAll]

theorem bare_optimize_fst (o : Options) (f : Frame ι) :
    (f.optimize o).1.bare = (f.bare.settle o).1 :=
  congrArg Prod.fst (f.bare_optimize o)

theorem settle_of_settled (f : Frame ι) (settled : Node.SettledAll o f.root.children) :
    (f.bare.settle o).1 = f.bare := by
  rw [← bare_optimize_fst, (f.optimize_of_settled o settled).2, bare_map]

theorem settle_settle (o : Options) (f : Frame ι) :
    ((f.bare.settle o).1.settle o).1 = (f.bare.settle o).1 := by
  have again := (f.optimize o).1.settle_of_settled (f.settled_optimize o)
  rwa [bare_optimize_fst] at again

theorem settle_transforms (within : p.Within o)
    (apart : ¬(o.mergeTransforms ∧ o.removeIdentities)) (f : Frame ι) :
    ((f.bare.settle p.transformsOnly).1.settle o.transformsOnly).1 =
      (f.bare.settle o.transformsOnly).1 := by
  obtain same | same := within.transforms apart
  · rw [same]
    exact f.settle_settle o.transformsOnly
  · rw [same, f.settle_of_settled (Node.settledAll_noRules _)]

theorem settle_materialsOnly (squash : p.squashMaterials → o.squashMaterials) (f : Frame Unit) :
    ((f.settle p.materialsOnly).1.settle o).1 = (f.settle o).1 := by
  simp only [settle, Options.splice_materialsOnly, Options.settleAll_absorbs squash]

/-- A pass with more rules comes to the same after a partial pass as without it. -/
theorem settle_absorbs (within : p.Within o) (apart : ¬(o.mergeTransforms ∧ o.removeIdentities))
    (f : Frame ι) : ((f.bare.settle p).1.settle o).1 = (f.bare.settle o).1 := by
  let moved := (f.bare.settle p.transformsOnly).1
  calc ((f.bare.settle p).1.settle o).1
      = ((moved.settle p.materialsOnly).1.settle o).1 := by rw [(f.bare.settle_separates p).1]
    _ = (moved.settle o).1 := settle_materialsOnly within.squash moved
    _ = ((moved.settle o.transformsOnly).1.settle o.materialsOnly).1 := (moved.settle_separates o).1
    _ = ((f.bare.settle o.transformsOnly).1.settle o.materialsOnly).1 := by
      rw [f.settle_transforms within apart]
    _ = (f.bare.settle o).1 := (f.bare.settle_separates o).1.symm

/-- What the passes leave, one after the other. -/
def passes : {ι : Type} → Frame ι → List Options → Frame Unit
  | _, f, [] => f.bare
  | _, f, p :: ps => passes (f.optimize p).1 ps

/-- Partial passes first, however many, do not show in what a full pass leaves, unless it both
merges and removes. -/
theorem passes_absorbed (f : Frame ι) (ps : List Options) (o : Options)
    (apart : ¬(o.mergeTransforms ∧ o.removeIdentities)) (within : ∀ p ∈ ps, p.Within o) :
    f.passes (ps ++ [o]) = (f.optimize o).1.bare := by
  induction ps generalizing ι with
  | nil => rfl
  | cons p ps ih =>
    have later := ih (f.optimize p).1 fun q mem => within q (List.mem_cons_of_mem p mem)
    have here := f.settle_absorbs (within p List.mem_cons_self) apart
    calc f.passes (p :: ps ++ [o])
        = (((f.optimize p).1.optimize o).1).bare := later
      _ = ((f.bare.settle p).1.settle o).1 := by rw [bare_optimize_fst, bare_optimize_fst]
      _ = (f.bare.settle o).1 := here
      _ = (f.optimize o).1.bare := (f.bare_optimize_fst o).symm

theorem passes_absorbed_nested :
    let squashing : Options := ⟨false, true, false⟩
    let removing : Options := ⟨false, false, true⟩
    let both : Options := ⟨false, true, true⟩
    let f : Frame Nat := ⟨⟨1, 1, .fit⟩, none, ⟨0, ⟨"white", "black", 1⟩,
      [.group 1 (.material ⟨"outer", rootId, ⟨some "red", none, none⟩⟩)
        [.group 2 (.material ⟨"middle", "outer", ⟨none, some "blue", none⟩⟩)
          [.group 3 (.transform .identity)
            [.group 4 (.material ⟨"inner", "middle", .inherit⟩) [.shape 5 (.circle ⟨0, 0⟩ 1)]]]]]⟩⟩
    (¬(both.mergeTransforms ∧ both.removeIdentities) ∧
      ∀ p ∈ [squashing, removing], p.Within both) ∧
      f.passes ([squashing, removing] ++ [both]) = (f.optimize both).1.bare := by
  intro squashing removing both f
  have apart : ¬(both.mergeTransforms ∧ both.removeIdentities) := by decide
  have within : ∀ p ∈ [squashing, removing], p.Within both := by decide
  exact ⟨⟨apart, within⟩, f.passes_absorbed [squashing, removing] both apart within⟩

end Frame
end SceneTree
