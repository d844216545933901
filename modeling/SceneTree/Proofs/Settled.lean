import SceneTree.Proofs.Rewriting

/-! Scenes that no rule applies to. A pass leaves such a scene behind, and leaves alone such a
scene, so a second pass has nothing to do. -/
namespace SceneTree
open Node (materialsAll mapAll)
variable {ι κ : Type} {o : Options}

namespace Options

theorem Joins.of_id {m m' : Material} {kids : List (Node κ)} (same : m.id = m'.id)
    (joins : o.Joins (.material m) kids) : o.Joins (.material m') kids := by
  cases joins with
  | materials on child free => exact .materials on (child.trans same) (same ▸ free)

theorem Joins.length {h : Head} {kids : List (Node κ)} (joins : o.Joins h kids) :
    kids.length = 1 := by
  cases joins <;> rfl

theorem joins_mapAll (f : ι → κ) (h : Head) (kids : List (Node ι)) :
    o.Joins h (mapAll f kids) ↔ o.Joins h kids := by
  constructor
  · intro joins
    match kids with
    | [] | [.shape _ _] => cases joins
    | n :: n' :: ns => simpa [mapAll] using joins.length
    | [.group i (.transform b) grandkids] =>
      cases joins with
      | transforms on => exact .transforms on
    | [.group i (.material c) grandkids] =>
      cases joins with
      | materials on child free => exact .materials on child (by simpa using free)
  · intro joins
    cases joins with
    | transforms on => exact .transforms on
    | materials on child free => exact .materials on child (by simpa using free)

end Options

namespace Node

/- No rule applies at the node or below. But it may be an identity, which only the parent can take
out; a settled forest has none. -/
mutual
def Settled (o : Options) : Node κ → Prop
  | .shape _ _ => True
  | .group _ h kids => ¬o.Joins h kids ∧ SettledAll o kids

def SettledAll (o : Options) : List (Node κ) → Prop
  | [] => True
  | n :: ns => ¬(o.removeIdentities ∧ n.isIdentity) ∧ Settled o n ∧ SettledAll o ns
end

theorem SettledAll.mem {ns : List (Node κ)} (settled : SettledAll o ns) :
    ∀ n ∈ ns, n.Settled o := by
  induction ns with
  | nil => intro n mem; cases mem
  | cons m ns ih =>
    intro n mem
    obtain rfl | mem := List.mem_cons.1 mem
    · exact settled.2.1
    · exact ih settled.2.2 n mem

@[simp] theorem settledAll_append (ns ms : List (Node κ)) :
    SettledAll o (ns ++ ms) ↔ SettledAll o ns ∧ SettledAll o ms := by
  induction ns with
  | nil => simp [SettledAll]
  | cons n ns ih => simp [SettledAll, ih, and_assoc]

theorem settledAll_mapAll (f : ι → κ) (ns : List (Node ι)) :
    SettledAll o (mapAll f ns) ↔ SettledAll o ns := by
  induction ns using forest with
  | nil => rfl
  | shape i s ns ih => simp [mapAll, map, SettledAll, Settled, isIdentity, ih]
  | group i h kids ns inside ih =>
    have unit : (map f (.group i h kids)).isIdentity = (Node.group i h kids).isIdentity := by
      cases h <;> rfl
    simp only [mapAll, SettledAll, unit]
    simp only [map, Settled, Options.joins_mapAll, inside, ih]

theorem settledAll_spliced (n : Node κ) (settled : n.Settled o) : SettledAll o n.spliced := by
  obtain ⟨i, m, kids, rfl, -, same⟩ | ⟨other, same⟩ := n.spliced_eq
  · rw [same]
    exact settled.2
  · rw [same]
    exact ⟨fun both => by simp [other] at both, settled, trivial⟩

end Node

namespace Chain

theorem not_joins_along (outer a : Affine) (n : Node κ) :
    ¬o.Joins (.transform a) (along outer n).children := by
  fun_induction along outer n with
  | case1 outer i inner only ih => exact ih
  | case2 outer i inner kids many =>
    intro joins
    cases joins with
    | transforms on => exact many _ rfl
  | case3 outer n single other =>
    intro joins
    cases joins with
    | transforms on => exact other _ _ _ rfl

end Chain

namespace Options

theorem settled_merge (m : Affine) (kids : List (Node κ)) (settled : ∀ n ∈ kids, n.Settled o) :
    ∀ c ∈ (o.merge m kids).children, c.Settled o := by
  refine o.merge_keeps (P := fun ns => ∀ n ∈ ns, n.Settled o) ?_ m kids settled
  intro i a ns each
  have here : (Node.group i (.transform a) ns).Settled o := each _ List.mem_cons_self
  exact here.2.mem

theorem settledAll_merge (m : Affine) (kids : List (Node κ)) (settled : Node.SettledAll o kids) :
    Node.SettledAll o (o.merge m kids).children :=
  o.merge_keeps (fun _ _ _ all => all.2.1.2) m kids settled

theorem not_joins_merge (m a : Affine) (kids : List (Node κ)) :
    ¬o.Joins (.transform a) (o.merge m kids).children := by
  obtain ⟨only, rfl, -, same⟩ | ⟨off, same⟩ := o.merge_eq m kids
  · rw [same]
    exact Chain.not_joins_along m a only
  · rw [same]
    intro joins
    cases joins with
    | transforms on => exact off ⟨on, rfl⟩

theorem settledAll_splice (kids : List (Node κ)) (settled : ∀ n ∈ kids, n.Settled o) :
    Node.SettledAll o (o.splice kids).1 := by
  unfold splice
  split
  next =>
    induction kids with
    | nil => trivial
    | cons n ns ih =>
      have first := Node.settledAll_spliced n (settled n List.mem_cons_self)
      have others := ih fun m mem => settled m (List.mem_cons_of_mem n mem)
      exact (Node.settledAll_append _ _).2 ⟨first, others⟩
  next off =>
    induction kids with
    | nil => trivial
    | cons n ns ih =>
      have others := ih fun m mem => settled m (List.mem_cons_of_mem n mem)
      exact ⟨fun both => off both.1, settled n List.mem_cons_self, others⟩

theorem settled_reviseTransform (i : ι) (m : Affine) (kids : Gathered ι)
    (settled : ∀ n ∈ kids.nodes, n.Settled o) : (o.reviseTransform i m kids).1.node.Settled o := by
  have first := settled_merge m kids.nodes settled
  have spliced := settledAll_splice _ first
  exact ⟨not_joins_merge _ _ _, settledAll_merge _ _ spliced⟩

/- Squashed again the material would be, if its child could be squashed: both are known by the id of
the child. -/
theorem settled_squash (m : Material) (kids : List (Node (Option ι))) (refs : RefCount)
    (counted : ∀ x, refs.count x = Node.refsTo x kids) (settled : ∀ n ∈ kids, n.Settled o)
    (r : Revised ι) (done : o.squash m kids refs = some r) : r.node.Settled o := by
  obtain ⟨i, c, grandkids, rfl, joins, rfl⟩ := o.squash_some m kids refs counted r done
  obtain ⟨apart, below⟩ := settled _ List.mem_cons_self
  have same : (m.join c).id = c.id := rfl
  exact ⟨fun again => apart (again.of_id same), below⟩

theorem settled_reviseMaterial (i : ι) (m : Material) (kids : Gathered ι)
    (counted : kids.Counted) (settled : ∀ n ∈ kids.nodes, n.Settled o) :
    (o.reviseMaterial i m kids).1.node.Settled o := by
  have recounted := o.counted_splice kids counted
  have spliced := settledAll_splice kids.nodes settled
  unfold reviseMaterial
  split
  next r done => exact settled_squash m _ _ counted settled r done
  next =>
    dsimp only
    split
    next r done => exact settled_squash m _ _ recounted spliced.mem r done
    next refused => exact ⟨o.squash_none m _ _ recounted refused, spliced⟩

theorem settled_reviseGroup (i : ι) (h : Head) (done : List (Revised ι))
    (counted : ∀ r ∈ done, r.Counted) (settled : ∀ r ∈ done, r.node.Settled o) :
    (o.reviseGroup i h done).1.node.Settled o := by
  have each : ∀ n ∈ (Gathered.ofList done).nodes, n.Settled o := by
    rw [Gathered.nodes_ofList]
    exact List.forall_mem_map.2 settled
  cases h with
  | transform m => exact settled_reviseTransform i m _ each
  | material m => exact settled_reviseMaterial i m _ (Gathered.counted_ofList done counted) each

theorem settled_reviseAll (ns : List (Node ι)) : ∀ r ∈ (o.reviseAll ns).1, r.node.Settled o := by
  have both : ∀ r ∈ (o.reviseAll ns).1, r.Counted ∧ r.node.Settled o := by
    refine o.reviseAll_forall (fun i s => ?_) (fun i h done all => ?_) ns
    · exact ⟨.shape i s, trivial⟩
    · have counted := fun r mem => (all r mem).1
      have settled := fun r mem => (all r mem).2
      exact ⟨o.counted_reviseGroup i h done counted, settled_reviseGroup i h done counted settled⟩
  exact fun r mem => (both r mem).2

theorem merge_of_apart (m : Affine) (kids : List (Node κ))
    (apart : ¬o.Joins (.transform m) kids) : o.merge m kids = ⟨m, kids, 0⟩ := by
  obtain ⟨only, rfl, on, same⟩ | ⟨-, same⟩ := o.merge_eq m kids
  · rw [same]
    match only with
    | .shape _ _ | .group _ (.material _) _ => rfl
    | .group _ (.transform _) _ => exact absurd (.transforms on) apart
  · exact same

theorem splice_of_settled (kids : List (Node κ)) (settled : Node.SettledAll o kids) :
    o.splice kids = (kids, 0) := by
  unfold splice
  split
  next on =>
    induction kids with
    | nil => rfl
    | cons n ns ih =>
      obtain ⟨other, -, later⟩ := settled
      have plain : n.isIdentity = false := by simpa [on] using other
      obtain ⟨nodes, removed⟩ := Prod.mk.inj (ih later)
      rw [List.flatMap_cons, nodes, Node.spliced, plain, List.countP_cons, removed, plain]
      rfl
  next => rfl

theorem squash_of_apart (m : Material) (kids : List (Node (Option ι))) (refs : RefCount)
    (counted : ∀ x, refs.count x = Node.refsTo x kids) (apart : ¬o.Joins (.material m) kids) :
    o.squash m kids refs = none := by
  cases done : o.squash m kids refs with
  | none => rfl
  | some r =>
    obtain ⟨_, _, _, _, joins, _⟩ := o.squash_some m kids refs counted r done
    exact absurd joins apart

theorem reviseGroup_of_settled (o : Options) (i : ι) (h : Head) (done : List (Revised ι))
    (counted : ∀ r ∈ done, r.Counted) (unchanged : done.any Revised.changed = false)
    (apart : ¬o.Joins h (done.map Revised.node))
    (settled : Node.SettledAll o (done.map Revised.node)) :
    (o.reviseGroup i h done).1.node = .group (some i) h (done.map Revised.node) ∧
      (o.reviseGroup i h done).1.changed = false ∧ (o.reviseGroup i h done).2.applied = 0 := by
  have all := Gathered.counted_ofList done counted
  have spliced := splice_of_settled _ settled
  cases h with
  | transform m =>
    have merged := merge_of_apart m _ apart
    simp [reviseGroup, reviseTransform, merged, spliced, unchanged, keep, Tally.applied]
  | material m =>
    rw [← Gathered.nodes_ofList] at apart
    have refused := squash_of_apart m _ (Gathered.ofList done).refs all apart
    rw [Gathered.nodes_ofList] at refused
    simp [reviseGroup, reviseMaterial, refused, spliced, unchanged, keep, Tally.applied]

theorem reviseAll_of_settled (ns : List (Node ι)) (settled : Node.SettledAll o ns) :
    (o.reviseAll ns).1.map Revised.node = mapAll some ns ∧
      (o.reviseAll ns).1.any Revised.changed = false ∧ (o.reviseAll ns).2.applied = 0 := by
  induction ns using Node.forest with
  | nil => exact ⟨rfl, rfl, rfl⟩
  | shape i s ns ih =>
    obtain ⟨nodes, unchanged, applied⟩ := ih settled.2.2
    exact ⟨congrArg (Node.shape (some i) s :: ·) nodes, unchanged, by
      rw [reviseAll, revise]; simpa using applied⟩
  | group i h kids ns inside ih =>
    obtain ⟨-, ⟨apart, below⟩, later⟩ := settled
    obtain ⟨nodes, unchanged, applied⟩ := inside below
    obtain ⟨nodes', unchanged', applied'⟩ := ih later
    rw [← joins_mapAll some, ← nodes] at apart
    rw [← Node.settledAll_mapAll some, ← nodes] at below
    obtain ⟨node, same, none⟩ :=
      o.reviseGroup_of_settled i h _ (o.counted_reviseAll kids) unchanged apart below
    rw [nodes] at node
    refine ⟨?_, ?_, ?_⟩
    · rw [reviseAll, revise]
      simp only [List.map_cons, node, nodes']
      rfl
    · rw [reviseAll, revise]
      simp only [List.any_cons, same, unchanged', Bool.or_self]
    · rw [reviseAll, revise]
      simp only [Tally.applied_add, applied, none, applied', Nat.add_zero]

end Options

namespace Frame

theorem settled_optimize (o : Options) (f : Frame ι) :
    Node.SettledAll o (f.optimize o).1.root.children := by
  have each : ∀ n ∈ (Gathered.ofList (o.reviseAll f.root.children).1).nodes, n.Settled o := by
    rw [Gathered.nodes_ofList]
    exact List.forall_mem_map.2 (Options.settled_reviseAll f.root.children)
  rw [root_optimize]
  exact Options.settledAll_splice _ each

theorem optimize_of_settled (o : Options) (f : Frame ι)
    (settled : Node.SettledAll o f.root.children) :
    (f.optimize o).2.applied = 0 ∧ (f.optimize o).1 = f.map some := by
  obtain ⟨nodes, unchanged, applied⟩ := Options.reviseAll_of_settled f.root.children settled
  rw [← Node.settledAll_mapAll some, ← nodes] at settled
  have spliced := Options.splice_of_settled _ settled
  rw [nodes] at spliced
  have root : o.reviseRoot f.root (o.reviseAll f.root.children).1 =
      ((f.map some).root, ⟨1, 0, 0, 0⟩) := by
    simp [Options.reviseRoot, nodes, spliced, unchanged, keep, map]
  rw [optimize_eq]
  simp only [root, Tally.applied_add, applied]
  exact ⟨rfl, rfl⟩

/-- Once a frame has been optimized, whatever marks its nodes are given, optimizing it again applies
no rule and hands on the very same root and nodes. -/
theorem optimize_idempotent (o : Options) (f : Frame ι) (g : Frame κ)
    (done : g.bare = (f.optimize o).1.bare) :
    (g.optimize o).2.applied = 0 ∧ (g.optimize o).1 = g.map some := by
  have settled := f.settled_optimize o
  rw [← Node.settledAll_mapAll fun _ => ()] at settled
  have same : mapAll (fun _ => ()) g.root.children =
      mapAll (fun _ => ()) (f.optimize o).1.root.children :=
    congrArg (fun h => h.root.children) done
  rw [← same, Node.settledAll_mapAll] at settled
  exact g.optimize_of_settled o settled

theorem optimize_idempotent_nested :
    let circle (i : Nat) : Node Nat := .shape i (.circle ⟨0, 0⟩ 1)
    let outer : Material := ⟨"outer", rootId, ⟨some "red", none, none⟩⟩
    let inner : Material := ⟨"inner", "outer", ⟨none, some "blue", none⟩⟩
    let f : Frame Nat := ⟨⟨1, 1, .fit⟩, none, ⟨0, ⟨"white", "black", 1⟩,
      [.group 1 (.material outer) [.group 2 (.transform .identity) [.group 3 (.material inner)
        [circle 4]]]]⟩⟩
    let g : Frame Nat := ⟨⟨1, 1, .fit⟩, none, ⟨0, ⟨"white", "black", 1⟩,
      [.group 5 (.material (outer.join inner)) [circle 4]]⟩⟩
    g.bare = (f.optimize .allRules).1.bare ∧
      (g.optimize .allRules).2.applied = 0 ∧ (g.optimize .allRules).1 = g.map some := by
  intro circle outer inner f g
  have done : g.bare = (f.optimize .allRules).1.bare := by
    have unit := Affine.isIdentity_identity
    simp [optimize_eq, f, outer, inner, circle, Options.reviseAll, Options.revise,
      Options.reviseGroup, Options.reviseTransform, Options.reviseMaterial, Options.reviseRoot,
      Options.merge, Chain.below, Chain.along, Options.splice, Options.squash, Options.allRules,
      Gathered.ofList, Gathered.push, Gathered.empty, Node.spliced, Node.isIdentity, unit,
      Node.children, Revised.shape, rootId]
    rfl
  exact ⟨done, optimize_idempotent .allRules f g done⟩

end Frame
end SceneTree
