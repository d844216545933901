import SceneTree.Proofs.Styles

/-! The pass on bare scenes. What a pass makes of a scene, and what it counts, hangs on the heads of
the nodes alone. `settle` is the pass without marks of identity, counts of refs and notes of change,
and `bare_optimize` says that it comes to the same; passes are compared on it. -/
namespace SceneTree
open Node (materialsAll mapAll)
variable {ι κ κ' : Type} {o : Options}

def Head.isTransform : Head → Bool
  | .transform _ => true
  | .material _ => false

def Head.isMaterial : Head → Bool
  | .transform _ => false
  | .material _ => true

namespace Node

def has (p : Head → Bool) : Node κ → Bool
  | .shape _ _ => false
  | .group _ h _ => p h

/-- The change keeps groups with such heads, the children changed likewise, and makes no others. -/
structure Preserves (p : Head → Bool) (σ : Node κ → Node κ') : Prop where
  kept (i : κ) {h : Head} (kids : List (Node κ)) :
    p h → ∃ j, σ (.group i h kids) = .group j h (kids.map σ)
  other (n : Node κ) : n.has p = false → (σ n).has p = false

theorem preserves_map (p : Head → Bool) (f : ι → κ) : Preserves p (map f) where
  kept i _ kids _ := ⟨f i, by rw [map, mapAll_eq]⟩
  other n none := by
    cases n with
    | shape i s => rfl
    | group i h kids => exact none

theorem has_transform {n : Node κ} (transform : n.has Head.isTransform) :
    ∃ i m kids, n = .group i (.transform m) kids := by
  cases n with
  | shape i s => cases transform
  | group i h kids =>
    cases h with
    | transform m => exact ⟨i, m, kids, rfl⟩
    | material m => cases transform

theorem isIdentity_other (n : Node κ) (other : n.has Head.isTransform = false) :
    n.isIdentity = false := by
  match n with
  | .shape _ _ | .group _ (.material _) _ => rfl
  | .group _ (.transform _) _ => cases other

end Node

namespace Chain

theorem along_other (outer : Affine) (n : Node κ) (other : n.has Head.isTransform = false) :
    along outer n = ⟨outer, [n], 0⟩ := by
  match n with
  | .shape _ _ | .group _ (.material _) _ => rfl
  | .group _ (.transform _) _ => cases other

def map (σ : Node κ → Node κ') (c : Chain κ) : Chain κ' :=
  ⟨c.matrix, c.children.map σ, c.merged⟩

end Chain

section transforms
variable {σ : Node κ → Node κ'} (keeps : Node.Preserves Head.isTransform σ)
include keeps

theorem Chain.along_map (outer : Affine) (n : Node κ) :
    along outer (σ n) = (along outer n).map σ := by
  fun_induction along outer n with
  | case1 outer i inner only ih =>
    obtain ⟨j, same⟩ := keeps.kept i (h := .transform inner) [only] rfl
    rw [same]
    exact (below_transform outer inner j [σ only]).trans (congrArg oneMore ih)
  | case2 outer i inner kids many =>
    obtain ⟨j, same⟩ := keeps.kept i (h := .transform inner) kids rfl
    rw [same]
    obtain _ | ⟨first, _ | ⟨second, others⟩⟩ := kids
    · rfl
    · exact absurd rfl (many first)
    · rfl
  | case3 outer n single other =>
    have none : n.has Head.isTransform = false := by
      rw [← Bool.not_eq_true]
      intro transform
      obtain ⟨i, m, kids, rfl⟩ := Node.has_transform transform
      exact other i m kids rfl
    exact along_other outer (σ n) (keeps.other n none)

theorem Node.spliced_map (n : Node κ) :
    (σ n).isIdentity = n.isIdentity ∧ (σ n).spliced = n.spliced.map σ := by
  cases transform : n.has Head.isTransform with
  | false =>
    have here := n.isIdentity_other transform
    have there := (σ n).isIdentity_other (keeps.other n transform)
    simp [spliced, here, there]
  | true =>
    obtain ⟨i, m, kids, rfl⟩ := has_transform transform
    obtain ⟨j, same⟩ := keeps.kept i (h := .transform m) kids rfl
    rw [same]
    cases unit : m.isIdentity <;> simp [isIdentity, spliced, children, unit, same]

namespace Options

theorem merge_map (m : Affine) (kids : List (Node κ)) :
    o.merge m (kids.map σ) = (o.merge m kids).map σ := by
  by_cases on : o.mergeTransforms
  · match kids with
    | [only] =>
      simp only [merge, on, if_true]
      exact Chain.along_map keeps m only
    | [] | _ :: _ :: _ => simp [merge, on, Chain.below, Chain.map]
  · simp [merge, on, Chain.map]

theorem splice_map (kids : List (Node κ)) :
    o.splice (kids.map σ) = ((o.splice kids).1.map σ, (o.splice kids).2) := by
  have unit (n : Node κ) := (Node.spliced_map keeps n).1
  have spliced (n : Node κ) := (Node.spliced_map keeps n).2
  by_cases on : o.removeIdentities
  · simp only [splice, on, if_true, List.flatMap_map, spliced, List.map_flatMap, List.countP_map]
    congr 2
    funext n
    exact unit n
  · simp [splice, on]

end Options
end transforms

/-- A transform's chain when it has been merged, spliced and merged once more; second, how many
identities were spliced. -/
def Options.collapse (o : Options) (m : Affine) (kids : List (Node κ)) : Chain κ × Nat :=
  let first := o.merge m kids
  let (spliced, removed) := o.splice first.children
  let second := o.merge first.matrix spliced
  (⟨second.matrix, second.children, first.merged + second.merged⟩, removed)

theorem Options.collapse_map {σ : Node κ → Node κ'} (keeps : Node.Preserves Head.isTransform σ)
    (m : Affine) (kids : List (Node κ)) :
    o.collapse m (kids.map σ) = ((o.collapse m kids).1.map σ, (o.collapse m kids).2) := by
  simp [collapse, merge_map keeps, splice_map keeps, Chain.map]

structure Fusion (κ : Type) where
  material : Material
  children : List (Node κ)
  squashed : Nat

def Fusion.map (σ : Node κ → Node κ') (c : Fusion κ) : Fusion κ' :=
  ⟨c.material, c.children.map σ, c.squashed⟩

namespace Options

def fuse (o : Options) (m : Material) : List (Node κ) → Fusion κ
  | [.group i (.material c) kids] =>
    if o.squashMaterials ∧ c.ref = m.id ∧ m.id ∉ (materialsAll kids).map Material.ref then
      ⟨m.join c, kids, 1⟩
    else ⟨m, [.group i (.material c) kids], 0⟩
  | kids => ⟨m, kids, 0⟩

theorem fuse_eq (o : Options) (m : Material) (kids : List (Node κ)) :
    (∃ i c ks, kids = [.group i (.material c) ks] ∧ o.Joins (.material m) kids ∧
      o.fuse m kids = ⟨m.join c, ks, 1⟩) ∨
    ¬o.Joins (.material m) kids ∧ o.fuse m kids = ⟨m, kids, 0⟩ := by
  match kids with
  | [] | [.shape _ _] | [.group _ (.transform _) _] | _ :: _ :: _ =>
    refine .inr ⟨fun joins => ?_, by simp [fuse]⟩
    cases joins
  | [.group i (.material c) ks] =>
    by_cases fits : o.squashMaterials ∧ c.ref = m.id ∧ m.id ∉ (materialsAll ks).map Material.ref
    · obtain ⟨on, child, free⟩ := fits
      have apart : ∀ x ∈ materialsAll ks, x.ref ≠ m.id := by simpa using free
      exact .inl ⟨i, c, ks, rfl, .materials on child apart, if_pos ⟨on, child, free⟩⟩
    · refine .inr ⟨fun joins => ?_, if_neg fits⟩
      cases joins with
      | materials on child free => exact fits ⟨on, child, by simpa using free⟩

theorem fuse_other (o : Options) (m : Material) (n : Node κ)
    (other : n.has Head.isMaterial = false) : o.fuse m [n] = ⟨m, [n], 0⟩ := by
  match n with
  | .shape _ _ | .group _ (.transform _) _ => rfl
  | .group _ (.material _) _ => cases other

theorem fuse_map {σ : Node κ → Node κ'} (keeps : Node.Preserves Head.isMaterial σ)
    (refs : ∀ ns, (materialsAll (ns.map σ)).map Material.ref = (materialsAll ns).map Material.ref)
    (m : Material) (kids : List (Node κ)) : o.fuse m (kids.map σ) = (o.fuse m kids).map σ := by
  match kids with
  | [] | _ :: _ :: _ => simp [fuse, Fusion.map]
  | [n] =>
    cases material : n.has Head.isMaterial with
    | false =>
      have there := o.fuse_other m (σ n) (keeps.other n material)
      rw [o.fuse_other m n material]
      exact there
    | true =>
      match n with
      | .shape _ _ | .group _ (.transform _) _ => cases material
      | .group i (.material c) ks =>
        obtain ⟨j, same⟩ := keeps.kept i (h := .material c) ks rfl
        simp only [List.map_cons, List.map_nil, same, fuse, refs]
        split <;> simp [Fusion.map, same]

/-- What a group becomes by the rules applied at it, and what they count. -/
def regroup (o : Options) (h : Head) (kids : List (Node Unit)) : Node Unit × Tally :=
  match h with
  | .transform m =>
    let (c, removed) := o.collapse m kids
    (.group () (.transform c.matrix) c.children, ⟨1, c.merged, 0, removed⟩)
  | .material m =>
    let (spliced, removed) := o.splice kids
    let c := o.fuse m spliced
    (.group () (.material c.material) c.children, ⟨1, 0, c.squashed, removed⟩)

mutual
def settle (o : Options) : Node Unit → Node Unit × Tally
  | .shape i s => (.shape i s, .zero)
  | .group _ h kids =>
    let (done, below) := settleAll o kids
    let (n, here) := o.regroup h done
    (n, below.add here)

def settleAll (o : Options) : List (Node Unit) → List (Node Unit) × Tally
  | [] => ([], .zero)
  | n :: ns =>
    let (m, first) := settle o n
    let (ms, others) := settleAll o ns
    (m :: ms, first.add others)
end

@[simp] theorem settleAll_nil (o : Options) : o.settleAll [] = ([], .zero) := rfl

theorem settle_group (o : Options) (i : Unit) (h : Head) (kids : List (Node Unit)) :
    o.settle (.group i h kids) =
      ((o.regroup h (o.settleAll kids).1).1,
        (o.settleAll kids).2.add (o.regroup h (o.settleAll kids).1).2) :=
  rfl

theorem settleAll_group (o : Options) (i : Unit) (h : Head) (kids ns : List (Node Unit)) :
    o.settleAll (.group i h kids :: ns) =
      ((o.regroup h (o.settleAll kids).1).1 :: (o.settleAll ns).1,
        ((o.settleAll kids).2.add (o.regroup h (o.settleAll kids).1).2).add (o.settleAll ns).2) :=
  rfl

end Options

namespace Node

theorem preserves_bare (p : Head → Bool) : Preserves p (bare (κ := κ)) := preserves_map p _

theorem bare_group (i : κ) (h : Head) (kids : List (Node κ)) :
    (Node.group i h kids).bare = .group () h (kids.map bare) := by
  rw [bare, map, mapAll_eq]
  rfl

theorem materialsAll_bare (ns : List (Node κ)) : materialsAll (ns.map bare) = materialsAll ns := by
  have same := materialsAll_mapAll (fun _ => ()) ns
  rwa [mapAll_eq] at same

end Node

namespace Options

theorem fuse_of_squash (o : Options) (m : Material) (kids : List (Node (Option ι)))
    (refs : RefCount) (counted : ∀ x, refs.count x = Node.refsTo x kids) {r : Revised ι}
    (done : o.squash m kids refs = some r) :
    o.splice kids = (kids, 0) ∧ (o.fuse m kids).squashed = 1 ∧
      r.node = .group none (.material (o.fuse m kids).material) (o.fuse m kids).children := by
  obtain ⟨i, c, grandkids, rfl, joins, rfl⟩ := o.squash_some m kids refs counted r done
  obtain ⟨_, _, _, same, -, fused⟩ | ⟨apart, -⟩ := o.fuse_eq m [.group i (.material c) grandkids]
  · cases same
    rw [fused]
    exact ⟨by simp [splice, Node.spliced, Node.isIdentity], rfl, rfl⟩
  · exact absurd joins apart

theorem fuse_of_refused (o : Options) (m : Material) (kids : List (Node (Option ι)))
    (refs : RefCount) (counted : ∀ x, refs.count x = Node.refsTo x kids)
    (refused : o.squash m kids refs = none) : o.fuse m kids = ⟨m, kids, 0⟩ := by
  obtain ⟨_, _, _, -, joins, -⟩ | ⟨-, same⟩ := o.fuse_eq m kids
  · exact absurd joins (o.squash_none m kids refs counted refused)
  · exact same

theorem regroup_reviseTransform (o : Options) (i : ι) (m : Affine) (g : Gathered ι) :
    ((o.reviseTransform i m g).1.node.bare, (o.reviseTransform i m g).2) =
      o.regroup (.transform m) (g.nodes.map Node.bare) := by
  simp only [regroup, collapse_map (Node.preserves_bare _)]
  rw [reviseTransform, Node.bare_group]
  rfl

/-- A squash before splicing is one after it: what is squashed at once has no identity beside it. -/
theorem reviseMaterial_eq (o : Options) (i : ι) (m : Material) (g : Gathered ι)
    (counted : g.Counted) :
    let c := o.fuse m (o.splice g.nodes).1
    (∃ j, (o.reviseMaterial i m g).1.node = .group j (.material c.material) c.children) ∧
      (o.reviseMaterial i m g).2 = ⟨1, 0, c.squashed, (o.splice g.nodes).2⟩ := by
  unfold reviseMaterial
  split
  next r done =>
    obtain ⟨still, squashed, node⟩ := o.fuse_of_squash m g.nodes g.refs counted done
    rw [still]
    exact ⟨⟨none, node⟩, by rw [squashed]⟩
  next =>
    dsimp only
    split
    next r done =>
      obtain ⟨-, squashed, node⟩ := o.fuse_of_squash m _ g.refs (o.counted_splice g counted) done
      exact ⟨⟨none, node⟩, by rw [squashed]⟩
    next refused =>
      rw [o.fuse_of_refused m _ g.refs (o.counted_splice g counted) refused]
      exact ⟨⟨_, rfl⟩, rfl⟩

theorem regroup_reviseMaterial (o : Options) (i : ι) (m : Material) (g : Gathered ι)
    (counted : g.Counted) :
    ((o.reviseMaterial i m g).1.node.bare, (o.reviseMaterial i m g).2) =
      o.regroup (.material m) (g.nodes.map Node.bare) := by
  have refs (ns : List (Node (Option ι))) :
      (materialsAll (ns.map Node.bare)).map Material.ref = (materialsAll ns).map Material.ref := by
    rw [Node.materialsAll_bare]
  obtain ⟨⟨j, node⟩, counts⟩ := o.reviseMaterial_eq i m g counted
  simp only [regroup, splice_map (Node.preserves_bare _), fuse_map (Node.preserves_bare _) refs]
  rw [node, counts, Node.bare_group]
  rfl

theorem regroup_reviseGroup (o : Options) (i : ι) (h : Head) (done : List (Revised ι))
    (counted : ∀ r ∈ done, r.Counted) :
    ((o.reviseGroup i h done).1.node.bare, (o.reviseGroup i h done).2) =
      o.regroup h ((done.map Revised.node).map Node.bare) := by
  rw [← Gathered.nodes_ofList]
  cases h with
  | transform m => exact o.regroup_reviseTransform i m _
  | material m =>
    exact o.regroup_reviseMaterial i m _ (Gathered.counted_ofList done counted)

/-- Without its marks, a scene comes out of the pass as `settle` makes it, with the same counts. -/
theorem settleAll_bare (o : Options) (ns : List (Node ι)) :
    o.settleAll (ns.map Node.bare) =
      (((o.reviseAll ns).1.map Revised.node).map Node.bare, (o.reviseAll ns).2) := by
  induction ns using Node.forest with
  | nil => rfl
  | shape i s ns ih =>
    rw [List.map_cons, Node.bare, Node.map, settleAll, ih]
    rfl
  | group i h kids ns inside ih =>
    have here := o.regroup_reviseGroup i h _ (o.counted_reviseAll kids)
    rw [List.map_cons, Node.bare_group, settleAll_group, inside, ih, ← here]
    rfl

end Options

namespace Options

theorem settleAll_append (o : Options) (ns ms : List (Node Unit)) :
    o.settleAll (ns ++ ms) =
      ((o.settleAll ns).1 ++ (o.settleAll ms).1, (o.settleAll ns).2.add (o.settleAll ms).2) := by
  induction ns with
  | nil => simp
  | cons n ns ih => simp [settleAll, ih, Tally.add_assoc]

theorem settleAll_fst (o : Options) (ns : List (Node Unit)) :
    (o.settleAll ns).1 = ns.map fun n => (o.settle n).1 := by
  induction ns with
  | nil => rfl
  | cons n ns ih => rw [settleAll, List.map_cons, ← ih]

end Options

namespace Frame

/-- A pass over a bare frame. -/
def settle (f : Frame Unit) (o : Options) : Frame Unit × Tally :=
  let (done, below) := o.settleAll f.root.children
  let (spliced, removed) := o.splice done
  ({ f with root := { f.root with children := spliced } }, below.add ⟨1, 0, 0, removed⟩)

theorem bare_eq (f : Frame κ) :
    f.bare = ⟨f.viewport, f.background, (), f.root.paint, f.root.children.map Node.bare⟩ := by
  rw [bare, map, Node.mapAll_eq]
  rfl

theorem bare_optimize (o : Options) (f : Frame ι) :
    ((f.optimize o).1.bare, (f.optimize o).2) = f.bare.settle o := by
  rw [settle, bare_eq f, o.settleAll_bare, optimize_eq, bare_eq]
  simp only [Options.reviseRoot, Gathered.nodes_ofList, Options.splice_map (Node.preserves_bare _)]

end Frame
end SceneTree
