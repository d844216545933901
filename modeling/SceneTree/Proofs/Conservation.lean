import SceneTree.Proofs.Separation
import SceneTree.Proofs.Sharing

/-! Nothing is lost in a pass that is not counted. Every rule takes one node away, a merge or a
removal a transform and a squash a material; so for nodes of any kinds, those after the pass and
those counted are together the ones before it. -/
namespace SceneTree
open Node (preorderAll)
variable {ι κ : Type}

def Kind.isGroup : Kind → Bool
  | .material | .transform => true
  | .circle | .line | .rectangle | .image => false

namespace Node

/-- How many nodes of a forest are of certain kinds. -/
def countKind (p : Kind → Bool) (ns : List (Node κ)) : Nat :=
  (preorderAll ns []).countP fun n => p n.kind

variable (p : Kind → Bool)

@[simp] theorem countKind_nil : countKind p ([] : List (Node κ)) = 0 := rfl

@[simp] theorem countKind_shape (i : κ) (s : Shape) (ns : List (Node κ)) :
    countKind p (.shape i s :: ns) = (p s.kind).toNat + countKind p ns := by
  rw [countKind, preorderAll, preorder, List.countP_cons, countKind, kind, Nat.add_comm]
  cases p s.kind <;> rfl

@[simp] theorem countKind_group (i : κ) (h : Head) (kids ns : List (Node κ)) :
    countKind p (.group i h kids :: ns) =
      (p h.kind).toNat + countKind p kids + countKind p ns := by
  rw [countKind, preorderAll, preorder, preorderAll_rest, List.countP_cons, List.countP_append,
    ← countKind, ← countKind, kind]
  cases p h.kind
  · simp
  · simp only [Bool.toNat_true, if_true]
    omega

@[simp] theorem countKind_append (ns ms : List (Node κ)) :
    countKind p (ns ++ ms) = countKind p ns + countKind p ms := by
  rw [countKind, preorderAll_append, preorderAll_rest, List.countP_append, ← countKind, ← countKind]

theorem countKind_bare (ns : List (Node κ)) : countKind p (ns.map bare) = countKind p ns := by
  induction ns using forest with
  | nil => rfl
  | shape i s ns ih =>
    rw [List.map_cons, countKind_shape, ← ih]
    exact countKind_shape p () s _
  | group i h kids ns inside ih =>
    rw [List.map_cons, bare_group, countKind_group, countKind_group, inside, ih]

end Node

/-- How many nodes of certain kinds the rules have taken away. -/
def Tally.taken (p : Kind → Bool) (t : Tally) : Nat :=
  (p .material).toNat * t.squashed + (p .transform).toNat * (t.merged + t.removed)

theorem Tally.taken_add (p : Kind → Bool) (s t : Tally) :
    (s.add t).taken p = s.taken p + t.taken p := by
  simp only [taken, add, Nat.mul_add]
  omega

open Node (countKind)
variable (p : Kind → Bool)

theorem Chain.countKind_along (outer : Affine) (n : Node κ) :
    countKind p (along outer n).children + (p .transform).toNat * (along outer n).merged =
      countKind p [n] := by
  fun_induction along outer n with
  | case1 outer i inner only ih =>
    simp only [oneMore, Node.countKind_group, Head.kind, Node.countKind_nil, Nat.mul_add_one]
    omega
  | case2 outer i inner kids many =>
    simp only [Node.countKind_group, Head.kind, Node.countKind_nil, Nat.mul_one]
    omega
  | case3 outer n other => rfl

theorem Node.countKind_spliced (n : Node κ) :
    countKind p n.spliced + (p .transform).toNat * n.isIdentity.toNat = countKind p [n] := by
  obtain ⟨i, m, kids, rfl, unit, same⟩ | ⟨other, same⟩ := n.spliced_eq
  · simp only [same, isIdentity, unit, countKind_group, Head.kind, countKind_nil, Bool.toNat_true]
    omega
  · simp [same, other]

namespace Options

theorem countKind_merge (o : Options) (m : Affine) (kids : List (Node κ)) :
    countKind p (o.merge m kids).children + (p .transform).toNat * (o.merge m kids).merged =
      countKind p kids := by
  obtain ⟨only, rfl, -, same⟩ | ⟨-, same⟩ := o.merge_eq m kids
  · rw [same, Chain.countKind_along]
  · rw [same]
    rfl

theorem countKind_splice (o : Options) (kids : List (Node κ)) :
    countKind p (o.splice kids).1 + (p .transform).toNat * (o.splice kids).2 =
      countKind p kids := by
  unfold splice
  split
  next =>
    induction kids with
    | nil => rfl
    | cons n ns ih =>
      have here := n.countKind_spliced p
      have both := Node.countKind_append p [n] ns
      have units : (n :: ns).countP Node.isIdentity =
          n.isIdentity.toNat + ns.countP Node.isIdentity := by
        cases unit : n.isIdentity <;> simp [unit, Nat.add_comm]
      rw [List.singleton_append] at both
      simp only [List.flatMap_cons, Node.countKind_append, units, Nat.mul_add] at ih ⊢
      omega
  next => rfl

theorem countKind_fuse (o : Options) (m : Material) (kids : List (Node κ)) :
    countKind p (o.fuse m kids).children + (p .material).toNat * (o.fuse m kids).squashed =
      countKind p kids := by
  obtain ⟨i, c, ks, rfl, -, fused⟩ | ⟨-, fused⟩ := o.fuse_eq m kids
  · simp only [fused, Node.countKind_group, Head.kind, Node.countKind_nil]
    omega
  · rw [fused]
    rfl

theorem countKind_regroup (o : Options) (i : Unit) (h : Head) (kids : List (Node Unit)) :
    countKind p [(o.regroup h kids).1] + (o.regroup h kids).2.taken p =
      countKind p [.group i h kids] := by
  cases h with
  | transform m =>
    have first := o.countKind_merge p m kids
    have spliced := o.countKind_splice p (o.merge m kids).children
    have second := o.countKind_merge p (o.merge m kids).matrix
      (o.splice (o.merge m kids).children).1
    simp only [regroup, collapse, Tally.taken, Node.countKind_group, Head.kind,
      Node.countKind_nil, Nat.mul_add]
    omega
  | material m =>
    have spliced := o.countKind_splice p kids
    have fused := o.countKind_fuse p m (o.splice kids).1
    simp only [regroup, Tally.taken, Node.countKind_group, Head.kind, Node.countKind_nil,
      Nat.mul_add]
    omega

theorem settleAll_shape (o : Options) (i : Unit) (s : Shape) (ns : List (Node Unit)) :
    o.settleAll (.shape i s :: ns) = (.shape i s :: (o.settleAll ns).1, (o.settleAll ns).2) := by
  rw [settleAll, settle]
  exact Prod.ext rfl (Tally.zero_add _)

/-- What a pass leaves and what it counts are together what was there. -/
theorem countKind_settleAll (o : Options) (ns : List (Node Unit)) :
    countKind p (o.settleAll ns).1 + (o.settleAll ns).2.taken p = countKind p ns := by
  induction ns using Node.forest with
  | nil => simp [Tally.taken, Tally.zero]
  | shape i s ns ih =>
    simp only [settleAll_shape, Node.countKind_shape, ← ih]
    omega
  | group i h kids ns inside ih =>
    have here := o.countKind_regroup p () h (o.settleAll kids).1
    have first := Node.countKind_append p [(o.regroup h (o.settleAll kids).1).1] (o.settleAll ns).1
    rw [settleAll_group, Tally.taken_add, Tally.taken_add]
    simp only [List.singleton_append, Node.countKind_group, Node.countKind_nil] at here first ⊢
    omega

theorem visited_settleAll (o : Options) (ns : List (Node Unit)) :
    (o.settleAll ns).2.visited = countKind Kind.isGroup ns := by
  induction ns using Node.forest with
  | nil => rfl
  | shape i s ns ih =>
    have leaf : s.kind.isGroup = false := by cases s <;> rfl
    rw [settleAll_shape, Node.countKind_shape, leaf, ih, Bool.toNat_false, Nat.zero_add]
  | group i h kids ns inside ih =>
    have once : (o.regroup h (o.settleAll kids).1).2.visited = 1 := by cases h <;> rfl
    have group : h.kind.isGroup = true := by cases h <;> rfl
    simp only [settleAll_group, Tally.add, Node.countKind_group, inside, ih, once, group,
      Bool.toNat_true]
    omega

theorem squashed_settleAll {o : Options} (off : o.squashMaterials = false)
    (ns : List (Node Unit)) : (o.settleAll ns).2.squashed = 0 := by
  refine settleAll_none Tally.squashed rfl (fun _ _ => rfl) (fun h kids => ?_) ns
  cases h <;> simp [regroup, fuse_off off]

end Options

namespace Frame

def countKind (f : Frame κ) (p : Kind → Bool) : Nat := f.nodes.countP fun n => p n.kind

theorem countKind_eq (f : Frame κ) : f.countKind p = Node.countKind p f.root.children := rfl

theorem countKind_bare (f : Frame κ) : f.bare.countKind p = f.countKind p := by
  rw [bare_eq]
  exact Node.countKind_bare p f.root.children

theorem countKind_settle (o : Options) (f : Frame Unit) :
    (f.settle o).1.countKind p + (f.settle o).2.taken p = f.countKind p := by
  have below := o.countKind_settleAll p f.root.children
  have spliced := o.countKind_splice p (o.settleAll f.root.children).1
  have root (removed : Nat) :
      Tally.taken p ⟨1, 0, 0, removed⟩ = (p .transform).toNat * removed := by
    simp [Tally.taken]
  simp only [countKind_eq, settle, Tally.taken_add, root]
  omega

theorem countKind_optimize (o : Options) (f : Frame ι) :
    (f.optimize o).1.countKind p + (f.optimize o).2.taken p = f.countKind p := by
  have settled := f.bare.countKind_settle p o
  rwa [← f.bare_optimize o, countKind_bare, countKind_bare] at settled

theorem visited_optimize (o : Options) (f : Frame ι) :
    (f.optimize o).2.visited = 1 + f.countKind Kind.isGroup := by
  have below := o.visited_settleAll f.bare.root.children
  have counted : (f.optimize o).2 = (f.bare.settle o).2 := congrArg Prod.snd (f.bare_optimize o)
  rw [counted, settle, ← f.countKind_bare, Nat.add_comm]
  exact congrArg (· + 1) below

/-- A pass takes away no shape, and it counts each material and each transform that it takes away,
under the one rule that did it. It visits the root and every group once. A rule that is off counts
nothing. -/
theorem nodes_accounted (o : Options) (f : Frame ι) :
    let g := (f.optimize o).1
    let t := (f.optimize o).2
    (g.leaves.length = f.leaves.length ∧
      g.countKind (!·.isGroup) = f.countKind (!·.isGroup)) ∧
    g.countKind (· = .material) + t.squashed = f.countKind (· = .material) ∧
    g.countKind (· = .transform) + t.merged + t.removed = f.countKind (· = .transform) ∧
    g.count + t.applied = f.count ∧
    t.visited = 1 + f.countKind Kind.isGroup ∧
    (o.mergeTransforms = false → t.merged = 0) ∧
    (o.squashMaterials = false → t.squashed = 0) ∧
    (o.removeIdentities = false → t.removed = 0) := by
  have counted : (f.optimize o).2 = (f.bare.settle o).2 := congrArg Prod.snd (f.bare_optimize o)
  have shapes := f.countKind_optimize (!·.isGroup) o
  have materials := f.countKind_optimize (· = .material) o
  have transforms := f.countKind_optimize (· = .transform) o
  intro g t
  refine ⟨⟨(f.leaves_same o).length_eq.symm, ?_⟩, ?_, ?_, f.count_optimize o, f.visited_optimize o,
    ?_, ?_, ?_⟩
  · simpa [Tally.taken, Kind.isGroup] using shapes
  · simpa [Tally.taken] using materials
  · simpa [Tally.taken, Nat.add_assoc] using transforms
  · intro off
    simp [t, counted, settle, Tally.add, Options.merged_settleAll off]
  · intro off
    simp [t, counted, settle, Tally.add, Options.squashed_settleAll off]
  · intro off
    simp [t, counted, settle, Tally.add, Options.removed_settleAll off, Options.splice_off off]

end Frame
end SceneTree
