import SceneTree.Proofs.Parts

/-! Nests of transforms. However deep they are, they become one transform, and its matrix is the
product of theirs, bracketed from the inside. What is an identity is only asked of that product: an
inner one is merged before it could be removed. -/
namespace SceneTree
variable {ι κ : Type} {o : Options}

/-- `a₁ (a₂ (… aₙ))`, rounded in this order. -/
def Affine.product (a : Affine) : List Affine → Affine
  | [] => a
  | b :: others => a.compose (product b others)

namespace Options

theorem merge_plain (o : Options) (m : Affine) {kids : List (Node κ)}
    (plain : ∀ k ∈ kids, k.has Head.isTransform = false) : o.merge m kids = ⟨m, kids, 0⟩ := by
  obtain ⟨only, rfl, -, same⟩ | ⟨-, same⟩ := o.merge_eq m kids
  · rw [same, Chain.along_other m only (plain only List.mem_cons_self)]
  · exact same

theorem collapse_plain (o : Options) (m : Affine) {kids : List (Node κ)}
    (plain : ∀ k ∈ kids, k.has Head.isTransform = false) :
    o.collapse m kids = (⟨m, kids, 0⟩, 0) := by
  simp only [collapse, o.merge_plain m plain, o.splice_plain plain]

/-- A transform is multiplied with the one inside it, whether or not that one is an identity. -/
theorem collapse_transform (on : o.mergeTransforms) (m a : Affine) (i : κ) {kids : List (Node κ)}
    (plain : ∀ k ∈ kids, k.has Head.isTransform = false) :
    o.collapse m [.group i (.transform a) kids] = (⟨m.compose a, kids, 1⟩, 0) := by
  have merged : o.merge m [.group i (.transform a) kids] = ⟨m.compose a, kids, 1⟩ := by
    have inner := o.merge_plain (m.compose a) plain
    simp only [merge, on, if_true] at inner ⊢
    rw [Chain.below_transform, inner]
    rfl
  simp only [collapse, merged, o.merge_plain _ plain, o.splice_plain plain]

theorem reviseAll_nest (on : o.mergeTransforms) {ks : List (Node ι)}
    (plain : ∀ k ∈ ks, k.kind ≠ .transform) (first : ι × Affine) (inner : List (ι × Affine)) :
    let below := o.reviseAll ks
    let all := o.reviseAll (Node.nest .transform (first :: inner) ks)
    (∃ i, all.1.map Revised.node =
      [.group i (.transform (first.2.product (inner.map Prod.snd))) (below.1.map Revised.node)]) ∧
    all.2.merged = below.2.merged + inner.length ∧ all.2.squashed = below.2.squashed ∧
      all.2.removed = below.2.removed := by
  have after := o.plain_reviseAll plain
  induction inner generalizing first with
  | nil =>
    obtain ⟨node, counts⟩ := o.reviseAll_transform first.1 first.2 ks
    rw [o.collapse_plain _ after] at node counts
    simp only [Node.nest, counts]
    exact ⟨node, rfl, rfl, rfl⟩
  | cons second inner ih =>
    obtain ⟨⟨j, inside⟩, merged, squashed, removed⟩ := ih second
    obtain ⟨node, counts⟩ := o.reviseAll_transform first.1 first.2
      (Node.nest .transform (second :: inner) ks)
    rw [inside, collapse_transform on _ _ _ after] at node counts
    rw [Node.nest]
    dsimp only
    rw [counts]
    refine ⟨node, ?_, squashed, removed⟩
    simp only [Tally.add, merged, List.length_cons]
    omega

end Options

namespace Frame

theorem part_nest (on : o.mergeTransforms) (f : Frame ι) {ks : List (Node ι)}
    (plain : ∀ k ∈ ks, k.kind ≠ .transform) (first : ι × Affine) (inner : List (ι × Affine)) :
    let all := f.part o (Node.nest .transform (first :: inner) ks)
    let product := first.2.product (inner.map Prod.snd)
    let gone := o.removeIdentities && product.isIdentity
    (∃ i, all.1 =
      if gone then (f.part o ks).1 else [.group i (.transform product) (f.part o ks).1]) ∧
    all.2.merged = (f.part o ks).2.merged + inner.length ∧
    all.2.squashed = (f.part o ks).2.squashed ∧
    all.2.removed = (f.part o ks).2.removed + gone.toNat := by
  intro all product gone
  obtain ⟨⟨i, node⟩, merged, squashed, removed⟩ := Options.reviseAll_nest on plain first inner
  have after := o.splice_plain (o.plain_reviseAll plain)
  have top : o.splice [.group i (.transform product) ((o.reviseAll ks).1.map Revised.node)] =
      (if gone then (o.reviseAll ks).1.map Revised.node
        else [.group i (.transform product) ((o.reviseAll ks).1.map Revised.node)],
        gone.toNat) := by
    cases on' : o.removeIdentities <;> cases unit : product.isIdentity <;>
      simp [Options.splice, gone, Node.spliced, Node.isIdentity, Node.children, on', unit]
  simp only [all, part_eq, node, after]
  rw [top]
  refine ⟨⟨i, rfl⟩, ?_, ?_, ?_⟩
  · simp only [Tally.add, merged, Nat.add_zero]
  · simp only [Tally.add, squashed]
  · simp only [Tally.add, removed, Nat.add_zero]

/-- A nest of transforms around nodes that are no transforms becomes one transform around what
becomes of these. Its matrix is the product of all, and one merge less than there are transforms is
counted for it. If that product is an identity that is removed, only the nodes stand in its place;
what has become of the nodes beside it stands around, as it would without the nest. -/
theorem chain_product (o : Options) (on : o.mergeTransforms) (f : Frame ι)
    (xs ys ks : List (Node ι)) (plain : ∀ k ∈ ks, k.kind ≠ .transform) (first : ι × Affine)
    (inner : List (ι × Affine)) :
    let all := f.part o (xs ++ Node.nest .transform (first :: inner) ks ++ ys)
    let product := first.2.product (inner.map Prod.snd)
    let gone := o.removeIdentities && product.isIdentity
    (∃ i, all.1 = (f.part o xs).1 ++ (if gone then (f.part o ks).1
        else [.group i (.transform product) (f.part o ks).1]) ++ (f.part o ys).1) ∧
    all.2.merged = (f.part o xs).2.merged + ((f.part o ks).2.merged + inner.length) +
      (f.part o ys).2.merged ∧
    all.2.squashed = (f.part o xs).2.squashed + (f.part o ks).2.squashed +
      (f.part o ys).2.squashed ∧
    all.2.removed = (f.part o xs).2.removed + ((f.part o ks).2.removed + gone.toNat) +
      (f.part o ys).2.removed := by
  intro all product gone
  obtain ⟨⟨i, here⟩, merged, squashed, removed⟩ := f.part_nest on plain first inner
  obtain ⟨whole, merges, squashes, removals⟩ :=
    f.part_between o xs (Node.nest .transform (first :: inner) ks) ys
  refine ⟨⟨i, ?_⟩, ?_, ?_, ?_⟩
  · rw [whole, here]
  · rw [merges, merged]
  · rw [squashes, squashed]
  · rw [removals, removed]

theorem chain_product_return :
    let f : Frame Nat := ⟨⟨1, 1, .fit⟩, none, ⟨0, ⟨"white", "black", 1⟩, []⟩⟩
    let circle (i : Nat) : Node Nat := .shape i (.circle ⟨0, 0⟩ 1)
    let part := f.part .allRules
    let all := part ([circle 1] ++ Node.nest .transform
      [(2, .translate 3 0), (3, .identity), (4, .translate (-3) 0)] [circle 5] ++ [circle 6])
    (Options.allRules.mergeTransforms ∧ ∀ k ∈ [circle 5], k.kind ≠ .transform) ∧
      all.1 = (part [circle 1]).1 ++ (part [circle 5]).1 ++ (part [circle 6]).1 ∧
      all.2.merged = (part [circle 1]).2.merged + ((part [circle 5]).2.merged + 2) +
        (part [circle 6]).2.merged ∧
      all.2.removed = (part [circle 1]).2.removed + ((part [circle 5]).2.removed + 1) +
        (part [circle 6]).2.removed := by
  intro f circle part all
  have plain : ∀ k ∈ [circle 5], k.kind ≠ .transform := by decide
  have unit : (Options.allRules.removeIdentities && ((Affine.translate 3 0).product
      [.identity, .translate (-3) 0]).isIdentity) = true := by decide +kernel
  obtain ⟨⟨i, nodes⟩, merged, -, removed⟩ := f.chain_product .allRules rfl [circle 1] [circle 6]
    [circle 5] plain (2, .translate 3 0) [(3, .identity), (4, .translate (-3) 0)]
  simp only [List.map_cons, List.map_nil] at nodes removed
  rw [unit] at nodes removed
  exact ⟨⟨rfl, plain⟩, nodes, merged, removed⟩

end Frame
end SceneTree
