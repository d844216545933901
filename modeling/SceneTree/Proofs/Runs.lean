import SceneTree.Proofs.Parts
import SceneTree.Proofs.Settled

/-! Nests of materials, each referring to the one around it. A material is squashed with the next
unless something further below needs it. So the nest comes apart into runs, each of which becomes
one material. -/
namespace SceneTree
open Node (materialsAll mapAll refsTo)
open Relation (ReflTransGen)
variable {ι κ α : Type} {o : Options}

/-- A list in runs, each by its first element and its others. A run ends at each place in `ends`,
and nowhere else but with the list. -/
def runs (ends : Nat → Bool) : List α → List (α × List α)
  | [] => []
  | a :: as =>
    match runs (fun i => ends (i + 1)) as with
    | [] => [(a, [])]
    | (b, bs) :: others => if ends 0 then (a, []) :: (b, bs) :: others else (a, b :: bs) :: others

theorem runs_cons (ends : Nat → Bool) (a : α) (as : List α) :
    ∃ bs others, runs ends (a :: as) = (a, bs) :: others ∧
      as = bs ++ others.flatMap fun r => r.1 :: r.2 := by
  induction as generalizing a ends with
  | nil => exact ⟨[], [], rfl, rfl⟩
  | cons b as ih =>
    obtain ⟨bs, others, same, rfl⟩ := ih (fun i => ends (i + 1)) b
    rw [runs, same]
    cases ends 0 with
    | true => exact ⟨[], (b, bs) :: others, rfl, rfl⟩
    | false => exact ⟨b :: bs, others, rfl, rfl⟩

example : runs (fun i => i == 1) [10, 11, 12, 13] = [(10, [11]), (12, [13])] := rfl

namespace Material

/-- The last of the values that are set. -/
def innermost {β : Type} (field : Style → Option β) (ms : List Material) : Option β :=
  (ms.filterMap fun m => field m.style).getLast?

/-- A run as one material: the ref of the first, the id of the last, and each field as the last that
sets it has it. -/
def whole (run : Material × List Material) : Material where
  id := ((run.1 :: run.2).getLast (List.cons_ne_nil _ _)).id
  ref := run.1.ref
  style := ⟨innermost Style.fill (run.1 :: run.2), innermost Style.stroke (run.1 :: run.2),
    innermost Style.strokeWidth (run.1 :: run.2)⟩

theorem innermost_cons {β : Type} (field : Style → Option β) (m : Material) (ms : List Material) :
    innermost field (m :: ms) = (innermost field ms <|> field m.style) := by
  cases here : field m.style with
  | none => simp [innermost, here]
  | some x =>
    simp only [innermost, List.filterMap_cons, here, List.getLast?_cons]
    cases (ms.filterMap fun m => field m.style).getLast? <;> rfl

theorem whole_single (m : Material) : whole (m, []) = m := by
  simp [whole, innermost]

theorem whole_cons (m c : Material) (cs : List Material) :
    whole (m, c :: cs) = m.join (whole (c, cs)) := by
  simp only [whole, join, Style.overlay, innermost_cons Style.fill m,
    innermost_cons Style.stroke m, innermost_cons Style.strokeWidth m]
  rfl

/-- Some material further below than the next, in the nest or in the forest, refers to the `i`-th
of the nest. -/
def needed (below : List Material) (ms : List Material) (i : Nat) : Bool :=
  decide (i + 1 < ms.length) &&
    ms[i]?.any fun m => (ms.drop (i + 2) ++ below).any fun x => x.ref = m.id

theorem needed_succ (below : List Material) (m : Material) (ms : List Material) (i : Nat) :
    needed below (m :: ms) (i + 1) = needed below ms i := by
  simp [needed]

theorem needed_count (below : List Material) (m : Material) (ms : List Material) :
    (List.range (m :: ms).length).countP (needed below (m :: ms)) =
      (List.range ms.length).countP (needed below ms) + (needed below (m :: ms) 0).toNat := by
  have shifted : needed below (m :: ms) ∘ Nat.succ = needed below ms :=
    funext fun i => needed_succ below m ms i
  rw [List.length_cons, List.range_succ_eq_map, List.countP_cons, List.countP_map, shifted]
  cases needed below (m :: ms) 0 <;> rfl

theorem ref_mem {m : Material} {ms : List Material}
    (linked : (m :: ms).IsChain fun m c => c.ref = m.id) :
    ∀ x ∈ ms, x.ref ∈ (m :: ms).map id := by
  induction ms generalizing m with
  | nil => nofun
  | cons c ms ih =>
    obtain ⟨here, later⟩ := List.isChain_cons_cons.1 linked
    refine List.forall_mem_cons.2 ⟨by simp [here], fun x mem => ?_⟩
    exact List.mem_cons_of_mem _ (ih later x mem)

theorem ids_cons {m : Material} {ms below : List Material}
    (distinct : ((m :: ms ++ below).map id).Nodup) :
    m.id ∉ ms.map id ∧ m.id ∉ below.map id ∧ ((ms ++ below).map id).Nodup := by
  rw [List.cons_append, List.map_cons, List.nodup_cons, List.map_append, List.mem_append,
    not_or] at distinct
  rw [List.map_append]
  exact and_assoc.1 distinct

/-- What the runs of a nest become once there is a material around it: a run of its own if that one
is needed, and else a part of the first run. -/
theorem wholes_cons {below ms cs : List Material} {others : List (Material × List Material)}
    (m c : Material) (split : runs (needed below (c :: ms)) (c :: ms) = (c, cs) :: others) :
    (runs (needed below (m :: c :: ms)) (m :: c :: ms)).map whole =
      if needed below (m :: c :: ms) 0 then m :: whole (c, cs) :: others.map whole
      else m.join (whole (c, cs)) :: others.map whole := by
  rw [runs, funext (needed_succ below m _), split]
  by_cases needs : needed below (m :: c :: ms) 0
  · simp [needs, whole_single]
  · simp [needs, whole_cons]

theorem ref_wholes {ms cs : List Material} {others : List (Material × List Material)} {id : String}
    (together : ms = cs ++ others.flatMap fun r => r.1 :: r.2) (apart : ∀ x ∈ ms, x.ref ≠ id) :
    ∀ w ∈ others.map whole, w.ref ≠ id := by
  rw [List.forall_mem_map]
  intro r mem
  apply apart r.1
  rw [together, List.mem_append, List.mem_flatMap]
  exact .inr ⟨r, mem, List.mem_cons_self⟩

theorem needed_first {below ms : List Material} {m c : Material}
    (inner : ∀ x ∈ ms, x.ref ≠ m.id) :
    needed below (m :: c :: ms) 0 = below.any fun x => x.ref = m.id := by
  have none : (ms.any fun x => x.ref = m.id) = false := by simpa using inner
  simp [needed, none]

end Material

theorem Rewrite.refsTo {ns ns' : List (Node κ)} (step : Rewrite o ns ns') (x : String)
    (foreign : x ∉ (materialsAll ns).map Material.id) : Node.refsTo x ns' = Node.refsTo x ns := by
  induction step with
  | merge on => simp [Node.refsTo]
  | splice on unit => simp [Node.refsTo]
  | @squash i j k m c kids on child free =>
    have apart : m.id ≠ x := fun same => foreign (by simp [← same])
    simp [Node.refsTo, List.countP_cons, Material.join, child, apart]
  | @renew i j h kids => cases h <;> rfl
  | @inside i h kids kids' step ih =>
    cases h <;> simp_all [Node.refsTo, List.countP_cons]
  | among step ih =>
    simp only [Node.materialsAll_append, List.map_append, List.mem_append, not_or] at foreign
    simp only [Node.refsTo_append, ih foreign.1.2]

theorem Rewrites.refsTo {ns ns' : List (Node κ)} (steps : Rewrites o ns ns') (x : String)
    (foreign : x ∉ (materialsAll ns).map Material.id) : Node.refsTo x ns' = Node.refsTo x ns := by
  induction steps using ReflTransGen.head_induction_on with
  | refl => rfl
  | head step _ ih =>
    rw [ih fun mem => foreign (step.ids_sublist.subset mem), step.refsTo x foreign]

namespace Options

theorem refsTo_reviseAll (o : Options) (ks : List (Node ι)) (x : String)
    (foreign : x ∉ (materialsAll ks).map Material.id) :
    refsTo x (o.splice ((o.reviseAll ks).1.map Revised.node)).1 = refsTo x ks := by
  have steps : Rewrites o (mapAll some ks) _ := (o.rewrites_reviseAll ks).trans (Rewrites.splice _)
  rw [← Node.materialsAll_mapAll some ks] at foreign
  rw [steps.refsTo x foreign, refsTo, Node.materialsAll_mapAll, ← refsTo]

theorem fuse_nest (on : o.squashMaterials) (m w : Material) (j : κ) (marked : List (κ × Material))
    (kids : List (Node κ)) (child : w.ref = m.id) :
    o.fuse m (Node.nest .material ((j, w) :: marked) kids) =
      if (marked.map Prod.snd ++ materialsAll kids).any fun x => x.ref = m.id then
        ⟨m, Node.nest .material ((j, w) :: marked) kids, 0⟩
      else ⟨m.join w, Node.nest .material marked kids, 1⟩ := by
  have free : m.id ∉ (materialsAll (Node.nest .material marked kids)).map Material.ref ↔
      ¬((marked.map Prod.snd ++ materialsAll kids).any fun x => x.ref = m.id) := by
    rw [Node.materialsAll_nest]
    simp only [List.mem_map, List.any_eq_true, decide_eq_true_eq]
  rw [Node.nest, fuse, if_congr (and_iff_right on) rfl rfl, if_congr (and_iff_right child) rfl rfl,
    if_congr free rfl rfl, ite_not]

/-- Neither the others of a nest nor what they become refer to the material around it, so a pass
over the nest leaves it as needed as it was. -/
theorem blocked_reviseAll (o : Options) {ks : List (Node ι)} {m c : Material}
    {inner others : List Material} (innerRefs : ∀ x ∈ inner, x.ref ≠ m.id)
    (otherRefs : ∀ x ∈ others, x.ref ≠ m.id) (outside : m.id ∉ (materialsAll ks).map Material.id) :
    ((others ++ materialsAll (o.splice ((o.reviseAll ks).1.map Revised.node)).1).any
      fun x => x.ref = m.id) = Material.needed (materialsAll ks) (m :: c :: inner) 0 := by
  have none : others.any (fun x => x.ref = m.id) = false := by simpa using otherRefs
  have same := o.refsTo_reviseAll ks m.id outside
  rw [Material.needed_first innerRefs, List.any_append, none, Bool.false_or, Bool.eq_iff_iff,
    List.any_eq_true, List.any_eq_true, ← List.countP_pos_iff, ← List.countP_pos_iff]
  exact iff_of_eq (congrArg (0 < ·) same)

theorem reviseAll_apart (o : Options) (i : ι) (m : Material) (ks : List (Node ι))
    (apart : ¬o.Joins (.material m) (o.splice ((o.reviseAll ks).1.map Revised.node)).1) :
    (∃ j, (o.reviseAll [.group i (.material m) ks]).1.map Revised.node =
      [.group j (.material m) (o.splice ((o.reviseAll ks).1.map Revised.node)).1]) ∧
    (o.reviseAll [.group i (.material m) ks]).2.squashed = (o.reviseAll ks).2.squashed := by
  obtain ⟨⟨j, node⟩, counts⟩ := o.reviseAll_material i m ks
  obtain ⟨_, _, _, -, joins, -⟩ | ⟨-, fused⟩ :=
    o.fuse_eq m (o.splice ((o.reviseAll ks).1.map Revised.node)).1
  · exact absurd joins apart
  · rw [fused] at node counts
    exact ⟨⟨j, node⟩, by simp [counts, Tally.add]⟩

theorem reviseAll_around (on : o.squashMaterials) (i : ι) (m : Material) {inside : List (Node ι)}
    {j : Option ι} {w : Material} {marked : List (Option ι × Material)}
    {kids : List (Node (Option ι))} {blocked : Bool} (child : w.ref = m.id)
    (nodes : (o.reviseAll inside).1.map Revised.node = Node.nest .material ((j, w) :: marked) kids)
    (here : ((marked.map Prod.snd ++ materialsAll kids).any fun x => x.ref = m.id) = blocked) :
    (∃ marked' : List (Option ι × Material), marked'.map Prod.snd =
        (if blocked then m :: w :: marked.map Prod.snd else m.join w :: marked.map Prod.snd) ∧
      (o.reviseAll [.group i (.material m) inside]).1.map Revised.node =
        Node.nest .material marked' kids) ∧
    (o.reviseAll [.group i (.material m) inside]).2.squashed + blocked.toNat =
      (o.reviseAll inside).2.squashed + 1 := by
  obtain ⟨⟨i', node⟩, tally⟩ := o.reviseAll_material i m inside
  have plain : ∀ k ∈ Node.nest .material ((j, w) :: marked) kids, k.has Head.isTransform = false :=
    List.forall_mem_singleton.2 rfl
  rw [nodes, o.splice_plain plain, fuse_nest on m w j marked kids child, here] at node tally
  cases blocked with
  | true => exact ⟨⟨(i', m) :: (j, w) :: marked, rfl, node⟩, by simp [tally, Tally.add]⟩
  | false => exact ⟨⟨(i', m.join w) :: marked, rfl, node⟩, by simp [tally, Tally.add]⟩

theorem reviseAll_runs (on : o.squashMaterials) (ks : List (Node ι)) (first : ι × Material)
    (inner : List (ι × Material))
    (linked : ((first :: inner).map Prod.snd).IsChain fun m c => c.ref = m.id)
    (distinct : (((first :: inner).map Prod.snd ++ materialsAll ks).map Material.id).Nodup)
    (apart : ¬o.Joins (.material ((first :: inner).getLast (List.cons_ne_nil _ _)).2)
      (o.splice ((o.reviseAll ks).1.map Revised.node)).1) :
    let ms := (first :: inner).map Prod.snd
    let needed := Material.needed (materialsAll ks) ms
    let done := o.reviseAll (Node.nest .material (first :: inner) ks)
    (∃ marked : List (Option ι × Material),
      marked.map Prod.snd = (runs needed ms).map Material.whole ∧ done.1.map Revised.node =
        Node.nest .material marked (o.splice ((o.reviseAll ks).1.map Revised.node)).1) ∧
    done.2.squashed + (List.range ms.length).countP needed =
      (o.reviseAll ks).2.squashed + inner.length := by
  induction inner generalizing first with
  | nil =>
    obtain ⟨⟨j, node⟩, squashed⟩ := o.reviseAll_apart first.1 first.2 ks apart
    refine ⟨⟨[(j, first.2)], ?_, node⟩, ?_⟩
    · simp [runs, Material.whole_single]
    · simp [Node.nest, squashed, Material.needed]
  | cons second inner ih =>
    obtain ⟨child, linked'⟩ := List.isChain_cons_cons.1 linked
    obtain ⟨foreign, outside, distinct'⟩ := Material.ids_cons distinct
    obtain ⟨⟨marked, wholes, nodes⟩, counts⟩ := ih second linked' distinct' apart
    have innerRefs : ∀ x ∈ inner.map Prod.snd, x.ref ≠ first.2.id := by
      intro x mem same
      exact foreign (same ▸ Material.ref_mem linked' x mem)
    obtain ⟨cs, others, split, together⟩ := runs_cons
      (Material.needed (materialsAll ks) (second.2 :: inner.map Prod.snd)) second.2
      (inner.map Prod.snd)
    -- The first run begins with the second material, so its ref still leads to the first one.
    obtain ⟨⟨j, w⟩, marked, rfl⟩ : ∃ link links, marked = link :: links :=
      List.exists_cons_of_ne_nil fun empty => by simp [split, empty] at wholes
    rw [List.map_cons, List.map_cons, split, List.map_cons, List.cons.injEq] at wholes
    obtain ⟨rfl, wholes⟩ := wholes
    have runRefs : ∀ x ∈ marked.map Prod.snd, x.ref ≠ first.2.id := by
      rw [wholes]
      exact Material.ref_wholes together innerRefs
    have blocked := o.blocked_reviseAll (c := second.2) innerRefs runRefs outside
    have inside : (Material.whole (second.2, cs)).ref = first.2.id := child
    obtain ⟨⟨marked', wholes', nodes'⟩, more⟩ :=
      reviseAll_around on first.1 first.2 inside nodes blocked
    have later := Material.needed_count (materialsAll ks) first.2 ((second :: inner).map Prod.snd)
    refine ⟨⟨marked', ?_, nodes'⟩, ?_⟩
    · rw [wholes', wholes]
      exact (Material.wholes_cons first.2 second.2 split).symm
    · simp only [List.length_cons, List.map_cons, Node.nest] at *
      omega

end Options

namespace Frame

theorem part_runs (on : o.squashMaterials) (f : Frame ι) {ks : List (Node ι)} (first : ι × Material)
    (inner : List (ι × Material))
    (linked : ((first :: inner).map Prod.snd).IsChain fun m c => c.ref = m.id)
    (distinct : (((first :: inner).map Prod.snd ++ materialsAll ks).map Material.id).Nodup)
    (apart : ¬o.Joins (.material ((first :: inner).getLast (List.cons_ne_nil _ _)).2)
      (f.part o ks).1) :
    let all := f.part o (Node.nest .material (first :: inner) ks)
    let ms := (first :: inner).map Prod.snd
    let needed := Material.needed (materialsAll ks) ms
    (∃ marked : List (Option ι × Material),
      marked.map Prod.snd = (runs needed ms).map Material.whole ∧
        all.1 = Node.nest .material marked (f.part o ks).1) ∧
    all.2.squashed + (List.range ms.length).countP needed =
      (f.part o ks).2.squashed + inner.length := by
  have plain : ∀ k ∈ Node.nest .material (first :: inner) ks, k.kind ≠ .transform :=
    List.forall_mem_singleton.2 nofun
  simp only [part_eq, o.splice_plain (o.plain_reviseAll plain)] at apart ⊢
  exact Options.reviseAll_runs on ks first inner linked distinct apart

/-- A nest of materials, each referring to the one around it, becomes a nest of its runs: a run ends
where a material is needed further below than by the next. The last keeps what becomes of the nodes
inside, and every material but those needed and the last is squashed. What has become of the nodes
beside the nest stands around, as it would without it. -/
theorem chain_runs (f : Frame ι) (o : Options) (on : o.squashMaterials) (xs ys ks : List (Node ι))
    (first : ι × Material) (inner : List (ι × Material))
    (linked : ((first :: inner).map Prod.snd).IsChain fun m c => c.ref = m.id)
    (distinct : (f.withChildren (xs ++ Node.nest .material (first :: inner) ks ++ ys)).ids.Nodup)
    (apart : ¬o.Joins (.material ((first :: inner).getLast (List.cons_ne_nil _ _)).2)
      (f.part o ks).1) :
    let all := f.part o (xs ++ Node.nest .material (first :: inner) ks ++ ys)
    let ms := (first :: inner).map Prod.snd
    let needed := Material.needed (materialsAll ks) ms
    (∃ marked : List (Option ι × Material),
      marked.map Prod.snd = (runs needed ms).map Material.whole ∧
      all.1 = (f.part o xs).1 ++ Node.nest .material marked (f.part o ks).1 ++ (f.part o ys).1) ∧
    all.2.squashed + (List.range ms.length).countP needed =
      (f.part o xs).2.squashed + ((f.part o ks).2.squashed + inner.length) +
        (f.part o ys).2.squashed := by
  intro all ms needed
  have own : ((ms ++ materialsAll ks).map Material.id).Nodup := by
    rw [← Node.materialsAll_nest]
    refine distinct.sublist (List.Sublist.map _ ?_)
    rw [materials, children_withChildren, Node.materialsAll_append, Node.materialsAll_append]
    exact (List.sublist_append_right _ _).trans (List.sublist_append_left _ _)
  obtain ⟨⟨marked, wholes, here⟩, squashed⟩ := f.part_runs on first inner linked own apart
  obtain ⟨whole, -, squashes, -⟩ :=
    f.part_between o xs (Node.nest .material (first :: inner) ks) ys
  refine ⟨⟨marked, wholes, ?_⟩, ?_⟩
  · rw [whole, here]
  · rw [squashes, ← squashed]
    simp only [ms, needed]
    omega

theorem chain_runs_needed :
    let f : Frame Nat := ⟨⟨1, 1, .fit⟩, none, ⟨0, ⟨"white", "black", 1⟩, []⟩⟩
    let circle (i : Nat) : Node Nat := .shape i (.circle ⟨0, 0⟩ 1)
    let a : Material := ⟨"a", rootId, ⟨some "red", some "blue", none⟩⟩
    let b : Material := ⟨"b", "a", ⟨some "green", none, none⟩⟩
    let c : Material := ⟨"c", "b", ⟨none, some "grey", some 2⟩⟩
    let d : Material := ⟨"d", "c", ⟨none, none, some 3⟩⟩
    let inside : List (Node Nat) :=
      [circle 5, .group 6 (.material ⟨"e", "b", .inherit⟩) [circle 7]]
    let nest := Node.nest .material [(1, a), (2, b), (3, c), (4, d)] inside
    let part := f.part .allRules
    let all := part ([circle 8] ++ nest ++ [circle 9])
    (Options.allRules.squashMaterials ∧
      ([a, b, c, d].IsChain fun m c => c.ref = m.id) ∧
      (f.withChildren ([circle 8] ++ nest ++ [circle 9])).ids.Nodup ∧
      ¬Options.allRules.Joins (.material d) (part inside).1) ∧
    (∃ i j, all.1 = (part [circle 8]).1 ++
      [.group i (.material ⟨"b", rootId, ⟨some "green", some "blue", none⟩⟩)
        [.group j (.material ⟨"d", "b", ⟨none, some "grey", some 3⟩⟩) (part inside).1]] ++
        (part [circle 9]).1) ∧
    all.2.squashed + 1 =
      (part [circle 8]).2.squashed + ((part inside).2.squashed + 3) +
        (part [circle 9]).2.squashed := by
  intro f circle a b c d inside nest part all
  have linked : [a, b, c, d].IsChain fun m c => c.ref = m.id := by decide
  have distinct : (f.withChildren ([circle 8] ++ nest ++ [circle 9])).ids.Nodup := by decide
  have apart : ¬Options.allRules.Joins (.material d) (part inside).1 := by
    intro joins
    have two : (part inside).1.length = 2 := by decide +kernel
    exact absurd (two.symm.trans joins.length) (by decide)
  have split : runs (Material.needed (materialsAll inside) [a, b, c, d]) [a, b, c, d] =
      [(a, [b]), (c, [d])] := by rfl
  have blocked : (List.range 4).countP (Material.needed (materialsAll inside) [a, b, c, d]) =
      1 := by decide +kernel
  obtain ⟨⟨marked, wholes, nodes⟩, squashed⟩ := f.chain_runs .allRules rfl [circle 8] [circle 9]
    inside (1, a) [(2, b), (3, c), (4, d)] linked distinct apart
  obtain ⟨i, j, rfl⟩ : ∃ i j, marked = [(i, Material.whole (a, [b])), (j, .whole (c, [d]))] := by
    simp only [List.map_cons, List.map_nil, split] at wholes
    match marked, wholes with
    | [(i, _), (j, _)], rfl => exact ⟨i, j, rfl⟩
  refine ⟨⟨rfl, linked, distinct, apart⟩, ⟨i, j, nodes⟩, ?_⟩
  rw [← blocked]
  exact squashed

end Frame
end SceneTree
