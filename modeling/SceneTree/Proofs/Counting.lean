import SceneTree.Optimize.Pass
import SceneTree.Proofs.Materials

/-! The pass never counts refs anew. It carries counts up the tree, and they are those of the tree
that it hands on; so a squash is refused exactly when something further below needs the outer
material. -/
namespace SceneTree
open Node (materialsAll)
variable {ι κ : Type}

namespace Node

/-- How many of the materials refer to `x`. -/
def refsTo (x : String) (ns : List (Node κ)) : Nat := (materialsAll ns).countP (·.ref = x)

@[simp] theorem refsTo_nil (x : String) : refsTo x ([] : List (Node κ)) = 0 := rfl

@[simp] theorem refsTo_append (x : String) (ns ms : List (Node κ)) :
    refsTo x (ns ++ ms) = refsTo x ns + refsTo x ms := by
  simp [refsTo]

theorem refsTo_cons (x : String) (n : Node κ) (ns : List (Node κ)) :
    refsTo x (n :: ns) =
      refsTo x n.children + (if n.material?.map Material.ref = some x then 1 else 0) +
        refsTo x ns := by
  cases n with
  | shape i s => simp [refsTo, material?, children]
  | group i h kids =>
    cases h with
    | material m =>
      by_cases here : m.ref = x
      · simp only [refsTo, materialsAll_material, List.countP_cons, List.countP_append, here,
          material?, children, Option.map_some, decide_true, ↓reduceIte]
        omega
      · simp [refsTo, material?, children, here]
    | transform m => simp [refsTo, material?, children]

theorem spliced_eq (n : Node κ) :
    (∃ i m kids, n = .group i (.transform m) kids ∧ m.isIdentity ∧ n.spliced = kids) ∨
      n.isIdentity = false ∧ n.spliced = [n] := by
  cases unit : n.isIdentity with
  | false => exact .inr ⟨rfl, by simp [spliced, unit]⟩
  | true =>
    match n with
    | .shape _ _ | .group _ (.material _) _ => simp [isIdentity] at unit
    | .group i (.transform m) kids =>
      refine .inl ⟨i, m, kids, rfl, unit, ?_⟩
      rw [spliced, if_pos unit, children]

theorem materialsAll_spliced (n : Node κ) : materialsAll n.spliced = n.materials := by
  obtain ⟨i, m, kids, rfl, -, same⟩ | ⟨-, same⟩ := n.spliced_eq
  · rw [same, materials]
  · simp [same, materialsAll]

end Node

/-- What passes from a transform to its children passes along a chain of transforms. -/
theorem Chain.along_keeps {P : List (Node κ) → Prop}
    (descend : ∀ i m kids, P [.group i (.transform m) kids] → P kids) (outer : Affine) (n : Node κ)
    (start : P [n]) : P (along outer n).children := by
  fun_induction along outer n with
  | case1 outer i inner only ih => exact ih (descend i inner _ start)
  | case2 outer i inner kids many => exact descend i inner kids start
  | case3 outer n other => exact start

namespace Options

theorem merge_eq (o : Options) (m : Affine) (kids : List (Node κ)) :
    (∃ only, kids = [only] ∧ o.mergeTransforms ∧ o.merge m kids = Chain.along m only) ∨
      ¬(o.mergeTransforms ∧ kids.length = 1) ∧ o.merge m kids = ⟨m, kids, 0⟩ := by
  by_cases on : o.mergeTransforms
  · match kids with
    | [only] => exact .inl ⟨only, rfl, on, by simp [merge, on, Chain.below]⟩
    | [] | _ :: _ :: _ => exact .inr ⟨by simp, by simp [merge, Chain.below]⟩
  · exact .inr ⟨fun both => on both.1, by simp [merge, on]⟩

theorem merge_keeps (o : Options) {P : List (Node κ) → Prop}
    (descend : ∀ i m kids, P [.group i (.transform m) kids] → P kids) (m : Affine)
    (kids : List (Node κ)) (start : P kids) : P (o.merge m kids).children := by
  obtain ⟨only, rfl, -, same⟩ | ⟨-, same⟩ := o.merge_eq m kids
  · rw [same]
    exact Chain.along_keeps descend m only start
  · rw [same]
    exact start

@[simp] theorem materialsAll_merge (o : Options) (m : Affine) (kids : List (Node κ)) :
    materialsAll (o.merge m kids).children = materialsAll kids := by
  refine o.merge_keeps (P := fun ns => materialsAll ns = materialsAll kids) ?_ m kids rfl
  intro i a ns same
  simpa using same

@[simp] theorem materialsAll_splice (o : Options) (kids : List (Node κ)) :
    materialsAll (o.splice kids).1 = materialsAll kids := by
  unfold splice
  split
  next =>
    induction kids with
    | nil => rfl
    | cons n ns ih =>
      rw [List.flatMap_cons, Node.materialsAll_append, Node.materialsAll_spliced]
      exact congrArg (n.materials ++ ·) ih
  next => rfl

end Options

/-- The counts that come with a node are its own. -/
structure Revised.Counted (r : Revised ι) : Prop where
  below : ∀ x, r.below.count x = Node.refsTo x r.node.children
  ref : r.ref = r.node.material?.map Material.ref

theorem Revised.Counted.shape (i : ι) (s : Shape) : (Revised.shape i s).Counted :=
  ⟨fun x => RefCount.count_empty x, rfl⟩

def Gathered.Counted (g : Gathered ι) : Prop := ∀ x, g.refs.count x = Node.refsTo x g.nodes

namespace Gathered

theorem count_push (g : Gathered ι) (r : Revised ι) (counted : r.Counted) (x : String) :
    (g.push r).refs.count x = g.refs.count x + Node.refsTo x [r.node] := by
  rw [Node.refsTo_cons, ← counted.below, ← counted.ref]
  cases own : r.ref with
  | none => simp [push, own]
  | some y =>
    simp only [push, own, RefCount.count_absorb, RefCount.count_insert, Option.some.injEq,
      Node.refsTo_nil]
    omega

theorem count_foldl_push (rs : List (Revised ι)) (g : Gathered ι) (counted : ∀ r ∈ rs, r.Counted)
    (x : String) :
    (rs.foldl push g).refs.count x =
      g.refs.count x + Node.refsTo x (rs.map Revised.node) := by
  induction rs generalizing g with
  | nil => rfl
  | cons r rs ih =>
    have later := ih (g.push r) fun r' mem => counted r' (List.mem_cons_of_mem r mem)
    rw [List.foldl_cons, later, count_push g r (counted r List.mem_cons_self), Nat.add_assoc,
      ← Node.refsTo_append]
    rfl

theorem counted_ofList (rs : List (Revised ι)) (counted : ∀ r ∈ rs, r.Counted) :
    (ofList rs).Counted := by
  intro x
  have all := count_foldl_push rs empty counted x
  rw [nodes_ofList]
  simpa [ofList, empty] using all

end Gathered

namespace Options

/-- A head and the head of its only child that are made one. Materials are, if the inner one refers
to the outer and no material further below does. -/
inductive Joins (o : Options) : Head → List (Node κ) → Prop
  | transforms {a b : Affine} {i : κ} {kids : List (Node κ)} (on : o.mergeTransforms) :
    Joins o (.transform a) [.group i (.transform b) kids]
  | materials {m c : Material} {i : κ} {kids : List (Node κ)} (on : o.squashMaterials)
    (child : c.ref = m.id) (free : ∀ x ∈ materialsAll kids, x.ref ≠ m.id) :
    Joins o (.material m) [.group i (.material c) kids]

theorem refsTo_child (i : κ) (m c : Material) (kids : List (Node κ)) (child : c.ref = m.id) :
    Node.refsTo m.id [.group i (.material c) kids] = 1 ↔
      ∀ x ∈ materialsAll kids, x.ref ≠ m.id := by
  rw [Node.refsTo_cons]
  simp [Node.material?, Node.children, child, Node.refsTo, List.countP_eq_zero]

theorem squash_some (o : Options) (m : Material) (kids : List (Node (Option ι))) (refs : RefCount)
    (counted : ∀ x, refs.count x = Node.refsTo x kids) (r : Revised ι)
    (done : o.squash m kids refs = some r) :
    ∃ i c grandkids, kids = [.group i (.material c) grandkids] ∧
      o.Joins (.material m) kids ∧
      r = ⟨.group none (.material (m.join c)) grandkids, true, refs.removeOne m.id,
        some m.ref⟩ := by
  unfold squash at done
  split at done
  next i c grandkids =>
    split at done
    next fits =>
      obtain ⟨on, child, once⟩ := fits
      rw [counted, refsTo_child i m c grandkids child] at once
      exact ⟨i, c, grandkids, rfl, .materials on child once, (Option.some.inj done).symm⟩
    next => cases done
  next => cases done

theorem squash_none (o : Options) (m : Material) (kids : List (Node (Option ι))) (refs : RefCount)
    (counted : ∀ x, refs.count x = Node.refsTo x kids) (refused : o.squash m kids refs = none) :
    ¬o.Joins (.material m) kids := by
  intro joins
  cases joins with
  | @materials _ c i grandkids on child free =>
    have once := (refsTo_child i m c grandkids child).2 free
    rw [← counted] at once
    rw [squash, if_pos ⟨on, child, once⟩] at refused
    cases refused

theorem counted_reviseTransform (o : Options) (i : ι) (m : Affine) (kids : Gathered ι)
    (counted : kids.Counted) : (o.reviseTransform i m kids).1.Counted where
  below x := by
    rw [reviseTransform, counted x]
    simp [Node.refsTo, Node.children]
  ref := rfl

theorem counted_squash (o : Options) (m : Material) (kids : List (Node (Option ι)))
    (refs : RefCount) (counted : ∀ x, refs.count x = Node.refsTo x kids) (r : Revised ι)
    (done : o.squash m kids refs = some r) : r.Counted := by
  obtain ⟨i, c, grandkids, rfl, joins, rfl⟩ := squash_some o m kids refs counted r done
  cases joins with
  | materials on child free =>
    constructor
    · intro x
      rw [RefCount.count_removeOne, counted, Node.refsTo_cons]
      simp only [Node.material?, Node.children, Option.map_some, child, Option.some.injEq,
        Node.refsTo_nil]
      omega
    · rfl

theorem counted_splice (o : Options) (kids : Gathered ι) (counted : kids.Counted) (x : String) :
    kids.refs.count x = Node.refsTo x (o.splice kids.nodes).1 := by
  rw [counted x, Node.refsTo, Node.refsTo, materialsAll_splice]

theorem counted_reviseMaterial (o : Options) (i : ι) (m : Material) (kids : Gathered ι)
    (counted : kids.Counted) : (o.reviseMaterial i m kids).1.Counted := by
  have spliced := o.counted_splice kids counted
  unfold reviseMaterial
  split
  next r done => exact counted_squash o m kids.nodes kids.refs counted r done
  next =>
    dsimp only
    split
    next r done => exact counted_squash o m _ kids.refs spliced r done
    next => exact ⟨spliced, rfl⟩

theorem counted_reviseGroup (o : Options) (i : ι) (h : Head) (done : List (Revised ι))
    (counted : ∀ r ∈ done, r.Counted) : (o.reviseGroup i h done).1.Counted := by
  have all := Gathered.counted_ofList done counted
  cases h with
  | transform m => exact counted_reviseTransform o i m _ all
  | material m => exact counted_reviseMaterial o i m _ all

theorem reviseAll_forall (o : Options) {P : Revised ι → Prop} (shape : ∀ i s, P (.shape i s))
    (group : ∀ i h done, (∀ r ∈ done, P r) → P (o.reviseGroup i h done).1) (ns : List (Node ι)) :
    ∀ r ∈ (o.reviseAll ns).1, P r := by
  induction ns using Node.forest with
  | nil => intro r mem; cases mem
  | shape i s ns ih =>
    intro r mem
    obtain rfl | mem := List.mem_cons.1 mem
    · exact shape i s
    · exact ih r mem
  | group i h kids ns inside ih =>
    intro r mem
    obtain rfl | mem := List.mem_cons.1 mem
    · exact group i h _ inside
    · exact ih r mem

/-- Whatever the pass hands on, it hands on with exact counts. -/
theorem counted_reviseAll (o : Options) (ns : List (Node ι)) :
    ∀ r ∈ (o.reviseAll ns).1, r.Counted := by
  refine o.reviseAll_forall (fun i s => ?_) (fun i h done all => ?_) ns
  · exact .shape i s
  · exact o.counted_reviseGroup i h done all

end Options
end SceneTree
