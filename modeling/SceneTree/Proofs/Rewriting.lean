import Mathlib.Logic.Relation
import SceneTree.Proofs.Counting

/-! One rule, applied at one place of a forest. A pass is a sequence of such steps, so what every
step keeps, a pass keeps. -/
namespace SceneTree
open Node (materialsAll mapAll)
open Relation (ReflTransGen)
variable {ι κ : Type} {o : Options}

/-- The last three say where a rule may be applied. Groups are made anew on the way, so their
origins are free; those of shapes are not. -/
inductive Rewrite (o : Options) : List (Node κ) → List (Node κ) → Prop
  | merge {i j k : κ} {a b : Affine} {kids : List (Node κ)} (on : o.mergeTransforms) :
    Rewrite o [.group i (.transform a) [.group j (.transform b) kids]]
      [.group k (.transform (a.compose b)) kids]
  | splice {i : κ} {m : Affine} {kids : List (Node κ)} (on : o.removeIdentities)
    (unit : m.isIdentity) : Rewrite o [.group i (.transform m) kids] kids
  | squash {i j k : κ} {m c : Material} {kids : List (Node κ)} (on : o.squashMaterials)
    (child : c.ref = m.id) (free : ∀ x ∈ materialsAll kids, x.ref ≠ m.id) :
    Rewrite o [.group i (.material m) [.group j (.material c) kids]]
      [.group k (.material (m.join c)) kids]
  | renew {i j : κ} {h : Head} {kids : List (Node κ)} :
    Rewrite o [.group i h kids] [.group j h kids]
  | inside {i : κ} {h : Head} {kids kids' : List (Node κ)} (step : Rewrite o kids kids') :
    Rewrite o [.group i h kids] [.group i h kids']
  | among {left right ns ns' : List (Node κ)} (step : Rewrite o ns ns') :
    Rewrite o (left ++ ns ++ right) (left ++ ns' ++ right)

abbrev Rewrites (o : Options) : List (Node κ) → List (Node κ) → Prop := ReflTransGen (Rewrite o)

namespace Rewrites

theorem inside {i j : κ} {h : Head} {kids kids' : List (Node κ)} (steps : Rewrites o kids kids') :
    Rewrites o [.group i h kids] [.group j h kids'] := by
  induction steps with
  | refl => exact .single .renew
  | tail _ step ih => exact ih.tail (.inside step)

theorem append {ns ns' ms ms' : List (Node κ)} (first : Rewrites o ns ns')
    (second : Rewrites o ms ms') : Rewrites o (ns ++ ms) (ns' ++ ms') := by
  have before : Rewrites o (ns ++ ms) (ns' ++ ms) := by
    refine first.lift (· ++ ms) fun us vs step => ?_
    exact @Rewrite.among _ _ [] ms us vs step
  have after : Rewrites o (ns' ++ ms) (ns' ++ ms') := by
    refine second.lift (ns' ++ ·) fun us vs step => ?_
    have wide := @Rewrite.among _ _ ns' [] us vs step
    simpa using wide
  exact before.trans after

theorem along (i j : κ) (outer : Affine) (n : Node κ) (on : o.mergeTransforms) :
    Rewrites o [.group i (.transform outer) [n]]
      [.group j (.transform (Chain.along outer n).matrix) (Chain.along outer n).children] := by
  fun_induction Chain.along outer n generalizing i with
  | case1 outer k inner only ih => exact (ih i).head (.merge on)
  | case2 outer k inner kids many => exact .single (.merge on)
  | case3 outer n other => exact .single .renew

theorem merge (i j : κ) (m : Affine) (kids : List (Node κ)) :
    Rewrites o [.group i (.transform m) kids]
      [.group j (.transform (o.merge m kids).matrix) (o.merge m kids).children] := by
  obtain ⟨only, rfl, on, same⟩ | ⟨-, same⟩ := o.merge_eq m kids
  · rw [same]
    exact along i j m only on
  · rw [same]
    exact .single .renew

theorem spliced (n : Node κ) (on : o.removeIdentities) : Rewrites o [n] n.spliced := by
  obtain ⟨i, m, kids, rfl, unit, same⟩ | ⟨-, same⟩ := n.spliced_eq
  · rw [same]
    exact .single (.splice on unit)
  · rw [same]

theorem splice (ns : List (Node κ)) : Rewrites o ns (o.splice ns).1 := by
  unfold Options.splice
  split
  next on =>
    induction ns with
    | nil => exact .refl
    | cons n ns ih => exact (spliced n on).append ih
  next => exact .refl

theorem squash (i : Option ι) (m : Material) (kids : List (Node (Option ι))) (refs : RefCount)
    (counted : ∀ x, refs.count x = Node.refsTo x kids) (r : Revised ι)
    (done : o.squash m kids refs = some r) :
    Rewrites o [.group i (.material m) kids] [r.node] := by
  obtain ⟨j, c, grandkids, rfl, joins, rfl⟩ := o.squash_some m kids refs counted r done
  cases joins with
  | materials on child free => exact .single (.squash on child free)

end Rewrites

namespace Options

theorem rewrites_reviseTransform (o : Options) (k : Option ι) (i : ι) (m : Affine)
    (kids : Gathered ι) :
    Rewrites o [.group k (.transform m) kids.nodes] [(o.reviseTransform i m kids).1.node] := by
  have first := Rewrites.merge (o := o) k k m kids.nodes
  have spliced := Rewrites.splice (o := o) (o.merge m kids.nodes).children
  exact (first.trans spliced.inside).trans (Rewrites.merge k _ _ _)

theorem rewrites_reviseMaterial (o : Options) (k : Option ι) (i : ι) (m : Material)
    (kids : Gathered ι) (counted : kids.Counted) :
    Rewrites o [.group k (.material m) kids.nodes] [(o.reviseMaterial i m kids).1.node] := by
  have spliced : Rewrites o [.group k (.material m) kids.nodes]
      [.group k (.material m) (o.splice kids.nodes).1] := (Rewrites.splice _).inside
  have recounted := o.counted_splice kids counted
  unfold reviseMaterial
  split
  next r done => exact Rewrites.squash k m kids.nodes kids.refs counted r done
  next =>
    dsimp only
    split
    next r done => exact spliced.trans (Rewrites.squash k m _ kids.refs recounted r done)
    next => exact spliced.tail .renew

theorem rewrites_reviseGroup (o : Options) (k : Option ι) (i : ι) (h : Head)
    (done : List (Revised ι)) (counted : ∀ r ∈ done, r.Counted) :
    Rewrites o [.group k h (done.map Revised.node)] [(o.reviseGroup i h done).1.node] := by
  have all := Gathered.counted_ofList done counted
  rw [← Gathered.nodes_ofList]
  cases h with
  | transform m => exact o.rewrites_reviseTransform k i m _
  | material m => exact o.rewrites_reviseMaterial k i m _ all

theorem rewrites_reviseAll (o : Options) (ns : List (Node ι)) :
    Rewrites o (mapAll some ns) ((o.reviseAll ns).1.map Revised.node) := by
  induction ns using Node.forest with
  | nil => exact .refl
  | shape i s ns ih =>
    have here : Rewrites o [.shape (some i) s] [.shape (some i) s] := .refl
    exact Rewrites.append here ih
  | group i h kids ns inside ih =>
    have below : Rewrites o [.group (some i) h (mapAll some kids)]
        [.group (some i) h ((o.reviseAll kids).1.map Revised.node)] := inside.inside
    have here := o.rewrites_reviseGroup (some i) i h (o.reviseAll kids).1
      (o.counted_reviseAll kids)
    exact Rewrites.append (below.trans here) ih

end Options

theorem Frame.root_optimize (o : Options) (f : Frame ι) :
    (f.optimize o).1.root = (o.reviseRoot f.root (o.reviseAll f.root.children).1).1 := by
  rw [optimize_eq]

theorem Frame.rewrites_optimize (o : Options) (f : Frame ι) :
    Rewrites o (mapAll some f.root.children) (f.optimize o).1.root.children := by
  have below := o.rewrites_reviseAll f.root.children
  have spliced := Rewrites.splice (o := o) ((o.reviseAll f.root.children).1.map Revised.node)
  rw [root_optimize, Options.reviseRoot, Gathered.nodes_ofList]
  exact below.trans spliced

/-- What holds of a scene and is kept by every step holds of the scene after a pass. -/
theorem Frame.optimize_keeps (o : Options) (f : Frame ι) {P : List (Node (Option ι)) → Prop}
    (start : P (mapAll some f.root.children)) (step : ∀ ns ns', Rewrite o ns ns' → P ns → P ns') :
    P (f.optimize o).1.root.children := by
  have steps := f.rewrites_optimize o
  generalize (f.optimize o).1.root.children = last at steps
  induction steps with
  | refl => exact start
  | tail _ next ih => exact step _ _ next ih

end SceneTree
