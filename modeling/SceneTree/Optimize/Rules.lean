import SceneTree.Frame
import SceneTree.Optimize.Options
import SceneTree.Optimize.RefCount

/-! The rules of a pass, at one node whose children have been revised before. A node that is handed
on as it is keeps its origin as `some`; a node made here has none. -/
namespace SceneTree

/-- What has become of a node. `below` counts the refs strictly below it, `ref` is its own. -/
structure Revised (ι : Type) where
  node : Node (Option ι)
  changed : Bool
  below : RefCount
  ref : Option String

/-- What has become of the children of a node; `refs` counts all refs among them. -/
structure Gathered (ι : Type) where
  nodes : List (Node (Option ι))
  refs : RefCount
  changed : Bool

variable {ι κ : Type}

def keep (changed : Bool) (i : ι) : Option ι := if changed then none else some i

namespace Gathered

def empty : Gathered ι := ⟨[], .empty, false⟩

/- `nodes` is reversed until all are there. -/
def push (g : Gathered ι) (r : Revised ι) : Gathered ι where
  nodes := r.node :: g.nodes
  refs := (match r.ref with
    | some id => g.refs.insert id
    | none => g.refs).absorb r.below
  changed := g.changed || r.changed

def ofList (rs : List (Revised ι)) : Gathered ι :=
  let g := rs.foldl push empty
  { g with nodes := g.nodes.reverse }

theorem nodes_foldl_push (rs : List (Revised ι)) (g : Gathered ι) :
    (rs.foldl push g).nodes = (rs.map Revised.node).reverse ++ g.nodes := by
  induction rs generalizing g with
  | nil => rfl
  | cons r rs ih => simp [ih, push]

@[simp] theorem nodes_ofList (rs : List (Revised ι)) :
    (ofList rs).nodes = rs.map Revised.node := by
  simp [ofList, nodes_foldl_push, empty]

theorem changed_foldl_push (rs : List (Revised ι)) (g : Gathered ι) :
    (rs.foldl push g).changed = (g.changed || rs.any Revised.changed) := by
  induction rs generalizing g with
  | nil => simp
  | cons r rs ih => simp [ih, push, Bool.or_assoc]

@[simp] theorem changed_ofList (rs : List (Revised ι)) :
    (ofList rs).changed = rs.any Revised.changed := by
  simp [ofList, changed_foldl_push, empty]

end Gathered

/-- A chain of transforms with single children, multiplied out. -/
structure Chain (κ : Type) where
  matrix : Affine
  children : List (Node κ)
  merged : Nat

namespace Chain

def oneMore (c : Chain κ) : Chain κ := { c with merged := c.merged + 1 }

def along (outer : Affine) : Node κ → Chain κ
  | .group _ (.transform inner) [only] => (along (outer.compose inner) only).oneMore
  | .group _ (.transform inner) kids => ⟨outer.compose inner, kids, 1⟩
  | n => ⟨outer, [n], 0⟩

def below (outer : Affine) : List (Node κ) → Chain κ
  | [only] => along outer only
  | kids => ⟨outer, kids, 0⟩

theorem below_transform (outer inner : Affine) (i : κ) (kids : List (Node κ)) :
    below outer [.group i (.transform inner) kids] =
      (below (outer.compose inner) kids).oneMore := by
  match kids with
  | [] => rfl
  | [only] => rfl
  | _ :: _ :: _ => rfl

end Chain

namespace Node

def isIdentity : Node κ → Bool
  | .group _ (.transform m) _ => m.isIdentity
  | _ => false

def spliced (n : Node κ) : List (Node κ) := if n.isIdentity then n.children else [n]

end Node

namespace Options

def merge (o : Options) (m : Affine) (kids : List (Node κ)) : Chain κ :=
  if o.mergeTransforms then Chain.below m kids else ⟨m, kids, 0⟩

/- The identities among the children are replaced by their children; second, how many there are. -/
def splice (o : Options) (kids : List (Node κ)) : List (Node κ) × Nat :=
  if o.removeIdentities then (kids.flatMap Node.spliced, kids.countP Node.isIdentity) else (kids, 0)

/-- A transform: merged with a transform that is its only child, and once more if splicing has left
one there. -/
def reviseTransform (o : Options) (i : ι) (m : Affine) (kids : Gathered ι) : Revised ι × Tally :=
  let first := o.merge m kids.nodes
  let (spliced, removed) := o.splice first.children
  let second := o.merge first.matrix spliced
  let merged := first.merged + second.merged
  let changed := kids.changed || merged + removed ≠ 0
  (⟨.group (keep changed i) (.transform second.matrix) second.children, changed,
    kids.refs, none⟩, ⟨1, merged, 0, removed⟩)

/-- A material and the material that is its only child, as one, if the child refers to it and
nothing further below does. Among `refs` the child's own ref is counted too, so the count is one
then. -/
def squash (o : Options) (m : Material) (kids : List (Node (Option ι))) (refs : RefCount) :
    Option (Revised ι) :=
  match kids with
  | [.group _ (.material c) grandkids] =>
    if o.squashMaterials ∧ c.ref = m.id ∧ refs.count m.id = 1 then
      some ⟨.group none (.material ⟨c.id, m.ref, m.style.overlay c.style⟩) grandkids, true,
        refs.removeOne m.id, some m.ref⟩
    else none
  | _ => none

/-- A material: squashed with its only child, at once or after splicing. -/
def reviseMaterial (o : Options) (i : ι) (m : Material) (kids : Gathered ι) : Revised ι × Tally :=
  match o.squash m kids.nodes kids.refs with
  | some r => (r, ⟨1, 0, 1, 0⟩)
  | none =>
    let (spliced, removed) := o.splice kids.nodes
    match o.squash m spliced kids.refs with
    | some r => (r, ⟨1, 0, 1, removed⟩)
    | none =>
      let changed := kids.changed || removed ≠ 0
      (⟨.group (keep changed i) (.material m) spliced, changed, kids.refs,
        some m.ref⟩, ⟨1, 0, 0, removed⟩)

def reviseGroup (o : Options) (i : ι) (h : Head) (done : List (Revised ι)) : Revised ι × Tally :=
  match h with
  | .transform m => o.reviseTransform i m (.ofList done)
  | .material m => o.reviseMaterial i m (.ofList done)

def reviseRoot (o : Options) (root : Root ι) (done : List (Revised ι)) : Root (Option ι) × Tally :=
  let kids := Gathered.ofList done
  let (spliced, removed) := o.splice kids.nodes
  let changed := kids.changed || removed ≠ 0
  (⟨keep changed root.origin, root.paint, spliced⟩, ⟨1, 0, 0, removed⟩)

end Options

def Revised.shape (i : ι) (s : Shape) : Revised ι := ⟨.shape (some i) s, false, .empty, none⟩

end SceneTree
