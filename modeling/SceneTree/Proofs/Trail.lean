import Mathlib.Algebra.Ring.Int.Defs
import Mathlib.Data.List.Forall2
import SceneTree.Leaf
import SceneTree.Proofs.Regrouping
import SceneTree.Proofs.Rewriting

/-! Leaves with the heads on the way to them. A pass keeps the leaves in their order, and shortens
the way to each, so each is drawn as before up to the rounding of the products. -/
namespace SceneTree
open Node (mapAll)
open Relation (ReflTransGen)
variable {ι κ : Type} {o : Options}

/-- A leaf, and the heads from the root down to it, the outermost first. -/
structure Trail (ι : Type) where
  heads : List Head
  origin : ι
  shape : Shape

namespace Trail

def under (h : Head) (t : Trail ι) : Trail ι := { t with heads := h :: t.heads }

def map (f : ι → κ) (t : Trail ι) : Trail κ := ⟨t.heads, f t.origin, t.shape⟩

end Trail

namespace Node

mutual
def trails : Node κ → List (Trail κ)
  | .shape i s => [⟨[], i, s⟩]
  | .group _ h kids => (trailsAll kids).map (Trail.under h)

def trailsAll : List (Node κ) → List (Trail κ)
  | [] => []
  | n :: ns => n.trails ++ trailsAll ns
end

@[simp] theorem trailsAll_append (ns ms : List (Node κ)) :
    trailsAll (ns ++ ms) = trailsAll ns ++ trailsAll ms := by
  induction ns with
  | nil => rfl
  | cons n ns ih => simp [trailsAll, ih]

theorem trailsAll_mapAll (f : ι → κ) (ns : List (Node ι)) :
    trailsAll (mapAll f ns) = (trailsAll ns).map (Trail.map f) := by
  induction ns using forest with
  | nil => rfl
  | shape i s ns ih => simp [mapAll, map, trailsAll, trails, ih, Trail.map]
  | group i h kids ns inside ih =>
    have below : Trail.map f ∘ Trail.under h = Trail.under h ∘ Trail.map f := rfl
    simp [mapAll, map, trailsAll, trails, inside, ih, below]

end Node

def Frame.trails (f : Frame κ) : List (Trail κ) := Node.trailsAll f.root.children

def Head.nearest (id : String) : Head → String
  | .material m => m.id
  | .transform _ => id

def Head.moved (world : Affine) : Head → Affine
  | .material _ => world
  | .transform m => world.compose m

def Head.transform? : Head → Option Affine
  | .material _ => none
  | .transform m => some m

theorem Head.foldl_moved (heads : List Head) (world : Affine) :
    heads.foldl moved world = (heads.filterMap transform?).foldl Affine.compose world := by
  induction heads generalizing world with
  | nil => rfl
  | cons h heads ih => cases h <;> exact ih _

def Trail.matrices (t : Trail κ) : List Affine := t.heads.filterMap Head.transform?

/-- The leaf as it is drawn below a material and a transform. -/
def Trail.leaf (index : MaterialIndex κ) (material : String) (world : Affine) (t : Trail κ) :
    Leaf κ where
  origin := t.origin
  shape := t.shape
  world := t.heads.foldl Head.moved world
  material := t.heads.foldl Head.nearest material
  paint := index.resolve (t.heads.foldl Head.nearest material)

namespace Placed

def leaves (index : MaterialIndex κ) (p : Placed κ) : List (Leaf κ) :=
  p.node.trails.map (Trail.leaf index p.material p.world)

theorem flatMap_all (index : MaterialIndex κ) (material : String) (world : Affine)
    (kids : List (Node κ)) :
    (all material world kids).flatMap (leaves index) =
      (Node.trailsAll kids).map (Trail.leaf index material world) := by
  induction kids with
  | nil => rfl
  | cons n kids ih =>
    rw [Node.trailsAll, List.map_append, ← ih]
    rfl

end Placed

namespace Frame

theorem leavesFrom_eq (index : MaterialIndex κ) (found : List (Leaf κ))
    (waiting : List (Placed κ)) :
    leavesFrom index found waiting = found.reverse ++ waiting.flatMap (Placed.leaves index) := by
  fun_induction leavesFrom index found waiting with
  | case1 found => simp
  | case2 found i s material world waiting ih =>
    rw [ih, List.reverse_cons, List.append_assoc]
    rfl
  | case3 found i m kids material world waiting ih =>
    have here : Placed.leaves index ⟨.group i (.material m) kids, material, world⟩ =
        (Node.trailsAll kids).map (Trail.leaf index m.id world) := by
      rw [Placed.leaves, Node.trails, List.map_map]
      rfl
    rw [ih, List.flatMap_append, Placed.flatMap_all, List.flatMap_cons, here]
  | case4 found i t kids material world waiting ih =>
    have here : Placed.leaves index ⟨.group i (.transform t) kids, material, world⟩ =
        (Node.trailsAll kids).map (Trail.leaf index material (world.compose t)) := by
      rw [Placed.leaves, Node.trails, List.map_map]
      rfl
    rw [ih, List.flatMap_append, Placed.flatMap_all, List.flatMap_cons, here]

theorem leaves_eq (f : Frame κ) :
    f.leaves = f.trails.map (Trail.leaf (.ofFrame f) rootId .identity) := by
  rw [leaves, leavesFrom_eq, Placed.flatMap_all]
  rfl

end Frame

/-- Two neighbours on the way are made one, or an identity is left out. -/
inductive Shortens (o : Options) : List Head → List Head → Prop
  | merge {outer inner : List Head} {a b : Affine} (on : o.mergeTransforms) :
    Shortens o (outer ++ .transform a :: .transform b :: inner)
      (outer ++ .transform (a.compose b) :: inner)
  | splice {outer inner : List Head} {m : Affine} (on : o.removeIdentities) (unit : m.isIdentity) :
    Shortens o (outer ++ .transform m :: inner) (outer ++ inner)
  | squash {outer inner : List Head} {m c : Material} (on : o.squashMaterials)
    (child : c.ref = m.id) :
    Shortens o (outer ++ .material m :: .material c :: inner)
      (outer ++ .material (m.join c) :: inner)

namespace Shortens

theorem cons (h : Head) {u v : List Head} (step : Shortens o u v) :
    Shortens o (h :: u) (h :: v) := by
  cases step with
  | @merge outer inner a b on => exact @merge o (h :: outer) inner a b on
  | @splice outer inner m on unit => exact @splice o (h :: outer) inner m on unit
  | @squash outer inner m c on child => exact @squash o (h :: outer) inner m c on child

theorem steps_cons (h : Head) {u v : List Head} (steps : ReflTransGen (Shortens o) u v) :
    ReflTransGen (Shortens o) (h :: u) (h :: v) :=
  steps.lift (h :: ·) fun _ _ step => step.cons h

/-- The innermost material stays: it is the inner one that gives a squashed material its id. -/
theorem nearest {u v : List Head} (steps : ReflTransGen (Shortens o) u v) (id : String) :
    v.foldl Head.nearest id = u.foldl Head.nearest id := by
  induction steps with
  | refl => rfl
  | tail _ step ih =>
    rw [← ih]
    cases step <;> simp [Head.nearest, Material.join]

end Shortens

structure Trail.Follows (o : Options) (p q : Trail κ) : Prop where
  origin : q.origin = p.origin
  shape : q.shape = p.shape
  heads : ReflTransGen (Shortens o) p.heads q.heads

namespace Trail.Follows

theorem refl (p : Trail κ) : Follows o p p := ⟨rfl, rfl, .refl⟩

theorem trans {p q r : Trail κ} (first : Follows o p q) (second : Follows o q r) :
    Follows o p r :=
  ⟨second.origin.trans first.origin, second.shape.trans first.shape,
    first.heads.trans second.heads⟩

theorem all_refl (ps : List (Trail κ)) : List.Forall₂ (Follows o) ps ps :=
  List.forall₂_same.2 fun p _ => refl p

theorem under (h : Head) {p q : Trail κ} (follows : Follows o p q) :
    Follows o (p.under h) (q.under h) :=
  ⟨follows.origin, follows.shape, Shortens.steps_cons h follows.heads⟩

theorem all_trans {ps qs rs : List (Trail κ)} (first : List.Forall₂ (Follows o) ps qs)
    (second : List.Forall₂ (Follows o) qs rs) : List.Forall₂ (Follows o) ps rs := by
  induction first generalizing rs with
  | nil => exact second
  | cons here _ ih =>
    cases second with
    | cons here' later => exact .cons (here.trans here') (ih later)

end Trail.Follows

theorem Rewrite.trails {ns ns' : List (Node κ)} (step : Rewrite o ns ns') :
    List.Forall₂ (Trail.Follows o) (Node.trailsAll ns) (Node.trailsAll ns') := by
  induction step with
  | @merge i j k a b kids on =>
    simp only [Node.trailsAll, Node.trails, List.append_nil, List.map_map]
    rw [List.forall₂_map_left_iff, List.forall₂_map_right_iff]
    refine List.forall₂_same.2 fun p _ => ⟨rfl, rfl, .single ?_⟩
    exact @Shortens.merge o [] p.heads a b on
  | @splice i m kids on unit =>
    simp only [Node.trailsAll, Node.trails, List.append_nil]
    rw [List.forall₂_map_left_iff]
    refine List.forall₂_same.2 fun p _ => ⟨rfl, rfl, .single ?_⟩
    exact @Shortens.splice o [] p.heads m on unit
  | @squash i j k m c kids on child free =>
    simp only [Node.trailsAll, Node.trails, List.append_nil, List.map_map]
    rw [List.forall₂_map_left_iff, List.forall₂_map_right_iff]
    refine List.forall₂_same.2 fun p _ => ⟨rfl, rfl, .single ?_⟩
    exact @Shortens.squash o [] p.heads m c on child
  | renew => exact Trail.Follows.all_refl _
  | @inside i h kids kids' step ih =>
    simp only [Node.trailsAll, Node.trails, List.append_nil]
    rw [List.forall₂_map_left_iff, List.forall₂_map_right_iff]
    exact ih.imp fun p q follows => follows.under h
  | among step ih =>
    have same := @Trail.Follows.all_refl κ o
    simp only [Node.trailsAll_append]
    exact List.rel_append (List.rel_append (same _) ih) (same _)

namespace Affine.Grouped
variable {M : Type*} [Monoid M] {given : Affine → M}

theorem shortens {as : List Affine} {u v : List Head} (step : Shortens o u v)
    (grouped : Grouped given as (u.filterMap Head.transform?)) :
    Grouped given as (v.filterMap Head.transform?) := by
  cases step with
  | @merge outer inner a b on =>
    rw [List.filterMap_append] at grouped ⊢
    exact behind (fun _ => merge) _ grouped
  | @splice outer inner m on unit =>
    rw [List.filterMap_append] at grouped ⊢
    exact behind (fun _ kept => kept.splice unit) _ grouped
  | @squash outer inner m c on child =>
    rw [List.filterMap_append] at grouped ⊢
    exact grouped

theorem steps {as : List Affine} {u v : List Head} (steps : ReflTransGen (Shortens o) u v)
    (grouped : Grouped given as (u.filterMap Head.transform?)) :
    Grouped given as (v.filterMap Head.transform?) := by
  induction steps with
  | refl => exact grouped
  | tail _ step ih => exact shortens step ih

end Affine.Grouped

namespace Frame

theorem trails_optimize (o : Options) (f : Frame ι) :
    List.Forall₂ (fun (p : Trail ι) (q : Trail (Option ι)) => q.origin = some p.origin ∧
      q.shape = p.shape ∧ ReflTransGen (Shortens o) p.heads q.heads)
      f.trails (f.optimize o).1.trails := by
  have follows : List.Forall₂ (Trail.Follows o) (f.trails.map (Trail.map some))
      (f.optimize o).1.trails := by
    rw [trails, ← Node.trailsAll_mapAll]
    refine f.optimize_keeps o (P := fun ns => List.Forall₂ (Trail.Follows o)
      (Node.trailsAll (mapAll some f.root.children)) (Node.trailsAll ns)) ?_ ?_
    · exact Trail.Follows.all_refl _
    · exact fun _ _ step before => Trail.Follows.all_trans before step.trails
  rw [List.forall₂_map_left_iff] at follows
  exact follows.imp fun p q same => ⟨same.origin, same.shape, same.heads⟩

theorem leaves_same (o : Options) (f : Frame ι) :
    List.Forall₂ (fun l k => k.node = l.node.map some ∧ k.material = l.material)
      f.leaves (f.optimize o).1.leaves := by
  simp only [leaves_eq, List.forall₂_map_left_iff, List.forall₂_map_right_iff]
  refine (f.trails_optimize o).imp fun p q ⟨origin, shape, shorter⟩ => ⟨?_, ?_⟩
  · simp [Leaf.node, Trail.leaf, Node.map, origin, shape]
  · exact Shortens.nearest shorter rootId

theorem leaves_world (o : Options) (f : Frame ι) {M : Type*} [Monoid M] (given : Affine → M) :
    List.Forall₂ (fun p l => Affine.Amounts given p.matrices l.world (p.matrices.map given).prod)
      f.trails f.leaves ∧
    List.Forall₂ (fun p k => Affine.Neutral given p.matrices →
      Affine.Amounts given p.matrices k.world (p.matrices.map given).prod)
      f.trails (f.optimize o).1.leaves := by
  simp only [leaves_eq, List.forall₂_map_right_iff, Trail.leaf, Head.foldl_moved]
  constructor
  · refine List.forall₂_same.2 fun p _ => ?_
    have nothing : Affine.Amounts given [] .identity 1 := .none
    have all := nothing.foldl_compose p.matrices
    rwa [List.nil_append, one_mul] at all
  · refine (f.trails_optimize o).imp fun p q ⟨_, _, shorter⟩ neutral => ?_
    have grouped : Affine.Grouped given p.matrices q.matrices :=
      (Affine.Grouped.refl p.matrices).steps shorter
    obtain ⟨x, amounts⟩ := grouped.foldl_compose .none
    have exactly : x = (p.matrices.map given).prod := amounts.eq_prod neutral (List.infix_refl _)
    exact exactly ▸ amounts

/-- The leaves are handed on as they are, in their order, each still within the material that was
nearest to it. The way to each is shortened by the rules that are on and by nothing else. So each
is drawn, before and after, with a product of the matrices that were on the way, and it is the same
product in any arithmetic where these may be bracketed at will and no identity is taken out but the
unit. -/
theorem leaves_optimize (o : Options) (f : Frame ι) :
    List.Forall₂ (fun l k => k.node = l.node.map some ∧ k.material = l.material)
      f.leaves (f.optimize o).1.leaves ∧
    List.Forall₂ (fun p q => q.origin = some p.origin ∧ q.shape = p.shape ∧
      ReflTransGen (Shortens o) p.heads q.heads) f.trails (f.optimize o).1.trails ∧
    ∀ (M : Type*) [Monoid M] (given : Affine → M),
      List.Forall₂ (fun p l => Affine.Amounts given p.matrices l.world
        (p.matrices.map given).prod) f.trails f.leaves ∧
      List.Forall₂ (fun p k => Affine.Neutral given p.matrices →
        Affine.Amounts given p.matrices k.world (p.matrices.map given).prod)
        f.trails (f.optimize o).1.leaves :=
  ⟨f.leaves_same o, f.trails_optimize o, fun _ _ given => f.leaves_world o given⟩

end Frame

def Affine.mirror : Affine := ⟨-1, 0, 0, 1, 0, 0⟩

namespace Affine

theorem mirror_compose : mirror.compose mirror = identity ∧ mirror.compose identity = mirror ∧
    identity.compose mirror = mirror ∧ identity.compose identity = identity := by
  simp only [mirror, identity, compose, mk.injEq]
  decide +kernel

theorem Amounts.mirrors {as : List Affine} {m : Affine} {x : ℤ}
    (amounts : Amounts (fun _ => (-1 : ℤ)) as m x) (all : ∀ a ∈ as, a = mirror) :
    (m = mirror ∧ x = -1) ∨ (m = identity ∧ x = 1) := by
  induction amounts with
  | none => exact .inr ⟨rfl, rfl⟩
  | one m => exact .inl ⟨all m (List.mem_singleton_self m), rfl⟩
  | compose _ _ outer inner =>
    obtain ⟨twice, left, right, neither⟩ := mirror_compose
    obtain ⟨all, others⟩ := List.forall_mem_append.1 all
    obtain ⟨rfl, rfl⟩ | ⟨rfl, rfl⟩ := outer all <;> obtain ⟨rfl, rfl⟩ | ⟨rfl, rfl⟩ := inner others
    · exact .inr ⟨twice, rfl⟩
    · exact .inl ⟨left, rfl⟩
    · exact .inl ⟨right, rfl⟩
    · exact .inr ⟨neither, rfl⟩
  | skip _ _ _ kept _ => exact kept (List.forall_mem_append.1 all).1

theorem neutral_mirrors {as : List Affine} (all : ∀ a ∈ as, a = mirror) :
    Neutral (fun _ => (-1 : ℤ)) as := by
  intro bs m x part amounts unit
  obtain ⟨rfl, -⟩ | ⟨-, one⟩ := amounts.mirrors fun a mem => all a (part.subset mem)
  · exact absurd unit (by decide +kernel)
  · exact one

end Affine

/-- What is mirrored twice is where it was, and the pass takes both mirrors out. -/
theorem Frame.leaves_mirrored :
    let mirrored (i : Nat) (kids : List (Node Nat)) : Node Nat :=
      .group i (.transform .mirror) kids
    let f : Frame Nat := ⟨⟨1, 1, .fit⟩, none, ⟨0, ⟨"white", "black", 1⟩,
      [mirrored 1 [mirrored 2 [.shape 3 (.circle ⟨0, 0⟩ 1)]],
        mirrored 4 [.shape 5 (.circle ⟨0, 0⟩ 1)]]⟩⟩
    let sign (_ : Affine) : ℤ := -1
    (∀ p ∈ f.trails, Affine.Neutral sign p.matrices) ∧
    f.trails.map (fun p => (p.matrices.map sign).prod) = [1, -1] ∧
    (f.optimize .allRules).1.trails.map (fun q => q.matrices.length) = [0, 1] ∧
    List.Forall₂ (fun p k => Affine.Amounts sign p.matrices k.world (p.matrices.map sign).prod)
      f.trails (f.optimize .allRules).1.leaves := by
  intro mirrored f sign
  have neutral : ∀ p ∈ f.trails, Affine.Neutral sign p.matrices := by
    have all : ∀ as ∈ f.trails.map Trail.matrices, ∀ a ∈ as, a = Affine.mirror := by
      change ∀ as ∈ [[Affine.mirror, .mirror], [.mirror]], _
      simp
    exact fun p mem => Affine.neutral_mirrors (all _ (List.mem_map_of_mem mem))
  have drawn := ((f.leaves_optimize .allRules).2.2 ℤ sign).2
  have both := (List.forall₂_and_left _ _).2 ⟨neutral, drawn⟩
  exact ⟨neutral, rfl, by decide +kernel, both.imp fun _ _ ⟨law, same⟩ => same law⟩

end SceneTree
