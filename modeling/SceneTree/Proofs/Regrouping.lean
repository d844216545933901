import Mathlib.Algebra.BigOperators.Group.List.Basic
import SceneTree.Affine

/-! Products of maps that are bracketed in other ways. With rounding they differ. In a monoid they
do not, and there the maps that are left out on the way, as identities, have to be one. -/
namespace SceneTree.Affine
variable {M : Type*} [Monoid M] {given : Affine → M}

/-- The maps of a list multiplied in their order, bracketed in some way and with identities left
out: `m` is their product with rounding, `x` that of the elements given for them. -/
inductive Amounts (given : Affine → M) : List Affine → Affine → M → Prop
  | none : Amounts given [] .identity 1
  | one (m : Affine) : Amounts given [m] m (given m)
  | compose {as bs : List Affine} {a b : Affine} {x y : M} (outer : Amounts given as a x)
    (inner : Amounts given bs b y) : Amounts given (as ++ bs) (a.compose b) (x * y)
  | skip {as bs : List Affine} {a b : Affine} {x y : M} (kept : Amounts given as a x)
    (left : Amounts given bs b y) (unit : b.isIdentity) : Amounts given (as ++ bs) a x

/-- Where neighbours in the list come out as the identity, their exact product is one. -/
def Neutral (given : Affine → M) (as : List Affine) : Prop :=
  ∀ bs m x, bs <:+: as → Amounts given bs m x → m.isIdentity → x = 1

/-- Each map on the right is made of neighbours on the left, and so are the identities that were
left out between them. -/
inductive Grouped (given : Affine → M) : List Affine → List Affine → Prop
  | nil : Grouped given [] []
  | cons {as bs cs : List Affine} {a : Affine} {x : M} (here : Amounts given as a x)
    (later : Grouped given bs cs) : Grouped given (as ++ bs) (a :: cs)
  | drop {as bs cs : List Affine} {a : Affine} {x : M} (here : Amounts given as a x)
    (unit : a.isIdentity) (later : Grouped given bs cs) : Grouped given (as ++ bs) cs

theorem Amounts.eq_prod {as bs : List Affine} {m : Affine} {x : M} (neutral : Neutral given as)
    (amounts : Amounts given bs m x) (part : bs <:+: as) : x = (bs.map given).prod := by
  induction amounts with
  | none => rfl
  | one m => simp
  | @compose bs cs _ _ _ _ _ _ left right =>
    rw [List.map_append, List.prod_append,
      ← left ((List.prefix_append bs cs).isInfix.trans part),
      ← right ((List.suffix_append bs cs).isInfix.trans part)]
  | @skip bs cs _ _ _ y _ later unit left right =>
    have within := (List.suffix_append bs cs).isInfix.trans part
    have one : y = 1 := neutral _ _ _ within later unit
    rw [List.map_append, List.prod_append, ← right within, one, mul_one,
      ← left ((List.prefix_append bs cs).isInfix.trans part)]

theorem Amounts.foldl_compose {as : List Affine} {w : Affine} {x : M}
    (amounts : Amounts given as w x) (bs : List Affine) :
    Amounts given (as ++ bs) (bs.foldl Affine.compose w) (x * (bs.map given).prod) := by
  induction bs generalizing as w x with
  | nil => simpa using amounts
  | cons b bs ih => simpa [mul_assoc] using ih (amounts.compose (.one b))

namespace Grouped

theorem refl (as : List Affine) : Grouped given as as := by
  induction as with
  | nil => exact .nil
  | cons a as ih => exact .cons (.one a) ih

theorem append {as bs us vs : List Affine} (outer : Grouped given as us)
    (inner : Grouped given bs vs) : Grouped given (as ++ bs) (us ++ vs) := by
  induction outer with
  | nil => exact inner
  | cons here _ ih =>
    rw [List.append_assoc]
    exact .cons here ih
  | drop here unit _ ih =>
    rw [List.append_assoc]
    exact .drop here unit ih

theorem uncons {as cs : List Affine} {a : Affine} (grouped : Grouped given as (a :: cs)) :
    ∃ us vs ws x, as = us ++ (vs ++ ws) ∧ Grouped given us [] ∧ Amounts given vs a x ∧
      Grouped given ws cs := by
  generalize same : a :: cs = ds at grouped
  induction grouped with
  | nil => cases same
  | cons here later _ =>
    cases same
    exact ⟨[], _, _, _, rfl, .nil, here, later⟩
  | drop left unit _ ih =>
    obtain ⟨us, vs, ws, x, rfl, others, here, later⟩ := ih same
    exact ⟨_ ++ us, vs, ws, x, (List.append_assoc _ _ _).symm, .drop left unit others, here, later⟩

theorem foldl_compose {as bs cs : List Affine} {w : Affine} {x : M}
    (amounts : Amounts given as w x) (grouped : Grouped given bs cs) :
    ∃ y, Amounts given (as ++ bs) (cs.foldl Affine.compose w) y := by
  induction grouped generalizing as w x with
  | nil => exact ⟨x, by simpa using amounts⟩
  | cons here _ ih =>
    rw [← List.append_assoc]
    exact ih (amounts.compose here)
  | drop here unit _ ih =>
    rw [← List.append_assoc]
    exact ih (amounts.skip here unit)

theorem merge {as cs : List Affine} {a b : Affine} (grouped : Grouped given as (a :: b :: cs)) :
    Grouped given as (a.compose b :: cs) := by
  obtain ⟨us, vs, _, x, rfl, before, outer, grouped⟩ := grouped.uncons
  obtain ⟨us', vs', ws, y, rfl, between, inner, later⟩ := grouped.uncons
  -- What was left out between the two goes with the outer one.
  obtain ⟨z, outer⟩ := between.foldl_compose outer
  have merged := before.append (.cons (outer.compose inner) later)
  simpa [List.append_assoc] using merged

theorem splice {as cs : List Affine} {m : Affine} (grouped : Grouped given as (m :: cs))
    (unit : m.isIdentity) : Grouped given as cs := by
  obtain ⟨us, vs, ws, x, rfl, before, here, later⟩ := grouped.uncons
  exact before.append (.drop here unit later)

theorem behind {us vs : List Affine} (step : ∀ bs, Grouped given bs us → Grouped given bs vs)
    (outer : List Affine) {as : List Affine} (grouped : Grouped given as (outer ++ us)) :
    Grouped given as (outer ++ vs) := by
  induction outer generalizing as with
  | nil => exact step as grouped
  | cons a outer ih =>
    obtain ⟨us', vs', ws, x, rfl, before, here, later⟩ := grouped.uncons
    exact before.append (.cons here (ih later))

end Grouped
end SceneTree.Affine
