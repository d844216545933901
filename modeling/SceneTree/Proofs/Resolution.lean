import Mathlib.Data.Nat.Find
import SceneTree.Proofs.Inheritance

/-! What a style comes to. From an id the refs lead from material to material, until they come to
the root or to an id that names nothing, or without end if they go round. Each field by itself is
taken from the first of these materials that sets it, however far along that one is. -/
namespace SceneTree
variable {κ α : Type}

structure Style.Field (α : Type) where
  get? : Style → Option α
  get : Paint → α
  get?_inherit : get? .inherit = none
  get?_overlay (s t : Style) : get? (s.overlay t) = (get? t <|> get? s)
  get_onto (s : Style) (base : Paint) : get (s.onto base) = (get? s).getD (get base)

namespace Style.Field

def fill : Field String :=
  ⟨Style.fill, Paint.fill, rfl, fun _ _ => rfl, fun _ _ => rfl⟩

def stroke : Field String :=
  ⟨Style.stroke, Paint.stroke, rfl, fun _ _ => rfl, fun _ _ => rfl⟩

def strokeWidth : Field Float :=
  ⟨Style.strokeWidth, Paint.strokeWidth, rfl, fun _ _ => rfl, fun _ _ => rfl⟩

end Style.Field

namespace MaterialIndex

/-- The material that an id leads to. None is further out than the root. -/
def next? (index : MaterialIndex κ) (id : String) : Option Material :=
  if id = rootId then none else (index.get? id).map Prod.fst

/-- The materials along the refs, beginning with the one that the id itself leads to. -/
def along (index : MaterialIndex κ) (id : String) : Nat → Option Material
  | 0 => index.next? id
  | n + 1 => (index.along id n).bind fun m => index.next? m.ref

/-- The value is that of the first material along the refs that sets the field, and `base` if none
does. -/
inductive Inherits (index : MaterialIndex κ) (id : String) (field : Style → Option α) (base : α) :
    α → Prop
  | set {n : Nat} {m : Material} {value : α} (here : index.along id n = some m)
    (sets : field m.style = some value)
    (first : ∀ k < n, ∀ c, index.along id k = some c → field c.style = none) :
    Inherits index id field base value
  | unset (nowhere : ∀ n m, index.along id n = some m → field m.style = none) :
    Inherits index id field base base

variable {index : MaterialIndex κ} {id : String}

theorem along_succ {m : Material} (next : index.next? id = some m) (n : Nat) :
    index.along id (n + 1) = index.along m.ref n := by
  induction n with
  | zero => simp [along, next]
  | succ n ih => rw [along, ih, along]

theorem along_stop (stop : index.next? id = none) (n : Nat) : index.along id n = none := by
  induction n with
  | zero => exact stop
  | succ n ih => rw [along, ih, Option.bind_none]

theorem next?_some {m : Material} (next : index.next? id = some m) :
    id ≠ rootId ∧ ∃ kids, index.get? id = some (m, kids) := by
  unfold next? at next
  split at next
  next => cases next
  next below =>
    obtain ⟨⟨m', kids⟩, found, rfl⟩ := Option.map_eq_some_iff.1 next
    exact ⟨below, kids, found⟩

theorem next?_none (stop : index.next? id = none) : id = rootId ∨ index.get? id = none := by
  unfold next? at stop
  split at stop
  next root => exact .inl root
  next => exact .inr (Option.map_eq_none_iff.1 stop)

theorem resolve_next {m : Material} (next : index.next? id = some m) :
    index.resolve id = m.style.onto (index.resolve m.ref) := by
  obtain ⟨below, kids, found⟩ := next?_some next
  exact index.resolve_some below found

theorem resolve_set (field : Style.Field α) {n : Nat} {m : Material} {value : α}
    (here : index.along id n = some m) (sets : field.get? m.style = some value)
    (first : ∀ k < n, ∀ c, index.along id k = some c → field.get? c.style = none) :
    field.get (index.resolve id) = value := by
  -- Nearer materials are passed one by one; each leaves the field to what its ref resolves to.
  induction n generalizing id with
  | zero => rw [resolve_next here, field.get_onto, sets, Option.getD_some]
  | succ n ih =>
    cases next : index.next? id with
    | none => cases (along_stop next (n + 1)).symm.trans here
    | some c =>
      have unset : field.get? c.style = none := first 0 n.succ_pos c next
      have further : field.get (index.resolve c.ref) = value := by
        refine ih (along_succ next n ▸ here) fun k less d there => ?_
        exact first (k + 1) (Nat.succ_lt_succ less) d ((along_succ next k).trans there)
      rw [resolve_next next, field.get_onto, unset, Option.getD_none, further]

theorem follow_unset (field : Style.Field α)
    (nowhere : ∀ n m, index.along id n = some m → field.get? m.style = none) (steps : Nat)
    {inner : Style} (before : field.get? inner = none) :
    field.get? (index.follow steps id inner) = none := by
  induction steps generalizing id inner with
  | zero => exact before
  | succ steps ih =>
    cases next : index.next? id with
    | none => rw [index.follow_stop _ inner (next?_none next), before]
    | some m =>
      obtain ⟨below, kids, found⟩ := next?_some next
      have unset : field.get? (m.style.overlay inner) = none := by
        rw [field.get?_overlay, before, nowhere 0 m next]
        rfl
      rw [index.follow_step steps inner below found]
      exact ih (fun n c there => nowhere (n + 1) c ((along_succ next n).trans there)) unset

theorem inherits_resolve (index : MaterialIndex κ) (id : String) (field : Style.Field α) :
    index.Inherits id field.get? (field.get index.base) (field.get (index.resolve id)) := by
  classical
  by_cases somewhere : ∃ n m, index.along id n = some m ∧ field.get? m.style ≠ none
  · obtain ⟨m, here, sets⟩ := Nat.find_spec somewhere
    obtain ⟨value, sets⟩ := Option.ne_none_iff_exists'.1 sets
    have first (k : Nat) (less : k < Nat.find somewhere) (c : Material)
        (there : index.along id k = some c) : field.get? c.style = none := by
      by_contra set
      exact Nat.find_min somewhere less ⟨c, there, set⟩
    rw [resolve_set field here sets first]
    exact .set here sets first
  · -- The refs may go round, so no induction along them ends; the steps of the walk do.
    have nowhere (n : Nat) (m : Material) (there : index.along id n = some m) :
        field.get? m.style = none := by
      by_contra set
      exact somewhere ⟨n, m, there, set⟩
    have unset := follow_unset field nowhere (index.size + 1) field.get?_inherit
    rw [resolve, field.get_onto, unset, Option.getD_none]
    exact .unset nowhere

theorem Inherits.unique {field : Style → Option α} {base v w : α}
    (left : index.Inherits id field base v) (right : index.Inherits id field base w) : v = w := by
  cases left with
  | @set n m _ here sets first =>
    cases right with
    | @set n' m' _ here' sets' first' =>
      obtain less | rfl | more := Nat.lt_trichotomy n n'
      · cases sets.symm.trans (first' n less m here)
      · obtain rfl := Option.some.inj (here.symm.trans here')
        exact Option.some.inj (sets.symm.trans sets')
      · cases sets'.symm.trans (first n' more m' here')
    | unset nowhere => cases sets.symm.trans (nowhere n m here)
  | unset nowhere =>
    cases right with
    | @set n m _ here sets first => cases sets.symm.trans (nowhere n m here)
    | unset => rfl

end MaterialIndex

namespace Frame

/-- In every frame every id resolves, and to one paint only: each field is that of the first
material along the refs that sets it, and that of the root if none does. The walk is given one step
more than there are ids, and that cuts off nothing, whether the refs pass through every material, go
round or lead nowhere. -/
theorem resolve_eq_iff (f : Frame κ) (id : String) (paint : Paint) :
    let index := MaterialIndex.ofFrame f
    index.resolve id = paint ↔
      index.Inherits id Style.fill f.root.paint.fill paint.fill ∧
      index.Inherits id Style.stroke f.root.paint.stroke paint.stroke ∧
      index.Inherits id Style.strokeWidth f.root.paint.strokeWidth paint.strokeWidth := by
  intro index
  have fill : index.Inherits id Style.fill f.root.paint.fill (index.resolve id).fill :=
    index.inherits_resolve id .fill
  have stroke : index.Inherits id Style.stroke f.root.paint.stroke (index.resolve id).stroke :=
    index.inherits_resolve id .stroke
  have strokeWidth : index.Inherits id Style.strokeWidth f.root.paint.strokeWidth
      (index.resolve id).strokeWidth := index.inherits_resolve id .strokeWidth
  constructor
  · rintro rfl
    exact ⟨fill, stroke, strokeWidth⟩
  · intro ⟨fill', stroke', strokeWidth'⟩
    have parts : index.resolve id = ⟨paint.fill, paint.stroke, paint.strokeWidth⟩ := by
      rw [← fill.unique fill', ← stroke.unique stroke', ← strokeWidth.unique strokeWidth']
    exact parts

end Frame
end SceneTree
