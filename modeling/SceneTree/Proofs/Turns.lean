import Mathlib.Logic.Function.Iterate
import SceneTree.Proofs.Conservation
import SceneTree.Proofs.Lookup
import SceneTree.Proofs.Parts

/-! The pass turn by turn. A turn takes the next child of the visit on top, or ends that visit and
delivers what has become of its group to the visit below. At every turn the stack is a way down the
tree, and each visit on it has the results of the children before the way, in their order. -/
namespace SceneTree
open Node (countKind postorderAll sizeAll)
variable {ι : Type} {o : Options} {root : Root ι}

namespace Visit

def ahead (v : Visit ι) (n : Node ι) : Visit ι := { v with pending := n :: v.pending }

def deliver (v : Visit ι) (r : Revised ι) : Visit ι := { v with done := r :: v.done }

end Visit

/-- What there is of a pass between two turns. -/
inductive Course (ι : Type) where
  | underway (counted : Tally) (stack : List (Visit ι))
  | ended (root : Root (Option ι)) (counted : Tally)

namespace Options

/-- Without a visit the root would be kept. -/
def turn (o : Options) (root : Root ι) : Course ι → Course ι
  | .underway t (⟨owner, .shape i s :: pending, done⟩ :: stack) =>
    .underway t (⟨owner, pending, .shape i s :: done⟩ :: stack)
  | .underway t (⟨owner, .group i h kids :: pending, done⟩ :: stack) =>
    .underway t (⟨some (i, h), kids, []⟩ :: ⟨owner, pending, done⟩ :: stack)
  | .underway t (⟨none, [], done⟩ :: _) =>
    let (r, here) := o.reviseRoot root done.reverse
    .ended r (t.add here)
  | .underway t (⟨some (i, h), [], done⟩ :: stack) =>
    let (r, here) := o.reviseGroup i h done.reverse
    .underway (t.add here) (stack.modifyHead fun v => v.deliver r)
  | .underway t [] => .ended root.kept t
  | .ended r t => .ended r t

theorem turn_close (o : Options) (root : Root ι) (t : Tally) (i : ι) (h : Head)
    (done : List (Revised ι)) (v : Visit ι) (stack : List (Visit ι)) :
    o.turn root (.underway t (⟨some (i, h), [], done⟩ :: v :: stack)) =
      .underway (t.add (o.reviseGroup i h done.reverse).2)
        (v.deliver (o.reviseGroup i h done.reverse).1 :: stack) := rfl

def outcome (o : Options) (root : Root ι) : Course ι → Root (Option ι) × Tally
  | .underway t stack => o.run root t stack
  | .ended r t => (r, t)

theorem outcome_turn (o : Options) (root : Root ι) (c : Course ι) :
    o.outcome root (o.turn root c) = o.outcome root c := by
  match c with
  | .ended _ _ => rfl
  | .underway t [] => rw [turn, outcome, outcome, run]
  | .underway t (⟨owner, .shape i s :: pending, done⟩ :: stack) => rw [turn, outcome, outcome, run]
  | .underway t (⟨owner, .group i h kids :: pending, done⟩ :: stack) =>
    rw [turn, outcome, outcome, run]
  | .underway t (⟨none, [], done⟩ :: stack) => rw [turn, outcome, outcome, run]
  | .underway t (⟨some (i, h), [], done⟩ :: []) =>
    rw [turn, outcome, outcome, run, List.modifyHead, run]
  | .underway t (⟨some (i, h), [], done⟩ :: v :: stack) =>
    rw [turn, outcome, outcome, run]
    rfl

end Options

namespace Node

/-- One turn for each node, and one more to end the visit of a group. -/
def turns (ns : List (Node ι)) : Nat := sizeAll ns + countKind Kind.isGroup ns

theorem turns_shape (i : ι) (s : Shape) (ns : List (Node ι)) :
    turns (.shape i s :: ns) = turns ns + 1 := by
  have leaf : s.kind.isGroup = false := by cases s <;> rfl
  simp only [turns, sizeAll, size, countKind_shape, leaf, Bool.toNat_false]
  omega

theorem turns_group (i : ι) (h : Head) (kids ns : List (Node ι)) :
    turns (.group i h kids :: ns) = turns ns + (1 + (turns kids + 1)) := by
  have group : h.kind.isGroup = true := by cases h <;> rfl
  simp only [turns, sizeAll, size, countKind_group, group, Bool.toNat_true]
  omega

theorem turns_append (ns ms : List (Node ι)) : turns (ns ++ ms) = turns ns + turns ms := by
  simp only [turns, sizeAll_append, countKind_append]
  omega

end Node

namespace Options
open Node (turns)

/-- The visit on top takes some of its children in as many turns as they need, and has of them what
the recursion makes of them. -/
theorem turns_iterate (o : Options) (root : Root ι) (ns : List (Node ι)) (t : Tally)
    (owner : Option (ι × Head)) (pending : List (Node ι)) (done : List (Revised ι))
    (stack : List (Visit ι)) :
    (o.turn root)^[turns ns] (.underway t (⟨owner, ns ++ pending, done⟩ :: stack)) =
      .underway (t.add (o.reviseAll ns).2)
        (⟨owner, pending, (o.reviseAll ns).1.reverse ++ done⟩ :: stack) := by
  induction ns using Node.forest generalizing t owner pending done stack with
  | nil => rfl
  | shape i s ns ih =>
    rw [Node.turns_shape, Function.iterate_succ_apply, List.cons_append, turn, ih, reviseAll,
      revise]
    simp
  | group i h kids ns inside ih =>
    have opened := inside t (some (i, h)) [] [] (⟨owner, ns ++ pending, done⟩ :: stack)
    rw [List.append_nil, List.append_nil] at opened
    rw [Node.turns_group, Function.iterate_add_apply, Function.iterate_add_apply,
      Function.iterate_one, Function.iterate_succ_apply, List.cons_append, turn, opened]
    rw [turn_close, List.reverse_reverse, Visit.deliver, ih, reviseAll, revise]
    simp [Tally.add_assoc]

/-- The stack after so many turns. Either the root has taken some of its children, or a visit below
has come to a group, which has been opened and has taken some of its own. -/
inductive Reached (o : Options) (root : Root ι) : Nat → Tally → List (Visit ι) → Prop where
  | atRoot (before after : List (Node ι)) (split : root.children = before ++ after) :
    Reached o root (turns before) (o.reviseAll before).2
      [⟨none, after, (o.reviseAll before).1.reverse⟩]
  | opened {n : Nat} {t : Tally} {v : Visit ι} {stack : List (Visit ι)} {i : ι} {h : Head}
    (before after : List (Node ι))
    (outer : Reached o root n t (v.ahead (.group i h (before ++ after)) :: stack)) :
    Reached o root (n + 1 + turns before) (t.add (o.reviseAll before).2)
      (⟨some (i, h), after, (o.reviseAll before).1.reverse⟩ :: v :: stack)

end Options

/-- A pass over the frame after so many turns. -/
def Frame.course (o : Options) (f : Frame ι) (n : Nat) : Course ι :=
  (o.turn f.root)^[n] (.underway .zero [⟨none, f.root.children, []⟩])

/-- The visit that stands on this stack after so many turns came with these children: those of the
root, at the bottom, or those of a group that the visit below had come to at an earlier turn. -/
def Frame.Opened (o : Options) (f : Frame ι) (n : Nat) (stack : List (Visit ι))
    (kids : List (Node ι)) : Option (ι × Head) → Prop
  | none => stack = [] ∧ f.root.children = kids
  | some (i, h) => ∃ m < n, ∃ t v below, stack = v :: below ∧
    f.course o m = .underway t (v.ahead (.group i h kids) :: below)

namespace Options
open Node (turns)
variable {n : Nat} {t : Tally} {v : Visit ι} {stack : List (Visit ι)} {f : Frame ι}

theorem Reached.course (reached : o.Reached f.root n t stack) :
    f.course o n = .underway t stack := by
  induction reached with
  | atRoot before after split =>
    rw [Frame.course, split, turns_iterate, Tally.zero_add, List.append_nil]
  | opened before after outer ih =>
    rename_i m t v stack i h
    have first : f.course o (m + 1) =
        .underway t (⟨some (i, h), before ++ after, []⟩ :: v :: stack) := by
      rw [Frame.course, Function.iterate_succ_apply', ← Frame.course, ih, Visit.ahead, turn]
    rw [Frame.course, Nat.add_comm, Function.iterate_add_apply, ← Frame.course, first,
      turns_iterate, List.append_nil]

theorem Reached.past {k : Node ι} (reached : o.Reached root n t (v.ahead k :: stack)) :
    o.Reached root (n + turns [k]) (t.add (o.revise k).2) (v.deliver (o.revise k).1 :: stack) := by
  have results (before : List (Node ι)) :
      o.reviseAll (before ++ [k]) = ((o.reviseAll before).1 ++ [(o.revise k).1],
        (o.reviseAll before).2.add (o.revise k).2) := by
    simp [o.reviseAll_append, reviseAll]
  obtain ⟨owner, pending, done⟩ := v
  cases reached with
  | atRoot before after split =>
    have next : o.Reached root _ _ [⟨none, pending, _⟩] :=
      .atRoot (before ++ [k]) pending (by simp [split])
    rwa [Node.turns_append, results, List.reverse_append] at next
  | opened before after outer =>
    have next := Reached.opened (before ++ [k]) pending (by rwa [List.append_assoc])
    simp only [Node.turns_append, results, List.reverse_append, ← Nat.add_assoc,
      ← Tally.add_assoc] at next
    exact next

theorem Reached.next (reached : o.Reached root n t stack) :
    (∃ t' stack', o.turn root (.underway t stack) = .underway t' stack' ∧
      o.Reached root (n + 1) t' stack') ∨
    ∃ r t', o.turn root (.underway t stack) = .ended r t' := by
  match stack with
  | [] => cases reached
  | ⟨owner, .shape i s :: pending, done⟩ :: stack =>
    have taken : o.Reached root _ _ (Visit.deliver ⟨owner, pending, done⟩ _ :: stack) :=
      reached.past
    rw [Node.turns_shape, revise, Tally.add_zero] at taken
    exact .inl ⟨_, _, rfl, taken⟩
  | ⟨owner, .group i h kids :: pending, done⟩ :: stack =>
    have opened : o.Reached root _ _ (_ :: ⟨owner, pending, done⟩ :: stack) :=
      .opened [] kids reached
    exact .inl ⟨_, _, rfl, opened⟩
  | ⟨owner, [], done⟩ :: stack =>
    cases reached with
    | atRoot before after split => exact .inr ⟨_, _, rfl⟩
    | @opened m t v stack i h before _ outer =>
      have count : m + turns [Node.group i h (before ++ [])] = m + 1 + turns before + 1 := by
        rw [Node.turns_group, List.append_nil]
        simp only [turns, sizeAll, Node.countKind_nil]
        omega
      have closed := outer.past
      rw [count, List.append_nil, revise] at closed
      refine .inl ⟨_, _, turn_close .., ?_⟩
      rwa [List.reverse_reverse, Tally.add_assoc]

theorem Reached.comes (ns : List (Node ι)) {owner : Option (ι × Head)} {pending : List (Node ι)}
    {done : List (Revised ι)} (reached : o.Reached root n t (⟨owner, ns ++ pending, done⟩ :: stack))
    (x : Node ι) (mem : x ∈ postorderAll ns) :
    ∃ (n : Nat) (t : Tally) (v : Visit ι) (stack : List (Visit ι)),
      o.Reached root n t (v.ahead x :: stack) := by
  induction ns using Node.forest generalizing n t owner pending done stack with
  | nil => cases mem
  | shape i s ns ih =>
    rcases List.mem_cons.1 mem with rfl | mem
    · exact ⟨n, t, ⟨owner, ns ++ pending, done⟩, stack, reached⟩
    · exact ih (Reached.past (v := ⟨owner, ns ++ pending, done⟩) reached) mem
  | group i h kids ns inside ih =>
    rw [postorderAll, Node.postorder, List.mem_append, List.mem_append, List.mem_singleton] at mem
    rcases mem with (mem | rfl) | mem
    · have opened : o.Reached root (n + 1) t (⟨some (i, h), kids ++ [], []⟩ :: _) :=
        .opened (v := ⟨owner, ns ++ pending, done⟩) [] (kids ++ []) <| by
          rw [List.append_nil]
          exact reached
      exact inside opened mem
    · exact ⟨n, t, ⟨owner, ns ++ pending, done⟩, stack, reached⟩
    · exact ih (Reached.past (v := ⟨owner, ns ++ pending, done⟩) reached) mem

theorem course_reached (n : Nat) (t : Tally) (stack : List (Visit ι))
    (here : f.course o n = .underway t stack) : o.Reached f.root n t stack := by
  induction n generalizing t stack with
  | zero =>
    cases here
    exact .atRoot [] f.root.children rfl
  | succ n ih =>
    rw [Frame.course, Function.iterate_succ_apply', ← Frame.course] at here
    cases before : f.course o n with
    | underway t' stack' =>
      rw [before] at here
      obtain ⟨_, _, next, reached⟩ | ⟨_, _, last⟩ := (ih t' stack' before).next
      · cases next.symm.trans here
        exact reached
      · cases last.symm.trans here
    | ended r t' =>
      rw [before] at here
      cases here

end Options

namespace Frame
open Node (turns)

theorem course_succ (o : Options) (f : Frame ι) (n : Nat) :
    f.course o (n + 1) = o.turn f.root (f.course o n) :=
  Function.iterate_succ_apply' _ _ _

theorem course_turns (o : Options) (f : Frame ι) :
    f.course o (turns f.root.children) = .underway (o.reviseAll f.root.children).2
      [⟨none, [], (o.reviseAll f.root.children).1.reverse⟩] :=
  (Options.Reached.atRoot f.root.children [] (List.append_nil _).symm).course

theorem course_ended (o : Options) (f : Frame ι) {n : Nat} {r : Root (Option ι)} {t : Tally}
    (ended : f.course o n = .ended r t) {m : Nat} (later : n ≤ m) : f.course o m = .ended r t := by
  induction m, later using Nat.le_induction with
  | base => exact ended
  | succ m _ ih => rw [course_succ, ih, Options.turn]

theorem outcome_course (o : Options) (f : Frame ι) (n : Nat) :
    o.outcome f.root (f.course o n) = o.run f.root .zero [⟨none, f.root.children, []⟩] := by
  induction n with
  | zero => rfl
  | succ n ih => rw [course_succ, Options.outcome_turn, ih]

theorem course_underway (o : Options) (f : Frame ι) {n : Nat} (early : n ≤ turns f.root.children) :
    ∃ t v stack, f.course o n = .underway t (v :: stack) := by
  cases here : f.course o n with
  | underway t stack =>
    match stack, Options.course_reached n t stack here with
    | v :: stack, _ => exact ⟨t, v, stack, rfl⟩
  | ended r t =>
    have stopped := f.course_ended o here early
    rw [course_turns] at stopped
    cases stopped

theorem course_visit (o : Options) (f : Frame ι) (n : Nat) (t : Tally) (owner : Option (ι × Head))
    (pending : List (Node ι)) (done : List (Revised ι)) (stack : List (Visit ι))
    (here : f.course o n = .underway t (⟨owner, pending, done⟩ :: stack)) :
    ∃ before, done.reverse = before.map (fun k => (o.revise k).1) ∧
      f.Opened o n stack (before ++ pending) owner := by
  have results (before : List (Node ι)) :
      (o.reviseAll before).1.reverse.reverse = before.map fun k => (o.revise k).1 := by
    rw [List.reverse_reverse, o.reviseAll_fst]
  cases Options.course_reached n t _ here with
  | atRoot before _ split => exact ⟨before, results before, rfl, split⟩
  | @opened m t v below i h before _ outer =>
    have earlier : m < m + 1 + turns before := by omega
    exact ⟨before, results before, m, earlier, t, v, below, rfl, outer.course⟩

/-- The pass ends with the recursion's result and counts, after one turn for each node and one more
for each group and for the root. Until then some visit is on top. Every node has its turn, and when
its own turns have gone by, the visit that came to it has the recursion's result for it. A visit on
top has one such result, in order, for each of the children it came with but those still pending;
so when it ends, for each of them. -/
theorem optimize_turns (o : Options) (f : Frame ι) :
    let below := o.reviseAll f.root.children
    let top := o.reviseRoot f.root below.1
    let last := f.count + f.countKind Kind.isGroup
    (f.course o last = .ended top.1 (below.2.add top.2) ∧
      f.optimize o = (⟨f.viewport, f.background, top.1⟩, below.2.add top.2)) ∧
    (∀ n, o.outcome f.root (f.course o n) = (top.1, below.2.add top.2)) ∧
    (∀ n < last, ∃ t v stack, f.course o n = .underway t (v :: stack)) ∧
    (∀ x ∈ f.nodes, ∃ n t v stack, f.course o n = .underway t (Visit.ahead v x :: stack) ∧
      f.course o (n + turns [x]) =
        .underway (t.add (o.revise x).2) (v.deliver (o.revise x).1 :: stack)) ∧
    ∀ n t owner pending done stack,
      f.course o n = .underway t (⟨owner, pending, done⟩ :: stack) →
        ∃ before, done.reverse = before.map (fun k => (o.revise k).1) ∧
          f.Opened o n stack (before ++ pending) owner := by
  intro below top last
  have count : last = turns f.root.children + 1 := by
    simp only [last, f.count_eq, f.countKind_eq, turns]
    omega
  have ended : f.course o last = .ended top.1 (below.2.add top.2) := by
    rw [count, course_succ, course_turns, Options.turn, List.reverse_reverse]
  refine ⟨⟨ended, f.optimize_eq o⟩, fun n => ?_, fun n before => ?_, fun x mem => ?_,
    f.course_visit o⟩
  · rw [outcome_course, ← f.outcome_course o last, ended, Options.outcome]
  · exact f.course_underway o (by omega)
  · have start : o.Reached f.root 0 .zero [⟨none, f.root.children ++ [], []⟩] :=
      .atRoot [] _ (List.append_nil _).symm
    obtain ⟨n, t, v, stack, reached⟩ := start.comes _ x ((f.mem_nodes x).1 mem)
    exact ⟨n, t, v, stack, reached.course, reached.past.course⟩

end Frame
end SceneTree
