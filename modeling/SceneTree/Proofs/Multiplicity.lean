import Mathlib.Data.Multiset.Count
import SceneTree.Proofs.Turns

/-! Tables of refs are multisets. Whatever is inserted, absorbed and removed, in whatever order, a
table has an entry for each id that is still in it, with the number of times, and no other entry.
The tables of a pass are made in this way, and at every turn they are those of the nodes that they
come with. -/
namespace SceneTree
open Node (materialsAll turns)
open Std (TreeMap)
variable {ι κ : Type}

namespace RefCount
variable {r s : RefCount} {ids more : Multiset String}

def Positive (r : RefCount) : Prop := ∀ x : String, r.counts[x]? ≠ some 0

/-- The table counts the ids, and has no entry for what is not among them. -/
structure Holds (r : RefCount) (ids : Multiset String) : Prop where
  count : ∀ x, r.count x = ids.count x
  positive : r.Positive

/-- The tables that the operations lead to, each with the ids that have gone into it and have not
been taken out again. -/
inductive Made : RefCount → Multiset String → Prop
  | empty : Made .empty 0
  | insert {r : RefCount} {ids : Multiset String} (id : String) (made : Made r ids) :
    Made (r.insert id) (id ::ₘ ids)
  | removeOne {r : RefCount} {ids : Multiset String} (id : String) (made : Made r ids) :
    Made (r.removeOne id) (ids.erase id)
  | absorb {r s : RefCount} {ids more : Multiset String} (left : Made r ids)
    (right : Made s more) : Made (r.absorb s) (ids + more)

theorem positive_add (positive : r.Positive) (id : String) {n : Nat} (filled : 0 < n) :
    (r.add id n).Positive := by
  intro x
  rw [add, TreeMap.getElem?_insert]
  split
  · intro zero
    have total := Option.some.inj zero
    omega
  · exact positive x

theorem positive_removeOne (positive : r.Positive) (id : String) : (r.removeOne id).Positive := by
  intro x
  unfold removeOne
  split
  · rw [TreeMap.getElem?_erase]
    split
    · nofun
    · exact positive x
  · rw [TreeMap.getElem?_insert]
    split
    · intro zero
      have left := Option.some.inj zero
      omega
    · exact positive x

theorem positive_foldl_counts (left : r.Positive) (right : s.Positive) :
    (s.counts.foldl add r).Positive := by
  have entries : ∀ e ∈ s.counts.toList, 0 < e.2 := by
    intro e mem
    have here := TreeMap.mem_toList_iff_getElem?_eq_some.1 mem
    refine Nat.pos_of_ne_zero fun zero => right e.1 ?_
    rw [here, zero]
  rw [TreeMap.foldl_eq_foldl_toList]
  generalize s.counts.toList = list at entries
  induction list generalizing r with
  | nil => exact left
  | cons e list ih =>
    obtain ⟨here, later⟩ := List.forall_mem_cons.1 entries
    exact ih (positive_add left e.1 here) later

theorem positive_absorb (left : r.Positive) (right : s.Positive) : (r.absorb s).Positive := by
  unfold absorb
  split
  · exact positive_foldl_counts right left
  · exact positive_foldl_counts left right

theorem Made.holds (made : Made r ids) : r.Holds ids := by
  induction made with
  | empty => exact ⟨fun x => by simp, fun x => by simp [RefCount.empty]⟩
  | insert id _ ih =>
    refine ⟨fun x => ?_, positive_add ih.positive id Nat.one_pos⟩
    rw [count_insert, ih.count, Multiset.count_cons]
    simp only [eq_comm]
  | removeOne id _ ih =>
    refine ⟨fun x => ?_, positive_removeOne ih.positive id⟩
    rw [count_removeOne, ih.count]
    by_cases same : id = x
    · rw [if_pos same, same, Multiset.count_erase_self]
    · rw [if_neg same, Multiset.count_erase_of_ne (Ne.symm same), Nat.sub_zero]
  | absorb _ _ first second =>
    refine ⟨fun x => ?_, positive_absorb first.positive second.positive⟩
    rw [count_absorb, first.count, second.count, Multiset.count_add]

end RefCount

namespace Node

def refs (ns : List (Node κ)) : Multiset String := (materialsAll ns).map Material.ref

theorem count_refs (x : String) (ns : List (Node κ)) : (refs ns).count x = refsTo x ns := by
  rw [refs, Multiset.coe_count, List.count, List.countP_map, refsTo]
  congr 1

end Node

/-- The table that comes with a node is made by the operations and is that of the refs below it, and
the ref that comes with it is its own. -/
structure Revised.Exact (r : Revised ι) : Prop where
  made : RefCount.Made r.below (Node.refs r.node.children)
  ref : r.ref = r.node.material?.map Material.ref

theorem Revised.Exact.counted {r : Revised ι} (known : r.Exact) : r.Counted where
  below x := by rw [known.made.holds.count, Node.count_refs]
  ref := known.ref

theorem Revised.Exact.shape (i : ι) (s : Shape) : (Revised.shape i s).Exact := ⟨.empty, rfl⟩

theorem RefCount.Made.refs {table : RefCount} {ids : Multiset String} (made : Made table ids)
    {ns : List (Node κ)} (counted : ∀ x, table.count x = Node.refsTo x ns) :
    Made table (Node.refs ns) := by
  have same : ids = Node.refs ns := by
    ext x
    rw [← made.holds.count, counted, Node.count_refs]
  exact same ▸ made

namespace Gathered

theorem made_push {g : Gathered ι} {r : Revised ι} {ids more : Multiset String}
    (before : RefCount.Made g.refs ids) (below : RefCount.Made r.below more) :
    ∃ all, RefCount.Made (g.push r).refs all := by
  unfold push
  cases r.ref with
  | none => exact ⟨_, before.absorb below⟩
  | some id => exact ⟨_, (before.insert id).absorb below⟩

theorem made_foldl_push (rs : List (Revised ι)) {g : Gathered ι} {ids : Multiset String}
    (before : RefCount.Made g.refs ids) (each : ∀ r ∈ rs, r.Exact) :
    ∃ all, RefCount.Made (rs.foldl push g).refs all := by
  induction rs generalizing g ids with
  | nil => exact ⟨ids, before⟩
  | cons r rs ih =>
    obtain ⟨here, later⟩ := List.forall_mem_cons.1 each
    obtain ⟨_, pushed⟩ := made_push before here.made
    exact ih pushed later

theorem made_ofList (rs : List (Revised ι)) (each : ∀ r ∈ rs, r.Exact) :
    ∃ all, RefCount.Made (ofList rs).refs all :=
  made_foldl_push rs .empty each

end Gathered

namespace Options

theorem below_squash {o : Options} {m : Material} {kids : List (Node (Option ι))}
    {refs : RefCount} {r : Revised ι} (done : o.squash m kids refs = some r) :
    r.below = refs.removeOne m.id := by
  unfold squash at done
  split at done
  next =>
    split at done
    next =>
      obtain rfl := Option.some.inj done
      rfl
    next => cases done
  next => cases done

theorem made_reviseGroup (o : Options) (i : ι) (h : Head) (done : List (Revised ι))
    (each : ∀ r ∈ done, r.Exact) : ∃ all, RefCount.Made (o.reviseGroup i h done).1.below all := by
  obtain ⟨all, made⟩ := Gathered.made_ofList done each
  cases h with
  | transform m => exact ⟨all, made⟩
  | material m =>
    simp only [reviseGroup, reviseMaterial]
    split
    next r squashed =>
      rw [below_squash squashed]
      exact ⟨_, made.removeOne m.id⟩
    next =>
      split
      next r squashed =>
        rw [below_squash squashed]
        exact ⟨_, made.removeOne m.id⟩
      next => exact ⟨all, made⟩

theorem exact_reviseGroup (o : Options) (i : ι) (h : Head) (done : List (Revised ι))
    (each : ∀ r ∈ done, r.Exact) : (o.reviseGroup i h done).1.Exact := by
  have counted := o.counted_reviseGroup i h done fun r mem => (each r mem).counted
  obtain ⟨all, made⟩ := o.made_reviseGroup i h done each
  exact ⟨made.refs counted.below, counted.ref⟩

theorem exact_reviseAll (o : Options) (ns : List (Node ι)) : ∀ r ∈ (o.reviseAll ns).1, r.Exact :=
  o.reviseAll_forall .shape (fun i h done => o.exact_reviseGroup i h done) ns

theorem Reached.exact {o : Options} {root : Root ι} {n : Nat} {t : Tally} {stack : List (Visit ι)}
    (reached : o.Reached root n t stack) : ∀ v ∈ stack, ∀ r ∈ v.done, r.Exact := by
  induction reached with
  | atRoot before after split =>
    intro v mem r here
    obtain rfl := List.mem_singleton.1 mem
    exact o.exact_reviseAll before r (List.mem_reverse.1 here)
  | opened before after outer ih =>
    -- the visit below has come to the group, and has the results it had before
    obtain ⟨waiting, others⟩ := List.forall_mem_cons.1 ih
    intro w mem r here
    obtain rfl | mem := List.mem_cons.1 mem
    · exact o.exact_reviseAll before r (List.mem_reverse.1 here)
    · obtain rfl | mem := List.mem_cons.1 mem
      · exact waiting r here
      · exact others w mem r here

end Options

/-- However a table has been made, it counts what is in it and has no entry for anything else. The
pass, turn by turn, comes to every node and hands back what it makes of it; and whatever has been
handed back at any turn comes with the table of the refs strictly below the node handed back, made
by the operations, and with the node's own ref if it is a material. -/
theorem Frame.refs_exact (o : Options) (f : Frame ι) :
    (∀ table ids, RefCount.Made table ids → table.Holds ids) ∧
    (∀ n, o.outcome f.root (f.course o n) = ((f.optimize o).1.root, (f.optimize o).2)) ∧
    (∀ x ∈ f.nodes, ∃ n t v stack, f.course o n = .underway t (Visit.ahead v x :: stack) ∧
      f.course o (n + turns [x]) =
        .underway (t.add (o.revise x).2) (v.deliver (o.revise x).1 :: stack)) ∧
    ∀ n t stack, f.course o n = .underway t stack → ∀ v ∈ stack, ∀ r ∈ v.done,
      RefCount.Made r.below (Node.refs r.node.children) ∧
      r.below.Holds (Node.refs r.node.children) ∧
      r.ref = r.node.material?.map Material.ref := by
  refine ⟨fun table ids made => made.holds, f.outcome_course o, fun x mem => ?_, ?_⟩
  · have start : o.Reached f.root 0 .zero [⟨none, f.root.children ++ [], []⟩] :=
      .atRoot [] _ (List.append_nil _).symm
    obtain ⟨n, t, v, stack, reached⟩ := start.comes _ x ((f.mem_nodes x).1 mem)
    exact ⟨n, t, v, stack, reached.course, reached.past.course⟩
  · intro n t stack here v mem r handed
    have known := (Options.course_reached n t stack here).exact v mem r handed
    exact ⟨known.made, known.made.holds, known.ref⟩

end SceneTree
