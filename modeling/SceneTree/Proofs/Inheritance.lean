import SceneTree.MaterialIndex

/-! Resolving along refs. The walk is cut off after as many materials as there are ids, and that is
late enough: by then it has ended or gone round, and going round once more changes nothing. So a
material looks like its own style on top of what it refers to. -/
namespace SceneTree
variable {κ : Type}

namespace Style

theorem overlay_self (s : Style) : s.overlay s = s := by
  simp [overlay]

theorem overlay_absorbed {s t : Style} (r : Style) (absorbed : s.overlay t = t) :
    s.overlay (r.overlay t) = r.overlay t := by
  have field {α : Type} {a b : Option α} (c : Option α) (h : (b <|> a) = b) :
      ((b <|> c) <|> a) = (b <|> c) := by
    cases b with
    | none =>
      have unset : a = none := h
      subst unset
      cases c <;> rfl
    | some _ => rfl
  obtain ⟨fill, stroke, strokeWidth⟩ := t
  simp only [overlay, mk.injEq] at absorbed ⊢
  obtain ⟨hfill, hstroke, hwidth⟩ := absorbed
  exact ⟨field _ hfill, field _ hstroke, field _ hwidth⟩

end Style

namespace MaterialIndex

theorem follow_stop (index : MaterialIndex κ) (steps : Nat) {id : String} (inner : Style)
    (stop : id = rootId ∨ index.get? id = none) : index.follow steps id inner = inner := by
  cases steps with
  | zero => rfl
  | succ steps =>
    by_cases root : id = rootId
    · simp [follow, root]
    · simp [follow, root, stop.resolve_left root]

theorem follow_step (index : MaterialIndex κ) (steps : Nat) {id : String} (inner : Style)
    {m : Material} {kids : List (Node κ)} (below : id ≠ rootId)
    (found : index.get? id = some (m, kids)) :
    index.follow (steps + 1) id inner = index.follow steps m.ref (m.style.overlay inner) := by
  simp [follow, below, found]

theorem follow_overlay (index : MaterialIndex κ) (steps : Nat) (id : String) (inner : Style) :
    index.follow steps id inner = (index.follow steps id .inherit).overlay inner := by
  induction steps generalizing id inner with
  | zero => exact (Style.inherit_overlay inner).symm
  | succ steps ih =>
    by_cases root : id = rootId
    · rw [follow_stop _ _ _ (.inl root), follow_stop _ _ _ (.inl root), Style.inherit_overlay]
    · cases found : index.get? id with
      | none =>
        rw [follow_stop _ _ _ (.inr found), follow_stop _ _ _ (.inr found), Style.inherit_overlay]
      | some entry =>
        rw [follow_step _ _ _ root found, follow_step _ _ _ root found, ih, Style.overlay_inherit,
          ih _ entry.1.style, Style.overlay_assoc]

/-- A walk that has come to `id`: the ids met before lead to each other or to `id`, and their styles
are all in `inner`. -/
structure Walked (index : MaterialIndex κ) (met : List String) (id : String) (inner : Style) :
    Prop where
  distinct : met.Nodup
  entry : ∀ x ∈ met, ∃ m kids, index.get? x = some (m, kids) ∧ m.style.overlay inner = inner ∧
    (m.ref ∈ met ∨ m.ref = id)

namespace Walked
variable {index : MaterialIndex κ} {met : List String} {id : String} {inner : Style}

theorem around (walked : Walked index met id inner) (back : id ∈ met) (steps : Nat) :
    index.follow steps id inner = inner := by
  induction steps generalizing id with
  | zero => rfl
  | succ steps ih =>
    obtain ⟨m, kids, found, absorbed, next⟩ := walked.entry id back
    have ref_mem : m.ref ∈ met := next.elim (fun mem => mem) fun same => same ▸ back
    have later : Walked index met m.ref inner := by
      refine ⟨walked.distinct, fun x mem => ?_⟩
      obtain ⟨m', kids', found', absorbed', next'⟩ := walked.entry x mem
      have met_ref : m'.ref ∈ met := next'.elim (fun mem => mem) fun same => same ▸ back
      exact ⟨m', kids', found', absorbed', .inl met_ref⟩
    by_cases root : id = rootId
    · exact follow_stop index _ inner (.inl root)
    · rw [follow_step index steps inner root found, absorbed]
      exact ih later ref_mem

theorem step (walked : Walked index met id inner) (new : id ∉ met) {m : Material}
    {kids : List (Node κ)} (found : index.get? id = some (m, kids)) :
    Walked index (id :: met) m.ref (m.style.overlay inner) := by
  refine ⟨List.nodup_cons.2 ⟨new, walked.distinct⟩, fun x mem => ?_⟩
  obtain rfl | mem := List.mem_cons.1 mem
  · refine ⟨m, kids, found, ?_, .inr rfl⟩
    rw [← Style.overlay_assoc, Style.overlay_self]
  · obtain ⟨m', kids', found', absorbed, next⟩ := walked.entry x mem
    refine ⟨m', kids', found', Style.overlay_absorbed m.style absorbed, .inl ?_⟩
    exact next.elim (List.mem_cons_of_mem id) fun same => same ▸ List.mem_cons_self

theorem length_le (walked : Walked index met id inner) : met.length ≤ index.size := by
  have known : met ⊆ index.entries.keys := by
    intro x mem
    obtain ⟨m, kids, found, _⟩ := walked.entry x mem
    rw [Std.TreeMap.mem_keys, Std.TreeMap.mem_iff_isSome_getElem?]
    exact Option.isSome_iff_exists.2 ⟨_, found⟩
  have short := walked.distinct.length_le_of_subset known
  rwa [Std.TreeMap.length_keys] at short

/-- One more step is of no use when all ids may have been met. -/
theorem follow_succ {met : List String} {id : String} {inner : Style}
    (walked : Walked index met id inner) (steps : Nat)
    (enough : index.size ≤ met.length + steps) :
    index.follow (steps + 1) id inner = index.follow steps id inner := by
  by_cases stop : id = rootId ∨ index.get? id = none
  · rw [index.follow_stop _ inner stop, index.follow_stop _ inner stop]
  obtain ⟨root, missing⟩ := not_or.1 stop
  obtain ⟨⟨m, kids⟩, found⟩ := Option.ne_none_iff_exists'.1 missing
  by_cases back : id ∈ met
  · rw [walked.around back, walked.around back]
  have further := walked.step back found
  cases steps with
  | zero =>
    have bound := further.length_le
    simp only [List.length_cons] at bound
    omega
  | succ steps =>
    have room : index.size ≤ (id :: met).length + steps := by
      simp only [List.length_cons]
      omega
    rw [index.follow_step _ inner root found, index.follow_step _ inner root found]
    exact further.follow_succ steps room

end Walked

theorem resolve_none (index : MaterialIndex κ) {id : String} (missing : index.get? id = none) :
    index.resolve id = index.base := by
  by_cases root : id = rootId
  · rw [root, resolve_root]
  · simp [resolve, follow, root, missing, Style.inherit_onto]

theorem resolve_some (index : MaterialIndex κ) {id : String} {m : Material}
    {kids : List (Node κ)} (below : id ≠ rootId) (found : index.get? id = some (m, kids)) :
    index.resolve id = m.style.onto (index.resolve m.ref) := by
  have start : Walked index [] m.ref m.style := ⟨.nil, fun x mem => by cases mem⟩
  have enough := start.follow_succ index.size (by simp)
  rw [resolve, follow, if_neg below, found]
  simp only [Style.overlay_inherit]
  rw [← enough, follow_overlay, Style.overlay_onto]
  rfl

end MaterialIndex
end SceneTree
