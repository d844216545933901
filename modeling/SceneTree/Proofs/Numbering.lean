import SceneTree.IdGen
import SceneTree.Proofs.Digits

/-! Ids that are handed out. A generator counts up from one, so its ids are its stem with a run of
numbers behind it, and no two of them are equal. Nothing separates the stem from the number; two
generators can only meet where the longer stem goes on, after the shorter one, as a number would. -/
namespace SceneTree.IdGen
open Decimal (digits)
open Json.Numeral (digits_ne_nil figured_digits head_digits digitsValue_digits)

theorem digits_injective : Function.Injective digits := by
  intro m n same
  rw [← digitsValue_digits m, same, digitsValue_digits]

theorem id_injective (stem : String) : Function.Injective (id stem) := by
  intro m n same
  have number := (String.append_right_inj stem).1 same
  exact digits_injective (String.ofList_injective number)

def names (stem : String) (first count : Nat) : List String :=
  (List.range' first count).map (id stem)

theorem mem_names {stem : String} {first count : Nat} {name : String} :
    name ∈ names stem first count ↔ ∃ n, first ≤ n ∧ n < first + count ∧ name = id stem n := by
  simp only [names, List.mem_map, List.mem_range'_1]
  exact ⟨fun ⟨n, ⟨low, high⟩, same⟩ => ⟨n, low, high, same.symm⟩,
    fun ⟨n, low, high, same⟩ => ⟨n, ⟨low, high⟩, same.symm⟩⟩

theorem nodup_names (stem : String) (first count : Nat) : (names stem first count).Nodup :=
  (List.nodup_range' 1).map (id_injective stem)

theorem names_succ (stem : String) (first count : Nat) :
    names stem first (count + 1) = id stem first :: names stem (first + 1) count := by
  rw [names, List.range'_succ, List.map_cons]
  rfl

theorem names_add (stem : String) (first m n : Nat) :
    names stem first (m + n) = names stem first m ++ names stem (first + m) n := by
  rw [names, ← List.range'_append_1, List.map_append]
  rfl

theorem next_eq {g : IdGen} (room : g.number < greatest) :
    g.next = (id g.stem g.number, { g with number := g.number + 1 }) := by
  simp only [next, advance, Prod.mk.injEq, true_and]
  congr 1
  omega

theorem skip_eq {n : Nat} {g : IdGen} (room : g.number + n ≤ greatest) :
    skip n g = { g with number := g.number + n } := by
  induction n generalizing g with
  | zero => rfl
  | succ n ih =>
    have step : g.advance = { g with number := g.number + 1 } :=
      congrArg Prod.snd (next_eq (g := g) (by omega))
    rw [skip, step, ih (by simp only; omega)]
    simp only [Nat.add_assoc, Nat.add_comm 1]

/-- The longer stem is the shorter one with a number behind it, which has no needless zero in
front. -/
def GoesOn (stem longer : String) : Prop :=
  ∃ d ds, d ≠ '0' ∧ (∀ c ∈ d :: ds, c.isDigit) ∧ longer = stem ++ String.ofList (d :: ds)

theorem goesOn_of_id_eq {stem longer : String} (other : stem ≠ longer)
    (le : stem.length ≤ longer.length) {m n : Nat} (pos : 0 < m) (same : id stem m = id longer n) :
    GoesOn stem longer := by
  have text : stem.toList ++ digits m = longer.toList ++ digits n := by
    simpa [id, String.toList_append, String.toList_ofList] using congrArg String.toList same
  obtain ⟨rest, more, number⟩ | ⟨rest, more, -⟩ := List.append_eq_append_iff.1 text
  · cases rest with
    | nil =>
      rw [List.append_nil] at more
      exact absurd (String.toList_inj.1 more).symm other
    | cons d ds =>
      have lead : d ≠ '0' := fun zero => head_digits pos (by simp [number, zero])
      have digit : ∀ c ∈ d :: ds, c.isDigit := fun c mem =>
        Nat.isDigit_of_mem_toDigits (by decide) le_rfl
          (number ▸ List.mem_append_left _ mem : c ∈ digits m)
      refine ⟨d, ds, lead, digit, String.toList_inj.1 ?_⟩
      rw [more, String.toList_append, String.toList_ofList]
  · -- the shorter stem can only be the longer one itself
    have none : rest = [] := by
      have size := congrArg List.length more
      rw [List.length_append, String.length_toList, String.length_toList] at size
      exact List.eq_nil_of_length_eq_zero (by omega)
    rw [none, List.append_nil] at more
    exact absurd (String.toList_inj.1 more) other

section
variable {ι : Type} [DecidableEq ι]

def ask (gens : ι → IdGen) (i : ι) : String × (ι → IdGen) :=
  let (name, g) := (gens i).next
  (name, fun j => if j = i then g else gens j)

/-- What is handed out when generators are asked in turn, each id beside the generator it is from,
and the generators afterwards. -/
def askAll (gens : ι → IdGen) : List ι → List (ι × String) × (ι → IdGen)
  | [] => ([], gens)
  | i :: calls =>
    let (name, gens) := ask gens i
    let (others, gens) := askAll gens calls
    ((i, name) :: others, gens)

/-- The ids that one generator has handed out. -/
def handed (i : ι) (drawn : List (ι × String)) : List String :=
  (drawn.filter (·.1 = i)).map (·.2)

/-- However the calls are mixed, every generator counts its own. -/
theorem askAll_eq (gens : ι → IdGen) (calls : List ι) (i : ι)
    (room : (gens i).number + calls.count i ≤ greatest) :
    (askAll gens calls).2 i = { gens i with number := (gens i).number + calls.count i } ∧
      handed i (askAll gens calls).1 = names (gens i).stem (gens i).number (calls.count i) := by
  induction calls generalizing gens with
  | nil => exact ⟨rfl, rfl⟩
  | cons j calls ih =>
    by_cases own : j = i
    · subst own
      rw [List.count_cons_self] at room ⊢
      have step := next_eq (g := gens j) (by omega)
      have asked : (ask gens j).2 j = { gens j with number := (gens j).number + 1 } := by
        simp [ask, step]
      obtain ⟨last, rest⟩ := ih (ask gens j).2 (by rw [asked]; simp only; omega)
      rw [asked] at last rest
      constructor
      · rw [askAll, last]
        simp only [IdGen.mk.injEq, true_and]
        omega
      · have first : (ask gens j).1 = id (gens j).stem (gens j).number := by simp [ask, step]
        rw [names_succ, ← first, ← rest]
        simp [askAll, handed]
    · have asked : (ask gens j).2 i = gens i := if_neg fun same => own same.symm
      rw [List.count_cons_of_ne own] at room ⊢
      obtain ⟨last, rest⟩ := ih (ask gens j).2 (by rw [asked]; exact room)
      rw [asked] at last rest
      refine ⟨last, ?_⟩
      rw [← rest]
      simp [askAll, handed, own]

/-- Of generators that start afresh and hand out ids in any order, each knows how many it has handed
out and hands out none twice; and two of them with different stems hand out the same id only if the
longer stem is the shorter one with a number behind it. -/
theorem generators_apart (gens : ι → IdGen) (calls : List ι)
    (fresh : ∀ i, gens i = .standard ∨ ∃ stem, gens i = .new stem)
    (room : ∀ i, calls.count i < 2 ^ 64 - 1) :
    let (drawn, after) := askAll gens calls
    (∀ i, (after i).issued = calls.count i) ∧ (∀ i, (handed i drawn).Nodup) ∧
      ∀ i j, (gens i).stem ≠ (gens j).stem → (gens i).stem.length ≤ (gens j).stem.length →
        ∀ name ∈ handed i drawn, name ∈ handed j drawn → GoesOn (gens i).stem (gens j).stem := by
  have start (i : ι) : (gens i).number = 1 := by
    obtain standard | ⟨stem, new⟩ := fresh i
    · rw [standard]
      rfl
    · rw [new]
      rfl
  have run (i : ι) := askAll_eq gens calls i (by
    have := room i
    rw [start, greatest]
    omega)
  refine ⟨fun i => ?_, fun i => ?_, fun i j other le name here there => ?_⟩
  · rw [(run i).1, issued, start]
    exact Nat.add_sub_cancel_left 1 _
  · rw [(run i).2]
    exact nodup_names _ _ _
  · rw [(run i).2, mem_names] at here
    rw [(run j).2, mem_names] at there
    obtain ⟨m, low, -, rfl⟩ := here
    obtain ⟨n, -, -, same⟩ := there
    rw [start] at low
    exact goesOn_of_id_eq other le low same

theorem generators_apart_meeting :
    let gens := fun i : Bool => if i then IdGen.new "m1" else .standard
    let calls := List.replicate 11 false ++ [true]
    (∀ i, gens i = .standard ∨ ∃ stem, gens i = .new stem) ∧
      (∀ i, calls.count i < 2 ^ 64 - 1) ∧
      "m11" ∈ handed false (askAll gens calls).1 ∧ "m11" ∈ handed true (askAll gens calls).1 ∧
      (gens false).stem ≠ (gens true).stem ∧ (gens false).stem.length ≤ (gens true).stem.length ∧
      GoesOn (gens false).stem (gens true).stem := by
  intro gens calls
  have fresh : ∀ i, gens i = .standard ∨ ∃ stem, gens i = .new stem
    | false => .inl rfl
    | true => .inr ⟨"m1", rfl⟩
  have room : ∀ i, calls.count i < 2 ^ 64 - 1 := by decide
  have here : "m11" ∈ handed false (askAll gens calls).1 := by decide
  have there : "m11" ∈ handed true (askAll gens calls).1 := by decide
  have apart := (generators_apart gens calls fresh room).2.2
  exact ⟨fresh, room, here, there, by decide, by decide,
    apart false true (by decide) (by decide) "m11" here there⟩

end
end SceneTree.IdGen
