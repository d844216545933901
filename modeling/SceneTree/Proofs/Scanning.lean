import SceneTree.Proofs.Lexemes

/-! What has been scanned. At every moment the text so far consists of the tokens found, laid out
in order, and of the beginning of the token that is under way, unless scanning has stopped at a
token that is faulty. So a text without faults is laid out as its tokens. -/
namespace SceneTree.Json
open Token (Scanner Stage Pending scan finished)
open Numeral (digitsText marks)

theorem Digits.single {d : Nat} (small : d < 10) : Digits [d] := ⟨nofun, by simpa using small⟩

theorem Digits.snoc {ds : List Nat} (digits : Digits ds) {d : Nat} (small : d < 10) :
    Digits (ds ++ [d]) :=
  ⟨by simp, List.forall_mem_append.2 ⟨digits.2, by simpa using small⟩⟩

namespace Numeral

def reversed (n : Numeral) : Numeral :=
  ⟨n.negative, n.whole.reverse, n.fraction.reverse,
    n.exponent.map fun (down, ds) => (down, ds.reverse)⟩

theorem mantissa_whole {n : Numeral} (none : n.fraction = []) (d : Nat) :
    mantissa { n with whole := n.whole ++ [d] } = n.mantissa ++ [Nat.digitChar d] := by
  simp [mantissa, digitsText, none]

theorem mantissa_point {n : Numeral} (none : n.fraction = []) (d : Nat) :
    mantissa { n with fraction := [d] } = n.mantissa ++ ['.', Nat.digitChar d] := by
  simp [mantissa, digitsText, none]

theorem mantissa_fraction {n : Numeral} (some : n.fraction ≠ []) (d : Nat) :
    mantissa { n with fraction := n.fraction ++ [d] } = n.mantissa ++ [Nat.digitChar d] := by
  simp [mantissa, digitsText, some]

namespace Proper
variable {n : Numeral} (proper : n.Proper) {d : Nat} (small : d < 10)
include proper

include small in
theorem whole_snoc (lead : n.whole.head? ≠ some 0) :
    Proper { n with whole := n.whole ++ [d] } where
  whole := proper.whole.snoc small
  lead zero := by
    obtain ⟨e, ds, same⟩ := List.exists_cons_of_ne_nil proper.whole.1
    simp only [same, List.cons_append, List.head?_cons] at zero lead
    exact absurd zero lead
  fraction := proper.fraction
  exponent := proper.exponent

include small in
theorem fraction_snoc : Proper { n with fraction := n.fraction ++ [d] } where
  whole := proper.whole
  lead := proper.lead
  fraction := List.forall_mem_append.2 ⟨proper.fraction, by simpa using small⟩
  exponent := proper.exponent

theorem withExponent (down : Bool) {ds : List Nat} (digits : Digits ds) :
    Proper { n with exponent := some (down, ds) } where
  whole := proper.whole
  lead := proper.lead
  fraction := proper.fraction
  exponent _ _ same := by
    cases same
    exact digits

end Proper

end Numeral

/-- What has been taken of a number, in its several stages. -/
def Token.Stage.Begun (n : Numeral) (w : List Char) : Stage → Prop
  | .sign => n = ⟨true, [], [], none⟩ ∧ w = ['-']
  | .zero => n.reversed.Proper ∧ n.fraction = [] ∧ n.exponent = none ∧ w = n.reversed.mantissa
  | .whole => n.reversed.Proper ∧ (n.fraction = [] ∧ n.whole.getLast? ≠ some 0) ∧
      n.exponent = none ∧ w = n.reversed.mantissa
  | .point => n.reversed.Proper ∧ n.fraction = [] ∧ n.exponent = none ∧
      w = n.reversed.mantissa ++ ['.']
  | .fraction => n.reversed.Proper ∧ n.fraction ≠ [] ∧ n.exponent = none ∧
      w = n.reversed.mantissa
  | .mark => n.reversed.Proper ∧ n.exponent = none ∧
      ∃ e, [e] ∈ marks false ∧ w = n.reversed.mantissa ++ [e]
  | .markSign => { n with exponent := none }.reversed.Proper ∧ ∃ down, ∃ mark ∈ marks down,
      n.exponent = some (down, []) ∧ w = n.reversed.mantissa ++ mark
  | .exponent => n.reversed.Proper ∧ ∃ down ds, ∃ mark ∈ marks down,
      n.exponent = some (down, ds) ∧ w = n.reversed.mantissa ++ mark ++ digitsText ds.reverse

namespace Token
namespace Stage
variable {n : Numeral} {w : List Char}

theorem Begun.mantissa {stage : Stage} (begun : stage.Begun n w)
    (plain : stage = .zero ∨ stage = .whole ∨ stage = .fraction) :
    n.reversed.Proper ∧ n.exponent = none ∧ w = n.reversed.mantissa := by
  obtain rfl | rfl | rfl := plain <;> obtain ⟨proper, -, plain, text⟩ := begun <;>
    exact ⟨proper, plain, text⟩

theorem Begun.fraction_nil {stage : Stage} (begun : stage.Begun n w)
    (integer : stage = .zero ∨ stage = .whole) : n.fraction = [] := by
  obtain rfl | rfl := integer
  · exact begun.2.1
  · exact begun.2.1.1

theorem Begun.written {stage : Stage} (begun : stage.Begun n w) (complete : stage.complete) :
    n.reversed.Written w := by
  obtain ⟨negative, whole, fraction, exponent⟩ := n
  cases stage with
  | sign | point | mark | markSign => cases complete
  | zero | whole | fraction =>
    obtain ⟨proper, rfl, text⟩ := begun.mantissa (by simp)
    exact ⟨proper, text⟩
  | exponent =>
    obtain ⟨proper, down, ds, mark, mem, rfl, text⟩ := begun
    exact ⟨proper, mark, mem, text⟩

theorem begun_leading (negative : Bool) {d : Nat} (small : d < 10) :
    ∃ stage n, leading negative d = .number stage n ∧
      stage.Begun n (Numeral.minus negative ++ [Nat.digitChar d]) := by
  have text : Numeral.minus negative ++ [Nat.digitChar d] =
      Numeral.mantissa ⟨negative, [d], [], none⟩ := by simp [Numeral.mantissa, digitsText]
  have proper : Numeral.Proper ⟨negative, [d], [], none⟩ :=
    ⟨.single small, by simp, by simp, by simp⟩
  by_cases zero : d = 0
  · exact ⟨.zero, ⟨negative, [d], [], none⟩, by rw [leading, if_pos zero], proper, rfl, rfl, text⟩
  · exact ⟨.whole, ⟨negative, [d], [], none⟩, by rw [leading, if_neg zero], proper,
      ⟨rfl, by simpa using zero⟩, rfl, text⟩

theorem Begun.digit {stage : Stage} (begun : stage.Begun n w) {d : Nat} (small : d < 10)
    {p : Pending} (next : stage.digit n d = some p) :
    ∃ stage' n', p = .number stage' n' ∧ stage'.Begun n' (w ++ [Nat.digitChar d]) := by
  obtain ⟨negative, whole, fraction, exponent⟩ := n
  cases stage with
  | sign =>
    obtain ⟨same, rfl⟩ := begun
    cases same
    cases next
    exact begun_leading true small
  | zero => cases next
  | whole =>
    obtain ⟨proper, ⟨rfl, lead⟩, rfl, rfl⟩ := begun
    cases next
    have longer := proper.whole_snoc small (by simpa [Numeral.reversed] using lead)
    have text := Numeral.mantissa_whole (n := Numeral.reversed ⟨negative, whole, [], none⟩) rfl d
    refine ⟨.whole, _, rfl, ?_, ⟨rfl, ?_⟩, rfl, ?_⟩
    · simpa [Numeral.reversed] using longer
    · have filled : whole ≠ [] := by simpa [Numeral.reversed] using proper.whole.1
      rwa [List.getLast?_cons_of_ne_nil filled]
    · simpa [Numeral.reversed] using text.symm
  | point =>
    obtain ⟨proper, rfl, rfl, rfl⟩ := begun
    cases next
    have longer := proper.fraction_snoc small
    have text := Numeral.mantissa_point (n := Numeral.reversed ⟨negative, whole, [], none⟩) rfl d
    refine ⟨.fraction, _, rfl, ?_, nofun, rfl, ?_⟩
    · simpa [Numeral.reversed] using longer
    · simpa [Numeral.reversed] using text.symm
  | fraction =>
    obtain ⟨proper, some, rfl, rfl⟩ := begun
    cases next
    have longer := proper.fraction_snoc small
    have text := Numeral.mantissa_fraction (n := Numeral.reversed ⟨negative, whole, fraction, none⟩)
      (by simpa [Numeral.reversed] using some) d
    refine ⟨.fraction, _, rfl, ?_, nofun, rfl, ?_⟩
    · simpa [Numeral.reversed] using longer
    · simpa [Numeral.reversed] using text.symm
  | mark =>
    obtain ⟨proper, rfl, e, mem, rfl⟩ := begun
    cases next
    refine ⟨.exponent, _, rfl, ?_, false, [d], [e], mem, rfl, ?_⟩
    · exact proper.withExponent false (Digits.single small)
    · simp [Numeral.reversed, digitsText, Numeral.mantissa]
  | markSign =>
    obtain ⟨proper, down, mark, mem, rfl, rfl⟩ := begun
    cases next
    refine ⟨.exponent, _, rfl, ?_, down, [d], mark, mem, rfl, ?_⟩
    · exact proper.withExponent down (Digits.single small)
    · simp [Numeral.reversed, digitsText, Numeral.mantissa]
  | exponent =>
    obtain ⟨proper, down, ds, mark, mem, rfl, rfl⟩ := begun
    cases next
    have digits := proper.exponent down ds.reverse rfl
    have longer := proper.withExponent down (digits.snoc small)
    refine ⟨.exponent, _, rfl, ?_, down, d :: ds, mark, mem, rfl, ?_⟩
    · simpa [Numeral.reversed] using longer
    · simp [Numeral.reversed, digitsText, Numeral.mantissa]

/-- Where a character that is no digit leads from one stage to the next. -/
inductive Goes (n : Numeral) : Stage → Char → Stage → Numeral → Prop
  | point {stage : Stage} (integer : stage = .zero ∨ stage = .whole) : Goes n stage '.' .point n
  | mark {stage : Stage} {e : Char} (plain : stage = .zero ∨ stage = .whole ∨ stage = .fraction)
    (letter : [e] ∈ marks false) : Goes n stage e .mark n
  | sign {c : Char} (down : Bool) (signed : [['e', c], ['E', c]] ⊆ marks down) :
    Goes n .mark c .markSign { n with exponent := some (down, []) }

theorem goes_of_other {stage : Stage} {c : Char} {p : Pending} (next : stage.other n c = some p) :
    ∃ stage' n', p = .number stage' n' ∧ Goes n stage c stage' n' := by
  unfold Stage.other at next
  split at next <;> cases next <;> refine ⟨_, _, rfl, ?_⟩
  all_goals first
    | exact .point (by simp)
    | exact .mark (by simp) (by decide)
    | exact .sign _ (by decide)

theorem Begun.other {stage : Stage} (begun : stage.Begun n w) {c : Char}
    {p : Pending} (next : stage.other n c = some p) :
    ∃ stage' n', p = .number stage' n' ∧ stage'.Begun n' (w ++ [c]) := by
  obtain ⟨stage', n', rfl, goes⟩ := goes_of_other next
  refine ⟨stage', n', rfl, ?_⟩
  cases goes with
  | point integer =>
    obtain ⟨proper, noExponent, rfl⟩ := begun.mantissa (integer.imp_right .inl)
    exact ⟨proper, begun.fraction_nil integer, noExponent, rfl⟩
  | mark plain letter =>
    obtain ⟨proper, noExponent, rfl⟩ := begun.mantissa plain
    exact ⟨proper, noExponent, c, letter, rfl⟩
  | sign down signed =>
    obtain ⟨negative, whole, fraction, exponent⟩ := n
    obtain ⟨proper, rfl, e, letter, rfl⟩ := begun
    have mark : [e, c] ∈ marks down := by
      obtain rfl | rfl : e = 'e' ∨ e = 'E' := by simpa [marks] using letter
      · exact signed (by simp)
      · exact signed (by simp)
    exact ⟨proper, down, [e, c], mark, rfl, by simp [Numeral.reversed, Numeral.mantissa]⟩

end Stage

end Token

theorem Piece.WrittenAll.snoc {ps : List Piece} {w v : List Char} {p : Piece}
    (all : WrittenAll ps w) (last : p.Written v) : WrittenAll (ps ++ [p]) (w ++ v) := by
  obtain ⟨ws, each, rfl⟩ := all
  exact ⟨ws ++ [v], List.rel_append each (.cons last .nil), by simp⟩

namespace Token

/-- The text of what is under way. When no unit can come of its digits any more, it does not matter
which they are. -/
def Pending.Begun (b : List Char) : Pending → Prop
  | .blank => b = []
  | .word v rest => b ++ rest = v.text
  | .number stage n => stage.Begun n b
  | .string pieces => ∃ w, Piece.WrittenAll pieces.reverse w ∧ b = '"' :: w
  | .escape pieces => ∃ w, Piece.WrittenAll pieces.reverse w ∧ b = '"' :: w ++ ['\\']
  | .hex pieces size value => value.isSome → ∃ w cs, Piece.WrittenAll pieces.reverse w ∧
      b = '"' :: w ++ '\\' :: 'u' :: cs ∧ hexValue cs = value ∧ cs.length = size ∧ size < 4
  | .stopped => False

def faulty : Token → Bool
  | .broken _ => true
  | .string q => q.ending ≠ .closed
  | .word _ | .number _ | .listOpen | .listClose | .objectOpen | .objectClose | .comma | .colon =>
    false

/-- The text so far is that of the tokens found and of the beginning of the next one, unless
scanning has stopped at a token that is faulty. -/
def Scanner.Traces (text : List Char) (s : Scanner) : Prop :=
  (s.pending = .stopped ∧ ∃ c ∈ s.found.head?, c.faulty) ∨
    ∃ front back, text = front ++ back ∧ Laid s.found.reverse front ∧ s.pending.Begun back

namespace Scanner
variable {text : List Char} {found : List Token}

theorem traces_stop {c : Token} (faulty : c.faulty) : Traces text ⟨c :: found, .stopped⟩ :=
  .inl ⟨rfl, c, rfl, faulty⟩

theorem digit_ok {c : Char} {d : Nat} (digit : digit? c = some d) :
    d < 10 ∧ c = Nat.digitChar d := by
  unfold digit? at digit
  split at digit
  · rename_i range
    obtain ⟨low, high⟩ : 48 ≤ c.toNat ∧ c.toNat ≤ 57 := range
    obtain rfl := Option.some.inj digit
    refine ⟨by omega, Char.toNat_inj.1 ?_⟩
    rw [Nat.toNat_digitChar_of_lt_ten (by omega)]
    omega
  · cases digit

theorem traces_fresh (laid : Laid found.reverse text) (c : Char) :
    Traces (text ++ [c]) (fresh found (.char c)) := by
  have whole (t : Token) (written : t.Written [c]) : Traces (text ++ [c]) ⟨t :: found, .blank⟩ := by
    refine .inr ⟨text ++ [c], [], by simp, ?_, rfl⟩
    rw [List.reverse_cons]
    exact laid.snoc written
  have start (p : Pending) (begun : p.Begun [c]) : Traces (text ++ [c]) ⟨found, p⟩ :=
    .inr ⟨text, [c], rfl, laid, begun⟩
  simp only [fresh]
  split
  · rename_i blank
    refine .inr ⟨text ++ [c], [], by simp, laid.blanks ?_, rfl⟩
    simpa [Blanks] using (isBlank_iff c).1 blank
  · split
    · exact whole .listOpen rfl
    · exact whole .listClose rfl
    · exact whole .objectOpen rfl
    · exact whole .objectClose rfl
    · exact whole .comma rfl
    · exact whole .colon rfl
    · exact start (.string []) ⟨[], ⟨[], .nil, rfl⟩, rfl⟩
    · exact start (.number .sign _) ⟨rfl, rfl⟩
    · exact start (.word .null _) rfl
    · exact start (.word (.bool true) _) rfl
    · exact start (.word (.bool false) _) rfl
    · split
      · rename_i d digit
        obtain ⟨small, rfl⟩ := digit_ok digit
        obtain ⟨stage, n, lead, begun⟩ := Stage.begun_leading false small
        rw [lead]
        exact start (.number stage n) begun
      · exact traces_stop rfl

section
variable {front back : List Char} (laid : Laid found.reverse front) (c : Char)
include laid

theorem laid_found {t : Token} (written : t.Written back) :
    Laid (t :: found).reverse (front ++ back) := by
  rw [List.reverse_cons]
  exact laid.snoc written

theorem traces_under {p : Pending} (begun : p.Begun (back ++ [c])) :
    Traces (front ++ back ++ [c]) ⟨found, p⟩ :=
  .inr ⟨front, back ++ [c], List.append_assoc .., laid, begun⟩

theorem traces_found {t : Token} (written : t.Written (back ++ [c])) :
    Traces (front ++ back ++ [c]) ⟨t :: found, .blank⟩ :=
  .inr ⟨front ++ (back ++ [c]), [], by simp, laid_found laid written, rfl⟩

theorem traces_inWord {v : Word} {rest : List Char} (begun : back ++ rest = v.text) :
    (inWord found v rest (.char c)).Traces (front ++ back ++ [c]) := by
  unfold inWord
  split
  · rw [List.append_nil] at begun
    exact traces_fresh (laid_found laid (t := .word v) begun) c
  · split
    · rename_i same
      cases same
      exact traces_found laid c begun
    · exact traces_stop rfl
  · split
    · rename_i same
      cases same
      exact traces_under laid c (by simpa [Pending.Begun] using begun)
    · exact traces_stop rfl

theorem traces_inNumber {stage : Stage} {n : Numeral} (begun : stage.Begun n back) :
    (inNumber found stage n (.char c)).Traces (front ++ back ++ [c]) := by
  unfold inNumber
  dsimp only
  split
  · rename_i d digit
    obtain ⟨small, rfl⟩ := digit_ok digit
    split
    · rename_i p next
      obtain ⟨stage', n', rfl, begun⟩ := begun.digit small next
      exact traces_under laid _ begun
    · exact traces_stop rfl
  · split
    · rename_i p next
      obtain ⟨stage', n', rfl, begun⟩ := begun.other next
      exact traces_under laid c begun
    · split
      · rename_i complete
        exact traces_fresh (laid_found laid (t := finished n) (begun.written complete)) c
      · exact traces_stop rfl

variable {pieces : List Piece} {w : List Char} (parts : Piece.WrittenAll pieces.reverse w)
include parts

theorem traces_inString (begun : back = '"' :: w) :
    (inString found pieces (.char c)).Traces (front ++ back ++ [c]) := by
  subst begun
  simp only [inString]
  split
  · rename_i quote
    subst quote
    exact traces_found laid _ ⟨rfl, w, parts, rfl⟩
  · rename_i quote
    split
    · rename_i backslash
      subst backslash
      exact traces_under laid _ ⟨w, parts, rfl⟩
    · rename_i backslash
      split
      · exact traces_stop rfl
      · rename_i printed
        refine traces_under laid c ⟨w ++ [c], ?_, rfl⟩
        rw [List.reverse_cons]
        exact parts.snoc (.plain quote backslash printed)

theorem traces_inEscape (begun : back = '"' :: w ++ ['\\']) :
    (inEscape found pieces (.char c)).Traces (front ++ back ++ [c]) := by
  subst begun
  simp only [inEscape]
  split
  · rename_i unit
    subst unit
    exact traces_under laid _ fun _ => ⟨w, [], parts, by simp, rfl, rfl, by decide⟩
  · split
    · rename_i e escape
      refine traces_under laid c ⟨w ++ ['\\', c], ?_, by simp⟩
      rw [List.reverse_cons]
      exact parts.snoc (.escaped escape)
    · exact traces_stop rfl

omit parts in
theorem traces_inHex {size : Nat} {value : Option Nat}
    (begun : Pending.Begun back (.hex pieces size value)) :
    (inHex found pieces size value (.char c)).Traces (front ++ back ++ [c]) := by
  unfold inHex
  dsimp only
  generalize next : (do return 16 * (← value) + (← hexDigit? c) : Option Nat) = value'
  have digits (some : value'.isSome) : ∃ w cs, Piece.WrittenAll pieces.reverse w ∧
      back ++ [c] = '"' :: w ++ '\\' :: 'u' :: (cs ++ [c]) ∧ hexValue (cs ++ [c]) = value' ∧
      (cs ++ [c]).length = size + 1 ∧ (Symbol.char c).size = 1 ∧ size < 4 := by
    obtain ⟨u, rfl⟩ := Option.isSome_iff_exists.1 some
    obtain ⟨v, rfl, d, digit, -⟩ : ∃ v, value = .some v ∧ ∃ d, hexDigit? c = .some d ∧ _ := by
      simpa [Option.bind_eq_some_iff] using next
    obtain ⟨w, cs, parts, rfl, read, length, room⟩ := begun rfl
    refine ⟨w, cs, parts, by simp, ?_, by simp [length], size_of_hexDigit digit, room⟩
    rw [hexValue_snoc, read, ← next, digit]
    rfl
  split
  · rename_i short
    refine traces_under laid c fun some => ?_
    obtain ⟨w, cs, parts, same, read, length, one, -⟩ := digits some
    exact ⟨w, cs ++ [c], parts, same, read, by rw [length, one], short⟩
  · rename_i long
    split
    · rename_i u
      obtain ⟨w, cs, parts, same, read, length, one, room⟩ := digits rfl
      have four : (cs ++ [c]).length = 4 := by omega
      refine traces_under laid c ⟨w ++ '\\' :: 'u' :: (cs ++ [c]), ?_, by simp [same]⟩
      rw [List.reverse_cons]
      exact parts.snoc (.unit four read)
    · exact traces_stop rfl

end

theorem traces_step {s : Scanner} (traces : s.Traces text) (c : Char) :
    (s.step (.char c)).Traces (text ++ [c]) := by
  obtain ⟨found, pending⟩ := s
  obtain ⟨rfl, halted⟩ | ⟨front, back, rfl, laid, begun⟩ := traces
  · exact .inl ⟨rfl, halted⟩
  cases pending with
  | blank =>
    cases begun
    rw [List.append_nil]
    exact traces_fresh laid c
  | word v rest => exact traces_inWord laid c begun
  | number stage n => exact traces_inNumber laid c begun
  | string pieces =>
    obtain ⟨w, parts, same⟩ := begun
    exact traces_inString laid c parts same
  | escape pieces =>
    obtain ⟨w, parts, same⟩ := begun
    exact traces_inEscape laid c parts same
  | hex pieces size value => exact traces_inHex laid c begun
  | stopped => cases begun

theorem traces_run (text : List Char) : (start.run (text.map .char)).Traces text := by
  induction text using List.reverseRecOn with
  | nil => exact .inr ⟨[], [], rfl, nofun, rfl⟩
  | append_singleton text c ih =>
    rw [List.map_append, run_append]
    exact traces_step ih c

end Scanner

/-- A text that is scanned without a fault is laid out as the tokens that are found. -/
theorem laid_of_scan (text : List Char) (sound : ∀ c ∈ scan (text.map .char), c.faulty = false) :
    Laid (scan (text.map .char)) text := by
  have traces := Scanner.traces_run text
  unfold scan at sound ⊢
  generalize Scanner.start.run (text.map .char) = s at traces sound
  obtain ⟨found, pending⟩ := s
  have last {c : Token} {ts : List Token} (found : Scanner.finish ⟨found, pending⟩ = ts ++ [c]) :
      c.faulty = false := sound c (by simp [found])
  obtain ⟨rfl, c, head, halted⟩ | ⟨front, back, rfl, laid, begun⟩ := traces
  · have mem : c ∈ found := List.mem_of_mem_head? head
    rw [sound c (List.mem_reverse.2 mem)] at halted
    cases halted
  cases pending with
  | blank =>
    cases begun
    rw [List.append_nil]
    exact laid
  | stopped => cases begun
  | number stage n =>
    have broken := last (List.reverse_cons ..)
    split at broken
    · rename_i complete
      have whole := Scanner.laid_found laid (t := finished n) (begun.written complete)
      simpa [Scanner.finish, complete] using whole
    · cases broken
  | word v rest =>
    have broken := last (List.reverse_cons ..)
    cases broken
  | string pieces | escape pieces | hex pieces size value =>
    have broken := last (List.reverse_cons ..)
    cases broken

end Token
end SceneTree.Json
