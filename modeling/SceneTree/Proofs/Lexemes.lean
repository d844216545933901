import SceneTree.Json.Token
import SceneTree.Proofs.Digits

/-! Tokens and the texts they are written as. A token may be written in more than one way, and any
white space may stand between two tokens. Scanning finds the tokens of every text that is laid out
in this way, and every text that is scanned without a fault is laid out so. -/
namespace SceneTree.Json
open Token (Scanner Stage Pending)
open Numeral (digitsText)

def Blanks (text : List Char) : Prop := ∀ c ∈ text, c ∈ [' ', '\t', '\n', '\r']

namespace Numeral

def mantissa (n : Numeral) : List Char :=
  minus n.negative ++ digitsText n.whole ++
    (if n.fraction = [] then [] else '.' :: digitsText n.fraction)

def marks (down : Bool) : List (List Char) :=
  if down then [['e', '-'], ['E', '-']] else [['e'], ['E'], ['e', '+'], ['E', '+']]

/-- The texts of a number. -/
def Written (n : Numeral) (w : List Char) : Prop :=
  n.Proper ∧ match n.exponent with
    | none => w = n.mantissa
    | some (down, ds) => ∃ mark ∈ marks down, w = n.mantissa ++ mark ++ digitsText ds

end Numeral

def hexValue (cs : List Char) : Option Nat :=
  cs.foldlM (fun v c => do return 16 * v + (← Token.hexDigit? c)) 0

theorem hexValue_append (cs ds : List Char) : hexValue (cs ++ ds) =
    (hexValue cs).bind fun v => ds.foldlM (fun v c => do return 16 * v + (← Token.hexDigit? c)) v :=
  List.foldlM_append ..

theorem hexValue_snoc (cs : List Char) (c : Char) : hexValue (cs ++ [c]) =
    (hexValue cs).bind fun v => (Token.hexDigit? c).map (16 * v + ·) := by
  rw [hexValue_append]
  simp [Option.map_eq_bind]

theorem size_of_hexDigit {c : Char} {d : Nat} (digit : Token.hexDigit? c = some d) :
    c.utf8Size = 1 := by
  have ascii : c.val ≤ 0x7F := by
    unfold Token.hexDigit? at digit
    split at digit
    · rename_i decimal
      exact UInt32.le_trans decimal.2 (by decide)
    · split at digit
      · rename_i small
        exact UInt32.le_trans small.2 (by decide)
      · split at digit
        · rename_i capital
          exact UInt32.le_trans capital.2 (by decide)
        · cases digit
  simp [Char.utf8Size, ascii]

inductive Piece.Written : Piece → List Char → Prop
  | plain {c : Char} (quote : c ≠ '"') (backslash : c ≠ '\\') (printed : ¬ c.toNat < 0x20) :
    Written (.char c) [c]
  | escaped {c e : Char} (escape : Token.simpleEscape e = some c) : Written (.char c) ['\\', e]
  | unit {u : Nat} {cs : List Char} (four : cs.length = 4) (value : hexValue cs = some u) :
    Written (.unit u) ('\\' :: 'u' :: cs)

def Piece.WrittenAll (ps : List Piece) (w : List Char) : Prop :=
  ∃ ws, List.Forall₂ Written ps ws ∧ w = ws.flatten

def Quoted.Written (q : Quoted) (w : List Char) : Prop :=
  q.ending = .closed ∧ ∃ inside, Piece.WrittenAll q.pieces inside ∧ w = '"' :: inside ++ ['"']

def Word.text : Word → List Char
  | .null => ['n', 'u', 'l', 'l']
  | .bool b => word b

/-- The texts of a token. One that is broken has none. -/
def Token.Written : Token → List Char → Prop
  | .word v, w => w = v.text
  | .number n, w => n.Written w
  | .string q, w => q.Written w
  | .listOpen, w => w = ['[']
  | .listClose, w => w = [']']
  | .objectOpen, w => w = ['{']
  | .objectClose, w => w = ['}']
  | .comma, w => w = [',']
  | .colon, w => w = [':']
  | .broken _, _ => False

/-- The text consists of the tokens in order, with white space around them. -/
def Laid : List Token → List Char → Prop
  | [], text => Blanks text
  | c :: ts, text => ∃ before w rest,
    Blanks before ∧ c.Written w ∧ Laid ts rest ∧ text = before ++ w ++ rest

theorem Blanks.append {a b : List Char} (front : Blanks a) (back : Blanks b) : Blanks (a ++ b) :=
  fun c mem => (List.mem_append.1 mem).elim (front c) (back c)

theorem Laid.blanks {ts : List Token} {text b : List Char} (laid : Laid ts text)
    (blanks : Blanks b) : Laid ts (text ++ b) := by
  induction ts generalizing text with
  | nil => exact Blanks.append laid blanks
  | cons c ts ih =>
    obtain ⟨before, w, rest, front, written, laid, rfl⟩ := laid
    exact ⟨before, w, rest ++ b, front, written, ih laid, List.append_assoc ..⟩

theorem Laid.snoc {ts : List Token} {text w : List Char} {c : Token} (laid : Laid ts text)
    (written : c.Written w) : Laid (ts ++ [c]) (text ++ w) := by
  induction ts generalizing text with
  | nil => exact ⟨text, w, [], laid, written, nofun, by simp⟩
  | cons d ts ih =>
    obtain ⟨before, v, rest, front, own, laid, rfl⟩ := laid
    exact ⟨before, v, rest ++ w, front, own, ih laid, List.append_assoc ..⟩

namespace Token

theorem isBlank_iff (c : Char) : isBlank c ↔ c ∈ [' ', '\t', '\n', '\r'] := by
  simp only [isBlank, decide_eq_true_eq, List.mem_cons, List.not_mem_nil, or_false]
  tauto

def scanFrom (s : Scanner) (text : List Char) : List Token := (s.run (text.map .char)).finish

def scanOn (found : List Token) (text : List Char) : List Token := scanFrom ⟨found, .blank⟩ text

theorem scanFrom_cons (s : Scanner) (c : Char) (k : List Char) :
    scanFrom s (c :: k) = scanFrom (s.step (.char c)) k := rfl

/-- No number goes on here. -/
def Clear (k : List Char) : Prop := ∀ c ∈ k.head?, digit? c = none ∧ c ∉ ['.', 'e', 'E']

section
variable (found : List Token)

theorem scanOn_blanks {b : List Char} (blanks : Blanks b) (k : List Char) :
    scanOn found (b ++ k) = scanOn found k := by
  induction b with
  | nil => rfl
  | cons c b ih =>
    obtain ⟨here, later⟩ := List.forall_mem_cons.1 blanks
    have step : fresh found (.char c) = ⟨found, .blank⟩ := if_pos ((isBlank_iff c).2 here)
    rw [List.cons_append, scanOn, scanFrom_cons]
    change scanFrom (fresh found (.char c)) _ = _
    rw [step]
    exact ih later

theorem digit_digitChar {d : Nat} (small : d < 10) : digit? (Nat.digitChar d) = some d := by
  decide +revert

theorem scanFrom_digits {stage : Stage} {p : List Nat → Numeral}
    (takes : ∀ ds d, stage.digit (p ds) d = some (.number stage (p (d :: ds))))
    {ds : List Nat} (small : ∀ d ∈ ds, d < 10) (before : List Nat) (k : List Char) :
    scanFrom ⟨found, .number stage (p before)⟩ (digitsText ds ++ k) =
      scanFrom ⟨found, .number stage (p (ds.reverse ++ before))⟩ k := by
  induction ds generalizing before with
  | nil => rfl
  | cons d ds ih =>
    have here := digit_digitChar (small d List.mem_cons_self)
    have next : Scanner.step ⟨found, .number stage (p before)⟩ (.char (Nat.digitChar d)) =
        ⟨found, .number stage (p (d :: before))⟩ := by
      simp [Scanner.step, inNumber, here, takes]
    change scanFrom _ (Nat.digitChar d :: (digitsText ds ++ k)) = _
    rw [scanFrom_cons, next, ih fun e mem => small e (List.mem_cons_of_mem _ mem)]
    simp

/- A number that may end here takes no other character than these. -/
theorem other_eq_none {stage : Stage} (complete : stage.complete = true) (n : Numeral) {c : Char}
    (clear : c ∉ ['.', 'e', 'E']) : stage.other n c = none := by
  simp only [List.mem_cons, List.not_mem_nil, or_false, not_or] at clear
  unfold Stage.other
  split <;> simp_all [Stage.complete]

theorem scanFrom_finished {stage : Stage} (complete : stage.complete = true) (n : Numeral)
    {k : List Char} (clear : Clear k) :
    scanFrom ⟨found, .number stage n⟩ k = scanOn (finished n :: found) k := by
  cases k with
  | nil => simp [scanFrom, scanOn, Scanner.run, Scanner.finish, complete]
  | cons c k =>
    obtain ⟨digit, other⟩ := clear c rfl
    have step : inNumber found stage n (.char c) = fresh (finished n :: found) (.char c) := by
      simp [inNumber, digit, other_eq_none complete n other, complete]
    rw [scanFrom_cons, scanOn, scanFrom_cons]
    change scanFrom (inNumber found stage n (.char c)) k = _
    rw [step]
    rfl

theorem scanOn_lead (negative : Bool) {d : Nat} (small : d < 10) (k : List Char) :
    scanOn found (Numeral.minus negative ++ Nat.digitChar d :: k) =
      scanFrom ⟨found, leading negative d⟩ k := by
  cases negative <;> interval_cases d <;> rfl

theorem scanOn_whole (negative : Bool) {ds : List Nat} (digits : Digits ds)
    (lead : ds.head? = some 0 → ds = [0]) (k : List Char) :
    ∃ stage ∈ [Stage.zero, .whole], scanOn found (Numeral.minus negative ++ digitsText ds ++ k) =
      scanFrom ⟨found, .number stage ⟨negative, ds.reverse, [], none⟩⟩ k := by
  obtain ⟨filled, small⟩ := digits
  obtain ⟨d, ds, rfl⟩ := List.exists_cons_of_ne_nil filled
  have first := scanOn_lead found negative (small d List.mem_cons_self) (digitsText ds ++ k)
  have text : Numeral.minus negative ++ digitsText (d :: ds) ++ k =
      Numeral.minus negative ++ Nat.digitChar d :: (digitsText ds ++ k) := by
    simp [digitsText]
  rw [text, first]
  by_cases zero : d = 0
  · subst zero
    obtain rfl : ds = [] := by simpa using lead rfl
    exact ⟨.zero, by simp, rfl⟩
  · refine ⟨.whole, by simp, ?_⟩
    have start : leading negative d = .number .whole ⟨negative, [d], [], none⟩ := by
      rw [leading, if_neg zero]
    rw [start, scanFrom_digits found (p := fun ds => ⟨negative, ds, [], none⟩) (fun _ _ => rfl)
      (fun e mem => small e (List.mem_cons_of_mem _ mem)) [d] k]
    simp

theorem scanFrom_fraction {stage : Stage} (before : stage ∈ [Stage.zero, .whole]) {n : Numeral}
    (none : n.fraction = []) {ds : List Nat} (small : ∀ d ∈ ds, d < 10) (k : List Char) :
    ∃ stage' ∈ [Stage.zero, .whole, .fraction],
      scanFrom ⟨found, .number stage n⟩ ((if ds = [] then [] else '.' :: digitsText ds) ++ k) =
        scanFrom ⟨found, .number stage' { n with fraction := ds.reverse }⟩ k := by
  cases ds with
  | nil =>
    refine ⟨stage, ?_, by cases n; cases none; rfl⟩
    obtain rfl | rfl : stage = .zero ∨ stage = .whole := by simpa using before
    all_goals simp
  | cons d ds =>
    have point : Scanner.step ⟨found, .number stage n⟩ (.char '.') = ⟨found, .number .point n⟩ := by
      obtain rfl | rfl : stage = .zero ∨ stage = .whole := by simpa using before
      all_goals rfl
    have first : Scanner.step ⟨found, .number .point n⟩ (.char (Nat.digitChar d)) =
        ⟨found, .number .fraction { n with fraction := [d] }⟩ := by
      simp [Scanner.step, inNumber, digit_digitChar (small d List.mem_cons_self), Stage.digit, none]
    refine ⟨.fraction, by simp, ?_⟩
    rw [if_neg (List.cons_ne_nil d ds)]
    change scanFrom _ ('.' :: Nat.digitChar d :: (digitsText ds ++ k)) = _
    rw [scanFrom_cons, point, scanFrom_cons, first,
      scanFrom_digits found (p := fun ds => { n with fraction := ds }) (fun _ _ => rfl)
        (fun e mem => small e (List.mem_cons_of_mem _ mem)) [d] k]
    simp

theorem scanFrom_mark {stage : Stage} (before : stage ∈ [Stage.zero, .whole, .fraction])
    (n : Numeral) {down : Bool} {mark : List Char} (mem : mark ∈ Numeral.marks down) {d : Nat}
    (small : d < 10) (k : List Char) :
    scanFrom ⟨found, .number stage n⟩ (mark ++ Nat.digitChar d :: k) =
      scanFrom ⟨found, .number .exponent { n with exponent := some (down, [d]) }⟩ k := by
  have digit := digit_digitChar small
  have plain : Scanner.step ⟨found, .number .mark n⟩ (.char (Nat.digitChar d)) =
      ⟨found, .number .exponent { n with exponent := some (false, [d]) }⟩ := by
    simp [Scanner.step, inNumber, digit, Stage.digit]
  have signed (down : Bool) : Scanner.step
      ⟨found, .number .markSign { n with exponent := some (down, []) }⟩ (.char (Nat.digitChar d)) =
        ⟨found, .number .exponent { n with exponent := some (down, [d]) }⟩ := by
    simp [Scanner.step, inNumber, digit, Stage.digit]
  have start (e : Char) (mem : e ∈ ['e', 'E']) :
      Scanner.step ⟨found, .number stage n⟩ (.char e) = ⟨found, .number .mark n⟩ := by
    obtain rfl | rfl | rfl : stage = .zero ∨ stage = .whole ∨ stage = .fraction := by
      simpa using before
    all_goals
      obtain rfl | rfl : e = 'e' ∨ e = 'E' := by simpa using mem
      all_goals rfl
  cases down with
  | true =>
    obtain rfl | rfl : mark = ['e', '-'] ∨ mark = ['E', '-'] := by simpa [Numeral.marks] using mem
    all_goals
      simp only [List.cons_append, List.nil_append, scanFrom_cons]
      rw [start _ (by simp), ← signed]
      rfl
  | false =>
    obtain rfl | rfl | rfl | rfl :
        mark = ['e'] ∨ mark = ['E'] ∨ mark = ['e', '+'] ∨ mark = ['E', '+'] := by
      simpa [Numeral.marks] using mem
    all_goals
      simp only [List.cons_append, List.nil_append, scanFrom_cons]
      rw [start _ (by simp)]
      first
      | rw [plain]
      | (rw [← signed]; rfl)

theorem scanFrom_exponent {stage : Stage} (before : stage ∈ [Stage.zero, .whole, .fraction])
    (n : Numeral) {down : Bool} {mark : List Char} (mem : mark ∈ Numeral.marks down)
    {ds : List Nat} (digits : Digits ds) (k : List Char) :
    scanFrom ⟨found, .number stage n⟩ (mark ++ digitsText ds ++ k) =
      scanFrom ⟨found, .number .exponent { n with exponent := some (down, ds.reverse) }⟩ k := by
  obtain ⟨filled, small⟩ := digits
  obtain ⟨d, ds, rfl⟩ := List.exists_cons_of_ne_nil filled
  have first := scanFrom_mark found before n mem (small d List.mem_cons_self) (digitsText ds ++ k)
  rw [List.append_assoc]
  refine first.trans ?_
  rw [scanFrom_digits found (p := fun ds => { n with exponent := some (down, ds) })
    (fun _ _ => rfl) (fun e mem => small e (List.mem_cons_of_mem _ mem)) [d] k]
  simp

theorem scanOn_mantissa {n : Numeral} (proper : n.Proper) (k : List Char) :
    ∃ stage ∈ [Stage.zero, .whole, .fraction], scanOn found (n.mantissa ++ k) = scanFrom
      ⟨found, .number stage ⟨n.negative, n.whole.reverse, n.fraction.reverse, none⟩⟩ k := by
  obtain ⟨stage, here, whole⟩ := scanOn_whole found n.negative proper.whole proper.lead
    ((if n.fraction = [] then [] else '.' :: digitsText n.fraction) ++ k)
  obtain ⟨stage', next, fraction⟩ := scanFrom_fraction found here
    (n := ⟨n.negative, n.whole.reverse, [], none⟩) rfl proper.fraction k
  refine ⟨stage', next, ?_⟩
  rw [Numeral.mantissa, List.append_assoc, whole, fraction]

theorem scanOn_numeral {n : Numeral} {w : List Char} (written : n.Written w) {k : List Char}
    (clear : Clear k) : scanOn found (w ++ k) = scanOn (.number n :: found) k := by
  obtain ⟨proper, text⟩ := written
  obtain ⟨negative, whole, fraction, exponent⟩ := n
  cases exponent with
  | none =>
    obtain ⟨stage, here, step⟩ := scanOn_mantissa found proper k
    have complete : stage.complete = true := by
      obtain rfl | rfl | rfl : stage = .zero ∨ stage = .whole ∨ stage = .fraction := by
        simpa using here
      all_goals rfl
    change w = _ at text
    rw [text, step, scanFrom_finished found complete _ clear]
    simp [finished]
  | some exponent =>
    obtain ⟨down, ds⟩ := exponent
    obtain ⟨mark, mem, text⟩ := text
    obtain ⟨stage, here, step⟩ := scanOn_mantissa found proper (mark ++ (digitsText ds ++ k))
    have last := scanFrom_exponent found here ⟨negative, whole.reverse, fraction.reverse, none⟩ mem
      (proper.exponent down ds rfl) k
    rw [List.append_assoc] at last
    rw [text, List.append_assoc, List.append_assoc, step, last,
      scanFrom_finished found rfl _ clear]
    simp [finished]

theorem scanFrom_hex (pieces : List Piece) (before : List Char) {cs : List Char} {u v : Nat}
    (start : hexValue before = some v) (value : hexValue (before ++ cs) = some u)
    (four : before.length + cs.length = 4) (more : cs ≠ []) (k : List Char) :
    scanFrom ⟨found, .hex pieces before.length (some v)⟩ (cs ++ k) =
      scanFrom ⟨found, .string (.unit u :: pieces)⟩ k := by
  induction cs generalizing before v with
  | nil => exact absurd rfl more
  | cons c cs ih =>
    rw [List.append_cons] at value
    rw [List.length_cons] at four
    obtain ⟨v', next, -⟩ := Option.bind_eq_some_iff.1 ((hexValue_append _ _).symm.trans value)
    have read := next
    rw [hexValue_snoc, start, Option.bind_some, Option.map_eq_some_iff] at read
    obtain ⟨d, digit, rfl⟩ := read
    have step : inHex found pieces before.length (some v) (.char c) =
        if before.length + 1 < 4 then ⟨found, .hex pieces (before.length + 1) (some (16 * v + d))⟩
        else ⟨found, .string (.unit (16 * v + d) :: pieces)⟩ := by
      simp [inHex, Symbol.size, size_of_hexDigit digit, digit]
    change scanFrom (inHex found pieces before.length (some v) (.char c)) (cs ++ k) = _
    rw [step]
    cases cs with
    | nil =>
      rw [List.append_nil, next, Option.some_inj] at value
      rw [if_neg (by simp at four; omega), value]
      rfl
    | cons e cs =>
      rw [if_pos (by simp at four; omega)]
      have later := ih _ next value (by simpa [Nat.add_assoc, Nat.add_comm] using four) nofun
      rwa [List.length_append] at later

theorem scanFrom_piece (pieces : List Piece) {p : Piece} {w : List Char} (written : p.Written w)
    (k : List Char) : scanFrom ⟨found, .string pieces⟩ (w ++ k) =
      scanFrom ⟨found, .string (p :: pieces)⟩ k := by
  cases written with
  | plain quote backslash printed =>
    rename_i c
    have step : inString found pieces (.char c) = ⟨found, .string (.char c :: pieces)⟩ := by
      simp [inString, quote, backslash, printed]
    change scanFrom (inString found pieces (.char c)) k = _
    rw [step]
  | escaped escape => 
    rename_i c e
    have step : inEscape found pieces (.char e) = ⟨found, .string (.char c :: pieces)⟩ := by
      have other : e ≠ 'u' := by
        rintro rfl
        cases escape
      simp [inEscape, other, escape]
    change scanFrom (inEscape found pieces (.char e)) k = _
    rw [step]
  | unit four value =>
    exact scanFrom_hex found pieces [] rfl value (by simpa using four)
      (List.ne_nil_of_length_eq_add_one four) k

theorem scanOn_quoted {q : Quoted} {w : List Char} (written : q.Written w) (k : List Char) :
    scanOn found (w ++ k) = scanOn (.string q :: found) k := by
  obtain ⟨pieces, ending⟩ := q
  obtain ⟨rfl, inside, ⟨ws, each, rfl⟩, rfl⟩ := written
  simp only at each
  have within (done : List Piece) (k : List Char) :
      scanFrom ⟨found, .string done⟩ (ws.flatten ++ '"' :: k) =
        scanOn (.string ⟨done.reverse ++ pieces, .closed⟩ :: found) k := by
    induction each generalizing done with
    | nil =>
      rw [List.append_nil]
      rfl
    | cons written _ ih =>
      rw [List.flatten_cons, List.append_assoc, scanFrom_piece found done written, ih]
      simp
  have text : '"' :: ws.flatten ++ ['"'] ++ k = '"' :: (ws.flatten ++ '"' :: k) := by simp
  rw [text]
  exact within [] k

/-- A token is scanned back, a number if no number goes on behind it. -/
theorem scanOn_written {c : Token} {w : List Char} (written : c.Written w) {k : List Char}
    (clear : (∃ n, c = .number n) → Clear k) : scanOn found (w ++ k) = scanOn (c :: found) k := by
  cases c with
  | number n => exact scanOn_numeral found written (clear ⟨n, rfl⟩)
  | string q => exact scanOn_quoted found written k
  | word v =>
    cases written
    cases v with
    | null => rfl
    | bool b => cases b <;> rfl
  | broken b => cases written
  | listOpen | listClose | objectOpen | objectClose | comma | colon =>
    cases written
    rfl

end

/-- No two numbers are next to each other. -/
def Apart : List Token → Prop
  | [] => True
  | c :: ts => (∀ n m, c = .number n → ts.head? ≠ some (.number m)) ∧ Apart ts

theorem clear_of_blanks {b k : List Char} (blanks : Blanks b) (clear : Clear k) :
    Clear (b ++ k) := by
  cases b with
  | nil => exact clear
  | cons c b =>
    rintro _ ⟨⟩
    have blank := blanks c List.mem_cons_self
    obtain rfl | rfl | rfl | rfl : c = ' ' ∨ c = '\t' ∨ c = '\n' ∨ c = '\r' := by simpa using blank
    all_goals decide

theorem clear_of_written {c : Token} {w : List Char} (written : c.Written w)
    (other : ∀ n, c ≠ .number n) (k : List Char) : Clear (w ++ k) := by
  cases c with
  | number n => exact absurd rfl (other n)
  | broken b => cases written
  | string q =>
    obtain ⟨-, inside, -, rfl⟩ := written
    rintro _ ⟨⟩
    decide
  | word v =>
    cases written
    cases v with
    | null =>
      rintro _ ⟨⟩
      decide
    | bool b =>
      cases b <;> (rintro _ ⟨⟩; decide)
  | listOpen | listClose | objectOpen | objectClose | comma | colon =>
    cases written
    rintro _ ⟨⟩
    decide

theorem clear_of_laid {ts : List Token} {text k : List Char} (laid : Laid ts text)
    (other : ∀ n, ts.head? ≠ some (.number n)) (clear : ts = [] → Clear k) : Clear (text ++ k) := by
  cases ts with
  | nil => exact clear_of_blanks laid (clear rfl)
  | cons c ts =>
    obtain ⟨before, w, rest, blanks, written, -, rfl⟩ := laid
    rw [List.append_assoc, List.append_assoc]
    exact clear_of_blanks blanks
      (clear_of_written written (fun n same => other n (congrArg some same)) (rest ++ k))

/-- Whatever the white space, and whichever texts the tokens are written as, scanning finds them
and goes on behind them. -/
theorem scanOn_laid (found : List Token) {ts : List Token} {text k : List Char}
    (laid : Laid ts text) (apart : Apart ts)
    (clear : ∀ n, ts.getLast? = some (.number n) → Clear k) :
    scanOn found (text ++ k) = scanOn (ts.reverse ++ found) k := by
  induction ts generalizing found text with
  | nil => exact scanOn_blanks found laid k
  | cons c ts ih =>
    obtain ⟨before, w, rest, blanks, written, laid, rfl⟩ := laid
    have after : (∃ n, c = .number n) → Clear (rest ++ k) := by
      rintro ⟨n, rfl⟩
      refine clear_of_laid laid (fun m => apart.1 n m rfl) ?_
      rintro rfl
      exact clear n rfl
    have later (n : Numeral) (last : ts.getLast? = some (.number n)) : Clear k := by
      refine clear n ?_
      rw [List.getLast?_cons, last]
      rfl
    rw [List.append_assoc, List.append_assoc, scanOn_blanks found blanks,
      scanOn_written found written after, ih _ laid apart.2 later]
    simp

theorem scan_of_laid {ts : List Token} {text : List Char} (laid : Laid ts text)
    (apart : Apart ts) : scan (text.map .char) = ts := by
  have whole := scanOn_laid [] (k := []) laid apart fun _ _ => nofun
  rw [List.append_nil, List.append_nil] at whole
  refine whole.trans ?_
  exact List.reverse_reverse ts

end Token
end SceneTree.Json
