import SceneTree.Proofs.Acceptance
import SceneTree.Proofs.Lexemes

/-! Text and tokens. A text that is written is scanned back into the tokens it was written from,
whether it is compact or indented: blanks leave no trace, every escape stands for its character, and
a number ends where its text does, because no number is followed by a character that could go
on with it. -/
namespace SceneTree.Json
open Token (Scanner)

/- A control character without an escape of its own is written as a unit. -/
def Piece.of (c : Char) : Piece :=
  if c.toNat < 0x20 ∧ c ∉ ['\x08', '\x0c', '\n', '\r', '\t'] then .unit c.toNat else .char c

def Quoted.of (s : String) : Quoted := ⟨s.toList.map Piece.of, .closed⟩

theorem Quoted.textFrom_of (done cs : List Char) :
    textFrom .closed done true (cs.map Piece.of) = .ok (String.ofList (done.reverse ++ cs)) := by
  induction cs generalizing done with
  | nil => simp [textFrom, Ending.skim, bind, Except.bind, pure, Except.pure]
  | cons c cs ih =>
    have step : textFrom .closed done true (Piece.of c :: cs.map Piece.of) =
        textFrom .closed (c :: done) true (cs.map Piece.of) := by
      rw [Piece.of]
      split
      · rename_i control
        have low : isLow c.toNat = false := by simp [isLow]; omega
        have high : isHigh c.toNat = false := by simp [isHigh]; omega
        conv_lhs => unfold textFrom
        simp [low, high]
      · rw [textFrom]
    rw [List.map_cons, step, ih]
    simp

@[simp] theorem Quoted.text_of (s : String) : (of s).text = .ok s := by
  rw [text, of, textFrom_of]
  simp

theorem Numeral.Proper.written {n : Numeral} (proper : n.Proper) : n.Written n.spell := by
  obtain ⟨negative, whole, fraction, exponent⟩ := n
  cases exponent with
  | none => exact ⟨proper, List.append_nil _⟩
  | some exponent =>
    obtain ⟨down, ds⟩ := exponent
    refine ⟨proper, ['e', if down then '-' else '+'], ?_, by simp [spell, mantissa]⟩
    cases down <;> decide

theorem hexDigit_hexDigit {n : Nat} (small : n < 16) :
    Token.hexDigit? (hexDigit n) = some n := by
  decide +revert

theorem Piece.written_escape (c : Char) : (of c).Written (escape c) := by
  unfold escape
  split
  any_goals exact .escaped rfl
  rename_i quote backslash back feed line return_ tab
  split
  · rename_i control
    have unit : of c = .unit c.toNat := if_pos ⟨control, by simp_all⟩
    rw [unit]
    refine .unit rfl ?_
    have high := hexDigit_hexDigit (n := c.toNat / 16) (by omega)
    have low := hexDigit_hexDigit (n := c.toNat % 16) (by omega)
    have zero : Token.hexDigit? '0' = some 0 := rfl
    simp [hexValue, high, low, zero, Nat.div_add_mod]
  · rename_i plain
    have char : of c = .char c := if_neg fun h => plain h.1
    rw [char]
    exact .plain (by simpa using quote) (by simpa using backslash) plain

theorem quoted_eq (s : String) (k : List Char) :
    quoted s k = '"' :: s.toList.flatMap escape ++ ['"'] ++ k := by
  have inside (cs : List Char) : cs.foldr (fun c k => escape c ++ k) ('"' :: k) =
      cs.flatMap escape ++ '"' :: k := by
    induction cs with
    | nil => rfl
    | cons c cs ih => simp [ih]
  simp [quoted, inside]

theorem Quoted.written_of (s : String) :
    (of s).Written ('"' :: s.toList.flatMap escape ++ ['"']) := by
  refine ⟨rfl, _, ⟨s.toList.map escape, ?_, List.flatMap_def ..⟩, rfl⟩
  rw [of, List.forall₂_map_left_iff, List.forall₂_map_right_iff]
  exact List.forall₂_same.2 fun c _ => Piece.written_escape c

namespace Token

theorem scanOn_newline (found : List Token) (depth : Nat) (k : List Char) :
    scanOn found (newline depth k) = scanOn found k := by
  have blanks : Blanks ('\n' :: List.replicate (2 * depth) ' ') := by
    simp [Blanks]
  exact scanOn_blanks found blanks k

theorem scanOn_string (found : List Token) (s : String) (k : List Char) :
    scanOn found (quoted s k) = scanOn (.string (.of s) :: found) k := by
  rw [quoted_eq]
  exact scanOn_quoted found (Quoted.written_of s) k

/-- What is written before any text that may follow is scanned into these tokens. -/
def Spells (write : List Char → List Char) (tokens : List Token) : Prop :=
  ∀ found k, Clear k → scanOn found (write k) = scanOn (tokens.reverse ++ found) k

end Token

open Token (Clear Spells scanOn)

theorem Numeral.spell_natural (n : Nat) :
    spell ⟨false, figures (Decimal.digits n), [], none⟩ = Decimal.digits n := by
  simp [spell, minus, (figured_digits n).text]

theorem Numeral.proper_natural (n : Nat) :
    Proper ⟨false, figures (Decimal.digits n), [], none⟩ where
  whole := ⟨figures_ne_nil (digits_ne_nil n), (figured_digits n).small⟩
  lead zero := by
    obtain rfl | pos := Nat.eq_zero_or_pos n
    · rfl
    · exact absurd zero (lead_figures pos rfl)
  fraction := nofun
  exponent := nofun

def numberToken (x : Float) : Token :=
  if x.isFinite then .number (.ofFloat numberLayout x) else .word .null

theorem numberText_eq (x : Float) :
    numberText x =
      if x.isFinite then (Numeral.ofFloat numberLayout x).spell else ['n', 'u', 'l', 'l'] := by
  rw [numberText, Numeral.spell_ofFloat, Binary.isFinite_eq]
  cases x.isNaN || x.isInf <;> rfl

mutual
def tokens : Json → List Token
  | .null => [.word .null]
  | .bool b => [.word (.bool b)]
  | .count n => [.number ⟨false, figures (Decimal.digits n), [], none⟩]
  | .number x => [numberToken x]
  | .string s => [.string (.of s)]
  | .list xs => .listOpen :: (itemTokens xs ++ [.listClose])
  | .object ms => .objectOpen :: (memberTokens ms ++ [.objectClose])

def itemTokens : List Json → List Token
  | [] => []
  | [x] => tokens x
  | x :: xs => tokens x ++ .comma :: itemTokens xs

def memberTokens : List (String × Json) → List Token
  | [] => []
  | [(name, x)] => .string (.of name) :: .colon :: tokens x
  | (name, x) :: ms => .string (.of name) :: .colon :: (tokens x ++ .comma :: memberTokens ms)
end

theorem spells_number (x : Float) : Spells (numberText x ++ ·) [numberToken x] := by
  intro found k clear
  rw [numberText_eq, numberToken]
  split
  · rename_i finite
    exact Token.scanOn_numeral found (Numeral.proper_of_finite finite).written clear
  · rfl

theorem spells_count (n : Nat) :
    Spells (Decimal.digits n ++ ·) [.number ⟨false, figures (Decimal.digits n), [], none⟩] := by
  intro found k clear
  have scanned := Token.scanOn_numeral found (Numeral.proper_natural n).written clear
  rwa [Numeral.spell_natural] at scanned

theorem spells_bool (b : Bool) : Spells (word b ++ ·) [.word (.bool b)] := by
  intro found k _
  cases b <;> rfl

structure Blank (pad : List Char → List Char) : Prop where
  blank : ∀ found k, scanOn found (pad k) = scanOn found k
  clear : ∀ k, Clear k → Clear (pad k)

theorem Blank.none : Blank id := ⟨fun _ _ => rfl, fun _ h => h⟩

theorem Blank.newline (depth : Nat) : Blank (newline depth) :=
  ⟨fun found k => Token.scanOn_newline found depth k, fun _ _ c mem => by cases mem; decide⟩

section
variable {w w' p p' : List Char → List Char} {ts ts' : List Token}

theorem spells_list (inside : Spells w ts) (front : Blank p) (back : Blank p') :
    Spells (fun k => '[' :: p (w (p' (']' :: k)))) (.listOpen :: (ts ++ [.listClose])) := by
  intro found k _
  have close : Clear (p' (']' :: k)) := back.clear _ fun c mem => by cases mem; decide
  calc scanOn found ('[' :: p (w (p' (']' :: k))))
      = scanOn (.listOpen :: found) (p (w (p' (']' :: k)))) := rfl
    _ = scanOn (ts.reverse ++ .listOpen :: found) (']' :: k) := by
      rw [front.blank, inside _ _ close, back.blank]
    _ = scanOn (.listClose :: (ts.reverse ++ .listOpen :: found)) k := rfl
    _ = scanOn ((Token.listOpen :: (ts ++ [.listClose])).reverse ++ found) k := by simp

theorem spells_object (inside : Spells w ts) (front : Blank p) (back : Blank p') :
    Spells (fun k => '{' :: p (w (p' ('}' :: k)))) (.objectOpen :: (ts ++ [.objectClose])) := by
  intro found k _
  have close : Clear (p' ('}' :: k)) := back.clear _ fun c mem => by cases mem; decide
  calc scanOn found ('{' :: p (w (p' ('}' :: k))))
      = scanOn (.objectOpen :: found) (p (w (p' ('}' :: k)))) := rfl
    _ = scanOn (ts.reverse ++ .objectOpen :: found) ('}' :: k) := by
      rw [front.blank, inside _ _ close, back.blank]
    _ = scanOn (.objectClose :: (ts.reverse ++ .objectOpen :: found)) k := rfl
    _ = scanOn ((Token.objectOpen :: (ts ++ [.objectClose])).reverse ++ found) k := by simp

theorem spells_comma (first : Spells w ts) (rest : Spells w' ts') (between : Blank p) :
    Spells (fun k => w (',' :: p (w' k))) (ts ++ .comma :: ts') := by
  intro found k clear
  have comma : Clear (',' :: p (w' k)) := fun c mem => by cases mem; decide
  calc scanOn found (w (',' :: p (w' k)))
      = scanOn (ts.reverse ++ found) (',' :: p (w' k)) := first _ _ comma
    _ = scanOn (.comma :: (ts.reverse ++ found)) (p (w' k)) := rfl
    _ = scanOn (ts'.reverse ++ .comma :: (ts.reverse ++ found)) k := by
      rw [between.blank, rest _ _ clear]
    _ = scanOn ((ts ++ Token.comma :: ts').reverse ++ found) k := by simp

theorem spells_member (name : String) (value : Spells w ts)
    (blank : ∀ found k, scanOn found (p k) = scanOn found k) :
    Spells (fun k => quoted name (':' :: p (w k))) (.string (.of name) :: .colon :: ts) := by
  intro found k clear
  calc scanOn found (quoted name (':' :: p (w k)))
      = scanOn (.string (.of name) :: found) (':' :: p (w k)) := Token.scanOn_string ..
    _ = scanOn (.colon :: .string (.of name) :: found) (p (w k)) := rfl
    _ = scanOn (ts.reverse ++ .colon :: .string (.of name) :: found) k := by
      rw [blank, value _ _ clear]
    _ = scanOn ((.string (.of name) :: .colon :: ts).reverse ++ found) k := by simp

end

mutual
theorem spells_compact : ∀ j : Json, Spells j.compact j.tokens
  | .null => fun _ _ _ => rfl
  | .bool b => spells_bool b
  | .count n => spells_count n
  | .number x => spells_number x
  | .string s => fun found k _ => Token.scanOn_string found s k
  | .list xs => spells_list (spells_compactItems xs) .none .none
  | .object ms => spells_object (spells_compactMembers ms) .none .none

theorem spells_compactItems : ∀ xs : List Json, Spells (compactItems xs) (itemTokens xs)
  | [] => fun _ _ _ => rfl
  | [x] => spells_compact x
  | x :: y :: xs => spells_comma (p := id) (spells_compact x) (spells_compactItems (y :: xs)) .none

theorem spells_compactMembers :
    ∀ ms : List (String × Json), Spells (compactMembers ms) (memberTokens ms)
  | [] => fun _ _ _ => rfl
  | [(name, x)] => spells_member (p := id) name (spells_compact x) Blank.none.blank
  | (name, x) :: m :: ms =>
    spells_member (p := id) name (spells_comma (p := id) (spells_compact x)
      (spells_compactMembers (m :: ms)) .none) Blank.none.blank
end

mutual
theorem spells_indented (depth : Nat) : ∀ j : Json, Spells (j.indented depth) j.tokens
  | .null => fun _ _ _ => rfl
  | .bool b => spells_bool b
  | .count n => spells_count n
  | .number x => spells_number x
  | .string s => fun found k _ => Token.scanOn_string found s k
  | .list [] => fun _ _ _ => rfl
  | .object [] => fun _ _ _ => rfl
  | .list (x :: xs) =>
    spells_list (spells_indentedItems (depth + 1) (x :: xs)) (.newline _) (.newline _)
  | .object (m :: ms) =>
    spells_object (spells_indentedMembers (depth + 1) (m :: ms)) (.newline _) (.newline _)

theorem spells_indentedItems (depth : Nat) :
    ∀ xs : List Json, Spells (indentedItems depth xs) (itemTokens xs)
  | [] => fun _ _ _ => rfl
  | [x] => spells_indented depth x
  | x :: y :: xs =>
    spells_comma (spells_indented depth x) (spells_indentedItems depth (y :: xs)) (.newline depth)

theorem spells_indentedMembers (depth : Nat) :
    ∀ ms : List (String × Json), Spells (indentedMembers depth ms) (memberTokens ms)
  | [] => fun _ _ _ => rfl
  | [(name, x)] => spells_member (p := (' ' :: ·)) name (spells_indented depth x) fun _ _ => rfl
  | (name, x) :: m :: ms =>
    spells_member (p := (' ' :: ·)) name (spells_comma (spells_indented depth x)
      (spells_indentedMembers depth (m :: ms)) (.newline depth)) fun _ _ => rfl
end

theorem scan_of_spells {write : List Char → List Char} {ts : List Token}
    (spells : Spells write ts) : Token.scan ((write []).map .char) = ts := by
  have whole := spells [] [] nofun
  have none : scanOn (ts.reverse ++ []) [] = ts := by
    simp [scanOn, Token.scanFrom, Scanner.run, Scanner.finish]
  exact whole.trans none

/-- Both texts of a value are scanned into its tokens. -/
theorem scan_text (j : Json) : Token.scan (Symbol.ofString j.text) = j.tokens := by
  rw [text, Symbol.ofString, String.toList_ofList]
  exact scan_of_spells (spells_compact j)

theorem scan_prettyText (j : Json) : Token.scan (Symbol.ofString j.prettyText) = j.tokens := by
  rw [prettyText, Symbol.ofString, String.toList_ofList]
  exact scan_of_spells (spells_indented 0 j)

end SceneTree.Json
