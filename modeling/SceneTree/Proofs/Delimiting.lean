import SceneTree.Failure
import SceneTree.Proofs.Building
import SceneTree.Proofs.Rereading

/-! Where a frame ends. A text that is read as a frame ends with a bracket, so nothing after it can
change how it is scanned or parsed: more white space leaves the frame as it is, and anything else is
text after the value. -/
namespace SceneTree.Json

namespace Token.Scanner

def after (found : List Token) (s : Scanner) : Scanner := ⟨s.found ++ found, s.pending⟩

theorem fresh_after (ts found : List Token) (c : Symbol) :
    fresh (ts ++ found) c = (fresh ts c).after found := by
  unfold fresh
  split
  · rfl
  · split
    · rfl
    · split <;> first | rfl | (split <;> rfl)

theorem inWord_after (ts found : List Token) (v : Word) (rest : List Char) (c : Symbol) :
    inWord (ts ++ found) v rest c = (inWord ts v rest c).after found := by
  unfold inWord
  split
  · exact fresh_after (.word v :: ts) found c
  all_goals split <;> rfl

theorem inNumber_after (ts found : List Token) (stage : Stage) (n : Numeral) (c : Symbol) :
    inNumber (ts ++ found) stage n c = (inNumber ts stage n c).after found := by
  have next (c : Symbol) : (if stage.complete then fresh (finished n :: (ts ++ found)) c
      else brokenNumber (ts ++ found)) =
        (if stage.complete then fresh (finished n :: ts) c else brokenNumber ts).after found := by
    split
    · exact fresh_after (finished n :: ts) found c
    · rfl
  unfold inNumber
  split
  · exact next .stray
  · split
    · split <;> rfl
    · split
      · rfl
      · exact next _

theorem inString_after (ts found : List Token) (pieces : List Piece) (c : Symbol) :
    inString (ts ++ found) pieces c = (inString ts pieces c).after found := by
  unfold inString
  split
  · rfl
  · split
    · rfl
    · split
      · rfl
      · split <;> rfl

theorem inEscape_after (ts found : List Token) (pieces : List Piece) (c : Symbol) :
    inEscape (ts ++ found) pieces c = (inEscape ts pieces c).after found := by
  unfold inEscape
  split
  · rfl
  · split
    · rfl
    · split <;> rfl

theorem inHex_after (ts found : List Token) (pieces : List Piece) (size : Nat)
    (value : Option Nat) (c : Symbol) :
    inHex (ts ++ found) pieces size value c = (inHex ts pieces size value c).after found := by
  unfold inHex
  dsimp only
  split
  · rfl
  · split <;> rfl

theorem step_after (found : List Token) (s : Scanner) (c : Symbol) :
    (s.after found).step c = (s.step c).after found := by
  obtain ⟨ts, pending⟩ := s
  cases pending with
  | blank => exact fresh_after ts found c
  | word v rest => exact inWord_after ts found v rest c
  | number stage n => exact inNumber_after ts found stage n c
  | string pieces => exact inString_after ts found pieces c
  | escape pieces => exact inEscape_after ts found pieces c
  | hex pieces size value => exact inHex_after ts found pieces size value c
  | stopped => rfl

theorem run_after (found : List Token) (s : Scanner) (text : List Symbol) :
    (s.after found).run text = (s.run text).after found := by
  induction text generalizing s with
  | nil => rfl
  | cons c text ih =>
    change ((s.after found).step c).run text = ((s.step c).run text).after found
    rw [step_after, ih]

theorem finish_after (found : List Token) (s : Scanner) :
    (s.after found).finish = found.reverse ++ s.finish := by
  obtain ⟨ts, pending⟩ := s
  cases pending <;> simp [after, finish, ended]

end Token.Scanner

instance (text : List Char) : Decidable (Blanks text) :=
  inferInstanceAs (Decidable (∀ c ∈ text, c ∈ [' ', '\t', '\n', '\r']))

namespace Token

/-- What was found before comes before what is found. -/
theorem scanOn_eq (found : List Token) (text : List Char) :
    scanOn found text = found.reverse ++ scan (text.map .char) := by
  rw [scan, ← Scanner.finish_after, ← Scanner.run_after]
  simp [scanOn, scanFrom, Scanner.after, Scanner.start]

theorem scan_eq_nil {text : List Char} (none : scan (text.map .char) = []) : Blanks text := by
  have laid := laid_of_scan text
  rw [none] at laid
  exact laid nofun

end Token

namespace Tree

/-- Text after a list or an object is more white space, or it is left over. -/
theorem Spelled.parsed_append {t : Tree} {s : String} (spelled : t.Spelled s.toList)
    (bracket : ∀ n, t.tokens.getLast? ≠ some (.number n)) (u : String) :
    ofText (Symbol.ofString (s ++ u)) = (t, !decide (Blanks u.toList)) := by
  have scanned : Token.scan (Symbol.ofString (s ++ u)) =
      t.tokens ++ Token.scan (Symbol.ofString u) := by
    have on := Token.scanOn_laid [] (k := u.toList) spelled.2 (apart_self t)
      fun n last => absurd last (bracket n)
    rw [List.append_nil, Token.scanOn_eq t.tokens.reverse, List.reverse_reverse] at on
    rw [Symbol.ofString, String.toList_append]
    exact on
  have built := builds_tree t spelled.1 [] (Token.scan (Symbol.ofString u))
  rw [ofText, scanned, ofTokens, built]
  by_cases blanks : Blanks u.toList
  · have none : Token.scan (Symbol.ofString u) = [] :=
      Token.scan_of_laid (show Laid [] u.toList from blanks) trivial
    rw [none, decide_eq_true blanks]
    rfl
  · have some : Token.scan (Symbol.ofString u) ≠ [] := fun none => blanks (Token.scan_eq_nil none)
    obtain ⟨c, cs, same⟩ := List.exists_cons_of_ne_nil some
    have left : Builder.run (.done t []) (c :: cs) = .stopped t true :=
      Builder.run_stopped t true cs
    rw [same, left, decide_eq_false blanks]
    rfl

end Tree

theorem mapError_ok {ε ε' α : Type} {x : Except ε α} {f : ε → ε'} {a : α}
    (ok : x.mapError f = .ok a) : x = .ok a := by
  cases x with
  | error e => cases ok
  | ok b => exact congrArg Except.ok (Except.ok.inj ok)

namespace Read
variable {α : Type} {read : Read Tree α} {text : List Symbol} {a : α}

theorem whole_left_over {t : Tree} (parsed : Tree.ofText text = (t, true))
    (here : read (freely false) t = .ok a) :
    read.whole none text = .error (.fault .trailingText) := by
  have here : read ⟨none, false⟩ t = .ok a := here
  simp [whole, parsed, here, bind, Except.bind, throw, throwThe, MonadExceptOf.throw]

theorem record_bracket {name : String} {form : Form Tree α} {ctx : Context} {t : Tree}
    (done : record name form ctx t = .ok a) (n : Numeral) :
    t.tokens.getLast? ≠ some (.number n) := by
  cases t with
  | list items ending | object members ending => simp [Tree.tokens, List.getLast?_cons]
  | word w | number m | string q | broken b => exact absurd done (Tree.mismatch_ne_ok _ _ _)

end Read
end SceneTree.Json

namespace SceneTree.Frame
open Json (Tree Read)

theorem spelled_of_ofText {s : String} {f : Frame Unit} (done : ofText s = .ok f) :
    ∃ t : Tree, t.Spelled s.toList ∧ read (Json.freely false) t = .ok f := by
  obtain ⟨t, parsed, here⟩ := Read.whole_ok (Json.mapError_ok done)
  exact ⟨t, Tree.spelled_of_ofText parsed (covers_read _ t f here), here⟩

theorem ofText_of_parsed {s : String} {t : Tree} {f : Frame Unit} {trailing : Bool}
    (parsed : Tree.ofText (Json.Symbol.ofString s) = (t, trailing))
    (here : read (Json.freely false) t = .ok f) : ofText s =
      if trailing then .error (.unreadableFrame (.fault .trailingText)) else .ok f := by
  cases trailing with
  | false => rw [ofText, ofSymbols, Json.whole_of_tree read parsed, here]; rfl
  | true => rw [ofText, ofSymbols, Read.whole_left_over parsed here]; rfl

/-- A text that is read as a frame is delimited by itself: with white space after it the same frame
is read, and with anything else after it none. -/
theorem ofText_append {s : String} {f : Frame Unit} (read : ofText s = .ok f) (t : String) :
    ofText (s ++ t) = if ∀ c ∈ t.toList, c ∈ [' ', '\t', '\n', '\r'] then .ok f
      else .error (.serialization "parse frame JSON: trailing characters") := by
  obtain ⟨tree, spelled, here⟩ := spelled_of_ofText read
  rw [ofText_of_parsed (spelled.parsed_append (Read.record_bracket here) t) here]
  by_cases blanks : ∀ c ∈ t.toList, c ∈ [' ', '\t', '\n', '\r']
  · rw [if_pos blanks, decide_eq_true (p := Json.Blanks t.toList) blanks]
    rfl
  · rw [if_neg blanks, decide_eq_false (p := Json.Blanks t.toList) blanks]
    rfl

theorem ofText_append_line :
    let s := "[[1.5,2,\"fill\"],null,\x7b\"type\":\"material\",\"id\":\"root\"," ++
      "\"fill\":\"a\\n\",\"stroke\":\"\\u00e9\",\"note\":[true,\x7b\x7d],\"strokeWidth\":1e0," ++
      "\"children\":[\x7b\"center\":[0,0],\"type\":\"circle\",\"radius\":3\x7d]\x7d]"
    ∃ f, ofText s = .ok f ∧ ofText (s ++ " \n") = .ok f ∧
      ofText (s ++ ",1") = .error (.serialization "parse frame JSON: trailing characters") := by
  intro s
  obtain ⟨f, read⟩ := Json.exists_ok (by decide +kernel : (ofText s).toOption.isSome)
  have line := ofText_append read " \n"
  have value := ofText_append read ",1"
  rw [if_pos (by simp)] at line
  rw [if_neg (by simp)] at value
  exact ⟨f, read, line, value⟩

end SceneTree.Frame
