import SceneTree.Json.Numeral
import SceneTree.Json.Quoted

/-! Tokens. A text is scanned one symbol at a time, so scanning two texts in a row is scanning the
second from where the first one ends. -/
namespace SceneTree.Json

inductive Word where
  | null
  | bool (b : Bool)
deriving DecidableEq

/- Why there is no value where one should stand. `atEnd` says that the text ends there. -/
inductive Broken where
  | missing (atEnd : Bool)
  | word (atEnd : Bool)
  | number (atEnd : Bool)
  | colon (atEnd : Bool)
deriving DecidableEq

def Broken.fault : Broken → Fault
  | .missing true | .word true | .number true => .endInValue
  | .missing false => .noValue
  | .word false => .noWord
  | .number false => .malformedNumber
  | .colon true => .endInObject
  | .colon false => .noColon

/- Where the value is not wanted, a number that is cut short is malformed. -/
def Broken.skimFault : Broken → Fault
  | .number _ => .malformedNumber
  | b => b.fault

inductive Token where
  | word (w : Word)
  | number (n : Numeral)
  | string (q : Quoted)
  | listOpen | listClose | objectOpen | objectClose | comma | colon
  | broken (b : Broken)
deriving DecidableEq

namespace Token

/- How far a number has come. Digits are kept in reverse. -/
inductive Stage where
  | sign | zero | whole | point | fraction | mark | markSign | exponent

inductive Pending where
  | blank
  | word (w : Word) (rest : List Char)
  | number (stage : Stage) (n : Numeral)
  | string (pieces : List Piece)
  | escape (pieces : List Piece)
  | hex (pieces : List Piece) (size : Nat) (value : Option Nat)
  | stopped

/- The tokens found so far, the last one first, and the one under way. Nothing is scanned past a
   token that is broken. -/
structure Scanner where
  found : List Token
  pending : Pending

def Scanner.start : Scanner := ⟨[], .blank⟩

def digit? (c : Char) : Option Nat :=
  if '0' ≤ c ∧ c ≤ '9' then some (c.toNat - 48) else none

def hexDigit? (c : Char) : Option Nat :=
  if '0' ≤ c ∧ c ≤ '9' then some (c.toNat - 48)
  else if 'a' ≤ c ∧ c ≤ 'f' then some (c.toNat - 87)
  else if 'A' ≤ c ∧ c ≤ 'F' then some (c.toNat - 55)
  else none

def isBlank (c : Char) : Bool := c = ' ' ∨ c = '\n' ∨ c = '\t' ∨ c = '\r'

def simpleEscape : Char → Option Char
  | '"' => some '"'
  | '\\' => some '\\'
  | '/' => some '/'
  | 'b' => some '\x08'
  | 'f' => some '\x0c'
  | 'n' => some '\n'
  | 'r' => some '\r'
  | 't' => some '\t'
  | _ => none

def leading (negative : Bool) (d : Nat) : Pending :=
  .number (if d = 0 then .zero else .whole) ⟨negative, [d], [], none⟩

def fresh (found : List Token) : Symbol → Scanner
  | .stray => ⟨.broken (.missing false) :: found, .stopped⟩
  | .char c =>
    if isBlank c then ⟨found, .blank⟩
    else match c with
    | '[' => ⟨.listOpen :: found, .blank⟩
    | ']' => ⟨.listClose :: found, .blank⟩
    | '{' => ⟨.objectOpen :: found, .blank⟩
    | '}' => ⟨.objectClose :: found, .blank⟩
    | ',' => ⟨.comma :: found, .blank⟩
    | ':' => ⟨.colon :: found, .blank⟩
    | '"' => ⟨found, .string []⟩
    | '-' => ⟨found, .number .sign ⟨true, [], [], none⟩⟩
    | 'n' => ⟨found, .word .null ['u', 'l', 'l']⟩
    | 't' => ⟨found, .word (.bool true) ['r', 'u', 'e']⟩
    | 'f' => ⟨found, .word (.bool false) ['a', 'l', 's', 'e']⟩
    | c =>
      match digit? c with
      | some d => ⟨found, leading false d⟩
      | none => ⟨.broken (.missing false) :: found, .stopped⟩

def finished (n : Numeral) : Token :=
  .number ⟨n.negative, n.whole.reverse, n.fraction.reverse,
    n.exponent.map fun (down, ds) => (down, ds.reverse)⟩

def brokenNumber (found : List Token) : Scanner := ⟨.broken (.number false) :: found, .stopped⟩

def Stage.complete : Stage → Bool
  | .zero | .whole | .fraction | .exponent => true
  | .sign | .point | .mark | .markSign => false

def Stage.digit (n : Numeral) (d : Nat) : Stage → Option Pending
  | .sign => some (leading n.negative d)
  | .zero => none
  | .whole => some (.number .whole { n with whole := d :: n.whole })
  | .point | .fraction => some (.number .fraction { n with fraction := d :: n.fraction })
  | .mark => some (.number .exponent { n with exponent := some (false, [d]) })
  | .markSign | .exponent =>
    some (.number .exponent { n with exponent := n.exponent.map fun (down, ds) => (down, d :: ds) })

def Stage.other (n : Numeral) : Stage → Char → Option Pending
  | .zero, '.' | .whole, '.' => some (.number .point n)
  | .zero, 'e' | .zero, 'E' | .whole, 'e' | .whole, 'E' | .fraction, 'e' | .fraction, 'E' =>
    some (.number .mark n)
  | .mark, '+' => some (.number .markSign { n with exponent := some (false, []) })
  | .mark, '-' => some (.number .markSign { n with exponent := some (true, []) })
  | _, _ => none

def inNumber (found : List Token) (stage : Stage) (n : Numeral) : Symbol → Scanner
  | .stray => if stage.complete then fresh (finished n :: found) .stray else brokenNumber found
  | .char c =>
    match digit? c with
    | some d =>
      match stage.digit n d with
      | some p => ⟨found, p⟩
      | none => brokenNumber found
    | none =>
      match stage.other n c with
      | some p => ⟨found, p⟩
      | none =>
        if stage.complete then fresh (finished n :: found) (.char c) else brokenNumber found

def inWord (found : List Token) (w : Word) (rest : List Char) (s : Symbol) : Scanner :=
  match rest with
  | [] => fresh (.word w :: found) s
  | [c] =>
    if s = .char c then ⟨.word w :: found, .blank⟩ else ⟨.broken (.word false) :: found, .stopped⟩
  | c :: rest =>
    if s = .char c then ⟨found, .word w rest⟩ else ⟨.broken (.word false) :: found, .stopped⟩

def ended (found : List Token) (pieces : List Piece) (e : Quoted.Ending) : List Token :=
  .string ⟨pieces.reverse, e⟩ :: found

def inString (found : List Token) (pieces : List Piece) : Symbol → Scanner
  | .stray => ⟨found, .string (.stray :: pieces)⟩
  | .char c =>
    if c = '"' then ⟨ended found pieces .closed, .blank⟩
    else if c = '\\' then ⟨found, .escape pieces⟩
    else if c.toNat < 0x20 then ⟨ended found pieces .control, .stopped⟩
    else ⟨found, .string (.char c :: pieces)⟩

def inEscape (found : List Token) (pieces : List Piece) : Symbol → Scanner
  | .stray => ⟨ended found pieces .unknownEscape, .stopped⟩
  | .char c =>
    if c = 'u' then ⟨found, .hex pieces 0 (some 0)⟩
    else match simpleEscape c with
      | some c => ⟨found, .string (.char c :: pieces)⟩
      | none => ⟨ended found pieces .unknownEscape, .stopped⟩

/- Four bytes are taken, whatever they are, before they are judged. -/
def inHex (found : List Token) (pieces : List Piece) (size : Nat) (value : Option Nat)
    (s : Symbol) : Scanner :=
  let value := match s with
    | .stray => none
    | .char c => do return 16 * (← value) + (← hexDigit? c)
  let size := size + s.size
  if size < 4 then ⟨found, .hex pieces size value⟩
  else match value with
    | some u => ⟨found, .string (.unit u :: pieces)⟩
    | none => ⟨ended found pieces .badHex, .stopped⟩

def Scanner.step (s : Scanner) (c : Symbol) : Scanner :=
  match s.pending with
  | .blank => fresh s.found c
  | .word w rest => inWord s.found w rest c
  | .number stage n => inNumber s.found stage n c
  | .string pieces => inString s.found pieces c
  | .escape pieces => inEscape s.found pieces c
  | .hex pieces size value => inHex s.found pieces size value c
  | .stopped => s

def Scanner.run (s : Scanner) (text : List Symbol) : Scanner := text.foldl step s

theorem Scanner.run_append (s : Scanner) (t u : List Symbol) :
    s.run (t ++ u) = (s.run t).run u := List.foldl_append ..

/-- The tokens of a text that ends here. -/
def Scanner.finish (s : Scanner) : List Token :=
  match s.pending with
  | .blank | .stopped => s.found.reverse
  | .word _ _ => (.broken (.word true) :: s.found).reverse
  | .number stage n =>
    ((if stage.complete then finished n else .broken (.number true)) :: s.found).reverse
  | .string pieces | .escape pieces | .hex pieces _ _ => (ended s.found pieces .textEnd).reverse

def scan (text : List Symbol) : List Token := (Scanner.start.run text).finish

example : scan (Symbol.ofString "[-1.5e2, \"a\\n\"]") =
    [.listOpen, .number ⟨true, [1], [5], some (false, [2])⟩, .comma,
      .string ⟨[.char 'a', .char '\n'], .closed⟩, .listClose] := by decide +kernel

end Token
end SceneTree.Json
