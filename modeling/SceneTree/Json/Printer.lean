import SceneTree.Json.Value
import SceneTree.Decimal.Layout

/-! JSON text, compact and indented. Each writer takes the text that follows, so a value is
written in time linear in its size. -/
namespace SceneTree.Json

/-- Numbers are positional from 0.00001 to below 10^16. -/
def numberLayout : Decimal.Layout := ⟨-5, 15⟩

/-- A value that is not finite has no number in JSON and is written `null`. -/
def numberText (x : Float) : List Char :=
  if x.isNaN || x.isInf then ['n', 'u', 'l', 'l'] else numberLayout.text x

def hexDigit (n : Nat) : Char := if n < 10 then Char.ofNat (48 + n) else Char.ofNat (87 + n)

def escape (c : Char) : List Char :=
  match c with
  | '"' => ['\\', '"']
  | '\\' => ['\\', '\\']
  | '\x08' => ['\\', 'b']
  | '\x0c' => ['\\', 'f']
  | '\n' => ['\\', 'n']
  | '\r' => ['\\', 'r']
  | '\t' => ['\\', 't']
  | c =>
    if c.toNat < 0x20 then ['\\', 'u', '0', '0', hexDigit (c.toNat / 16), hexDigit (c.toNat % 16)]
    else [c]

def quoted (s : String) (rest : List Char) : List Char :=
  '"' :: s.toList.foldr (fun c k => escape c ++ k) ('"' :: rest)

def word (b : Bool) : List Char :=
  if b then ['t', 'r', 'u', 'e'] else ['f', 'a', 'l', 's', 'e']

mutual
def compact : Json → List Char → List Char
  | .null, k => 'n' :: 'u' :: 'l' :: 'l' :: k
  | .bool b, k => word b ++ k
  | .count n, k => Decimal.digits n ++ k
  | .number x, k => numberText x ++ k
  | .string s, k => quoted s k
  | .list xs, k => '[' :: compactItems xs (']' :: k)
  | .object ms, k => '{' :: compactMembers ms ('}' :: k)

def compactItems : List Json → List Char → List Char
  | [], k => k
  | [x], k => compact x k
  | x :: xs, k => compact x (',' :: compactItems xs k)

def compactMembers : List (String × Json) → List Char → List Char
  | [], k => k
  | [(name, x)], k => quoted name (':' :: compact x k)
  | (name, x) :: ms, k => quoted name (':' :: compact x (',' :: compactMembers ms k))
end

def newline (depth : Nat) (k : List Char) : List Char :=
  '\n' :: (List.replicate (2 * depth) ' ' ++ k)

/- An empty list or object stays on one line. -/
mutual
def indented (depth : Nat) : Json → List Char → List Char
  | .list [], k => '[' :: ']' :: k
  | .object [], k => '{' :: '}' :: k
  | .list xs, k =>
    '[' :: newline (depth + 1) (indentedItems (depth + 1) xs (newline depth (']' :: k)))
  | .object ms, k =>
    '{' :: newline (depth + 1) (indentedMembers (depth + 1) ms (newline depth ('}' :: k)))
  | .null, k => 'n' :: 'u' :: 'l' :: 'l' :: k
  | .bool b, k => word b ++ k
  | .count n, k => Decimal.digits n ++ k
  | .number x, k => numberText x ++ k
  | .string s, k => quoted s k

def indentedItems (depth : Nat) : List Json → List Char → List Char
  | [], k => k
  | [x], k => indented depth x k
  | x :: xs, k => indented depth x (',' :: newline depth (indentedItems depth xs k))

def indentedMembers (depth : Nat) : List (String × Json) → List Char → List Char
  | [], k => k
  | [(name, x)], k => quoted name (':' :: ' ' :: indented depth x k)
  | (name, x) :: ms, k =>
    quoted name (':' :: ' ' :: indented depth x (',' :: newline depth (indentedMembers depth ms k)))
end

def text (j : Json) : String := String.ofList (j.compact [])

def prettyText (j : Json) : String := String.ofList (j.indented 0 [])

example : text (.object [("a", .list [.number 1.5, .null]), ("b", .string "x\n")]) =
    "\x7b\"a\":[1.5,null],\"b\":\"x\\n\"\x7d" := by decide +kernel

end SceneTree.Json
