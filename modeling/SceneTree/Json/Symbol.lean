/-! Texts to be read: characters, and bytes that belong to no character. -/
namespace SceneTree.Json

inductive Symbol where
  | char (c : Char)
  | stray
deriving DecidableEq

namespace Symbol

def size : Symbol → Nat
  | .char c => c.utf8Size
  | .stray => 1

def ofString (s : String) : List Symbol := s.toList.map .char

def continuation (b : UInt8) : Option Nat :=
  if 0x80 ≤ b ∧ b < 0xC0 then some (b.toNat - 0x80) else none

/- Of a first byte: how many bytes follow, the bits it holds, and the least scalar value that
   needs so many bytes. -/
def lead (b : UInt8) : Option (Nat × Nat × Nat) :=
  if b < 0x80 then some (0, b.toNat, 0)
  else if b < 0xC0 then none
  else if b < 0xE0 then some (1, b.toNat - 0xC0, 0x80)
  else if b < 0xF0 then some (2, b.toNat - 0xE0, 0x800)
  else if b < 0xF8 then some (3, b.toNat - 0xF0, 0x10000)
  else none

/-- The character that `bytes` starts with, and how many bytes it has after the first. -/
def decode (first : UInt8) (rest : List UInt8) : Option (Char × Nat) := do
  let (n, high, least) ← lead first
  let low ← (rest.take n).mapM continuation
  let value := low.foldl (fun v b => 64 * v + b) high
  if h : low.length = n ∧ least ≤ value ∧ value.isValidChar then
    return (Char.ofNatAux value h.2.2, n)
  none

/- `skip` bytes still belong to the character before. -/
def ofBytesFrom : Nat → List UInt8 → List Symbol
  | _, [] => []
  | skip + 1, _ :: bytes => ofBytesFrom skip bytes
  | 0, b :: bytes =>
    match decode b bytes with
    | some (c, n) => .char c :: ofBytesFrom n bytes
    | none => .stray :: ofBytesFrom 0 bytes

def ofBytes (bytes : List UInt8) : List Symbol := ofBytesFrom 0 bytes

example : ofBytes [0x61, 0xC3, 0xA9, 0xFF] = [.char 'a', .char 'é', .stray] := by decide

end Symbol
end SceneTree.Json
