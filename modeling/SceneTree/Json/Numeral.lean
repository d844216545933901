/-! Numbers as they are written, and the values they are read as. -/
namespace SceneTree.Json

/- The digits of a number. The exponent is marked true if it is negative. -/
structure Numeral where
  negative : Bool
  whole : List Nat
  fraction : List Nat
  exponent : Option (Bool × List Nat)
deriving DecidableEq

/-- Integers of 64 bits are kept apart from other numbers; `below n` is `-n`. -/
inductive Number where
  | natural (n : Nat)
  | below (n : Nat)
  | float (x : Float)

def Number.toFloat : Number → Float
  | .natural n => Float.ofNat n
  | .below n => -Float.ofNat n
  | .float x => x

namespace Numeral

def integral (n : Numeral) : Bool := n.fraction.isEmpty && n.exponent.isNone

/- Digits are taken while the significand fits in 64 bits. Second, how many are not taken. -/
def accumulate (significand : Nat) : List Nat → Nat × Nat
  | [] => (significand, 0)
  | d :: ds =>
    if significand * 10 + d < 0x10000000000000000 then accumulate (significand * 10 + d) ds
    else (significand, ds.length + 1)

def powerOfTen (n : Nat) : Float := Float.ofScientific 1 false n

/- Below 10^-308 the divisor is applied in steps. Three of them leave nothing of 64 bits. -/
def divide : Nat → Float → Nat → Float
  | 0, f, _ => f
  | steps + 1, f, e =>
    if e ≤ 308 then f / powerOfTen e else divide steps (f / powerOfTen 308) (e - 308)

/-- `significand * 10^e`, rounded once for each factor; none if out of range. -/
def scale (significand : Nat) (e : Int) : Option Float :=
  let f := Float.ofNat significand
  if e < 0 then some (divide 4 f e.natAbs)
  else if 308 < e then if significand = 0 then some f else none
  else
    let x := f * powerOfTen e.natAbs
    if x.isInf then none else some x

def digitsValue (ds : List Nat) : Nat := ds.foldl (fun n d => 10 * n + d) 0

def signed (negative : Bool) (x : Float) : Float := if negative then -x else x

/- An exponent beyond 32 bits gives zero, or nothing if it would give a huge number. -/
def magnitude (n : Numeral) : Option Float :=
  let (s, untaken) := accumulate 0 n.whole
  let (s, dropped) := accumulate s n.fraction
  let e : Int := untaken - ((n.fraction.length - dropped : Nat) : Int)
  match n.exponent with
  | none => scale s e
  | some (down, ds) =>
    let shift := digitsValue ds
    if shift < 0x80000000 then scale s (if down then e - shift else e + shift)
    else if down ∨ s = 0 then some 0.0 else none

def value (n : Numeral) : Option Number :=
  let (s, untaken) := accumulate 0 n.whole
  if n.integral ∧ untaken = 0 then
    if !n.negative then some (.natural s)
    else if s = 0 ∨ 0x8000000000000000 < s then some (.float (-Float.ofNat s))
    else some (.below s)
  else n.magnitude.map fun x => .float (signed n.negative x)

end Numeral
end SceneTree.Json
