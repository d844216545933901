/-! Shortest decimals of binary64 values. A finite positive value stands for an interval of
reals, those nearer to it than to its neighbours; `shortest` finds a decimal with the fewest
digits in that interval, the nearest to the value if there are two. Exact throughout. -/
namespace SceneTree.Decimal

/- The value and the two ends of its interval, over one denominator. The ends belong to the
   interval when the significand is even, since a tie rounds to even. -/
structure Span where
  low : Nat
  value : Nat
  high : Nat
  den : Nat
  closed : Bool

/- The significand and the exponent of the bits of a positive finite value, as `(m, q)` with
   value `m * 2^q`. -/
def significand (bits : UInt64) : Nat × Int :=
  let e := ((bits >>> 52) &&& 0x7FF).toNat
  let f := (bits &&& 0xFFFFFFFFFFFFF).toNat
  if e = 0 then (f, -1074) else (0x10000000000000 + f, (e : Int) - 1075)

/- At a power of two the neighbour below is only half as far away as the one above. -/
def Span.ofBits (bits : UInt64) : Span :=
  let (m, q) := significand bits
  let below := if m = 0x10000000000000 ∧ -1074 < q then 1 else 2
  let scale := Nat.pow 2 (q - 2).toNat
  ⟨(4 * m - below) * scale, 4 * m * scale, (4 * m + 2) * scale, Nat.pow 2 (2 - q).toNat,
    m % 2 = 0⟩

def Span.contains (s : Span) (digits : Nat) (exponent : Int) : Bool :=
  let x := digits * Nat.pow 10 exponent.toNat * s.den
  let scale := Nat.pow 10 (-exponent).toNat
  if s.closed then s.low * scale ≤ x ∧ x ≤ s.high * scale
  else s.low * scale < x ∧ x < s.high * scale

/-- The point of the grid `10^exponent` that lies in the interval and nearest to the value; only
the two neighbours of the value on the grid can be it. -/
def Span.onGrid (s : Span) (exponent : Int) : Option Nat :=
  let num := s.value * Nat.pow 10 (-exponent).toNat
  let unit := s.den * Nat.pow 10 exponent.toNat
  let below := num / unit
  match s.contains below exponent, s.contains (below + 1) exponent with
  | false, false => none
  | true, false => some below
  | false, true => some (below + 1)
  | true, true =>
    match compare (2 * (num % unit)) unit with
    | .lt => some below
    | .gt => some (below + 1)
    | .eq => some (if below % 2 = 0 then below else below + 1)

theorem Span.contains_of_onGrid {s : Span} {exponent : Int} {d : Nat}
    (h : s.onGrid exponent = some d) : s.contains d exponent = true := by
  simp only [onGrid] at h
  split at h
  · cases h
  · cases h; assumption
  · cases h; assumption
  · split at h
    · cases h; assumption
    · cases h; assumption
    · split at h <;> cases h <;> assumption

/- Three tenths is a little less than the logarithm of two, so the first grid tried lies above
   the value. The grids go down from there by one digit each. -/
def Span.coarsest (s : Span) : Int :=
  ((s.value.log2 : Int) + 1 - s.den.log2) * 3 / 10 + 2

/-- Digits and exponent of the shortest decimal. Seventeen digits are always enough; the exact
value stands behind the search. -/
def Span.shortest (s : Span) : Nat × Int :=
  let grids := (List.range 24).map fun i : Nat => s.coarsest - i
  match grids.findSome? fun g => (s.onGrid g).map (·, g) with
  | some found => found
  | none => (s.value * Nat.pow 5 s.den.log2, -s.den.log2)

def shortest (x : Float) : Nat × Int :=
  (Span.ofBits x.abs.toBits).shortest

end SceneTree.Decimal
