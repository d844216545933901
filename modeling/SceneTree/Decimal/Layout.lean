import SceneTree.Decimal.Shortest

/-! Floats as text: the digits are those of `shortest`, a `Layout` says where positional
notation ends. -/
namespace SceneTree.Decimal

/- Leading exponents from `plainFrom` to `plainTo` are written positionally, with at least one
   digit after the point; others as `d.ddde+X` or `d.ddde-X`. -/
structure Layout where
  plainFrom : Int
  plainTo : Int

def digits (n : Nat) : List Char := Nat.toDigits 10 n

def zeros (n : Nat) : List Char := List.replicate n '0'

def plain (ds : List Char) (g : Int) : List Char :=
  let whole := ds.length + g
  if 0 ≤ g then ds ++ zeros g.toNat ++ ['.', '0']
  else if 0 < whole then ds.take whole.toNat ++ '.' :: ds.drop whole.toNat
  else '0' :: '.' :: zeros (-whole).toNat ++ ds

def scientific (ds : List Char) (e : Int) : List Char :=
  let mantissa := match ds with
    | d :: d' :: rest => d :: '.' :: d' :: rest
    | ds => ds
  mantissa ++ 'e' :: (if e < 0 then '-' else '+') :: digits e.natAbs

def Layout.magnitude (l : Layout) (x : Float) : List Char :=
  if x == 0 then ['0', '.', '0']
  else
    let (d, g) := shortest x
    let ds := digits d
    let e := ds.length + g - 1
    if l.plainFrom ≤ e ∧ e ≤ l.plainTo then plain ds g else scientific ds e

def negative (x : Float) : Bool := x.toBits >>> 63 = 1

def Layout.text (l : Layout) (x : Float) : List Char :=
  if negative x then '-' :: l.magnitude x else l.magnitude x

end SceneTree.Decimal
