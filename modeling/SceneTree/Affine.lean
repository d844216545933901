/-! Affine maps of the plane, as six coefficients: `(x, y)` goes to
`(a * x + c * y + e, b * x + d * y + f)`. -/
namespace SceneTree

structure Affine where
  a : Float
  b : Float
  c : Float
  d : Float
  e : Float
  f : Float

namespace Affine

def identity : Affine := ⟨1, 0, 0, 1, 0, 0⟩

def translate (x y : Float) : Affine := ⟨1, 0, 0, 1, x, y⟩

/-- The map that applies `n` first and `m` to the result, with one rounding per operation. -/
def compose (m n : Affine) : Affine where
  a := m.a * n.a + m.c * n.b
  b := m.b * n.a + m.d * n.b
  c := m.a * n.c + m.c * n.d
  d := m.b * n.c + m.d * n.d
  e := m.a * n.e + m.c * n.f + m.e
  f := m.b * n.e + m.d * n.f + m.f

/- Equality of floats: zero equals negative zero, and nothing equals what is not a number. -/
def same (m n : Affine) : Bool :=
  m.a == n.a && m.b == n.b && m.c == n.c && m.d == n.d && m.e == n.e && m.f == n.f

/-- Exactly the identity. A map that is merely near it is not. -/
def isIdentity (m : Affine) : Bool := m.same identity

def coefficients (m : Affine) : List Float := [m.a, m.b, m.c, m.d, m.e, m.f]

theorem isIdentity_identity : identity.isIdentity = true := by decide +kernel

end Affine
end SceneTree
