import SceneTree.Affine
import SceneTree.Style

/-! Scene trees. A node is a shape, or a group of nodes under a material or a transform. Every node
carries an origin, a mark of its identity that no meaning depends on: nodes handed on unchanged keep
theirs. -/
namespace SceneTree

structure Point where
  x : Float
  y : Float

inductive Shape where
  | circle (center : Point) (radius : Float)
  | line (start stop : Point)
  | rectangle (center : Point) (width height : Float)
  | image (url : String) (position : Point) (width height : Float)

/-- `ref` is the material inherited from, often but not always the one around. -/
structure Material where
  id : String
  ref : String
  style : Style

inductive Head where
  | material (m : Material)
  | transform (m : Affine)

inductive Node (ι : Type) where
  | shape (origin : ι) (s : Shape)
  | group (origin : ι) (head : Head) (children : List (Node ι))

inductive Kind where
  | material | transform | circle | line | rectangle | image
deriving DecidableEq

def Kind.name : Kind → String
  | .material => "material"
  | .transform => "transform"
  | .circle => "circle"
  | .line => "line"
  | .rectangle => "rectangle"
  | .image => "image"

def Kind.all : List Kind := [.material, .transform, .circle, .line, .rectangle, .image]

def Shape.kind : Shape → Kind
  | .circle _ _ => .circle
  | .line _ _ => .line
  | .rectangle _ _ _ => .rectangle
  | .image _ _ _ _ => .image

def Head.kind : Head → Kind
  | .material _ => .material
  | .transform _ => .transform

namespace Node
variable {ι κ : Type}

def origin : Node ι → ι
  | .shape i _ | .group i _ _ => i

def kind : Node ι → Kind
  | .shape _ s => s.kind
  | .group _ h _ => h.kind

def children : Node ι → List (Node ι)
  | .shape _ _ => []
  | .group _ _ kids => kids

def isShape : Node ι → Bool
  | .shape _ _ => true
  | .group _ _ _ => false

mutual
def size : Node ι → Nat
  | .shape _ _ => 1
  | .group _ _ kids => 1 + sizeAll kids

def sizeAll : List (Node ι) → Nat
  | [] => 0
  | n :: ns => n.size + sizeAll ns
end

theorem size_eq (n : Node ι) : n.size = 1 + sizeAll n.children := by
  cases n <;> simp [size, children, sizeAll]

@[simp] theorem sizeAll_append (xs ys : List (Node ι)) :
    sizeAll (xs ++ ys) = sizeAll xs + sizeAll ys := by
  induction xs with
  | nil => simp [sizeAll]
  | cons x xs ih => simp only [List.cons_append, sizeAll, ih]; omega

@[simp] theorem sizeAll_reverse (xs : List (Node ι)) : sizeAll xs.reverse = sizeAll xs := by
  induction xs with
  | nil => rfl
  | cons x xs ih => simp only [List.reverse_cons, sizeAll_append, sizeAll, ih]; omega

/- Other origins, the same scene. -/
mutual
def map (f : ι → κ) : Node ι → Node κ
  | .shape i s => .shape (f i) s
  | .group i h kids => .group (f i) h (mapAll f kids)

def mapAll (f : ι → κ) : List (Node ι) → List (Node κ)
  | [] => []
  | n :: ns => n.map f :: mapAll f ns
end

theorem mapAll_eq (f : ι → κ) (ns : List (Node ι)) : mapAll f ns = ns.map (map f) := by
  induction ns with
  | nil => rfl
  | cons n ns ih => simp [mapAll, ih]

/- The nodes of a tree before those of `rest`, each before its children. -/
mutual
def preorder : Node ι → List (Node ι) → List (Node ι)
  | .shape i s, rest => .shape i s :: rest
  | .group i h kids, rest => .group i h kids :: preorderAll kids rest

def preorderAll : List (Node ι) → List (Node ι) → List (Node ι)
  | [], rest => rest
  | n :: ns, rest => n.preorder (preorderAll ns rest)
end

end Node

def Point.same (p q : Point) : Bool := p.x == q.x && p.y == q.y

def Shape.same : Shape → Shape → Bool
  | .circle c r, .circle c' r' => c.same c' && r == r'
  | .line s t, .line s' t' => s.same s' && t.same t'
  | .rectangle c w h, .rectangle c' w' h' => c.same c' && w == w' && h == h'
  | .image u p w h, .image u' p' w' h' => u == u' && p.same p' && w == w' && h == h'
  | _, _ => false

def Head.same : Head → Head → Bool
  | .material m, .material n => m.id == n.id && m.ref == n.ref && m.style.same n.style
  | .transform m, .transform n => m.same n
  | _, _ => false

namespace Node
variable {ι κ : Type}

/- The same values, by equality of floats. Origins do not count. -/
mutual
def same : Node ι → Node κ → Bool
  | .shape _ s, .shape _ t => s.same t
  | .group _ h kids, .group _ h' kids' => h.same h' && sameAll kids kids'
  | _, _ => false

def sameAll : List (Node ι) → List (Node κ) → Bool
  | [], [] => true
  | n :: ns, m :: ms => n.same m && sameAll ns ms
  | _, _ => false
end

end Node
end SceneTree
