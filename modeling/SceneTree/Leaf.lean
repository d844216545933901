import SceneTree.MaterialIndex

/-! The shapes of a frame as a renderer sees them. -/
namespace SceneTree
variable {ι : Type}

structure Leaf (ι : Type) where
  origin : ι
  shape : Shape
  world : Affine
  material : String
  paint : Paint

def Leaf.node (l : Leaf ι) : Node ι := .shape l.origin l.shape

/- A node that waits, with the material and the transform around it. -/
structure Placed (ι : Type) where
  node : Node ι
  material : String
  world : Affine

namespace Placed

def all (material : String) (world : Affine) (kids : List (Node ι)) : List (Placed ι) :=
  kids.map (⟨·, material, world⟩)

def size : List (Placed ι) → Nat
  | [] => 0
  | p :: ps => p.node.size + size ps

theorem size_append (ps qs : List (Placed ι)) : size (ps ++ qs) = size ps + size qs := by
  induction ps with
  | nil => simp [size]
  | cons p ps ih => simp only [List.cons_append, size, ih]; omega

theorem size_all (material : String) (world : Affine) (kids : List (Node ι)) :
    size (all material world kids) = Node.sizeAll kids := by
  induction kids with
  | nil => rfl
  | cons n kids ih => simpa [all, size, Node.sizeAll] using ih

end Placed

namespace Frame

/- `found` is reversed. -/
def leavesFrom (index : MaterialIndex ι) (found : List (Leaf ι)) :
    List (Placed ι) → List (Leaf ι)
  | [] => found.reverse
  | ⟨.shape i s, material, world⟩ :: waiting =>
    leavesFrom index (⟨i, s, world, material, index.resolve material⟩ :: found) waiting
  | ⟨.group _ (.material m) kids, _, world⟩ :: waiting =>
    leavesFrom index found (Placed.all m.id world kids ++ waiting)
  | ⟨.group _ (.transform t) kids, material, world⟩ :: waiting =>
    leavesFrom index found (Placed.all material (world.compose t) kids ++ waiting)
termination_by waiting => Placed.size waiting
decreasing_by
  all_goals simp only [Placed.size_append, Placed.size_all, Placed.size, Node.size]
  all_goals omega

def leaves (f : Frame ι) : List (Leaf ι) :=
  leavesFrom (.ofFrame f) [] (Placed.all rootId .identity f.root.children)

end Frame
end SceneTree
