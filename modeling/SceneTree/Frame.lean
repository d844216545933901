import SceneTree.Node

/-! Frames: a viewport, a background, and a scene below the root material. -/
namespace SceneTree

inductive ScaleMode where
  | fit | fill | stretch
deriving DecidableEq

def ScaleMode.name : ScaleMode → String
  | .fit => "fit"
  | .fill => "fill"
  | .stretch => "stretch"

structure Viewport where
  halfWidth : Float
  halfHeight : Float
  scaleMode : ScaleMode

def Viewport.same (v w : Viewport) : Bool :=
  v.halfWidth == w.halfWidth && v.halfHeight == w.halfHeight && v.scaleMode = w.scaleMode

def rootId : String := "root"

structure Root (ι : Type) where
  origin : ι
  paint : Paint
  children : List (Node ι)

structure Frame (ι : Type) where
  viewport : Viewport
  background : Option String
  root : Root ι

namespace Frame
variable {ι κ : Type}

def map (f : ι → κ) (frame : Frame ι) : Frame κ where
  viewport := frame.viewport
  background := frame.background
  root := ⟨f frame.root.origin, frame.root.paint, Node.mapAll f frame.root.children⟩

def bare (frame : Frame ι) : Frame Unit := frame.map fun _ => ()

def same (f : Frame ι) (g : Frame κ) : Bool :=
  f.viewport.same g.viewport && f.background == g.background &&
    f.root.paint.same g.root.paint && Node.sameAll f.root.children g.root.children

/-- The nodes below the root, each before its children. -/
def nodes (frame : Frame ι) : List (Node ι) := Node.preorderAll frame.root.children []

/- The nodes that wait to be counted are stacked, so depth costs no more than width. -/
def countFrom (counted : Nat) : List (Node ι) → Nat
  | [] => counted
  | n :: waiting => countFrom (counted + 1) (n.children.reverse ++ waiting)
termination_by waiting => Node.sizeAll waiting
decreasing_by
  simp only [Node.sizeAll_append, Node.sizeAll_reverse, Node.sizeAll, n.size_eq]
  omega

theorem countFrom_eq (counted : Nat) (waiting : List (Node ι)) :
    countFrom counted waiting = counted + Node.sizeAll waiting := by
  fun_induction countFrom counted waiting with
  | case1 => simp [Node.sizeAll]
  | case2 counted n waiting ih =>
    simp only [ih, Node.sizeAll_append, Node.sizeAll_reverse, Node.sizeAll, n.size_eq]
    omega

def count (frame : Frame ι) : Nat := countFrom 1 frame.root.children.reverse

theorem count_eq (frame : Frame ι) : frame.count = 1 + Node.sizeAll frame.root.children := by
  simp [count, countFrom_eq]

end Frame
end SceneTree
