import SceneTree.Frame
import SceneTree.IdGen

/-! Sketches of frames. A sketch says what to draw, in order; materials get their ids as they are
drawn, a group before what is in it. -/
namespace SceneTree

/-- The material that a new one refers to: by name, or the n-th around it, counted from inside. -/
inductive Parent where
  | named (id : String)
  | around (n : Nat)

/- Past the outermost material lies the root. -/
def Parent.id (around : List String) : Parent → String
  | .named id => id
  | .around n => around[n]?.getD rootId

inductive Layer where
  | material (parent : Parent) (style : Style)
  | materialNamed (id : String) (parent : Parent) (style : Style)
  | transform (m : Affine)

def Layer.translate (x y : Float) : Layer := .transform (.translate x y)

/- `define` draws a sketch and remembers it, `use` draws it again. -/
inductive Sketch where
  | shape (s : Shape)
  | group (layer : Layer) (children : List Sketch)
  | define (name : String) (sketch : Sketch)
  | use (name : String)

namespace Sketch

/- `n` groups one inside the other, their layers in turn from the `i`-th. -/
def nest (layers : List Layer) (children : List Sketch) : Nat → Nat → List Sketch
  | _, 0 => children
  | i, n + 1 =>
    match layers[i % layers.length]? with
    | some layer => [.group layer (nest layers children (i + 1) n)]
    | none => children

end Sketch

/- What a drawing hand knows: the ids to come, and the nodes remembered, latest first. -/
structure Hand where
  ids : IdGen
  defined : List (String × Node Unit)

namespace Hand

def layer (hand : Hand) (around : List String) : Layer → Head × List String × Hand
  | .material parent style =>
    let (id, ids) := hand.ids.next
    (.material ⟨id, parent.id around, style⟩, id :: around, { hand with ids })
  | .materialNamed id parent style =>
    (.material ⟨id, parent.id around, style⟩, id :: around, hand)
  | .transform m => (.transform m, around, hand)

mutual
def draw (around : List String) (hand : Hand) : Sketch → List (Node Unit) × Hand
  | .shape s => ([.shape () s], hand)
  | .group layer children =>
    let (head, inside, hand) := hand.layer around layer
    let (kids, hand) := drawAll inside hand children
    ([.group () head kids], hand)
  | .define name sketch =>
    let (nodes, hand) := draw around hand sketch
    (nodes, { hand with defined := nodes.map (name, ·) ++ hand.defined })
  | .use name => (((hand.defined.find? (·.1 = name)).map (·.2)).toList, hand)

def drawAll (around : List String) (hand : Hand) : List Sketch → List (Node Unit) × Hand
  | [] => ([], hand)
  | s :: rest =>
    let (nodes, hand) := draw around hand s
    let (others, hand) := drawAll around hand rest
    (nodes ++ others, hand)
end

end Hand

structure Drawing where
  viewport : Viewport
  background : Option String
  paint : Paint
  ids : IdGen
  children : List Sketch

namespace Drawing

def plain : Paint := ⟨"black", "black", 1⟩

def frame (d : Drawing) : Frame Unit where
  viewport := d.viewport
  background := d.background
  root := ⟨(), d.paint, (Hand.drawAll [] ⟨d.ids, []⟩ d.children).1⟩

end Drawing
end SceneTree
