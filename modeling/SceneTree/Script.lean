import SceneTree.Sketch

/-! Scripts. A sketch has its nodes in the order they are drawn in. A script makes the materials of
a list of children one after another, and lays the list out when all are made, in any order it likes
and below transforms if it likes. -/
namespace SceneTree

/- A place in such a list. `made n` takes the material that was made after `n` others. -/
inductive Slot where
  | shape (s : Shape)
  | made (n : Nat)
  | transform (m : Affine) (children : List Slot)

/- The children of a material have a script of their own, which is told the id of the material. -/
inductive Script where
  | layOut (layout : List Slot)
  | material (parent : Parent) (style : Style) (children next : Script)

namespace Slot

def translate (x y : Float) (children : List Slot) : Slot := .transform (.translate x y) children

mutual
def place (made : List (Node Unit)) : Slot → List (Node Unit)
  | .shape s => [.shape () s]
  | .made n => made[n]?.toList
  | .transform m slots => [.group () (.transform m) (placeAll made slots)]

def placeAll (made : List (Node Unit)) : List Slot → List (Node Unit)
  | [] => []
  | slot :: slots => slot.place made ++ placeAll made slots
end

mutual
def taken : Slot → List Nat
  | .shape _ => []
  | .made n => [n]
  | .transform _ slots => takenAll slots

def takenAll : List Slot → List Nat
  | [] => []
  | slot :: slots => slot.taken ++ takenAll slots
end

end Slot

namespace Script

/-- The nodes that a script lays out, some being made already. -/
def run (around : List String) (hand : Hand) (made : List (Node Unit)) :
    Script → List (Node Unit) × Hand
  | .layOut layout => (Slot.placeAll made layout, hand)
  | .material parent style children next =>
    let (head, inside, hand) := hand.layer around (.material parent style)
    let (kids, hand) := children.run inside hand []
    next.run around hand (made ++ [.group () head kids])

def count : Script → Nat
  | .layOut _ => 0
  | .material _ _ children next => 1 + children.count + next.count

def frame (viewport : Viewport) (background : Option String) (paint : Paint) (ids : IdGen)
    (script : Script) : Frame Unit where
  viewport := viewport
  background := background
  root := ⟨(), paint, (script.run [] ⟨ids, []⟩ []).1⟩

end Script
end SceneTree
