import Std.Data.TreeMap
import SceneTree.Frame

/-! Materials by id, and the style a material ends up with. The scene is walked from right to left,
each node before its children, and a later material takes the place of an earlier one with its
id. -/
namespace SceneTree
variable {ι : Type}

structure MaterialIndex (ι : Type) where
  base : Paint
  entries : Std.TreeMap String (Material × List (Node ι))

namespace MaterialIndex

abbrev Entries (ι : Type) := Std.TreeMap String (Material × List (Node ι))

def enter (entries : Entries ι) : Node ι → Entries ι
  | .group _ (.material m) kids => entries.insert m.id (m, kids)
  | _ => entries

def enterAll (entries : Entries ι) : List (Node ι) → Entries ι
  | [] => entries
  | n :: waiting => enterAll (enter entries n) (n.children.reverse ++ waiting)
termination_by waiting => Node.sizeAll waiting
decreasing_by
  simp only [Node.sizeAll_append, Node.sizeAll_reverse, Node.sizeAll, n.size_eq]
  omega

def ofFrame (f : Frame ι) : MaterialIndex ι :=
  ⟨f.root.paint, enterAll ∅ f.root.children.reverse⟩

def get? (index : MaterialIndex ι) (id : String) : Option (Material × List (Node ι)) :=
  index.entries[id]?

def size (index : MaterialIndex ι) : Nat := index.entries.size

/- `inner` is what the materials nearer to the start have set. A chain of refs that is longer than
   the index goes round in a circle, and nothing new can come of it. -/
def follow (index : MaterialIndex ι) : Nat → String → Style → Style
  | 0, _, inner => inner
  | steps + 1, id, inner =>
    if id = rootId then inner
    else match index.get? id with
      | none => inner
      | some (m, _) => follow index steps m.ref (m.style.overlay inner)

/-- Each field from the nearest material along the refs that sets it, and from the root if none
does. -/
def resolve (index : MaterialIndex ι) (id : String) : Paint :=
  (index.follow (index.size + 1) id .inherit).onto index.base

theorem resolve_root (index : MaterialIndex ι) : index.resolve rootId = index.base := by
  simp [resolve, follow, Style.inherit_onto]

end MaterialIndex
end SceneTree
