import SceneTree.Failure
import SceneTree.Frame.Writing

/-! Small changes to frames. -/
namespace SceneTree
namespace Frame
variable {ι : Type}

def withBackground (f : Frame ι) (colour : String) : Frame ι := { f with background := some colour }

def withChildren (f : Frame ι) (kids : List (Node ι)) : Frame ι :=
  { f with root := { f.root with children := kids } }

def under (f : Frame ι) (i : ι) (h : Head) : Frame ι :=
  f.withChildren [.group i h f.root.children]

def append (f : Frame ι) (n : Node ι) : Frame ι := f.withChildren (f.root.children ++ [n])

def twice (f : Frame ι) : Frame ι := f.withChildren (f.root.children ++ f.root.children)

/-- The frame as it is read back from its own text. -/
def reread (f : Frame ι) : Except Failure (Frame Unit) := ofText f.text

@[simp] theorem children_withChildren (f : Frame ι) (kids : List (Node ι)) :
    (f.withChildren kids).root.children = kids := rfl

end Frame

def Node.ofText (s : String) : Except Json.ReadError (Node Unit) :=
  Node.read.whole Json.Tree.limited (Json.Symbol.ofString s)

end SceneTree
