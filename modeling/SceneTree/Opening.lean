import SceneTree.Failure

/-! Frames in files. -/
namespace SceneTree

/-- What the system answers when a file is to be read: it cannot be opened, or nothing of it can be
read, or all that it holds. -/
inductive FileReply where
  | unopened (reason : String)
  | unread (reason : String)
  | content (bytes : List UInt8)

def Frame.ofFile (path : String) : FileReply → Except Failure (Frame Unit)
  | .unopened reason => .error (.other ("open frame JSON '" ++ path ++ "': " ++ reason))
  | .unread reason => .error (.serialization ("parse frame JSON: " ++ reason))
  | .content bytes => ofBytes bytes

end SceneTree
