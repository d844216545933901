import SceneTree.Frame.Reading

/-! How work on frames fails. -/
namespace SceneTree

inductive Failure where
  | validation (reason : String)
  | serialization (reason : String)
  | other (reason : String)

namespace Failure

def message : Failure → String
  | .validation reason => "validation error: " ++ reason
  | .serialization reason => "serialization error: " ++ reason
  | .other reason => reason

def unreadableFrame (e : Json.ReadError) : Failure :=
  .serialization ("parse frame JSON: " ++ e.message)

def unreadableOptions (e : Json.ReadError) : Failure :=
  .serialization ("parse optimizer options JSON: " ++ e.message)

end Failure

namespace Frame

def ofText (s : String) : Except Failure (Frame Unit) :=
  (ofSymbols (Json.Symbol.ofString s)).mapError .unreadableFrame

/-- A text that may not be UTF-8. -/
def ofBytes (bytes : List UInt8) : Except Failure (Frame Unit) :=
  (ofSymbols (Json.Symbol.ofBytes bytes)).mapError .unreadableFrame

end Frame
end SceneTree
