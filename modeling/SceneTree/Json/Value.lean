/-! Values to be written as JSON. Members keep their order. -/
namespace SceneTree

inductive Json where
  | null
  | bool (b : Bool)
  | count (n : Nat)
  | number (x : Float)
  | string (s : String)
  | list (items : List Json)
  | object (members : List (String × Json))

namespace Json

def ifSome {α : Type} (name : String) (write : α → Json) : Option α → List (String × Json)
  | none => []
  | some a => [(name, write a)]

end Json
end SceneTree
