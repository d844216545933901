import SceneTree.Frame
import SceneTree.Json.Printer

/-! Frames written as JSON. A style field that is not set is left out; so is a missing
background. -/
namespace SceneTree

def Point.toJson (p : Point) : Json := .object [("x", .number p.x), ("y", .number p.y)]

def Affine.toJson (m : Affine) : Json := .list (m.coefficients.map .number)

def Style.members (s : Style) : List (String × Json) :=
  Json.ifSome "fill" .string s.fill ++ Json.ifSome "stroke" .string s.stroke ++
    Json.ifSome "strokeWidth" .number s.strokeWidth

def Paint.members (p : Paint) : List (String × Json) :=
  [("fill", .string p.fill), ("stroke", .string p.stroke), ("strokeWidth", .number p.strokeWidth)]

def Paint.toJson (p : Paint) : Json := .object p.members

def Shape.members : Shape → List (String × Json)
  | .circle c r => [("center", c.toJson), ("radius", .number r)]
  | .line s t => [("start", s.toJson), ("end", t.toJson)]
  | .rectangle c w h => [("center", c.toJson), ("width", .number w), ("height", .number h)]
  | .image u p w h =>
    [("url", .string u), ("position", p.toJson), ("width", .number w), ("height", .number h)]

def Head.members : Head → List (String × Json)
  | .material m => [("id", .string m.id), ("ref", .string m.ref)] ++ m.style.members
  | .transform m => [("matrix", m.toJson)]

namespace Node
variable {ι : Type}

def tagged (kind : Kind) (members : List (String × Json)) : Json :=
  .object (("type", .string kind.name) :: members)

mutual
def toJson : Node ι → Json
  | .shape _ s => tagged s.kind s.members
  | .group _ h kids => tagged h.kind (h.members ++ [("children", .list (allToJson kids))])

def allToJson : List (Node ι) → List Json
  | [] => []
  | n :: ns => n.toJson :: allToJson ns
end

def text (n : Node ι) : String := n.toJson.text

end Node

def Viewport.toJson (v : Viewport) : Json :=
  .object [("halfWidth", .number v.halfWidth), ("halfHeight", .number v.halfHeight),
    ("scaleMode", .string v.scaleMode.name)]

def Root.toJson {ι : Type} (r : Root ι) : Json :=
  Node.tagged .material
    (("id", .string rootId) :: r.paint.members ++ [("children", .list (Node.allToJson r.children))])

namespace Frame
variable {ι : Type}

def toJson (f : Frame ι) : Json :=
  .object (("viewport", f.viewport.toJson) ::
    Json.ifSome "background" .string f.background ++ [("root", f.root.toJson)])

def text (f : Frame ι) : String := f.toJson.text

def prettyText (f : Frame ι) : String := f.toJson.prettyText

end Frame
end SceneTree
