import SceneTree.Frame
import SceneTree.Json.Form

/-! Frames read from JSON. Frame, viewport and root are read as the text goes. A child of the root
is first read in full, except that its `type` is judged at once; what is in it comes afterwards. -/
namespace SceneTree
open Json (ReadError Form Read Tree Context Quoted ObjectEnd ListEnd Member)

def Point.form : Form Tree Point :=
  ((Form.required "x" Read.number).and (.required "y" Read.number)).map fun (x, y) => ⟨x, y⟩

def Point.read : Read Tree Point := Read.record "Point" form

def Affine.form : Form Tree Affine :=
  let number := fun name => Form.required name Read.number
  ((number "a").and <| (number "b").and <| (number "c").and <| (number "d").and <|
    (number "e").and (number "f")).map fun (a, b, c, d, e, f) => ⟨a, b, c, d, e, f⟩

def Affine.read : Read Tree Affine := Read.tuple form

/- What stands at a place in a node: the tree, and how it reads as a list of children. -/
structure Entry where
  tree : Tree
  children : Unit → Except ReadError (List (Node Unit))

namespace Entry

def reads {α : Type} (read : Read Tree α) : Read Entry α := fun ctx entry => read ctx entry.tree

def point (name : String) : Form Entry Point := .required name (reads Point.read)

def number (name : String) : Form Entry Float := .required name (reads Read.number)

def text (name : String) : Form Entry String := .required name (reads Read.text)

def override {α : Type} (name : String) (read : Read Tree α) : Form Entry (Option α) :=
  .optional name (reads (Read.nullable read)) none

def style : Form Entry Style :=
  ((override "fill" Read.text).and <| (override "stroke" Read.text).and
    (override "strokeWidth" Read.number)).map fun (fill, stroke, width) => ⟨fill, stroke, width⟩

def group : Form Entry (List (Node Unit)) :=
  .optional "children" (fun _ entry => entry.children ()) []

end Entry

open Entry in
def Kind.form : Kind → Form Entry (Node Unit)
  | .material =>
    ((text "id").and <| (text "ref").and <| style.and group).map
      fun (id, ref, style, kids) => .group () (.material ⟨id, ref, style⟩) kids
  | .transform =>
    ((Form.required "matrix" (reads Affine.read)).and group).map
      fun (m, kids) => .group () (.transform m) kids
  | .circle =>
    ((point "center").and (number "radius")).map fun (c, r) => .shape () (.circle c r)
  | .line => ((point "start").and (point "end")).map fun (s, t) => .shape () (.line s t)
  | .rectangle =>
    ((point "center").and <| (number "width").and (number "height")).map
      fun (c, w, h) => .shape () (.rectangle c w h)
  | .image =>
    ((text "url").and <| (point "position").and <| (number "width").and (number "height")).map
      fun (u, p, w, h) => .shape () (.image u p w h)

def Kind.title : Kind → String
  | .material => "MaterialNode"
  | .transform => "TransformNode"
  | .circle => "Circle"
  | .line => "Line"
  | .rectangle => "Rectangle"
  | .image => "Image"

/- Below a child of the root a kind may also be given by its number. -/
def Kind.read (numbered : Bool) (t : Tree) : Except ReadError Kind :=
  match t with
  | .string q => do Read.lookup (Kind.all.map fun k => (k.name, k)) (← q.text)
  | .number n =>
    match numbered, n.value with
    | true, some (.natural i) =>
      match Kind.all[i]? with
      | some k => .ok k
      | none => .error (.wrongVariantIndex i Kind.all.length)
    | _, _ => t.mismatch "variant identifier"
  | t => t.mismatch "variant identifier"

def typeKey : String := "type"

/- The members in order, `other` looking at those that are not the type. -/
def Kind.ofMembers (numbered : Bool) (other : Tree → Except Json.Fault Unit) (found : Option Kind) :
    List Member → Except ReadError (Option Kind)
  | [] => .ok found
  | (key, t) :: ms => do
    let name ← key.text
    if name = typeKey then
      if found.isSome then throw (.duplicateField typeKey)
      ofMembers numbered other (some (← read numbered t)) ms
    else
      other t
      ofMembers numbered other found ms

def Kind.orMissing : Option Kind → Except ReadError Kind
  | some k => .ok k
  | none => .error (.missingField typeKey)

namespace Node

def expected : String := "internally tagged enum FrameNode"

/- Read in full already, so that only the meaning can be wrong. -/
def recalled : Context := ⟨none, true⟩

mutual
def ofTree : Tree → Except ReadError (Node Unit)
  | .object members ending => do
    let kind ← Kind.orMissing (← Kind.ofMembers true (fun _ => .ok ()) none members)
    kind.form.ofMembers recalled (fun _ => .ok ()) (entriesOfMembers members) ending
  | .list [] _ => .error (.missingField typeKey)
  | .list (t :: ts) ending => do
    let kind ← Kind.read true t
    kind.form.ofItems (kind.form.withElements kind.title) recalled (entriesOfItems ts) ending
  | .word w => (Tree.word w).mismatch expected
  | .number n => (Tree.number n).mismatch expected
  | .string q => (Tree.string q).mismatch expected
  | .broken b => (Tree.broken b).mismatch expected

def childrenOfTree : Tree → Except ReadError (List (Node Unit))
  | .list items _ => ofTrees items
  | .object members ending => (Tree.object members ending).mismatch "a sequence"
  | .word w => (Tree.word w).mismatch "a sequence"
  | .number n => (Tree.number n).mismatch "a sequence"
  | .string q => (Tree.string q).mismatch "a sequence"
  | .broken b => (Tree.broken b).mismatch "a sequence"

def ofTrees : List Tree → Except ReadError (List (Node Unit))
  | [] => .ok []
  | t :: ts => do return (← ofTree t) :: (← ofTrees ts)

def entriesOfItems : List Tree → List Entry
  | [] => []
  | t :: ts => ⟨t, fun _ => childrenOfTree t⟩ :: entriesOfItems ts

def entriesOfMembers : List (Quoted × Tree) → List (Quoted × Entry)
  | [] => []
  | (key, t) :: ms => (key, ⟨t, fun _ => childrenOfTree t⟩) :: entriesOfMembers ms
end

/- Everything in the text of a node is judged before the node is read from it. -/
def judge (ctx : Context) : Tree → Except ReadError Unit
  | .object members ending => do
    let ctx ← ctx.enter
    let kind ← Kind.ofMembers false (Tree.check ctx.room) none members
    ending.read
    discard (Kind.orMissing kind)
  | .list items ending => do
    let ctx ← ctx.enter
    match items with
    | [] => do
      ending.read
      throw (.missingField typeKey)
    | t :: ts => do
      discard (Kind.read false t)
      Tree.checkItems ctx.room ts
      ending.read
  | t => t.mismatch expected

def read : Read Tree (Node Unit) := fun ctx t => do
  judge ctx t
  ofTree t

end Node

def ScaleMode.read : Read Tree ScaleMode :=
  Read.variant ([.fit, .fill, .stretch].map fun m => (m.name, m))

def Viewport.read : Read Tree Viewport :=
  Read.record "Viewport" <|
    ((Form.required "halfWidth" Read.number).and <| (Form.required "halfHeight" Read.number).and
      (.optional "scaleMode" ScaleMode.read .fit)).map fun (w, h, m) => ⟨w, h, m⟩

def Root.form : Form Tree (String × Root Unit) :=
  ((Form.required typeKey (Read.variant [(Kind.material.name, ())])).and <|
    (Form.required "id" Read.text).and <| (Form.required "fill" Read.text).and <|
    (Form.required "stroke" Read.text).and <| (Form.required "strokeWidth" Read.number).and
      (.optional "children" (Read.list Node.read) [])).map
    fun (_, id, fill, stroke, width, kids) => (id, ⟨(), ⟨fill, stroke, width⟩, kids⟩)

def Root.read : Read Tree (Root Unit) := fun ctx t => do
  let (id, root) ← Read.record "RootMaterialDef" form ctx t
  if id = rootId then return root else throw (.wrongRoot id)

namespace Frame

def form : Form Tree (Frame Unit) :=
  ((Form.required "viewport" Viewport.read).and <|
    (Form.optional "background" (Read.nullable Read.text) none).and
      (.required "root" Root.read)).map fun (v, b, r) => ⟨v, b, r⟩

def read : Read Tree (Frame Unit) := Read.record "Frame" form

/-- Frames may be nested as deep as they like. -/
def ofSymbols (text : List Json.Symbol) : Except ReadError (Frame Unit) := read.whole none text

end Frame
end SceneTree
