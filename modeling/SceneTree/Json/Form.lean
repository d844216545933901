import SceneTree.Json.ReadError
import SceneTree.Json.Tree

/-! Records in JSON. A `Form` says which fields a record has; the record may be written as an
object or as a list of its fields in order. The fields are read in the order of the text, so the
first thing that is wrong is the one reported. -/
namespace SceneTree.Json

/- `recalled` if the value was read in full before it is looked at. -/
structure Context where
  room : Tree.Room
  recalled : Bool

abbrev Read (τ α : Type) := Context → τ → Except ReadError α

def Context.enter (ctx : Context) : Except ReadError Context := do
  return { ctx with room := ← Tree.enter ctx.room }

structure Field (τ δ : Type) where
  name : String
  filled : δ → Bool
  read : Context → τ → δ → Except ReadError δ

def Field.onLeft {τ δ ε : Type} (f : Field τ δ) : Field τ (δ × ε) where
  name := f.name
  filled := fun d => f.filled d.1
  read := fun ctx t d => return (← f.read ctx t d.1, d.2)

def Field.onRight {τ δ ε : Type} (f : Field τ ε) : Field τ (δ × ε) where
  name := f.name
  filled := fun d => f.filled d.2
  read := fun ctx t d => return (d.1, ← f.read ctx t d.2)

/- `finish` is told what to say of a required field that is absent, from its name and its place. -/
structure Form (τ α : Type) where
  Draft : Type
  blank : Draft
  fields : List (Field τ Draft)
  finish : (String → Nat → ReadError) → Draft → Except ReadError α

namespace Form
variable {τ α β : Type}

def slot (name : String) (read : Read τ α) : Field τ (Option α) where
  name := name
  filled := Option.isSome
  read := fun ctx t _ => some <$> read ctx t

def required (name : String) (read : Read τ α) : Form τ α where
  Draft := Option α
  blank := none
  fields := [slot name read]
  finish := fun absent d =>
    match d with
    | some a => .ok a
    | none => .error (absent name 0)

def optional (name : String) (read : Read τ α) (default : α) : Form τ α where
  Draft := Option α
  blank := none
  fields := [slot name read]
  finish := fun _ d => .ok (d.getD default)

/-- The fields of one form before those of another. -/
def and (f : Form τ α) (g : Form τ β) : Form τ (α × β) where
  Draft := f.Draft × g.Draft
  blank := (f.blank, g.blank)
  fields := f.fields.map Field.onLeft ++ g.fields.map Field.onRight
  finish := fun absent d => do
    let a ← f.finish absent d.1
    let b ← g.finish (fun name i => absent name (f.fields.length + i)) d.2
    return (a, b)

def map (h : α → β) (f : Form τ α) : Form τ β where
  Draft := f.Draft
  blank := f.blank
  fields := f.fields
  finish := fun absent d => h <$> f.finish absent d

def size (f : Form τ α) : Nat := f.fields.length

/- A key is judged before its value is looked at. -/
def readMember (form : Form τ α) (ctx : Context) (skip : τ → Except Fault Unit) (d : form.Draft)
    (member : Quoted × τ) : Except ReadError form.Draft := do
  let name ← member.1.text
  match form.fields.find? (·.name = name) with
  | none => do
    skip member.2
    return d
  | some field =>
    if field.filled d then throw (.duplicateField name)
    field.read ctx member.2 d

def ofMembers (form : Form τ α) (ctx : Context) (skip : τ → Except Fault Unit)
    (members : List (Quoted × τ)) (ending : ObjectEnd) : Except ReadError α := do
  let d ← members.foldlM (form.readMember ctx skip) form.blank
  ending.read
  form.finish (fun name _ => .missingField name) d

/- The items that are left over when the fields are read. -/
def readItems {δ : Type} (ctx : Context) :
    List (Field τ δ) → List τ → δ → Except ReadError (δ × Option (List τ))
  | field :: fields, t :: ts, d => do readItems ctx fields ts (← field.read ctx t d)
  | _ :: _, [], d => .ok (d, none)
  | [], ts, d => .ok (d, some ts)

/- What is wrong with a list that should end here. -/
def surplus (ctx : Context) (size extra : Nat) (ending : ListEnd) : Except ReadError Unit :=
  if extra = 0 then
    match ending with
    | .noComma => throw (.fault .trailingText)
    | ending => ending.read
  else if ctx.recalled then
    throw (.wrongLength (size + extra)
      (String.ofList (Decimal.digits size) ++ " elements in sequence"))
  else throw (.fault .trailingText)

def ofItems (form : Form τ α) (described : String) (ctx : Context) (items : List τ)
    (ending : ListEnd) : Except ReadError α := do
  let (d, extra) ← readItems ctx form.fields items form.blank
  if extra.isNone then ending.read
  let a ← form.finish (fun _ i => .wrongLength i described) d
  surplus ctx form.size ((extra.getD []).length) ending
  return a

def withElements (form : Form τ α) (name : String) : String :=
  "struct " ++ name ++ " with " ++ String.ofList (Decimal.digits form.size) ++ " elements"

end Form

/- What stands in the text instead of the value that should. -/
def Tree.seen : Tree → Except Fault Seen
  | .word .null => .ok .null
  | .word (.bool b) => .ok (.bool b)
  | .number n =>
    match n.value with
    | some v => .ok (.number v)
    | none => .error .numberOutOfRange
  | .string q => .string <$> q.text
  | .list _ _ => .ok .list
  | .object _ _ => .ok .object
  | .broken b => .error b.fault

def Tree.mismatch {α : Type} (t : Tree) (expected : String) : Except ReadError α := do
  throw (.wrongType (← t.seen) expected)

namespace Read

def number : Read Tree Float := fun _ t =>
  match t with
  | .number n =>
    match n.value with
    | some v => .ok v.toFloat
    | none => .error (.fault .numberOutOfRange)
  | t => t.mismatch "f64"

def text : Read Tree String := fun _ t =>
  match t with
  | .string q => q.text
  | t => t.mismatch "a string"

def bool : Read Tree Bool := fun _ t =>
  match t with
  | .word (.bool b) => .ok b
  | t => t.mismatch "a boolean"

def nullable {α : Type} (read : Read Tree α) : Read Tree (Option α) := fun ctx t =>
  match t with
  | .word .null => .ok none
  | t => some <$> read ctx t

def list {α : Type} (read : Read Tree α) : Read Tree (List α) := fun ctx t =>
  match t with
  | .list items ending => do
    let xs ← items.mapM (read (← ctx.enter))
    ending.read
    return xs
  | t => t.mismatch "a sequence"

def record {α : Type} (name : String) (form : Form Tree α) : Read Tree α := fun ctx t =>
  match t with
  | .list items ending => do form.ofItems (form.withElements name) (← ctx.enter) items ending
  | .object members ending => do form.ofMembers (← ctx.enter) Tree.skim members ending
  | t => t.mismatch ("struct " ++ name)

def tuple {α : Type} (form : Form Tree α) : Read Tree α := fun ctx t =>
  let described := "an array of length " ++ String.ofList (Decimal.digits form.size)
  match t with
  | .list items ending => do form.ofItems described (← ctx.enter) items ending
  | t => t.mismatch described

def lookup {α : Type} (known : List (String × α)) (name : String) : Except ReadError α :=
  match known.find? (·.1 = name) with
  | some (_, a) => .ok a
  | none => .error (.unknownVariant name (known.map (·.1)))

/-- One of several names, or an object with the name as its only key and null as its value. What
stands where the key should is judged as in any object. -/
def variant {α : Type} (known : List (String × α)) : Read Tree α := fun ctx t =>
  match t with
  | .string q => do lookup known (← q.text)
  | .object [] ending => do
    discard ctx.enter
    ending.read
    throw (.fault .noValue)
  | .object ((key, t) :: more) ending => do
    discard ctx.enter
    let a ← lookup known (← key.text)
    match t with
    | .word .null => pure ()
    | t => t.mismatch "unit"
    match more, ending with
    | [], .closed => return a
    | [], .textEnd => throw (.fault .endInObject)
    | _, _ => throw (.fault .noValue)
  | .broken (.word _) | .broken (.number _) => throw (.fault .noValue)
  | .broken b => throw (.fault b.fault)
  | _ => throw (.fault .noValue)

/-- A whole text, with nothing after the value. -/
def whole {α : Type} (read : Read Tree α) (room : Tree.Room) (text : List Symbol) :
    Except ReadError α := do
  let (t, trailing) := Tree.ofText text
  let a ← read ⟨room, false⟩ t
  if trailing then throw (.fault .trailingText)
  return a

end Read
end SceneTree.Json
