import SceneTree.Json.Fault
import SceneTree.Json.Numeral
import SceneTree.Json.Printer
import SceneTree.Text.Quote

/-! Why a text is not read as the value it should be. -/
namespace SceneTree.Json

inductive Seen where
  | null
  | bool (b : Bool)
  | number (n : Number)
  | string (s : String)
  | list
  | object

inductive ReadError where
  | fault (f : Fault)
  | missingField (name : String)
  | duplicateField (name : String)
  | wrongType (got : Seen) (expected : String)
  | wrongLength (length : Nat) (expected : String)
  | unknownVariant (name : String) (known : List String)
  | wrongVariantIndex (index : Nat) (total : Nat)
  | wrongRoot (id : String)

def Number.describe : Number → String
  | .natural n => "integer `" ++ String.ofList (Decimal.digits n) ++ "`"
  | .below n => "integer `-" ++ String.ofList (Decimal.digits n) ++ "`"
  | .float x => "floating point `" ++ String.ofList (numberText x) ++ "`"

def Seen.describe : Seen → String
  | .null => "null"
  | .bool b => "boolean `" ++ String.ofList (word b) ++ "`"
  | .number n => n.describe
  | .string s => "string " ++ Text.quote s
  | .list => "sequence"
  | .object => "map"

def backquoted (name : String) : String := "`" ++ name ++ "`"

def oneOf : List String → String
  | [name] => "expected " ++ backquoted name
  | names => "expected one of " ++ String.intercalate ", " (names.map backquoted)

/- Up to the line and the column, which every message ends with. -/
def ReadError.message : ReadError → String
  | .fault f => f.message
  | .missingField name => "missing field " ++ backquoted name
  | .duplicateField name => "duplicate field " ++ backquoted name
  | .wrongType got expected => "invalid type: " ++ got.describe ++ ", expected " ++ expected
  | .wrongLength n expected =>
    "invalid length " ++ String.ofList (Decimal.digits n) ++ ", expected " ++ expected
  | .unknownVariant name known => "unknown variant " ++ backquoted name ++ ", " ++ oneOf known
  | .wrongVariantIndex i total =>
    "invalid value: integer " ++ backquoted (String.ofList (Decimal.digits i)) ++
      ", expected variant index 0 <= i < " ++ String.ofList (Decimal.digits total)
  | .wrongRoot id => "root material id must be 'root', got '" ++ id ++ "'"

instance : MonadLift (Except Fault) (Except ReadError) where
  monadLift x := x.mapError .fault

end SceneTree.Json
