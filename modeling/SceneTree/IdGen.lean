import SceneTree.Decimal.Layout

/-! Numbered ids. -/
namespace SceneTree

/- The number of the next id stays below 2^64. -/
structure IdGen where
  stem : String
  number : Nat

namespace IdGen

def greatest : Nat := 0xFFFFFFFFFFFFFFFF

def new (stem : String) : IdGen := ⟨stem, 1⟩

def standard : IdGen := new "m"

def id (stem : String) (number : Nat) : String :=
  stem ++ String.ofList (Decimal.digits number)

def advance (g : IdGen) : IdGen := { g with number := min (g.number + 1) greatest }

def next (g : IdGen) : String × IdGen := (id g.stem g.number, g.advance)

def skip : Nat → IdGen → IdGen
  | 0, g => g
  | n + 1, g => skip n g.advance

def issued (g : IdGen) : Nat := g.number - 1

end IdGen
end SceneTree
