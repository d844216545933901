import SceneTree.Json.Form

/-! Which rules a pass applies, and what it counts. -/
namespace SceneTree
open Json (Form Read ReadError Symbol Tree)

structure Options where
  mergeTransforms : Bool
  squashMaterials : Bool
  removeIdentities : Bool
deriving DecidableEq

namespace Options

def allRules : Options := ⟨true, true, true⟩

def noRules : Options := ⟨false, false, false⟩

def anyEnabled (o : Options) : Bool := o.mergeTransforms || o.squashMaterials || o.removeIdentities

def toJson (o : Options) : Json :=
  .object [("mergeTransforms", .bool o.mergeTransforms),
    ("squashMaterials", .bool o.squashMaterials),
    ("removeIdentityTransforms", .bool o.removeIdentities)]

/- A rule that is not mentioned is on. -/
def read : Read Tree Options :=
  Read.record "OptimizeOpts" <|
    ((Form.optional "mergeTransforms" Read.bool true).and <|
      (Form.optional "squashMaterials" Read.bool true).and
        (.optional "removeIdentityTransforms" Read.bool true)).map fun (m, s, r) => ⟨m, s, r⟩

def ofText (s : String) : Except ReadError Options :=
  read.whole Tree.limited (Symbol.ofString s)

end Options

/-- Composite nodes visited, and how often each rule was applied. -/
structure Tally where
  visited : Nat
  merged : Nat
  squashed : Nat
  removed : Nat
deriving DecidableEq

namespace Tally

def zero : Tally := ⟨0, 0, 0, 0⟩

def add (s t : Tally) : Tally :=
  ⟨s.visited + t.visited, s.merged + t.merged, s.squashed + t.squashed, s.removed + t.removed⟩

def applied (t : Tally) : Nat := t.merged + t.squashed + t.removed

@[simp] theorem add_zero (t : Tally) : t.add zero = t := rfl

@[simp] theorem zero_add (t : Tally) : zero.add t = t := by simp [add, zero]

theorem add_assoc (s t u : Tally) : (s.add t).add u = s.add (t.add u) := by
  simp [add, Nat.add_assoc]

@[simp] theorem applied_add (s t : Tally) : (s.add t).applied = s.applied + t.applied := by
  simp only [applied, add]; omega

def toJson (t : Tally) : Json :=
  .object [("nodesVisited", .count t.visited), ("transformsMerged", .count t.merged),
    ("materialsSquashed", .count t.squashed), ("identityTransformsRemoved", .count t.removed)]

end Tally
end SceneTree
