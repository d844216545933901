import SceneTree.Json.Tree
import SceneTree.Proofs.Spelling

/-! Tokens and syntax trees. A tree in which every list and every object is closed has tokens of its
own, and these are parsed into the tree. So what is written is parsed into the tree of its value,
with nothing left over, and nothing in it is at fault. -/
namespace SceneTree.Json
open SceneTree.Json.Tree (Builder Place)

namespace Tree

mutual
def tokens : Tree → List Token
  | .word w => [.word w]
  | .number n => [.number n]
  | .string q => [.string q]
  | .list items _ => .listOpen :: (itemTokens items ++ [.listClose])
  | .object members _ => .objectOpen :: (memberTokens members ++ [.objectClose])
  | .broken b => [.broken b]

def itemTokens : List Tree → List Token
  | [] => []
  | t :: ts => tokens t ++ moreItemTokens ts

def moreItemTokens : List Tree → List Token
  | [] => []
  | t :: ts => .comma :: (tokens t ++ moreItemTokens ts)

def memberTokens : List (Quoted × Tree) → List Token
  | [] => []
  | (key, t) :: ms => .string key :: .colon :: (tokens t ++ moreMemberTokens ms)

def moreMemberTokens : List (Quoted × Tree) → List Token
  | [] => []
  | (key, t) :: ms => .comma :: .string key :: .colon :: (tokens t ++ moreMemberTokens ms)
end

mutual
def Closed : Tree → Prop
  | .word _ | .number _ | .string _ => True
  | .list items ending => ClosedItems items ∧ ending = .closed
  | .object members ending => ClosedMembers members ∧ ending = .closed
  | .broken _ => False

def ClosedItems : List Tree → Prop
  | [] => True
  | t :: ts => Closed t ∧ ClosedItems ts

def ClosedMembers : List (Quoted × Tree) → Prop
  | [] => True
  | (_, t) :: ms => Closed t ∧ ClosedMembers ms
end

theorem closedItems_iff {ts : List Tree} : ClosedItems ts ↔ ∀ t ∈ ts, t.Closed := by
  induction ts with
  | nil => simp [ClosedItems]
  | cons t ts ih => simp [ClosedItems, ih]

theorem closedMembers_iff {ms : List Member} : ClosedMembers ms ↔ ∀ m ∈ ms, m.2.Closed := by
  induction ms with
  | nil => simp [ClosedMembers]
  | cons m ms ih => simp [ClosedMembers, ih]

theorem run_item {t : Tree} (closed : t.Closed) (before : List Tree) (around : List Place)
    (rest : List Token) : Builder.run (.itemOrClose before around) (t.tokens ++ rest) =
      Builder.run (.value (.item before :: around)) (t.tokens ++ rest) := by
  cases t with
  | broken b => cases closed
  | word w | number n | string q | list items ending | object members ending =>
    cases before <;> rfl

theorem run_key (before : List Member) (around : List Place) (key : Quoted) (rest : List Token) :
    Builder.run (.keyOrClose before around) (.string key :: .colon :: rest) =
      Builder.run (.value (.member before key :: around)) rest := by
  cases before <;> rfl

mutual
/-- After the tokens of a tree the parser has the tree, whatever stands around. -/
theorem builds_tree : ∀ t : Tree, t.Closed → ∀ around rest,
    Builder.run (.value around) (t.tokens ++ rest) = Builder.run (.done t around) rest
  | .word _, _, _, _ | .number _, _, _, _ | .string _, _, _, _ => rfl
  | .list [] _, ⟨_, rfl⟩, _, _ => rfl
  | .object [] _, ⟨_, rfl⟩, _, _ => rfl
  | .list (t :: ts) _, ⟨⟨here, later⟩, rfl⟩, around, rest => by
    have first := builds_tree t here (.item [] :: around) (moreItemTokens ts ++ .listClose :: rest)
    have others := builds_moreItems ts later t [] around rest
    have text : (list (t :: ts) .closed).tokens ++ rest =
        .listOpen :: (t.tokens ++ (moreItemTokens ts ++ .listClose :: rest)) := by
      simp [tokens, itemTokens]
    rw [text]
    exact (run_item here [] around _).trans (first.trans others)
  | .object ((key, t) :: ms) _, ⟨⟨here, later⟩, rfl⟩, around, rest => by
    have first := builds_tree t here (.member [] key :: around)
      (moreMemberTokens ms ++ .objectClose :: rest)
    have others := builds_moreMembers ms later key t [] around rest
    have text : (object ((key, t) :: ms) .closed).tokens ++ rest = .objectOpen :: .string key ::
        .colon :: (t.tokens ++ (moreMemberTokens ms ++ .objectClose :: rest)) := by
      simp [tokens, memberTokens]
    rw [text]
    exact (run_key [] around key _).trans (first.trans others)
  | .broken _, closed, _, _ => closed.elim

theorem builds_moreItems : ∀ ts : List Tree, ClosedItems ts → ∀ t before around rest,
    Builder.run (.done t (.item before :: around)) (moreItemTokens ts ++ .listClose :: rest) =
      Builder.run (.done (.list (before.reverse ++ t :: ts) .closed) around) rest
  | [], _, t, before, around, rest => by
    rw [← List.reverse_cons]
    rfl
  | u :: us, ⟨here, later⟩, t, before, around, rest => by
    have first := builds_tree u here (.item (t :: before) :: around)
      (moreItemTokens us ++ .listClose :: rest)
    have others := builds_moreItems us later u (t :: before) around rest
    rw [List.reverse_cons, List.append_assoc] at others
    rw [moreItemTokens, List.cons_append, List.append_assoc]
    exact (run_item here (t :: before) around _).trans (first.trans others)

theorem builds_moreMembers : ∀ ms : List Member, ClosedMembers ms → ∀ key t before around rest,
    Builder.run (.done t (.member before key :: around))
        (moreMemberTokens ms ++ .objectClose :: rest) =
      Builder.run (.done (.object (before.reverse ++ (key, t) :: ms) .closed) around) rest
  | [], _, key, t, before, around, rest => by
    rw [← List.reverse_cons]
    rfl
  | (name, u) :: ms, ⟨here, later⟩, key, t, before, around, rest => by
    have first := builds_tree u here (.member ((key, t) :: before) name :: around)
      (moreMemberTokens ms ++ .objectClose :: rest)
    have others := builds_moreMembers ms later name u ((key, t) :: before) around rest
    rw [List.reverse_cons, List.append_assoc] at others
    rw [moreMemberTokens, List.cons_append, List.cons_append, List.cons_append, List.append_assoc]
    exact (run_key ((key, t) :: before) around name _).trans (first.trans others)
end

end Tree

def numberTree (x : Float) : Tree :=
  if x.isFinite then .number (.ofFloat numberLayout x) else .word .null

mutual
def tree : Json → Tree
  | .null => .word .null
  | .bool b => .word (.bool b)
  | .count n => .number ⟨false, figures (Decimal.digits n), [], none⟩
  | .number x => numberTree x
  | .string s => .string (.of s)
  | .list xs => .list (itemTrees xs) .closed
  | .object ms => .object (memberTrees ms) .closed

def itemTrees : List Json → List Tree
  | [] => []
  | x :: xs => tree x :: itemTrees xs

def memberTrees : List (String × Json) → List (Quoted × Tree)
  | [] => []
  | (name, x) :: ms => (.of name, tree x) :: memberTrees ms
end

mutual
theorem tokens_tree : ∀ j : Json, j.tree.tokens = j.tokens
  | .null | .bool _ | .count _ | .string _ => rfl
  | .number x => by
    rw [tree, numberTree, tokens, numberToken]
    split <;> rfl
  | .list xs => by rw [tree, Tree.tokens, itemTokens_trees xs, tokens]
  | .object ms => by rw [tree, Tree.tokens, memberTokens_trees ms, tokens]

theorem itemTokens_trees : ∀ xs : List Json, Tree.itemTokens (itemTrees xs) = itemTokens xs
  | [] => rfl
  | [x] => (List.append_nil _).trans (tokens_tree x)
  | x :: y :: xs => by
    have later := congrArg (Token.comma :: ·) (itemTokens_trees (y :: xs))
    rw [itemTokens, ← tokens_tree x]
    · exact congrArg (x.tree.tokens ++ ·) later
    · nofun

theorem memberTokens_trees : ∀ ms : List (String × Json),
    Tree.memberTokens (memberTrees ms) = memberTokens ms
  | [] => rfl
  | [(name, x)] => by
    have alone := (List.append_nil _).trans (tokens_tree x)
    exact congrArg (fun ts => .string (.of name) :: .colon :: ts) alone
  | (name, x) :: m :: ms => by
    have later := congrArg (Token.comma :: ·) (memberTokens_trees (m :: ms))
    rw [memberTokens, ← tokens_tree x]
    · exact congrArg (fun ts => .string (.of name) :: .colon :: (x.tree.tokens ++ ts)) later
    · nofun
end

mutual
theorem closed_tree : ∀ j : Json, j.tree.Closed
  | .null | .bool _ | .count _ | .string _ => trivial
  | .number x => by
    rw [tree, numberTree]
    split <;> trivial
  | .list xs => ⟨closed_itemTrees xs, rfl⟩
  | .object ms => ⟨closed_memberTrees ms, rfl⟩

theorem closed_itemTrees : ∀ xs : List Json, Tree.ClosedItems (itemTrees xs)
  | [] => trivial
  | x :: xs => ⟨closed_tree x, closed_itemTrees xs⟩

theorem closed_memberTrees : ∀ ms : List (String × Json), Tree.ClosedMembers (memberTrees ms)
  | [] => trivial
  | (_, x) :: ms => ⟨closed_tree x, closed_memberTrees ms⟩
end

/-- Both texts of a value are parsed into its tree. -/
theorem ofText_text (j : Json) : Tree.ofText (Symbol.ofString j.text) = (j.tree, false) := by
  have whole := Tree.builds_tree j.tree (closed_tree j) [] []
  rw [List.append_nil, tokens_tree] at whole
  rw [Tree.ofText, scan_text, Tree.ofTokens, whole]
  rfl

theorem ofText_prettyText (j : Json) :
    Tree.ofText (Symbol.ofString j.prettyText) = (j.tree, false) := by
  rw [Tree.ofText, scan_prettyText, ← scan_text, ← Tree.ofText, ofText_text]

mutual
/-- Nothing in the value is a count, whose digits alone might be beyond all numbers. -/
def countless : Json → Bool
  | .count _ => false
  | .null | .bool _ | .number _ | .string _ => true
  | .list xs => countlessItems xs
  | .object ms => countlessMembers ms

def countlessItems : List Json → Bool
  | [] => true
  | x :: xs => countless x && countlessItems xs

def countlessMembers : List (String × Json) → Bool
  | [] => true
  | (_, x) :: ms => countless x && countlessMembers ms
end

theorem countlessMembers_iff (ms : List (String × Json)) :
    countlessMembers ms ↔ ∀ m ∈ ms, m.2.countless := by
  induction ms with
  | nil => simp [countlessMembers]
  | cons m ms ih => simp [countlessMembers, ih]

mutual
theorem check_tree : ∀ j : Json, j.countless → Tree.check none j.tree = .ok ()
  | .null, _ | .bool _, _ => rfl
  | .number x, _ => by
    rw [tree, numberTree]
    split
    · rename_i finite
      rw [Tree.check, if_pos (Numeral.ofFloat_isSome finite)]
    · rfl
  | .string s, _ => by
    rw [tree, Tree.check, Quoted.text_of]
    rfl
  | .list xs, plain => by
    have inside := check_itemTrees xs plain
    rw [tree, Tree.check, Tree.enter]
    simp only [bind, Except.bind, inside]
    rfl
  | .object ms, plain => by
    have inside := check_memberTrees ms plain
    rw [tree, Tree.check, Tree.enter]
    simp only [bind, Except.bind, inside]
    rfl

theorem check_itemTrees : ∀ xs : List Json, countlessItems xs →
    Tree.checkItems none (itemTrees xs) = .ok ()
  | [], _ => rfl
  | x :: xs, plain => by
    rw [countlessItems, Bool.and_eq_true] at plain
    rw [itemTrees, Tree.checkItems, check_tree x plain.1]
    exact check_itemTrees xs plain.2

theorem check_memberTrees : ∀ ms : List (String × Json), countlessMembers ms →
    Tree.checkMembers none (memberTrees ms) = .ok ()
  | [], _ => rfl
  | (name, x) :: ms, plain => by
    rw [countlessMembers, Bool.and_eq_true] at plain
    rw [memberTrees, Tree.checkMembers, Quoted.text_of, check_tree x plain.1]
    exact check_memberTrees ms plain.2
end

end SceneTree.Json
