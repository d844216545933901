import SceneTree.Json.Token

/-! Syntax trees. Every text has one: where the text breaks off, the tree says how, so a reader
can tell which fault comes first among those of the text and those of its meaning. -/
namespace SceneTree.Json

/- How a list goes on after its items: `noComma` for something that is no separator, `comma` for
   a comma before the bracket, `cut` when the last item is where the text breaks off. -/
inductive ListEnd where
  | closed | textEnd | noComma | comma | cut
deriving DecidableEq

/- Besides, `commaEnd` for a comma that ends the text, `notKey` for something that is no key. -/
inductive ObjectEnd where
  | closed | textEnd | noComma | comma | commaEnd | cut | notKey
deriving DecidableEq

inductive Tree where
  | word (w : Word)
  | number (n : Numeral)
  | string (q : Quoted)
  | list (items : List Tree) (ending : ListEnd)
  | object (members : List (Quoted × Tree)) (ending : ObjectEnd)
  | broken (b : Broken)

abbrev Member := Quoted × Tree

def ListEnd.read : ListEnd → Except Fault Unit
  | .closed | .cut => .ok ()
  | .textEnd => .error .endInList
  | .noComma => .error .noListSeparator
  | .comma => .error .trailingComma

def ObjectEnd.read : ObjectEnd → Except Fault Unit
  | .closed | .cut => .ok ()
  | .textEnd => .error .endInObject
  | .noComma => .error .noObjectSeparator
  | .comma => .error .trailingComma
  | .commaEnd => .error .endInValue
  | .notKey => .error .keyNotString

/- Where the items are not wanted, a comma is taken to announce one more. -/
def ListEnd.skim : ListEnd → Except Fault Unit
  | .comma => .error .noValue
  | e => e.read

def ObjectEnd.skim : ObjectEnd → Except Fault Unit
  | .comma => .error .keyNotString
  | .commaEnd => .error .endInObject
  | e => e.read

namespace Tree

/- What stands around the value being read, innermost first. The values before it are in reverse. -/
inductive Place where
  | item (before : List Tree)
  | member (before : List Member) (key : Quoted)

inductive Builder where
  | value (around : List Place)
  | itemOrClose (before : List Tree) (around : List Place)
  | keyOrClose (before : List Member) (around : List Place)
  | colon (before : List Member) (key : Quoted) (around : List Place)
  | done (t : Tree) (around : List Place)
  | stopped (t : Tree) (trailing : Bool)

/- The whole tree when the text breaks off in `t`. -/
def enclose (t : Tree) : List Place → Tree
  | [] => t
  | .item before :: around => enclose (.list (t :: before).reverse .cut) around
  | .member before key :: around => enclose (.object ((key, t) :: before).reverse .cut) around

def Builder.stop (t : Tree) (around : List Place) : Builder := .stopped (t.enclose around) false

def Builder.take (around : List Place) : Token → Builder
  | .word w => .done (.word w) around
  | .number n => .done (.number n) around
  | .string q => .done (.string q) around
  | .listOpen => .itemOrClose [] around
  | .objectOpen => .keyOrClose [] around
  | .broken b => .stop (.broken b) around
  | .listClose | .objectClose | .comma | .colon => .stop (.broken (.missing false)) around

def Builder.step : Builder → Token → Builder
  | .value around, t => take around t
  | .itemOrClose [] around, .listClose => .done (.list [] .closed) around
  | .itemOrClose before around, .listClose => .stop (.list before.reverse .comma) around
  | .itemOrClose before around, t => take (.item before :: around) t
  | .keyOrClose before around, .string q => .colon before q around
  | .keyOrClose [] around, .objectClose => .done (.object [] .closed) around
  | .keyOrClose before around, .objectClose => .stop (.object before.reverse .comma) around
  | .keyOrClose before around, _ => .stop (.object before.reverse .notKey) around
  | .colon before key around, .colon => .value (.member before key :: around)
  | .colon before key around, _ => .stop (.broken (.colon false)) (.member before key :: around)
  | .done t [], _ => .stopped t true
  | .done t (.item before :: around), .comma => .itemOrClose (t :: before) around
  | .done t (.item before :: around), .listClose =>
    .done (.list (t :: before).reverse .closed) around
  | .done t (.item before :: around), _ => .stop (.list (t :: before).reverse .noComma) around
  | .done t (.member before key :: around), .comma => .keyOrClose ((key, t) :: before) around
  | .done t (.member before key :: around), .objectClose =>
    .done (.object ((key, t) :: before).reverse .closed) around
  | .done t (.member before key :: around), _ =>
    .stop (.object ((key, t) :: before).reverse .noComma) around
  | .stopped t trailing, _ => .stopped t trailing

def Builder.run (b : Builder) (tokens : List Token) : Builder := tokens.foldl step b

theorem Builder.run_append (b : Builder) (t u : List Token) :
    b.run (t ++ u) = (b.run t).run u := List.foldl_append ..

theorem Builder.run_stopped (t : Tree) (trailing : Bool) (tokens : List Token) :
    Builder.run (.stopped t trailing) tokens = .stopped t trailing := by
  induction tokens with
  | nil => rfl
  | cons c tokens ih => simpa [run, step] using ih

/-- The tree of a text that ends here, and whether something stood after it. -/
def Builder.finish : Builder → Tree × Bool
  | .value around => (enclose (.broken (.missing true)) around, false)
  | .itemOrClose [] around => (enclose (.list [] .textEnd) around, false)
  | .itemOrClose before around =>
    (enclose (.broken (.missing true)) (.item before :: around), false)
  | .keyOrClose [] around => (enclose (.object [] .textEnd) around, false)
  | .keyOrClose before around => (enclose (.object before.reverse .commaEnd) around, false)
  | .colon before key around =>
    (enclose (.broken (.colon true)) (.member before key :: around), false)
  | .done t [] => (t, false)
  | .done t (.item before :: around) =>
    (enclose (.list (t :: before).reverse .textEnd) around, false)
  | .done t (.member before key :: around) =>
    (enclose (.object ((key, t) :: before).reverse .textEnd) around, false)
  | .stopped t trailing => (t, trailing)

def ofTokens (tokens : List Token) : Tree × Bool := (Builder.run (.value []) tokens).finish

def ofText (text : List Symbol) : Tree × Bool := ofTokens (Token.scan text)

/- How many more lists and objects may be opened inside one another; none for any number. -/
abbrev Room := Option Nat

/- A text with limited room has some for 127 of them. -/
def limited : Room := some 128

def enter : Room → Except Fault Room
  | none => .ok none
  | some n => if n ≤ 1 then .error .tooDeep else .ok (some (n - 1))

/- The first fault of a value that is wanted in full. -/
mutual
def check (room : Room) : Tree → Except Fault Unit
  | .word _ => .ok ()
  | .number n => if n.value.isSome then .ok () else .error .numberOutOfRange
  | .string q => do discard q.text
  | .list items ending => do
    checkItems (← enter room) items
    ending.read
  | .object members ending => do
    checkMembers (← enter room) members
    ending.read
  | .broken b => .error b.fault

def checkItems (room : Room) : List Tree → Except Fault Unit
  | [] => .ok ()
  | t :: ts => do
    check room t
    checkItems room ts

def checkMembers (room : Room) : List (Quoted × Tree) → Except Fault Unit
  | [] => .ok ()
  | (key, t) :: ms => do
    discard key.text
    check room t
    checkMembers room ms
end

/- The first fault of a value that is passed over. Neither its depth counts, nor what its numbers
   and strings stand for. -/
mutual
def skim : Tree → Except Fault Unit
  | .word _ => .ok ()
  | .number _ => .ok ()
  | .string q => q.skim
  | .list items ending => do
    skimItems items
    ending.skim
  | .object members ending => do
    skimMembers members
    ending.skim
  | .broken b => .error b.skimFault

def skimItems : List Tree → Except Fault Unit
  | [] => .ok ()
  | t :: ts => do
    skim t
    skimItems ts

def skimMembers : List (Quoted × Tree) → Except Fault Unit
  | [] => .ok ()
  | (key, t) :: ms => do
    key.skim
    skim t
    skimMembers ms
end

end Tree
end SceneTree.Json
