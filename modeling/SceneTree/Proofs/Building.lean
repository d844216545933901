import SceneTree.Proofs.Parsing
import SceneTree.Proofs.Scanning
import SceneTree.Proofs.Wholeness

/-! Syntax trees and their texts. A text that is laid out as the tokens of a closed tree is parsed
into the tree, and every text that is parsed into a whole tree is such a text. -/
namespace SceneTree.Json
open Token (Apart scan)
open SceneTree.Json.Tree (Builder Place)

namespace Tree

/-- The text is one of those of the tree. -/
def Spelled (t : Tree) (text : List Char) : Prop := t.Closed ∧ Laid t.tokens text

theorem apart_number {n : Numeral} {ts : List Token} (apart : Apart ts)
    (next : ∀ m, ts.head? ≠ some (.number m)) : Apart (.number n :: ts) :=
  ⟨fun _ m _ => next m, apart⟩

theorem apart_cons {c : Token} {ts : List Token} (other : ∀ n, c ≠ .number n) (apart : Apart ts) :
    Apart (c :: ts) :=
  ⟨fun n _ same => absurd same (other n), apart⟩

mutual
/-- Something stands between any two numbers of a tree. -/
theorem apart_tokens : ∀ t : Tree, ∀ rest, Apart rest → (∀ n, rest.head? ≠ some (.number n)) →
    Apart (t.tokens ++ rest)
  | .number _, _, apart, next => apart_number apart next
  | .word _, _, apart, _ | .string _, _, apart, _ | .broken _, _, apart, _ =>
    apart_cons nofun apart
  | .list [] _, _, apart, _ | .object [] _, _, apart, _ =>
    apart_cons nofun (apart_cons nofun apart)
  | .list (t :: ts) _, rest, apart, _ => by
    have others := apart_moreItems ts (.listClose :: rest) (apart_cons nofun apart) nofun
    have first := apart_tokens t _ others.1 others.2
    have text (e : ListEnd) : (list (t :: ts) e).tokens ++ rest =
        .listOpen :: (t.tokens ++ (moreItemTokens ts ++ .listClose :: rest)) := by
      simp [tokens, itemTokens]
    rw [text]
    exact apart_cons nofun first
  | .object ((key, t) :: ms) _, rest, apart, _ => by
    have others := apart_moreMembers ms (.objectClose :: rest) (apart_cons nofun apart) nofun
    have first := apart_tokens t _ others.1 others.2
    have text (e : ObjectEnd) : (object ((key, t) :: ms) e).tokens ++ rest = .objectOpen ::
        .string key :: .colon :: (t.tokens ++ (moreMemberTokens ms ++ .objectClose :: rest)) := by
      simp [tokens, memberTokens]
    rw [text]
    exact apart_cons nofun (apart_cons nofun (apart_cons nofun first))

theorem apart_moreItems : ∀ ts : List Tree, ∀ rest, Apart rest →
    (∀ n, rest.head? ≠ some (.number n)) → Apart (moreItemTokens ts ++ rest) ∧
      ∀ n, (moreItemTokens ts ++ rest).head? ≠ some (.number n)
  | [], _, apart, next => ⟨apart, next⟩
  | t :: ts, rest, apart, next => by
    have others := apart_moreItems ts rest apart next
    have first := apart_tokens t _ others.1 others.2
    rw [moreItemTokens, List.cons_append, List.append_assoc]
    exact ⟨apart_cons nofun first, nofun⟩

theorem apart_moreMembers : ∀ ms : List Member, ∀ rest, Apart rest →
    (∀ n, rest.head? ≠ some (.number n)) → Apart (moreMemberTokens ms ++ rest) ∧
      ∀ n, (moreMemberTokens ms ++ rest).head? ≠ some (.number n)
  | [], _, apart, next => ⟨apart, next⟩
  | (key, t) :: ms, rest, apart, next => by
    have others := apart_moreMembers ms rest apart next
    have first := apart_tokens t _ others.1 others.2
    rw [moreMemberTokens, List.cons_append, List.cons_append, List.cons_append, List.append_assoc]
    exact ⟨apart_cons nofun (apart_cons nofun (apart_cons nofun first)), nofun⟩
end

theorem apart_self (t : Tree) : Apart t.tokens := by
  have alone := apart_tokens t [] trivial nofun
  rwa [List.append_nil] at alone

/-- A text of a tree is parsed into the tree, with nothing left over. -/
theorem Spelled.parsed {t : Tree} {s : String} (spelled : t.Spelled s.toList) :
    ofText (Symbol.ofString s) = (t, false) := by
  have built := builds_tree t spelled.1 [] []
  rw [List.append_nil] at built
  rw [Tree.ofText, ofTokens, Symbol.ofString, Token.scan_of_laid spelled.2 (apart_self t), built]
  rfl

mutual
theorem faulty_tokens : ∀ t : Tree, t.Whole → ∀ c ∈ t.tokens, c.faulty = false
  | .word _, _, _, mem | .number _, _, _, mem => by
    cases List.mem_singleton.1 mem
    rfl
  | .string q, whole, _, mem => by
    cases List.mem_singleton.1 mem
    have closed : q.ending = .closed := whole
    simp [Token.faulty, closed]
  | .list items _, whole, c, mem => by
    simp only [tokens, List.mem_cons, List.mem_append, List.not_mem_nil, or_false] at mem
    obtain rfl | mem | rfl := mem
    · rfl
    · exact faulty_itemTokens items whole.1 c mem
    · rfl
  | .object members _, whole, c, mem => by
    simp only [tokens, List.mem_cons, List.mem_append, List.not_mem_nil, or_false] at mem
    obtain rfl | mem | rfl := mem
    · rfl
    · exact faulty_memberTokens members whole.1 c mem
    · rfl
  | .broken _, whole, _, _ => whole.elim

theorem faulty_itemTokens : ∀ ts : List Tree, WholeItems ts →
    ∀ c ∈ itemTokens ts, c.faulty = false
  | t :: ts, ⟨here, later⟩, c, mem =>
    (List.mem_append.1 mem).elim (faulty_tokens t here c) (faulty_moreItemTokens ts later c)

theorem faulty_moreItemTokens : ∀ ts : List Tree, WholeItems ts →
    ∀ c ∈ moreItemTokens ts, c.faulty = false
  | t :: ts, ⟨here, later⟩, c, mem => by
    obtain rfl | mem := List.mem_cons.1 mem
    · rfl
    · exact (List.mem_append.1 mem).elim (faulty_tokens t here c)
        (faulty_moreItemTokens ts later c)

theorem faulty_memberTokens : ∀ ms : List Member, WholeMembers ms →
    ∀ c ∈ memberTokens ms, c.faulty = false
  | (key, t) :: ms, ⟨⟨name, here⟩, later⟩, c, mem => by
    simp only [memberTokens, List.mem_cons, List.mem_append] at mem
    obtain rfl | rfl | mem | mem := mem
    · simp [Token.faulty, name]
    · rfl
    · exact faulty_tokens t here c mem
    · exact faulty_moreMemberTokens ms later c mem

theorem faulty_moreMemberTokens : ∀ ms : List Member, WholeMembers ms →
    ∀ c ∈ moreMemberTokens ms, c.faulty = false
  | (key, t) :: ms, ⟨⟨name, here⟩, later⟩, c, mem => by
    simp only [moreMemberTokens, List.mem_cons, List.mem_append] at mem
    obtain rfl | rfl | rfl | mem | mem := mem
    · rfl
    · simp [Token.faulty, name]
    · rfl
    · exact faulty_tokens t here c mem
    · exact faulty_moreMemberTokens ms later c mem
end

/-! From a text to its tree. -/

def openItems (before : List Tree) : List Token :=
  .listOpen :: before.reverse.flatMap fun t => t.tokens ++ [.comma]

def openMembers (before : List Member) : List Token :=
  .objectOpen :: before.reverse.flatMap fun m => .string m.1 :: .colon :: (m.2.tokens ++ [.comma])

def Place.tokens : Place → List Token
  | .item before => openItems before
  | .member before key => openMembers before ++ [.string key, .colon]

def aroundTokens : List Place → List Token
  | [] => []
  | p :: around => aroundTokens around ++ p.tokens

def Place.Closed : Place → Prop
  | .item before => ClosedItems before
  | .member before _ => ClosedMembers before

theorem openItems_cons (t : Tree) (before : List Tree) :
    openItems (t :: before) = openItems before ++ (t.tokens ++ [.comma]) := by
  simp [openItems]

theorem openMembers_cons (key : Quoted) (t : Tree) (before : List Member) :
    openMembers ((key, t) :: before) =
      openMembers before ++ [.string key, .colon] ++ (t.tokens ++ [.comma]) := by
  simp [openMembers]

theorem itemTokens_snoc (ts : List Tree) (t : Tree) :
    itemTokens (ts ++ [t]) = ts.flatMap (fun u => u.tokens ++ [.comma]) ++ t.tokens := by
  have more (us : List Tree) (some : us ≠ []) : moreItemTokens us = .comma :: itemTokens us := by
    cases us with
    | nil => exact absurd rfl some
    | cons u us => rfl
  induction ts with
  | nil => simp [itemTokens, moreItemTokens]
  | cons u us ih => simp [itemTokens, more, ih]

theorem memberTokens_snoc (ms : List Member) (key : Quoted) (t : Tree) :
    memberTokens (ms ++ [(key, t)]) =
      ms.flatMap (fun m => .string m.1 :: .colon :: (m.2.tokens ++ [.comma])) ++
        .string key :: .colon :: t.tokens := by
  have more (ns : List Member) (some : ns ≠ []) :
      moreMemberTokens ns = .comma :: memberTokens ns := by
    cases ns with
    | nil => exact absurd rfl some
    | cons n ns => rfl
  induction ms with
  | nil => simp [memberTokens, moreMemberTokens]
  | cons m ms ih => simp [memberTokens, more, ih]

theorem tokens_list (t : Tree) (before : List Tree) (ending : ListEnd) :
    (list (t :: before).reverse ending).tokens =
      openItems before ++ t.tokens ++ [.listClose] := by
  rw [tokens, List.reverse_cons, itemTokens_snoc]
  simp [openItems]

theorem tokens_object (key : Quoted) (t : Tree) (before : List Member) (ending : ObjectEnd) :
    (object ((key, t) :: before).reverse ending).tokens =
      openMembers before ++ [.string key, .colon] ++ t.tokens ++ [.objectClose] := by
  rw [tokens, List.reverse_cons, memberTokens_snoc]
  simp [openMembers]

theorem not_whole_enclose {t : Tree} (broken : ¬ t.Whole) (around : List Place) :
    ¬ (t.enclose around).Whole := by
  induction around generalizing t with
  | nil => exact broken
  | cons p around ih =>
    cases p with
    | item before =>
      refine ih fun whole => broken ?_
      exact wholeItems_iff.1 whole.1 t (by simp)
    | member before key =>
      refine ih fun whole => broken ?_
      exact (wholeMembers_iff.1 whole.1 (key, t) (by simp)).2

namespace Builder

/-- The tokens so far are those of what has been built, unless the parser has stopped. -/
def Traces (ts : List Token) : Builder → Prop
  | .value around => (∀ p ∈ around, p.Closed) ∧ ts = aroundTokens around
  | .itemOrClose before around =>
    (∀ p ∈ around, p.Closed) ∧ ClosedItems before ∧ ts = aroundTokens around ++ openItems before
  | .keyOrClose before around =>
    (∀ p ∈ around, p.Closed) ∧ ClosedMembers before ∧
      ts = aroundTokens around ++ openMembers before
  | .colon before key around =>
    (∀ p ∈ around, p.Closed) ∧ ClosedMembers before ∧
      ts = aroundTokens around ++ (openMembers before ++ [.string key])
  | .done t around => (∀ p ∈ around, p.Closed) ∧ t.Closed ∧ ts = aroundTokens around ++ t.tokens
  | .stopped t trailing => trailing = true ∨ ¬ t.Whole

variable {ts : List Token}

theorem traces_stop {t : Tree} (broken : ¬ t.Whole) (around : List Place) :
    (stop t around).Traces ts :=
  .inr (not_whole_enclose broken around)

theorem traces_take (around : List Place) (closed : ∀ p ∈ around, p.Closed)
    (same : ts = aroundTokens around) (c : Token) : (take around c).Traces (ts ++ [c]) := by
  subst same
  cases c with
  | word w | number n | string q => exact ⟨closed, trivial, rfl⟩
  | listOpen | objectOpen => exact ⟨closed, trivial, rfl⟩
  | broken b => exact traces_stop id around
  | listClose | objectClose | comma | colon => exact traces_stop id around

theorem traces_list {items : List Tree} {ending : ListEnd} (bad : ending.read ≠ .ok ())
    (around : List Place) : (stop (.list items ending) around).Traces ts :=
  traces_stop (t := .list items ending) (fun whole => bad whole.2) around

theorem traces_object {members : List Member} {ending : ObjectEnd} (bad : ending.read ≠ .ok ())
    (around : List Place) : (stop (.object members ending) around).Traces ts :=
  traces_stop (t := .object members ending) (fun whole => bad whole.2) around

theorem traces_itemOrClose {before : List Tree} {around : List Place}
    (traces : Traces ts (.itemOrClose before around)) (c : Token) :
    (step (.itemOrClose before around) c).Traces (ts ++ [c]) := by
  obtain ⟨closed, items, rfl⟩ := traces
  have item := traces_take (.item before :: around) (List.forall_mem_cons.2 ⟨items, closed⟩) rfl c
  cases c with
  | listClose =>
    cases before with
    | nil => exact ⟨closed, ⟨trivial, rfl⟩, by simp [openItems, tokens, itemTokens]⟩
    | cons t before => exact traces_list (by simp [ListEnd.read]) around
  | word w | number n | string q | listOpen | objectOpen | objectClose | comma | colon | broken b =>
    cases before <;> exact item

theorem traces_keyOrClose {before : List Member} {around : List Place}
    (traces : Traces ts (.keyOrClose before around)) (c : Token) :
    (step (.keyOrClose before around) c).Traces (ts ++ [c]) := by
  obtain ⟨closed, members, rfl⟩ := traces
  cases c with
  | string q =>
    cases before <;> exact ⟨closed, members, List.append_assoc ..⟩
  | objectClose =>
    cases before with
    | nil => exact ⟨closed, ⟨trivial, rfl⟩, by simp [openMembers, tokens, memberTokens]⟩
    | cons m before => exact traces_object (by simp [ObjectEnd.read]) around
  | word w | number n | listOpen | listClose | objectOpen | comma | colon | broken b =>
    cases before <;> exact traces_object (by simp [ObjectEnd.read]) around

theorem traces_colon {before : List Member} {key : Quoted} {around : List Place}
    (traces : Traces ts (.colon before key around)) (c : Token) :
    (step (.colon before key around) c).Traces (ts ++ [c]) := by
  obtain ⟨closed, members, rfl⟩ := traces
  cases c with
  | colon =>
    exact ⟨List.forall_mem_cons.2 ⟨members, closed⟩, by simp [aroundTokens, Place.tokens]⟩
  | word w | number n | string q | listOpen | listClose | objectOpen | objectClose | comma
  | broken b => exact traces_stop id _

theorem traces_item {t : Tree} {before : List Tree} {around : List Place}
    (traces : Traces ts (.done t (.item before :: around))) (c : Token) :
    (step (.done t (.item before :: around)) c).Traces (ts ++ [c]) := by
  obtain ⟨closed, here, rfl⟩ := traces
  obtain ⟨items, closed⟩ := List.forall_mem_cons.1 closed
  cases c with
  | comma =>
    exact ⟨closed, ⟨here, items⟩, by simp [aroundTokens, Place.tokens, openItems_cons]⟩
  | listClose =>
    refine ⟨closed, ⟨closedItems_iff.2 fun u mem => ?_, rfl⟩, ?_⟩
    · have items : ClosedItems (t :: before) := ⟨here, items⟩
      exact closedItems_iff.1 items u (List.mem_reverse.1 mem)
    · rw [tokens_list]
      simp [aroundTokens, Place.tokens]
  | word w | number n | string q | listOpen | objectOpen | objectClose | colon | broken b =>
    exact traces_list (by simp [ListEnd.read]) around

theorem traces_member {t : Tree} {before : List Member} {key : Quoted} {around : List Place}
    (traces : Traces ts (.done t (.member before key :: around))) (c : Token) :
    (step (.done t (.member before key :: around)) c).Traces (ts ++ [c]) := by
  obtain ⟨closed, here, rfl⟩ := traces
  obtain ⟨members, closed⟩ := List.forall_mem_cons.1 closed
  cases c with
  | comma =>
    exact ⟨closed, ⟨here, members⟩, by simp [aroundTokens, Place.tokens, openMembers_cons]⟩
  | objectClose =>
    refine ⟨closed, ⟨closedMembers_iff.2 fun m mem => ?_, rfl⟩, ?_⟩
    · have members : ClosedMembers ((key, t) :: before) := ⟨here, members⟩
      exact closedMembers_iff.1 members m (List.mem_reverse.1 mem)
    · rw [tokens_object]
      simp [aroundTokens, Place.tokens]
  | word w | number n | string q | listOpen | listClose | objectOpen | colon | broken b =>
    exact traces_object (by simp [ObjectEnd.read]) around

theorem traces_step {b : Builder} (traces : b.Traces ts) (c : Token) :
    (b.step c).Traces (ts ++ [c]) := by
  cases b with
  | value around => exact traces_take around traces.1 traces.2 c
  | itemOrClose before around => exact traces_itemOrClose traces c
  | keyOrClose before around => exact traces_keyOrClose traces c
  | colon before key around => exact traces_colon traces c
  | done t around =>
    match around with
    | [] => exact .inl rfl
    | .item before :: around => exact traces_item traces c
    | .member before key :: around => exact traces_member traces c
  | stopped t trailing => exact traces

theorem traces_run (ts : List Token) : (run (.value []) ts).Traces ts := by
  induction ts using List.reverseRecOn with
  | nil => exact ⟨nofun, rfl⟩
  | append_singleton ts c ih =>
    rw [run_append]
    exact traces_step ih c

theorem Traces.of_finish {b : Builder} (traces : b.Traces ts) {t : Tree}
    (finish : b.finish = (t, false)) (whole : t.Whole) : t.Closed ∧ ts = t.tokens := by
  have broken {u : Tree} (bad : ¬ u.Whole) (around : List Place)
      (finish : (u.enclose around, false) = (t, false)) : t.Closed ∧ ts = t.tokens := by
    cases finish
    exact absurd whole (not_whole_enclose bad around)
  have cutList {items : List Tree} : ¬ (list items .textEnd).Whole :=
    fun whole => nomatch (whole.2 : Except.error _ = _)
  have cutObject {members : List Member} {ending : ObjectEnd} (bad : ending.read ≠ .ok ()) :
      ¬ (object members ending).Whole :=
    fun whole => bad whole.2
  cases b with
  | value around => exact broken id around finish
  | itemOrClose before around =>
    cases before with
    | nil => exact broken cutList around finish
    | cons u before => exact broken id (.item (u :: before) :: around) finish
  | keyOrClose before around =>
    cases before <;> exact broken (cutObject (by simp [ObjectEnd.read])) around finish
  | colon before key around => exact broken id (.member before key :: around) finish
  | done u around =>
    match around with
    | [] =>
      cases finish
      exact ⟨traces.2.1, traces.2.2⟩
    | .item before :: around => exact broken cutList around finish
    | .member before key :: around =>
      exact broken (cutObject (by simp [ObjectEnd.read])) around finish
  | stopped u trailing =>
    cases finish
    exact traces.elim nofun (absurd whole)

end Builder

/-- A text that is parsed into a whole tree, with nothing left over, is a text of the tree. -/
theorem spelled_of_ofText {s : String} {t : Tree} (parsed : ofText (Symbol.ofString s) = (t, false))
    (whole : t.Whole) : t.Spelled s.toList := by
  obtain ⟨closed, same⟩ := (Builder.traces_run _).of_finish parsed whole
  have laid := Token.laid_of_scan s.toList
  unfold Symbol.ofString at same
  rw [same] at laid
  exact ⟨closed, laid (faulty_tokens t whole)⟩

end Tree
end SceneTree.Json
