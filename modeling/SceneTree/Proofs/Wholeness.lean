import SceneTree.Frame.Reading
import SceneTree.Proofs.Readers

/-! What is read is whole. A tree shows where its text breaks off, and no frame is read from a tree
that breaks off anywhere: not in a field, and not in what is passed over because no field has its
name. -/
namespace SceneTree.Json
variable {τ α β : Type}

mutual
/-- Nowhere in the tree does the text break off. A list or an object that is `cut` breaks off in its
last part and nowhere else. -/
def Tree.Whole : Tree → Prop
  | .word _ | .number _ => True
  | .string q => q.ending = .closed
  | .list items ending => WholeItems items ∧ ending.read = .ok ()
  | .object members ending => WholeMembers members ∧ ending.read = .ok ()
  | .broken _ => False

def Tree.WholeItems : List Tree → Prop
  | [] => True
  | t :: ts => Whole t ∧ WholeItems ts

def Tree.WholeMembers : List (Quoted × Tree) → Prop
  | [] => True
  | (key, t) :: ms => (key.ending = .closed ∧ Whole t) ∧ WholeMembers ms
end

theorem Tree.wholeItems_iff {ts : List Tree} : WholeItems ts ↔ ∀ t ∈ ts, t.Whole := by
  induction ts with
  | nil => simp [WholeItems]
  | cons t ts ih => simp [WholeItems, ih]

theorem Tree.wholeMembers_iff {ms : List Member} :
    WholeMembers ms ↔ ∀ m ∈ ms, m.1.ending = .closed ∧ m.2.Whole := by
  induction ms with
  | nil => simp [WholeMembers]
  | cons m ms ih => simp [WholeMembers, ih]

theorem Quoted.closed_of_skim {q : Quoted} (ok : q.skim = .ok ()) : q.ending = .closed := by
  obtain ⟨pieces, ending⟩ := q
  cases ending <;> first | rfl | cases ok

theorem Quoted.closed_of_textFrom {ending : Quoted.Ending} {done : List Char} {clean : Bool}
    {pieces : List Piece} {s : String} (ok : textFrom ending done clean pieces = .ok s) :
    ending = .closed := by
  fun_induction textFrom ending done clean pieces with
  | case1 done clean =>
    obtain ⟨u, skimmed, -⟩ := bind_ok ok
    exact closed_of_skim (q := ⟨[], ending⟩) skimmed
  | case2 _ _ _ _ ih | case3 _ _ _ ih | case6 _ _ _ _ _ _ _ _ ih | case9 _ _ _ _ _ _ ih =>
    exact ih ok
  | case4 | case5 | case7 | case8 => cases ok

theorem Quoted.closed_of_text {q : Quoted} {s : String} (ok : q.text = .ok s) :
    q.ending = .closed :=
  closed_of_textFrom ok

theorem ListEnd.read_of_skim {e : ListEnd} (ok : e.skim = .ok ()) : e.read = .ok () := by
  cases e <;> first | rfl | cases ok

theorem ObjectEnd.read_of_skim {e : ObjectEnd} (ok : e.skim = .ok ()) : e.read = .ok () := by
  cases e <;> first | rfl | cases ok

theorem Quoted.skim_of_text {q : Quoted} {s : String} (ok : q.text = .ok s) : q.skim = .ok () := by
  rw [skim, closed_of_text ok]
  rfl

namespace Tree

/-- Induction on trees, by the values in them. -/
@[elab_as_elim]
theorem ind {P : Tree → Prop} (word : ∀ w, P (.word w)) (number : ∀ n, P (.number n))
    (string : ∀ q, P (.string q)) (broken : ∀ b, P (.broken b))
    (list : ∀ items ending, (∀ t ∈ items, P t) → P (.list items ending))
    (object : ∀ members ending, (∀ m ∈ members, P m.2) → P (.object members ending)) (t : Tree) :
    P t :=
  @Tree.rec P (fun ts => ∀ t ∈ ts, P t) (fun ms => ∀ m ∈ ms, P m.2) (fun m => P m.2) word number
    string (fun items ending => list items ending) (fun members ending => object members ending)
    broken nofun (fun _ _ here later => List.forall_mem_cons.2 ⟨here, later⟩) nofun
    (fun _ _ here later => List.forall_mem_cons.2 ⟨here, later⟩) (fun _ _ value => value) t

theorem checkItems_iff {room : Room} {ts : List Tree} :
    checkItems room ts = .ok () ↔ ∀ t ∈ ts, t.check room = .ok () := by
  induction ts with
  | nil => simp [checkItems]
  | cons t ts ih =>
    rw [List.forall_mem_cons, ← ih]
    exact then_ok

theorem checkMembers_iff {room : Room} {ms : List Member} :
    checkMembers room ms = .ok () ↔
      ∀ m ∈ ms, (∃ name, m.1.text = .ok name) ∧ m.2.check room = .ok () := by
  induction ms with
  | nil => simp [checkMembers]
  | cons m ms ih =>
    have key : discard m.1.text = .ok () ↔ ∃ name, m.1.text = .ok name := by
      constructor
      · intro ok
        obtain ⟨name, text, -⟩ := map_ok ok
        exact ⟨name, text⟩
      · rintro ⟨name, text⟩
        rw [text]
        rfl
    rw [List.forall_mem_cons, ← ih, ← key, and_assoc]
    exact then_ok.trans (and_congr_right' then_ok)

theorem skimItems_iff {ts : List Tree} : skimItems ts = .ok () ↔ ∀ t ∈ ts, t.skim = .ok () := by
  induction ts with
  | nil => simp [skimItems]
  | cons t ts ih =>
    rw [List.forall_mem_cons, ← ih]
    exact then_ok

theorem skimMembers_iff {ms : List Member} :
    skimMembers ms = .ok () ↔ ∀ m ∈ ms, m.1.skim = .ok () ∧ m.2.skim = .ok () := by
  induction ms with
  | nil => simp [skimMembers]
  | cons m ms ih =>
    rw [List.forall_mem_cons, ← ih, and_assoc]
    exact then_ok.trans (and_congr_right' then_ok)

theorem check_list {items : List Tree} {ending : ListEnd} :
    (list items ending).check none = .ok () ↔
      (∀ t ∈ items, t.check none = .ok ()) ∧ ending.read = .ok () := by
  rw [← checkItems_iff]
  exact then_ok

theorem check_object {members : List Member} {ending : ObjectEnd} :
    (object members ending).check none = .ok () ↔
      (∀ m ∈ members, (∃ name, m.1.text = .ok name) ∧ m.2.check none = .ok ()) ∧
        ending.read = .ok () := by
  rw [← checkMembers_iff]
  exact then_ok

theorem skim_list {items : List Tree} {ending : ListEnd} :
    (list items ending).skim = .ok () ↔
      (∀ t ∈ items, t.skim = .ok ()) ∧ ending.skim = .ok () := by
  rw [← skimItems_iff]
  exact then_ok

theorem skim_object {members : List Member} {ending : ObjectEnd} :
    (object members ending).skim = .ok () ↔
      (∀ m ∈ members, m.1.skim = .ok () ∧ m.2.skim = .ok ()) ∧ ending.skim = .ok () := by
  rw [← skimMembers_iff]
  exact then_ok

theorem skim_of_check (t : Tree) (fine : t.check none = .ok ()) : t.skim = .ok () := by
  induction t using ind with
  | word w => rfl
  | number n => rfl
  | broken b => cases fine
  | string q =>
    obtain ⟨name, text, -⟩ := map_ok fine
    exact Quoted.skim_of_text text
  | list items ending ih =>
    obtain ⟨inside, last⟩ := check_list.1 fine
    refine skim_list.2 ⟨fun t mem => ih t mem (inside t mem), ?_⟩
    cases ending <;> first | rfl | cases last
  | object members ending ih =>
    obtain ⟨inside, last⟩ := check_object.1 fine
    refine skim_object.2 ⟨fun m mem => ⟨?_, ih m mem (inside m mem).2⟩, ?_⟩
    · obtain ⟨name, text⟩ := (inside m mem).1
      exact Quoted.skim_of_text text
    · cases ending <;> first | rfl | cases last

theorem whole_of_skim (t : Tree) (fine : t.skim = .ok ()) : t.Whole := by
  induction t using ind with
  | word w | number n => trivial
  | broken b => cases fine
  | string q => exact Quoted.closed_of_skim fine
  | list items ending ih =>
    obtain ⟨inside, last⟩ := skim_list.1 fine
    exact ⟨wholeItems_iff.2 fun t mem => ih t mem (inside t mem), ListEnd.read_of_skim last⟩
  | object members ending ih =>
    obtain ⟨inside, last⟩ := skim_object.1 fine
    refine ⟨wholeMembers_iff.2 fun m mem => ?_, ObjectEnd.read_of_skim last⟩
    exact ⟨Quoted.closed_of_skim (inside m mem).1, ih m mem (inside m mem).2⟩

theorem whole_of_check (t : Tree) {room : Room} (fine : t.check room = .ok ()) : t.Whole := by
  induction t using ind generalizing room with
  | word w | number n => trivial
  | broken b => cases fine
  | string q =>
    obtain ⟨name, text, -⟩ := map_ok fine
    exact Quoted.closed_of_text text
  | list items ending ih =>
    obtain ⟨room, -, fine⟩ := bind_ok fine
    obtain ⟨inside, last⟩ := then_ok.1 fine
    have each := checkItems_iff.1 inside
    exact ⟨wholeItems_iff.2 fun t mem => ih t mem (each t mem), last⟩
  | object members ending ih =>
    obtain ⟨room, -, fine⟩ := bind_ok fine
    obtain ⟨inside, last⟩ := then_ok.1 fine
    refine ⟨wholeMembers_iff.2 fun m mem => ?_, last⟩
    obtain ⟨⟨name, text⟩, value⟩ := checkMembers_iff.1 inside m mem
    exact ⟨Quoted.closed_of_text text, ih m mem value⟩

end Tree

/-- Nothing is read from what is not whole. -/
def Read.Covers (read : Read Tree α) : Prop := ∀ ctx t a, read ctx t = .ok a → t.Whole

def Form.Covers (form : Form Tree α) : Prop :=
  ∀ field ∈ form.fields, ∀ ctx t d d', field.read ctx t d = .ok d' → t.Whole

namespace Form

theorem covers_slot {read : Read Tree α} (covers : read.Covers) (name : String) :
    ∀ field ∈ [slot name read], ∀ ctx t d d', field.read ctx t d = .ok d' → t.Whole := by
  intro field mem ctx t d d' done
  obtain rfl := List.mem_singleton.1 mem
  obtain ⟨a, read, -⟩ := map_ok done
  exact covers ctx t a read

theorem covers_required {read : Read Tree α} (covers : read.Covers) (name : String) :
    (required name read).Covers := covers_slot covers name

theorem covers_optional {read : Read Tree α} (covers : read.Covers) (name : String) (default : α) :
    (optional name read default).Covers := covers_slot covers name

theorem covers_and {f : Form Tree α} {g : Form Tree β} (left : f.Covers) (right : g.Covers) :
    (f.and g).Covers := by
  intro field mem ctx t d d' done
  obtain mem | mem := List.mem_append.1 mem
  · obtain ⟨field, own, rfl⟩ := List.mem_map.1 mem
    exact left field own ctx t _ _ (Field.onLeft_ok.1 done).1
  · obtain ⟨field, own, rfl⟩ := List.mem_map.1 mem
    exact right field own ctx t _ _ (Field.onRight_ok.1 done).1

theorem covers_map {f : Form Tree α} (covers : f.Covers) (h : α → β) : (f.map h).Covers := covers

theorem surplus_ok {ctx : Context} {size extra : Nat} {ending : ListEnd}
    (ok : surplus ctx size extra ending = .ok ()) : extra = 0 ∧ ending.read = .ok () := by
  unfold surplus at ok
  split at ok
  · rename_i none
    cases ending <;> first | exact ⟨none, rfl⟩ | cases ok
  · split at ok <;> cases ok

namespace Covers
variable {form : Form Tree α} (covers : form.Covers) {ctx : Context}
include covers

theorem readMember {d d' : form.Draft} {m : Member}
    (read : form.readMember ctx Tree.skim d m = .ok d') : m.1.ending = .closed ∧ m.2.Whole := by
  obtain ⟨name, key, how⟩ := readMember_iff.1 read
  refine ⟨Quoted.closed_of_text key, ?_⟩
  obtain ⟨-, skimmed, -⟩ | ⟨field, found, -, read⟩ := how
  · exact m.2.whole_of_skim skimmed
  · exact covers field (List.mem_of_find?_eq_some found) ctx m.2 d d' read

theorem members {members : List Member} {d d' : form.Draft}
    (run : members.foldlM (form.readMember ctx Tree.skim) d = .ok d') :
    Tree.WholeMembers members := by
  induction members generalizing d with
  | nil => trivial
  | cons m ms ih =>
    rw [List.foldlM_cons] at run
    obtain ⟨e, first, rest⟩ := bind_ok run
    exact ⟨covers.readMember first, ih rest⟩

theorem ofMembers {members : List Member} {ending : ObjectEnd} {a : α}
    (read : form.ofMembers ctx Tree.skim members ending = .ok a) :
    (Tree.object members ending).Whole := by
  obtain ⟨d, run, last, -⟩ := ofMembers_ok read
  exact ⟨covers.members run, last⟩

theorem readItems {fields : List (Field Tree form.Draft)} (own : fields ⊆ form.fields)
    {items : List Tree} {d d' : form.Draft} {extra : Option (List Tree)}
    (run : Form.readItems ctx fields items d = .ok (d', extra)) (none : extra.getD [] = []) :
    Tree.WholeItems items := by
  induction fields generalizing items d with
  | nil =>
    cases run
    cases none
    trivial
  | cons field fields ih =>
    cases items with
    | nil => trivial
    | cons t ts =>
      obtain ⟨mem, own⟩ := List.cons_subset.1 own
      obtain ⟨e, first, run⟩ := bind_ok run
      exact ⟨covers field mem ctx t d e first, ih own run⟩

theorem ofItems {described : String} {items : List Tree} {ending : ListEnd} {a : α}
    (read : form.ofItems described ctx items ending = .ok a) :
    (Tree.list items ending).Whole := by
  obtain ⟨d, extra, run, -, last⟩ := ofItems_ok read
  obtain ⟨none, ending⟩ := surplus_ok last
  exact ⟨covers.readItems (List.Subset.refl _) run (List.length_eq_zero_iff.1 none), ending⟩

end Covers
end Form

namespace Read

theorem covers_number : number.Covers := by
  intro ctx t a read
  cases t with
  | number n => trivial
  | list items ending | object members ending | word w | string q | broken b =>
    exact absurd read (Tree.mismatch_ne_ok _ _ _)

theorem covers_text : text.Covers := by
  intro ctx t a read
  cases t with
  | string q => exact Quoted.closed_of_text (lift_ok read)
  | list items ending | object members ending | word w | number n | broken b =>
    exact absurd read (Tree.mismatch_ne_ok _ _ _)

theorem covers_nullable {read : Read Tree α} (covers : read.Covers) : (nullable read).Covers := by
  intro ctx t a done
  unfold nullable at done
  split at done
  · trivial
  · obtain ⟨b, read, -⟩ := map_ok done
    exact covers ctx _ b read

theorem covers_list {read : Read Tree α} (covers : read.Covers) : (list read).Covers := by
  intro ctx t as done
  cases t with
  | list items ending =>
    obtain ⟨ctx, -, done⟩ := bind_ok done
    obtain ⟨bs, read, done⟩ := bind_ok done
    obtain ⟨_, ending, -⟩ := bind_ok done
    refine ⟨Tree.wholeItems_iff.2 fun t mem => ?_, lift_ok ending⟩
    obtain ⟨a, here⟩ := (mapM_ok read).1 t mem
    exact covers ctx t a here
  | object members ending | word w | number n | string q | broken b =>
    exact absurd done (Tree.mismatch_ne_ok _ _ _)

theorem covers_record {form : Form Tree α} (covers : form.Covers) (name : String) :
    (record name form).Covers := by
  intro ctx t a read
  cases t with
  | list items ending =>
    obtain ⟨ctx, -, read⟩ := bind_ok read
    exact covers.ofItems read
  | object members ending =>
    obtain ⟨ctx, -, read⟩ := bind_ok read
    exact covers.ofMembers read
  | word w | number n | string q | broken b =>
    exact absurd read (Tree.mismatch_ne_ok _ _ _)

theorem variant_object_ok {known : List (String × α)} {ctx : Context} {members : List Member}
    {ending : ObjectEnd} {a : α} (read : variant known ctx (.object members ending) = .ok a) :
    ∃ key name, key.text = .ok name ∧ members = [(key, .word .null)] ∧ ending = .closed := by
  cases members with
  | nil =>
    obtain ⟨_, -, read⟩ := bind_ok read
    obtain ⟨_, -, read⟩ := bind_ok read
    cases read
  | cons m more =>
    obtain ⟨key, t⟩ := m
    obtain ⟨_, -, read⟩ := bind_ok read
    obtain ⟨name, text, read⟩ := bind_ok read
    obtain ⟨b, -, read⟩ := bind_ok read
    dsimp only at read
    split at read
    · cases more with
      | nil => cases ending <;> first | exact ⟨key, name, lift_ok text, rfl, rfl⟩ | cases read
      | cons m more => cases read
    · obtain ⟨u, unit, -⟩ := bind_ok read
      exact absurd unit (Tree.mismatch_ne_ok _ _ _)

theorem covers_variant (known : List (String × α)) : (variant known).Covers := by
  intro ctx t a read
  cases t with
  | string q =>
    obtain ⟨name, text, -⟩ := bind_ok read
    exact Quoted.closed_of_text (lift_ok text)
  | object members ending =>
    obtain ⟨key, name, text, rfl, rfl⟩ := variant_object_ok read
    exact ⟨⟨⟨Quoted.closed_of_text text, trivial⟩, trivial⟩, rfl⟩
  | number n | list items ending | word w => cases read
  | broken b => cases b <;> cases read

end Read

end SceneTree.Json

namespace SceneTree
open Json (Read Form Tree bind_ok map_ok)

theorem Kind.whole_of_read {numbered : Bool} {t : Tree} {k : Kind}
    (ok : Kind.read numbered t = .ok k) : t.Whole := by
  cases t with
  | string q =>
    obtain ⟨name, text, -⟩ := bind_ok ok
    exact Json.Quoted.closed_of_text (Json.lift_ok text)
  | number n => trivial
  | list items ending | object members ending | word w | broken b =>
    exact absurd ok (Tree.mismatch_ne_ok _ _ _)

theorem Kind.whole_of_ofMembers {numbered : Bool} {room : Tree.Room} {members : List Json.Member}
    {found kind : Option Kind}
    (ok : Kind.ofMembers numbered (Tree.check room) found members = .ok kind) :
    Tree.WholeMembers members := by
  induction members generalizing found with
  | nil => trivial
  | cons m ms ih =>
    obtain ⟨name, text, ok⟩ := bind_ok ok
    have key := Json.Quoted.closed_of_text (Json.lift_ok text)
    dsimp only at ok
    split at ok
    · split at ok
      · cases ok
      · obtain ⟨k, kind, later⟩ := bind_ok ok
        exact ⟨⟨key, Kind.whole_of_read kind⟩, ih later⟩
    · obtain ⟨_, fine, later⟩ := bind_ok ok
      exact ⟨⟨key, Tree.whole_of_check _ (Json.lift_ok fine)⟩, ih later⟩

/-- Everything in a node is looked at before the node is read. -/
theorem Node.whole_of_judge {ctx : Json.Context} {t : Tree} (ok : judge ctx t = .ok ()) :
    t.Whole := by
  cases t with
  | object members ending =>
    obtain ⟨ctx, -, ok⟩ := bind_ok ok
    obtain ⟨kind, inside, ok⟩ := bind_ok ok
    obtain ⟨_, ending, -⟩ := bind_ok ok
    exact ⟨Kind.whole_of_ofMembers inside, Json.lift_ok ending⟩
  | list items ending =>
    obtain ⟨ctx, -, ok⟩ := bind_ok ok
    cases items with
    | nil => 
      obtain ⟨_, -, ok⟩ := bind_ok ok
      cases ok
    | cons t ts =>
      obtain ⟨_, kind, ok⟩ := bind_ok ok
      obtain ⟨k, kind, -⟩ := map_ok kind
      obtain ⟨_, rest, ending⟩ := bind_ok ok
      have others : Tree.WholeItems ts := Tree.wholeItems_iff.2 fun t mem =>
        t.whole_of_check (Tree.checkItems_iff.1 (Json.lift_ok rest) t mem)
      exact ⟨⟨Kind.whole_of_read kind, others⟩, Json.lift_ok ending⟩
  | word w | number n | string q | broken b => exact absurd ok (Tree.mismatch_ne_ok _ _ _)

theorem Node.covers_read : Node.read.Covers := by
  intro ctx t n ok
  obtain ⟨_, judged, -⟩ := bind_ok ok
  exact whole_of_judge judged

open Json.Read in
theorem Viewport.covers_read : Viewport.read.Covers :=
  covers_record (Form.covers_map (Form.covers_and (Form.covers_required covers_number _)
    (Form.covers_and (Form.covers_required covers_number _)
      (Form.covers_optional (covers_variant _) _ _))) _) _

open Json.Read in
theorem Root.covers_read : Root.read.Covers := by
  have form : Root.form.Covers :=
    Form.covers_map (Form.covers_and (Form.covers_required (covers_variant _) _)
      (Form.covers_and (Form.covers_required covers_text _)
      (Form.covers_and (Form.covers_required covers_text _)
      (Form.covers_and (Form.covers_required covers_text _)
      (Form.covers_and (Form.covers_required covers_number _)
        (Form.covers_optional (covers_list Node.covers_read) _ _)))))) _
  intro ctx t root ok
  obtain ⟨⟨id, root⟩, read, -⟩ := bind_ok ok
  exact covers_record form _ ctx t _ read

open Json.Read in
/-- No frame is read from a text that breaks off. -/
theorem Frame.covers_read : Frame.read.Covers :=
  covers_record (Form.covers_map (Form.covers_and (Form.covers_required Viewport.covers_read _)
    (Form.covers_and (Form.covers_optional (covers_nullable covers_text) _ _)
      (Form.covers_required Root.covers_read _))) _) _

end SceneTree
