import SceneTree.Proofs.Parsing
import SceneTree.Proofs.Readers

/-! Records that were written. The members of a record come in the order of its form, each field at
most once, so a form made of two reads what the first one reads of the members that are its own and
what the second reads of the rest. What is wrong with a record is left out of account here. -/
namespace SceneTree.Json

section
variable {ε α β : Type}

@[simp] theorem toOption_ok (a : α) : (.ok a : Except ε α).toOption = some a := rfl

@[simp] theorem toOption_error (e : ε) : (.error e : Except ε α).toOption = none := rfl

@[simp] theorem toOption_bind (x : Except ε α) (f : α → Except ε β) :
    (x >>= f).toOption = x.toOption.bind fun a => (f a).toOption := by
  cases x <;> rfl

@[simp] theorem toOption_map (f : α → β) (x : Except ε α) :
    (f <$> x).toOption = x.toOption.map f := by
  cases x <;> rfl

theorem eq_ok_of_toOption {x : Except ε α} {a : α} (some : x.toOption = .some a) : x = .ok a := by
  cases x with
  | error e => cases some
  | ok b => exact congrArg _ (Option.some.inj some)

theorem exists_ok {x : Except ε α} (some : x.toOption.isSome) : ∃ a, x = .ok a := by
  obtain ⟨a, same⟩ := Option.isSome_iff_exists.1 some
  exact ⟨a, eq_ok_of_toOption same⟩

end

def written {τ : Type} (ms : List (String × τ)) : List (Quoted × τ) :=
  ms.map fun (name, t) => (.of name, t)

namespace Form
variable {τ α β : Type} (ctx : Context) (skip : τ → Except Fault Unit)

def names (form : Form τ α) : List String := form.fields.map Field.name

@[simp] theorem names_required (name : String) (read : Read τ α) :
    (required name read).names = [name] := rfl

@[simp] theorem names_optional (name : String) (read : Read τ α) (default : α) :
    (optional name read default).names = [name] := rfl

@[simp] theorem names_map (h : α → β) (form : Form τ α) : (form.map h).names = form.names := rfl

@[simp] theorem names_and (f : Form τ α) (g : Form τ β) : (f.and g).names = f.names ++ g.names := by
  simp [names, and, Field.onLeft, Field.onRight, Function.comp_def]

/-- What a form reads from members that were written, if nothing is wrong with them. -/
def takes (form : Form τ α) (ms : List (String × τ)) : Option α :=
  (form.ofMembers ctx skip (written ms) .closed).toOption

def draft (form : Form τ α) (d : form.Draft) (ms : List (String × τ)) :
    Except ReadError form.Draft :=
  (written ms).foldlM (form.readMember ctx skip) d

theorem takes_eq (form : Form τ α) (ms : List (String × τ)) :
    form.takes ctx skip ms = (form.draft ctx skip form.blank ms).toOption.bind fun d =>
      (form.finish (fun name _ => .missingField name) d).toOption := by
  rw [takes, ofMembers, toOption_bind]
  rfl

theorem draft_cons (form : Form τ α) (d : form.Draft) (m : String × τ) (ms : List (String × τ)) :
    form.draft ctx skip d (m :: ms) =
      form.readMember ctx skip d (.of m.1, m.2) >>= fun d => form.draft ctx skip d ms :=
  List.foldlM_cons ..

theorem draft_append (form : Form τ α) (d : form.Draft) (ms ns : List (String × τ)) :
    form.draft ctx skip d (ms ++ ns) =
      form.draft ctx skip d ms >>= fun d => form.draft ctx skip d ns := by
  rw [draft, written, List.map_append]
  exact List.foldlM_append ..

theorem readMember_known {f : Form τ α} {name : String} {field : Field τ f.Draft}
    (found : f.fields.find? (·.name = name) = some field) (d : f.Draft) (t : τ) :
    f.readMember ctx skip d (.of name, t) =
      if field.filled d then .error (.duplicateField name) else field.read ctx t d := by
  have key : (liftM (.ok name : Except Fault String) : Except ReadError String) = .ok name := rfl
  rw [readMember, Quoted.text_of, key, ok_bind, found]
  cases filled : field.filled d <;>
    simp [filled, bind, Except.bind, throw, throwThe, MonadExceptOf.throw]

theorem readMember_unknown {f : Form τ α} {name : String}
    (absent : f.fields.find? (·.name = name) = none) (d : f.Draft) (t : τ) :
    f.readMember ctx skip d (.of name, t) = do
      skip t
      return d := by
  have key : (liftM (.ok name : Except Fault String) : Except ReadError String) = .ok name := rfl
  rw [readMember, Quoted.text_of, key, ok_bind, absent]

theorem find_names {form : Form τ α} {name : String} :
    name ∈ form.names ↔ ∃ field, form.fields.find? (·.name = name) = some field := by
  rw [← Option.isSome_iff_exists, List.find?_isSome, names, List.mem_map]
  simp

theorem find_none {form : Form τ α} {name : String} (unknown : name ∉ form.names) :
    form.fields.find? (·.name = name) = none := by
  rw [find_names, not_exists] at unknown
  exact Option.eq_none_iff_forall_ne_some.2 unknown

def pair (f : Form τ α) (g : Form τ β) (d : f.Draft) (e : g.Draft) : (f.and g).Draft := (d, e)

section
variable (f : Form τ α) (g : Form τ β)

theorem readMember_left {name : String} (known : name ∈ f.names) (t : τ) (d : f.Draft)
    (e : g.Draft) : (f.and g).readMember ctx skip (f.pair g d e) (.of name, t) =
      (f.pair g · e) <$> f.readMember ctx skip d (.of name, t) := by
  obtain ⟨field, found⟩ := find_names.1 known
  have both : (f.and g).fields.find? (·.name = name) = some field.onLeft := by
    have left : ((fun x : Field τ (f.Draft × g.Draft) => decide (x.name = name)) ∘ Field.onLeft) =
        fun x : Field τ f.Draft => decide (x.name = name) := rfl
    simp only [and, List.find?_append, List.find?_map]
    rw [left, found]
    rfl
  rw [readMember_known ctx skip both, readMember_known ctx skip found]
  change (if field.filled d then _ else _) = _
  split <;> rfl

theorem readMember_right {name : String} (unknown : name ∉ f.names) (t : τ) (d : f.Draft)
    (e : g.Draft) : (f.and g).readMember ctx skip (f.pair g d e) (.of name, t) =
      (f.pair g d ·) <$> g.readMember ctx skip e (.of name, t) := by
  have absent := find_none unknown
  have both : (f.and g).fields.find? (·.name = name) =
      (g.fields.find? (·.name = name)).map Field.onRight := by
    have left : ((fun x : Field τ (f.Draft × g.Draft) => decide (x.name = name)) ∘ Field.onLeft) =
        fun x : Field τ f.Draft => decide (x.name = name) := rfl
    have right : ((fun x : Field τ (f.Draft × g.Draft) => decide (x.name = name)) ∘ Field.onRight) =
        fun x : Field τ g.Draft => decide (x.name = name) := rfl
    simp only [and, List.find?_append, List.find?_map]
    rw [left, right, absent]
    rfl
  cases found : g.fields.find? (·.name = name) with
  | none =>
    rw [found] at both
    rw [readMember_unknown ctx skip both, readMember_unknown ctx skip found]
    cases skip t <;> rfl
  | some field =>
    rw [found] at both
    rw [readMember_known ctx skip both, readMember_known ctx skip found]
    change (if field.filled e then _ else _) = _
    split <;> rfl

theorem draft_left {ms : List (String × τ)} (known : ∀ m ∈ ms, m.1 ∈ f.names) (d : f.Draft)
    (e : g.Draft) : (f.and g).draft ctx skip (f.pair g d e) ms =
      (f.pair g · e) <$> f.draft ctx skip d ms := by
  induction ms generalizing d with
  | nil => rfl
  | cons m ms ih =>
    obtain ⟨here, later⟩ := List.forall_mem_cons.1 known
    have step := readMember_left ctx skip f g here m.2 d e
    rw [draft_cons, draft_cons, step, map_bind, bind_map_left]
    exact bind_congr fun d => ih later d

theorem draft_right {ms : List (String × τ)} (unknown : ∀ m ∈ ms, m.1 ∉ f.names) (d : f.Draft)
    (e : g.Draft) : (f.and g).draft ctx skip (f.pair g d e) ms =
      (f.pair g d ·) <$> g.draft ctx skip e ms := by
  induction ms generalizing e with
  | nil => rfl
  | cons m ms ih =>
    obtain ⟨here, later⟩ := List.forall_mem_cons.1 unknown
    have step := readMember_right ctx skip f g here m.2 d e
    rw [draft_cons, draft_cons, step, map_bind, bind_map_left]
    exact bind_congr fun e => ih later e

theorem finish_and (absent : String → ReadError) (d : f.Draft) (e : g.Draft) :
    (f.and g).finish (fun name _ => absent name) (f.pair g d e) =
      f.finish (fun name _ => absent name) d >>= fun a =>
        (a, ·) <$> g.finish (fun name _ => absent name) e := rfl

/-- A form made of two reads its own members with each of them. -/
theorem takes_and {ms ns : List (String × τ)} (own : ∀ m ∈ ms, m.1 ∈ f.names)
    (other : ∀ m ∈ ns, m.1 ∉ f.names) : (f.and g).takes ctx skip (ms ++ ns) =
      (f.takes ctx skip ms).bind fun a => (g.takes ctx skip ns).map (a, ·) := by
  have blank : (f.and g).blank = f.pair g f.blank g.blank := rfl
  rw [takes_eq, draft_append, blank, draft_left ctx skip f g own, bind_map_left]
  simp only [draft_right ctx skip f g other, toOption_bind, toOption_map]
  rw [takes_eq, takes_eq]
  cases f.draft ctx skip f.blank ms with
  | error _ => rfl
  | ok d =>
    cases g.draft ctx skip g.blank ns with
    | error _ => simp
    | ok e =>
      simp only [toOption_ok, Option.bind_some, Option.map_some, finish_and, toOption_bind,
        toOption_map]

end

theorem draft_map (h : α → β) (form : Form τ α) (d : form.Draft) (ms : List (String × τ)) :
    (form.map h).draft ctx skip d ms = form.draft ctx skip d ms := by
  have step (d : form.Draft) (name : String) (t : τ) :
      (form.map h).readMember ctx skip d (.of name, t) =
        form.readMember ctx skip d (.of name, t) := by
    cases found : form.fields.find? (·.name = name) with
    | none =>
      exact (readMember_unknown (f := form.map h) ctx skip found d t).trans
        (readMember_unknown ctx skip found d t).symm
    | some field =>
      exact (readMember_known (f := form.map h) ctx skip found d t).trans
        (readMember_known ctx skip found d t).symm
  induction ms generalizing d with
  | nil => rfl
  | cons m ms ih =>
    have first := draft_cons ctx skip (form.map h) d m ms
    rw [first, draft_cons, step]
    exact bind_congr ih

@[simp] theorem takes_map (h : α → β) (form : Form τ α) (ms : List (String × τ)) :
    (form.map h).takes ctx skip ms = (form.takes ctx skip ms).map h := by
  have finish (d : form.Draft) :
      ((form.map h).finish (fun name _ => .missingField name) d).toOption =
        (form.finish (fun name _ => .missingField name) d).toOption.map h := toOption_map ..
  rw [takes_eq, takes_eq, Option.map_bind]
  have same : (form.map h).draft ctx skip (form.map h).blank ms =
      form.draft ctx skip form.blank ms := draft_map ctx skip h form form.blank ms
  rw [same]
  exact congrArg (Option.bind _) (funext finish)

@[simp] theorem takes_required (name : String) (read : Read τ α) (t : τ) :
    (required name read).takes ctx skip [(name, t)] = (read ctx t).toOption := by
  have found : (required name read).fields.find? (·.name = name) = some (slot name read) := by
    simp [required, slot]
  have step : (required name read).readMember ctx skip (required name read).blank (.of name, t) =
      (some <$> read ctx t : Except ReadError (Option α)) := readMember_known ctx skip found none t
  rw [takes_eq, draft_cons, step]
  cases read ctx t <;> rfl

@[simp] theorem takes_optional (name : String) (read : Read τ α) (default : α) (t : τ) :
    (optional name read default).takes ctx skip [(name, t)] = (read ctx t).toOption := by
  have found :
      (optional name read default).fields.find? (·.name = name) = some (slot name read) := by
    simp [optional, slot]
  have step : (optional name read default).readMember ctx skip
      (optional name read default).blank (.of name, t) =
        (some <$> read ctx t : Except ReadError (Option α)) :=
    readMember_known ctx skip found none t
  rw [takes_eq, draft_cons, step]
  cases read ctx t <;> rfl

@[simp] theorem takes_absent (name : String) (read : Read τ α) (default : α) :
    (optional name read default).takes ctx skip [] = some default := rfl

theorem takes_written (name : String) (read : Read τ α) (default : α) (t : Option τ) :
    (optional name read default).takes ctx skip (t.toList.map (name, ·)) =
      (t.map fun t => (read ctx t).toOption).getD (some default) := by
  cases t <;> simp

theorem takes_unknown {form : Form τ α} {name : String} (unknown : name ∉ form.names) {t : τ}
    (fine : skip t = .ok ()) (ms : List (String × τ)) :
    form.takes ctx skip ((name, t) :: ms) = form.takes ctx skip ms := by
  rw [takes_eq, takes_eq, draft_cons, readMember_unknown ctx skip (find_none unknown), fine]
  rfl

section
variable (g : Form τ β) (name : String) (read : Read τ α) (default : α)

theorem takes_required_and (t : τ) {ms : List (String × τ)} (other : ∀ m ∈ ms, m.1 ≠ name) :
    ((required name read).and g).takes ctx skip ((name, t) :: ms) =
      (read ctx t).toOption.bind fun a => (g.takes ctx skip ms).map (a, ·) := by
  have own : ∀ m ∈ [(name, t)], m.1 ∈ (required name read).names := by simp
  rw [← takes_required ctx skip name read]
  exact takes_and ctx skip (required name read) g own (by simpa using other)

theorem takes_optional_and (t : Option τ) {ms : List (String × τ)} (other : ∀ m ∈ ms, m.1 ≠ name) :
    ((optional name read default).and g).takes ctx skip (t.toList.map (name, ·) ++ ms) =
      ((t.map fun t => (read ctx t).toOption).getD (some default)).bind fun a =>
        (g.takes ctx skip ms).map (a, ·) := by
  have own : ∀ m ∈ t.toList.map (name, ·), m.1 ∈ (optional name read default).names := by simp
  rw [takes_and ctx skip (optional name read default) g own (by simpa using other), takes_written]

end

end Form
end SceneTree.Json
