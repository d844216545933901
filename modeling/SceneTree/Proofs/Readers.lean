import SceneTree.Json.Form

/-! What readers give. A property of all values that are read is had from the readers of the parts:
each field keeps what holds of the draft so far, and the record has it once the draft is done. -/
namespace SceneTree.Json
variable {τ α β ε : Type}

theorem ok_bind (a : α) (f : α → Except ε β) : (.ok a >>= f : Except ε β) = f a := rfl

theorem bind_ok {x : Except ε α} {f : α → Except ε β} {b : β} (ok : x >>= f = .ok b) :
    ∃ a, x = .ok a ∧ f a = .ok b := by
  cases x with
  | error e => cases ok
  | ok a => exact ⟨a, rfl, ok⟩

theorem then_ok {x : Except ε Unit} {y : Except ε β} {b : β} :
    (x >>= fun _ => y) = .ok b ↔ x = .ok () ∧ y = .ok b := by
  constructor
  · intro ok
    obtain ⟨_, first, second⟩ := bind_ok ok
    exact ⟨first, second⟩
  · rintro ⟨rfl, rfl⟩
    rfl

theorem map_ok {x : Except ε α} {f : α → β} {b : β} (ok : f <$> x = .ok b) :
    ∃ a, x = .ok a ∧ f a = b := by
  cases x with
  | error e => cases ok
  | ok a => exact ⟨a, rfl, Except.ok.inj ok⟩

theorem lift_eq (a : α) : (liftM (.ok a : Except Fault α) : Except ReadError α) = .ok a := rfl

theorem lift_ok {x : Except Fault α} {a : α}
    (ok : (liftM x : Except ReadError α) = .ok a) : x = .ok a := by
  cases x with
  | error e => cases ok
  | ok b => exact congrArg Except.ok (Except.ok.inj ok)

theorem Tree.mismatch_ne_ok (t : Tree) (expected : String) (a : α) :
    t.mismatch expected ≠ .ok a := by
  intro ok
  obtain ⟨seen, -, thrown⟩ := bind_ok ok
  cases thrown

theorem mapM_ok {read : τ → Except ε α} {ts : List τ} {as : List α}
    (done : ts.mapM read = .ok as) :
    (∀ t ∈ ts, ∃ a, read t = .ok a) ∧ ∀ a ∈ as, ∃ t, read t = .ok a := by
  induction ts generalizing as with
  | nil =>
    cases done
    exact ⟨nofun, nofun⟩
  | cons t ts ih =>
    rw [List.mapM_cons] at done
    obtain ⟨a, here, done⟩ := bind_ok done
    obtain ⟨rest, later, same⟩ := bind_ok done
    cases same
    obtain ⟨each, only⟩ := ih later
    exact ⟨List.forall_mem_cons.2 ⟨⟨a, here⟩, each⟩, List.forall_mem_cons.2 ⟨⟨t, here⟩, only⟩⟩

theorem Field.onLeft_ok {δ : Type} {f : Field τ δ} {ctx : Context} {t : τ} {d d' : δ × ε} :
    f.onLeft.read ctx t d = .ok d' ↔ f.read ctx t d.1 = .ok d'.1 ∧ d'.2 = d.2 := by
  obtain ⟨d', e'⟩ := d'
  constructor
  · intro done
    obtain ⟨a, read, same⟩ := bind_ok done
    cases same
    exact ⟨read, rfl⟩
  · rintro ⟨read, rfl⟩
    simp only [Field.onLeft, read]
    rfl

theorem Field.onRight_ok {δ : Type} {f : Field τ ε} {ctx : Context} {t : τ} {d d' : δ × ε} :
    f.onRight.read ctx t d = .ok d' ↔ f.read ctx t d.2 = .ok d'.2 ∧ d'.1 = d.1 := by
  obtain ⟨d', e'⟩ := d'
  constructor
  · intro done
    obtain ⟨a, read, same⟩ := bind_ok done
    cases same
    exact ⟨read, rfl⟩
  · rintro ⟨read, rfl⟩
    simp only [Field.onRight, read]
    rfl

/-- All values that are read, from what `T` holds of, have the property. -/
def Read.Gives (read : Read τ α) (T : τ → Prop) (P : α → Prop) : Prop :=
  ∀ ctx t a, T t → read ctx t = .ok a → P a

/-- Something holds of the blank draft, is kept by every field and gives the property at the end. -/
def Form.Gives (form : Form τ α) (T : τ → Prop) (P : α → Prop) : Prop :=
  ∃ kept : form.Draft → Prop, kept form.blank ∧
    (∀ field ∈ form.fields, ∀ ctx t d d', T t → kept d → field.read ctx t d = .ok d' → kept d') ∧
    ∀ absent d a, kept d → form.finish absent d = .ok a → P a

namespace Form
variable {T : τ → Prop} {P : α → Prop} {Q : β → Prop}

theorem gives_slot {read : Read τ α} (gives : read.Gives T P) (name : String) :
    ∀ field ∈ [slot name read], ∀ ctx t d d', T t → (∀ a, d = some a → P a) →
      field.read ctx t d = .ok d' → ∀ a, d' = some a → P a := by
  rintro field mem ctx t d _ source - done a rfl
  obtain rfl := List.mem_singleton.1 mem
  obtain ⟨b, read, same⟩ := map_ok done
  cases same
  exact gives ctx t a source read

theorem gives_required {read : Read τ α} (gives : read.Gives T P) (name : String) :
    (required name read).Gives T P := by
  refine ⟨fun d => ∀ a, d = some a → P a, nofun, gives_slot gives name, ?_⟩
  intro absent d a kept done
  cases d with
  | none => cases done
  | some b =>
    cases done
    exact kept _ rfl

theorem gives_optional {read : Read τ α} (gives : read.Gives T P) (name : String) {default : α}
    (unset : P default) : (optional name read default).Gives T P := by
  refine ⟨fun d => ∀ a, d = some a → P a, nofun, gives_slot gives name, ?_⟩
  intro absent d a kept done
  cases done
  cases d with
  | none => exact unset
  | some b => exact kept _ rfl

theorem gives_and {f : Form τ α} {g : Form τ β} (left : f.Gives T P) (right : g.Gives T Q) :
    (f.and g).Gives T fun p => P p.1 ∧ Q p.2 := by
  obtain ⟨I, start, step, stop⟩ := left
  obtain ⟨J, start', step', stop'⟩ := right
  refine ⟨fun d => I d.1 ∧ J d.2, ⟨start, start'⟩, ?_, ?_⟩
  · intro field mem ctx t d d' source kept done
    obtain mem | mem := List.mem_append.1 mem
    · obtain ⟨field, own, rfl⟩ := List.mem_map.1 mem
      obtain ⟨read, other⟩ := Field.onLeft_ok.1 done
      exact ⟨step field own ctx t _ _ source kept.1 read, other ▸ kept.2⟩
    · obtain ⟨field, own, rfl⟩ := List.mem_map.1 mem
      obtain ⟨read, other⟩ := Field.onRight_ok.1 done
      exact ⟨other ▸ kept.1, step' field own ctx t _ _ source kept.2 read⟩
  · intro absent d p kept done
    obtain ⟨a, first, done⟩ := bind_ok done
    obtain ⟨b, second, same⟩ := bind_ok done
    cases same
    exact ⟨stop _ _ _ kept.1 first, stop' _ _ _ kept.2 second⟩

theorem gives_map {f : Form τ α} (gives : f.Gives T P) {h : α → β} (keeps : ∀ a, P a → Q (h a)) :
    (f.map h).Gives T Q := by
  obtain ⟨I, start, step, stop⟩ := gives
  refine ⟨I, start, step, fun absent d b kept done => ?_⟩
  obtain ⟨a, finish, rfl⟩ := map_ok done
  exact keeps a (stop absent d a kept finish)

/-- What a member does to a draft, if nothing is wrong with it. -/
theorem readMember_iff {form : Form τ α} {ctx : Context} {skip : τ → Except Fault Unit}
    {d d' : form.Draft} {m : Quoted × τ} :
    form.readMember ctx skip d m = .ok d' ↔ ∃ name, m.1.text = .ok name ∧
      (form.fields.find? (·.name = name) = none ∧ skip m.2 = .ok () ∧ d' = d ∨
        ∃ field, form.fields.find? (·.name = name) = some field ∧ field.filled d = false ∧
          field.read ctx m.2 d = .ok d') := by
  constructor
  · intro done
    obtain ⟨name, text, done⟩ := bind_ok done
    refine ⟨name, lift_ok text, ?_⟩
    split at done
    · rename_i none
      obtain ⟨u, fine, same⟩ := bind_ok done
      cases same
      exact .inl ⟨none, lift_ok fine, rfl⟩
    · rename_i field found
      dsimp only at done
      split at done
      · cases done
      · rename_i open_
        exact .inr ⟨field, found, by simpa using open_, done⟩
  · rintro ⟨name, text, ⟨none, fine, rfl⟩ | ⟨field, found, open_, done⟩⟩
    · rw [readMember, text, lift_eq, ok_bind, none]
      rw [fine]
      rfl
    · rw [readMember, text, lift_eq, ok_bind, found]
      simp only [open_]
      exact done

theorem readMember_ok {form : Form τ α} {ctx : Context} {skip : τ → Except Fault Unit}
    {d d' : form.Draft} {m : Quoted × τ} (read : form.readMember ctx skip d m = .ok d') :
    d' = d ∨ ∃ field ∈ form.fields, field.read ctx m.2 d = .ok d' := by
  obtain ⟨name, -, ⟨-, -, same⟩ | ⟨field, found, -, read⟩⟩ := readMember_iff.1 read
  · exact .inl same
  · exact .inr ⟨field, List.mem_of_find?_eq_some found, read⟩

theorem ofMembers_ok {form : Form τ α} {ctx : Context} {skip : τ → Except Fault Unit}
    {members : List (Quoted × τ)} {ending : ObjectEnd} {a : α}
    (read : form.ofMembers ctx skip members ending = .ok a) :
    ∃ d, members.foldlM (form.readMember ctx skip) form.blank = .ok d ∧ ending.read = .ok () ∧
      form.finish (fun name _ => .missingField name) d = .ok a := by
  obtain ⟨d, run, read⟩ := bind_ok read
  obtain ⟨_, last, done⟩ := bind_ok read
  exact ⟨d, run, lift_ok last, done⟩

theorem ofItems_ok {form : Form τ α} {described : String} {ctx : Context} {items : List τ}
    {ending : ListEnd} {a : α} (read : form.ofItems described ctx items ending = .ok a) :
    ∃ d extra, readItems ctx form.fields items form.blank = .ok (d, extra) ∧
      form.finish (fun _ i => .wrongLength i described) d = .ok a ∧
      surplus ctx form.size (extra.getD []).length ending = .ok () := by
  obtain ⟨⟨d, extra⟩, run, read⟩ := bind_ok read
  dsimp only at read
  split at read
  · obtain ⟨_, -, read⟩ := bind_ok read
    obtain ⟨b, done, read⟩ := bind_ok read
    obtain ⟨_, last, same⟩ := bind_ok read
    cases same
    exact ⟨d, extra, run, done, last⟩
  · obtain ⟨b, done, read⟩ := bind_ok read
    obtain ⟨_, last, same⟩ := bind_ok read
    cases same
    exact ⟨d, extra, run, done, last⟩

section
variable {form : Form τ α} {kept : form.Draft → Prop} {ctx : Context}
  (step : ∀ field ∈ form.fields, ∀ ctx t d d', T t → kept d → field.read ctx t d = .ok d' → kept d')
include step

theorem kept_members {skip : τ → Except Fault Unit} {members : List (Quoted × τ)}
    (source : ∀ m ∈ members, T m.2) {d d' : form.Draft} (before : kept d)
    (run : members.foldlM (form.readMember ctx skip) d = .ok d') : kept d' := by
  induction members generalizing d with
  | nil =>
    cases run
    exact before
  | cons m ms ih =>
    obtain ⟨here, later⟩ := List.forall_mem_cons.1 source
    rw [List.foldlM_cons] at run
    obtain ⟨e, first, rest⟩ := bind_ok run
    refine ih later ?_ rest
    obtain rfl | ⟨field, mem, read⟩ := readMember_ok first
    · exact before
    · exact step field mem ctx m.2 d e here before read

theorem kept_items {fields : List (Field τ form.Draft)} (own : fields ⊆ form.fields)
    {items : List τ} (source : ∀ t ∈ items, T t) {d d' : form.Draft} {extra : Option (List τ)}
    (before : kept d) (run : readItems ctx fields items d = .ok (d', extra)) : kept d' := by
  induction fields generalizing items d with
  | nil =>
    cases run
    exact before
  | cons field fields ih =>
    cases items with
    | nil =>
      cases run
      exact before
    | cons t ts =>
      obtain ⟨here, later⟩ := List.forall_mem_cons.1 source
      obtain ⟨mem, own⟩ := List.cons_subset.1 own
      obtain ⟨e, first, run⟩ := bind_ok run
      exact ih own later (step field mem ctx t d e here before first) run

end

namespace Gives
variable {form : Form τ α} (gives : form.Gives T P) {ctx : Context}
include gives

theorem ofMembers {skip : τ → Except Fault Unit} {members : List (Quoted × τ)} {ending : ObjectEnd}
    {a : α} (source : ∀ m ∈ members, T m.2)
    (read : form.ofMembers ctx skip members ending = .ok a) : P a := by
  obtain ⟨kept, start, step, stop⟩ := gives
  obtain ⟨d, run, -, done⟩ := ofMembers_ok read
  exact stop _ d a (kept_members step source start run) done

theorem ofItems {described : String} {items : List τ} {ending : ListEnd} {a : α}
    (source : ∀ t ∈ items, T t) (read : form.ofItems described ctx items ending = .ok a) : P a := by
  obtain ⟨kept, start, step, stop⟩ := gives
  obtain ⟨d, extra, run, done, -⟩ := ofItems_ok read
  exact stop _ d a (kept_items step (List.Subset.refl _) source start run) done

end Gives
end Form

namespace Read
variable {P : α → Prop}

theorem gives_record {form : Form Tree α} (gives : form.Gives (fun _ => True) P) (name : String) :
    (record name form).Gives (fun _ => True) P := by
  intro ctx t a _ read
  cases t with
  | list items ending =>
    obtain ⟨ctx, -, read⟩ := bind_ok read
    exact gives.ofItems (fun _ _ => trivial) read
  | object members ending =>
    obtain ⟨ctx, -, read⟩ := bind_ok read
    exact gives.ofMembers (fun _ _ => trivial) read
  | word w | number n | string q | broken b =>
    exact absurd read (Tree.mismatch_ne_ok _ _ _)

theorem gives_tuple {form : Form Tree α} (gives : form.Gives (fun _ => True) P) :
    (tuple form).Gives (fun _ => True) P := by
  intro ctx t a _ read
  cases t with
  | list items ending =>
    obtain ⟨ctx, -, read⟩ := bind_ok read
    exact gives.ofItems (fun _ _ => trivial) read
  | object members ending | word w | number n | string q | broken b =>
    exact absurd read (Tree.mismatch_ne_ok _ _ _)

theorem gives_nullable {read : Read Tree α} (gives : read.Gives (fun _ => True) P) :
    (nullable read).Gives (fun _ => True) fun a => ∀ b, a = some b → P b := by
  rintro ctx t _ _ done b rfl
  unfold nullable at done
  split at done
  · cases done
  · obtain ⟨c, read, same⟩ := map_ok done
    cases same
    exact gives ctx _ b trivial read

theorem gives_list {read : Read Tree α} (gives : read.Gives (fun _ => True) P) :
    (list read).Gives (fun _ => True) fun as => ∀ a ∈ as, P a := by
  intro ctx t as _ done
  cases t with
  | list items ending =>
    obtain ⟨ctx, -, done⟩ := bind_ok done
    obtain ⟨bs, read, done⟩ := bind_ok done
    obtain ⟨-, -, same⟩ := bind_ok done
    cases same
    intro a mem
    obtain ⟨t, here⟩ := (mapM_ok read).2 a mem
    exact gives ctx t a trivial here
  | object members ending | word w | number n | string q | broken b =>
    exact absurd done (Tree.mismatch_ne_ok _ _ _)

theorem whole_ok {read : Read Tree α} {room : Tree.Room} {text : List Symbol} {a : α}
    (done : read.whole room text = .ok a) :
    ∃ t, Tree.ofText text = (t, false) ∧ read ⟨room, false⟩ t = .ok a := by
  unfold whole at done
  generalize Tree.ofText text = parsed at done
  obtain ⟨t, trailing⟩ := parsed
  obtain ⟨b, here, done⟩ := bind_ok done
  cases trailing with
  | true => cases done
  | false =>
    cases done
    exact ⟨t, rfl, here⟩

theorem of_whole {read : Read Tree α} (gives : read.Gives (fun _ => True) P) {room : Tree.Room}
    {text : List Symbol} {a : α} (done : read.whole room text = .ok a) : P a := by
  obtain ⟨t, -, here⟩ := whole_ok done
  exact gives _ t a trivial here

end Read
end SceneTree.Json
