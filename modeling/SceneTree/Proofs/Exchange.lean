import SceneTree.Proofs.Readers
import SceneTree.Proofs.Rereading

/-! The order of the members of a record. Fields of different names are read apart from each other,
so two members may change places, and with them any number. What is said here is about records that
are read: in another order, another fault may come first. -/
namespace SceneTree.Json
variable {τ α β δ ε : Type}

/-- Two steps in a row may be taken the other way round. -/
def Exchanges (step : δ → τ → Except ε δ) : Prop :=
  ∀ d e f a b, step d a = .ok e → step e b = .ok f → ∃ e', step d b = .ok e' ∧ step e' a = .ok f

section
variable {step : δ → τ → Except ε δ} {R : τ → τ → Prop}

theorem foldlM_perm (exchanges : Exchanges step) {l l' : List τ} (perm : l.Perm l') {d d' : δ}
    (run : l.foldlM step d = .ok d') : l'.foldlM step d = .ok d' := by
  induction perm generalizing d with
  | nil => exact run
  | cons a _ ih =>
    obtain ⟨e, first, rest⟩ := bind_ok run
    rw [List.foldlM_cons, first]
    exact ih rest
  | swap a b l =>
    obtain ⟨e, first, run⟩ := bind_ok run
    obtain ⟨f, second, rest⟩ := bind_ok run
    obtain ⟨e', second, first⟩ := exchanges _ _ _ _ _ first second
    rw [List.foldlM_cons, second, ok_bind, List.foldlM_cons, first]
    exact rest
  | trans _ _ ih ih' => exact ih' (ih run)

theorem foldlM_same (same : ∀ a b d e, R a b → step d a = .ok e → step d b = .ok e)
    {l l' : List τ} (each : List.Forall₂ R l l') {d d' : δ} (run : l.foldlM step d = .ok d') :
    l'.foldlM step d = .ok d' := by
  induction each generalizing d with
  | nil => exact run
  | cons here _ ih =>
    obtain ⟨e, first, rest⟩ := bind_ok run
    rw [List.foldlM_cons, same _ _ _ _ here first]
    exact ih rest

theorem foldlM_idle {l : List τ} (idle : ∀ a ∈ l, ∀ d, step d a = .ok d) (d : δ) :
    l.foldlM step d = .ok d := by
  induction l with
  | nil => rfl
  | cons a l ih =>
    obtain ⟨here, later⟩ := List.forall_mem_cons.1 idle
    rw [List.foldlM_cons, here]
    exact ih later

/-- Other steps that do the same, some more that do nothing, and all in another order. -/
theorem foldlM_varied (exchanges : Exchanges step)
    (same : ∀ a b d e, R a b → step d a = .ok e → step d b = .ok e) {l l' added m : List τ}
    (each : List.Forall₂ R l l') (idle : ∀ a ∈ added, ∀ d, step d a = .ok d)
    (perm : (l' ++ added).Perm m) {d d' : δ} (run : l.foldlM step d = .ok d') :
    m.foldlM step d = .ok d' := by
  refine foldlM_perm exchanges perm ?_
  rw [List.foldlM_append, foldlM_same same each run]
  exact foldlM_idle idle d'

end

theorem mapM_same (read : τ → Except ε α) {R : τ → τ → Prop}
    (same : ∀ t u a, R t u → read t = .ok a → read u = .ok a) {ts us : List τ}
    (each : List.Forall₂ R ts us) {as : List α} (done : ts.mapM read = .ok as) :
    us.mapM read = .ok as := by
  induction each generalizing as with
  | nil => exact done
  | cons here _ ih =>
    rw [List.mapM_cons] at done ⊢
    obtain ⟨a, first, done⟩ := bind_ok done
    obtain ⟨rest, later, done⟩ := bind_ok done
    rw [same _ _ a here first, ok_bind, ih later]
    exact done

/-- What is read from one thing is read from another in its place. -/
def Read.Steady (read : Read τ α) (R : τ → τ → Prop) : Prop :=
  ∀ {recalled t u a}, R t u → read (freely recalled) t = .ok a → read (freely recalled) u = .ok a

namespace Form

/-- Every field of the form is filled when it is read, and fields of different names do not
depend on each other. -/
structure Orderly (form : Form τ α) : Prop where
  fills : ∀ f ∈ form.fields, ∀ {ctx t d d'}, f.read ctx t d = .ok d' → f.filled d' = true
  apart : ∀ f ∈ form.fields, ∀ g ∈ form.fields, f.name ≠ g.name → ∀ {ctx t d e},
    f.read ctx t d = .ok e → g.filled e = g.filled d ∧ ∀ {u e'}, g.read ctx u e = .ok e' →
      ∃ d', g.read ctx u d = .ok d' ∧ f.read ctx t d' = .ok e'

def Steady (form : Form τ α) (R : String → τ → τ → Prop) : Prop :=
  ∀ field ∈ form.fields, ∀ {recalled t u d d'}, R field.name t u →
    field.read (freely recalled) t d = .ok d' → field.read (freely recalled) u d = .ok d'

theorem filled_slot {name : String} {read : Read τ α} {ctx : Context} {t : τ} {d d' : Option α}
    (done : (slot name read).read ctx t d = .ok d') : (slot name read).filled d' = true := by
  obtain ⟨a, -, rfl⟩ := map_ok done
  rfl

theorem orderly_single {form : Form τ α} {field : Field τ form.Draft} (one : form.fields = [field])
    (fills : ∀ {ctx t d d'}, field.read ctx t d = .ok d' → field.filled d' = true) :
    form.Orderly where
  fills f mem ctx t d d' done := by
    rw [one] at mem
    obtain rfl := List.mem_singleton.1 mem
    exact fills done
  apart f own g other names := by
    rw [one] at own other
    rw [List.mem_singleton.1 own, List.mem_singleton.1 other] at names
    exact absurd rfl names

theorem orderly_required (name : String) (read : Read τ α) : (required name read).Orderly :=
  orderly_single rfl filled_slot

theorem orderly_optional (name : String) (read : Read τ α) (default : α) :
    (optional name read default).Orderly :=
  orderly_single rfl filled_slot

theorem orderly_and {f : Form τ α} {g : Form τ β} (left : f.Orderly) (right : g.Orderly) :
    (f.and g).Orderly where
  fills field mem ctx t d d' done := by
    obtain mem | mem := List.mem_append.1 mem
    · obtain ⟨field, own, rfl⟩ := List.mem_map.1 mem
      exact left.fills field own (Field.onLeft_ok.1 done).1
    · obtain ⟨field, own, rfl⟩ := List.mem_map.1 mem
      exact right.fills field own (Field.onRight_ok.1 done).1
  apart p own q other names ctx t d e done := by
    obtain own | own := List.mem_append.1 own <;> obtain other | other := List.mem_append.1 other
    all_goals
      obtain ⟨p, first, rfl⟩ := List.mem_map.1 own
      obtain ⟨q, second, rfl⟩ := List.mem_map.1 other
      obtain ⟨d₁, d₂⟩ := d
      obtain ⟨e₁, e₂⟩ := e
    · obtain ⟨read, rfl⟩ := Field.onLeft_ok.1 done
      obtain ⟨filled, apart⟩ := left.apart p first q second names read
      refine ⟨filled, fun {u e'} next => ?_⟩
      obtain ⟨next, rest⟩ := Field.onLeft_ok.1 next
      obtain ⟨d', next, read⟩ := apart next
      exact ⟨(d', _), Field.onLeft_ok.2 ⟨next, rfl⟩, Field.onLeft_ok.2 ⟨read, rest⟩⟩
    · obtain ⟨read, rfl⟩ := Field.onLeft_ok.1 done
      refine ⟨rfl, fun {u e'} next => ?_⟩
      obtain ⟨next, rest⟩ := Field.onRight_ok.1 next
      refine ⟨(d₁, e'.2), Field.onRight_ok.2 ⟨next, rfl⟩, Field.onLeft_ok.2 ⟨?_, rfl⟩⟩
      rw [rest]
      exact read
    · obtain ⟨read, rfl⟩ := Field.onRight_ok.1 done
      refine ⟨rfl, fun {u e'} next => ?_⟩
      obtain ⟨next, rest⟩ := Field.onLeft_ok.1 next
      refine ⟨(e'.1, d₂), Field.onLeft_ok.2 ⟨next, rfl⟩, Field.onRight_ok.2 ⟨?_, rfl⟩⟩
      rw [rest]
      exact read
    · obtain ⟨read, rfl⟩ := Field.onRight_ok.1 done
      obtain ⟨filled, apart⟩ := right.apart p first q second names read
      refine ⟨filled, fun {u e'} next => ?_⟩
      obtain ⟨next, rest⟩ := Field.onRight_ok.1 next
      obtain ⟨d', next, read⟩ := apart next
      exact ⟨(_, d'), Field.onRight_ok.2 ⟨next, rfl⟩, Field.onRight_ok.2 ⟨read, rest⟩⟩

theorem orderly_map {form : Form τ α} (orderly : form.Orderly) (h : α → β) :
    (form.map h).Orderly :=
  ⟨orderly.fills, orderly.apart⟩

/-- Members may be exchanged: one does not fill the field of the other, or both could not have
been read. -/
theorem Orderly.exchanges {form : Form τ α} (orderly : form.Orderly) (ctx : Context)
    (skip : τ → Except Fault Unit) : Exchanges (form.readMember ctx skip) := by
  intro d e f m n first second
  rw [readMember_iff] at first second
  obtain ⟨a, text, ⟨none, fine, rfl⟩ | ⟨p, found, empty, read⟩⟩ := first
  · exact ⟨f, readMember_iff.2 second, readMember_iff.2 ⟨a, text, .inl ⟨none, fine, rfl⟩⟩⟩
  obtain ⟨b, key, ⟨none, fine, rfl⟩ | ⟨q, found', empty', read'⟩⟩ := second
  · exact ⟨d, readMember_iff.2 ⟨b, key, .inl ⟨none, fine, rfl⟩⟩,
      readMember_iff.2 ⟨a, text, .inr ⟨p, found, empty, read⟩⟩⟩
  have own := List.mem_of_find?_eq_some found
  have other := List.mem_of_find?_eq_some found'
  have names : p.name ≠ q.name := by
    have here : p.name = a := by simpa using List.find?_some found
    have there : q.name = b := by simpa using List.find?_some found'
    rw [here, there]
    rintro rfl
    obtain rfl : p = q := Option.some.inj (found.symm.trans found')
    rw [orderly.fills p own read] at empty'
    cases empty'
  obtain ⟨same, later⟩ := orderly.apart p own q other names read
  obtain ⟨d', next, last⟩ := later read'
  refine ⟨d', readMember_iff.2 ⟨b, key, .inr ⟨q, found', same ▸ empty', next⟩⟩,
    readMember_iff.2 ⟨a, text, .inr ⟨p, found, ?_, last⟩⟩⟩
  rw [(orderly.apart q other p own names.symm next).1, empty]

section
variable {R : String → τ → τ → Prop}

theorem steady_slot {read : Read τ α} {name : String} (steady : read.Steady (R name)) :
    ∀ field ∈ [slot name read], ∀ {recalled t u d d'}, R field.name t u →
      field.read (freely recalled) t d = .ok d' → field.read (freely recalled) u d = .ok d' := by
  intro field mem recalled t u d d' same done
  obtain rfl := List.mem_singleton.1 mem
  obtain ⟨a, here, rfl⟩ := map_ok done
  exact congrArg (some <$> ·) (steady same here)

theorem steady_required {read : Read τ α} {name : String} (steady : read.Steady (R name)) :
    (required name read).Steady R := steady_slot steady

theorem steady_optional {read : Read τ α} {name : String} (steady : read.Steady (R name))
    (default : α) : (optional name read default).Steady R := steady_slot steady

theorem steady_and {f : Form τ α} {g : Form τ β} (left : f.Steady R) (right : g.Steady R) :
    (f.and g).Steady R := by
  intro field mem recalled t u d d' same done
  obtain mem | mem := List.mem_append.1 mem
  · obtain ⟨field, own, rfl⟩ := List.mem_map.1 mem
    obtain ⟨read, rest⟩ := Field.onLeft_ok.1 done
    exact Field.onLeft_ok.2 ⟨left field own same read, rest⟩
  · obtain ⟨field, own, rfl⟩ := List.mem_map.1 mem
    obtain ⟨read, rest⟩ := Field.onRight_ok.1 done
    exact Field.onRight_ok.2 ⟨right field own same read, rest⟩

theorem steady_map {form : Form τ α} (steady : form.Steady R) (h : α → β) : (form.map h).Steady R :=
  steady

def Replaces (R : String → τ → τ → Prop) (m n : Quoted × τ) : Prop :=
  n.1 = m.1 ∧ ∀ name, m.1.text = .ok name → R name m.2 n.2

variable {form : Form τ α} {recalled : Bool} {skip : τ → Except Fault Unit}

theorem readMember_same (steady : form.Steady R)
    (passes : ∀ name ∉ form.names, ∀ t u, R name t u → skip t = .ok () → skip u = .ok ())
    {m n : Quoted × τ} (replaces : Replaces R m n) {d d' : form.Draft}
    (done : form.readMember (freely recalled) skip d m = .ok d') :
    form.readMember (freely recalled) skip d n = .ok d' := by
  obtain ⟨key, t⟩ := m
  obtain ⟨_, u⟩ := n
  obtain ⟨rfl, same⟩ := replaces
  obtain ⟨name, text, ⟨none, fine, rfl⟩ | ⟨field, found, empty, read⟩⟩ := readMember_iff.1 done
  · have unknown : name ∉ form.names := by
      rw [find_names, none]
      nofun
    exact readMember_iff.2 ⟨name, text,
      .inl ⟨none, passes name unknown t u (same name text) fine, rfl⟩⟩
  · have own : field.name = name := by simpa using List.find?_some found
    have again := steady field (List.mem_of_find?_eq_some found) (own ▸ same name text) read
    exact readMember_iff.2 ⟨name, text, .inr ⟨field, found, empty, again⟩⟩

theorem ofMembers_varied (orderly : form.Orderly) (steady : form.Steady R)
    (passes : ∀ name ∉ form.names, ∀ t u, R name t u → skip t = .ok () → skip u = .ok ())
    {ms ms' added ns : List (Quoted × τ)} {ending : ObjectEnd} {a : α}
    (each : List.Forall₂ (Replaces R) ms ms')
    (idle : ∀ m ∈ added, ∃ name ∉ form.names, m.1.text = .ok name ∧ skip m.2 = .ok ())
    (perm : (ms' ++ added).Perm ns)
    (read : form.ofMembers (freely recalled) skip ms ending = .ok a) :
    form.ofMembers (freely recalled) skip ns ending = .ok a := by
  obtain ⟨d, run, rest⟩ := bind_ok read
  have again := foldlM_varied (orderly.exchanges (freely recalled) skip)
    (fun m n d e replaces => readMember_same steady passes replaces) each
    (fun m mem d => by
      obtain ⟨name, unknown, text, fine⟩ := idle m mem
      exact readMember_iff.2 ⟨name, text, .inl ⟨find_none unknown, fine, rfl⟩⟩) perm run
  rw [ofMembers, again]
  exact rest

def Along (R : String → τ → τ → Prop) : List String → List τ → List τ → Prop
  | _, [], us => us = []
  | [], _ :: ts, us => us.length = ts.length + 1
  | name :: names, t :: ts, us => ∃ u us', us = u :: us' ∧ R name t u ∧ Along R names ts us'

theorem readItems_along (steady : form.Steady R) {fields : List (Field τ form.Draft)}
    (own : fields ⊆ form.fields) {ts us : List τ} (along : Along R (fields.map Field.name) ts us)
    {d d' : form.Draft} {rest : Option (List τ)}
    (read : readItems (freely recalled) fields ts d = .ok (d', rest)) :
    ∃ rest', readItems (freely recalled) fields us d = .ok (d', rest') ∧
      rest'.map List.length = rest.map List.length := by
  induction fields generalizing ts us d with
  | nil =>
    cases read
    have length : us.length = ts.length := by
      cases ts with
      | nil => exact congrArg List.length (along : us = [])
      | cons t ts => exact along
    exact ⟨some us, rfl, congrArg some length⟩
  | cons field fields ih =>
    obtain ⟨mem, own⟩ := List.cons_subset.1 own
    cases ts with
    | nil =>
      obtain rfl : us = [] := along
      exact ⟨rest, read, rfl⟩
    | cons t ts =>
      obtain ⟨u, us, rfl, same, along⟩ := along
      obtain ⟨e, first, read⟩ := bind_ok read
      obtain ⟨rest', again, length⟩ := ih own along read
      refine ⟨rest', ?_, length⟩
      rw [readItems, steady field mem same first]
      exact again

theorem ofItems_along (steady : form.Steady R) {described : String} {ts us : List τ}
    {ending : ListEnd} {a : α} (along : Along R form.names ts us)
    (read : form.ofItems described (freely recalled) ts ending = .ok a) :
    form.ofItems described (freely recalled) us ending = .ok a := by
  obtain ⟨⟨d, extra⟩, run, read⟩ := bind_ok read
  obtain ⟨extra', again, length⟩ := readItems_along steady (List.Subset.refl _) along run
  have none : extra'.isNone = extra.isNone := by
    cases extra <;> cases extra' <;> first | rfl | cases length
  have left : (extra'.getD []).length = (extra.getD []).length := by
    cases extra <;> cases extra' <;> first | rfl | cases length | exact Option.some.inj length
  rw [ofItems, again, ok_bind]
  simp only [none, left]
  exact read

end

end Form
end SceneTree.Json
