import SceneTree.Proofs.Delimiting
import SceneTree.Proofs.Variation

/-! Frames read from other texts. A tree that varies another in its role is read as the same, by
every reader of that role: values first, then records, then nodes, and frames at last. -/
namespace SceneTree
open Json (Tree Read Form Quoted Member freely bind_ok map_ok lift_ok ok_bind)

namespace Json.Read
variable {α : Type}

theorem steady_number : number.Steady (Varied .plain) := by
  intro recalled t u a varied read
  cases t with
  | number n =>
    obtain rfl := varied
    exact read
  | list items ending | object members ending | word w | string q | broken b =>
    exact absurd read (Tree.mismatch_ne_ok _ _ _)

theorem steady_text : text.Steady (Varied .plain) := by
  intro recalled t u a varied read
  cases t with
  | string q =>
    obtain rfl := varied
    exact read
  | list items ending | object members ending | word w | number n | broken b =>
    exact absurd read (Tree.mismatch_ne_ok _ _ _)

theorem steady_nullable {read : Read Tree α} (steady : read.Steady (Varied .plain)) :
    (nullable read).Steady (Varied .plain) := by
  intro recalled t u a varied done
  cases t with
  | word w | number n | string q | broken b =>
    obtain rfl := varied
    exact done
  | list items ending =>
    obtain ⟨items', rfl, -⟩ := id varied
    obtain ⟨b, here, rfl⟩ := map_ok done
    exact congrArg (some <$> ·) (steady varied here)
  | object members ending =>
    obtain ⟨members', added, members'', rfl, -⟩ := id varied
    obtain ⟨b, here, rfl⟩ := map_ok done
    exact congrArg (some <$> ·) (steady varied here)

theorem steady_variant (known : List (String × α)) :
    (variant known).Steady (Varied .plain) := by
  intro recalled t u a varied read
  cases t with
  | object members ending =>
    obtain ⟨key, name, text, rfl, rfl⟩ := variant_object_ok read
    obtain ⟨members', added, members'', rfl, same, perm, passed⟩ := varied
    obtain ⟨_, _, rfl, rfl, rfl⟩ := same
    obtain rfl : added = [] :=
      List.eq_nil_iff_forall_not_mem.2 fun m mem => nomatch (passed m mem).1
    rw [List.append_nil, List.singleton_perm] at perm
    rw [← perm]
    exact read
  | list items ending => cases read
  | word w | number n | string q | broken b =>
    obtain rfl := varied
    exact read

end Json.Read

/-! Records. -/

section
variable {τ α β : Type} {R : Role → τ → τ → Prop} {parts : List (String × Role)}

theorem steady_required {role : Role} {name : String} (part : partNamed parts name = role)
    {read : Read τ α} (steady : read.Steady (R role)) :
    (Form.required name read).Steady fun name => R (partNamed parts name) :=
  Form.steady_required (part ▸ steady)

theorem steady_optional {role : Role} {name : String} (part : partNamed parts name = role)
    {read : Read τ α} (steady : read.Steady (R role)) (default : α) :
    (Form.optional name read default).Steady fun name => R (partNamed parts name) :=
  Form.steady_optional (part ▸ steady) default

end

theorem along_of_variedItems {parts own : List (String × Role)} {other : Role}
    (named : ∀ p ∈ own, partNamed parts p.1 = p.2) {ts us : List Tree}
    (varied : VariedItems (own.map Prod.snd) other ts us) :
    Form.Along (fun name => Varied (partNamed parts name)) (own.map Prod.fst) ts us := by
  induction own generalizing ts us with
  | nil =>
    cases ts with
    | nil => exact varied
    | cons t ts =>
      obtain ⟨u, us, rfl, -, later⟩ := varied
      exact congrArg (· + 1) (forall₂_of_variedItems later).length_eq.symm
  | cons p own ih =>
    obtain ⟨here, later⟩ := List.forall_mem_cons.1 named
    cases ts with
    | nil => exact varied
    | cons t ts =>
      obtain ⟨u, us, rfl, first, rest⟩ := varied
      refine ⟨u, us, rfl, ?_, ih later rest⟩
      change Varied (partNamed parts p.1) t u
      rw [here]
      exact first

theorem along_of_plain (names : List String) {ts us : List Tree}
    (varied : VariedItems [] .plain ts us) :
    Form.Along (fun name => Varied (partNamed [] name)) names ts us := by
  induction ts generalizing names us with
  | nil => cases names <;> exact varied
  | cons t ts ih =>
    cases names with
    | nil => exact (forall₂_of_variedItems varied).length_eq.symm
    | cons name names =>
      obtain ⟨u, us, rfl, first, rest⟩ := varied
      exact ⟨u, us, rfl, first, ih names rest⟩

theorem MemberVaried.replaces {parts : List (String × Role)} {m n : Member}
    (varied : MemberVaried parts m n) :
    Form.Replaces (fun name => Varied (partNamed parts name)) m n := by
  refine ⟨varied.1, fun name text => ?_⟩
  have here := varied.2
  rwa [partAt_of_text text] at here

theorem Json.Read.steady_record {α : Type} {form : Form Tree α} {role : Role}
    {parts : List (String × Role)} (own : ∀ t, role.parts t = parts)
    (names : form.names = parts.map Prod.fst) (named : ∀ p ∈ parts, partNamed parts p.1 = p.2)
    (orderly : form.Orderly) (steady : form.Steady fun name => Varied (partNamed parts name))
    (name : String) : (Read.record name form).Steady (Varied role) := by
  intro recalled t u a varied read
  cases t with
  | list items ending =>
    obtain ⟨items', rfl, varied⟩ := varied
    rw [own] at varied
    have along := along_of_variedItems named varied
    rw [← names] at along
    exact Form.ofItems_along steady along read
  | object members ending =>
    obtain ⟨members', added, members'', rfl, varied, perm, passed⟩ := varied
    rw [own] at varied
    simp only [own, ← names] at passed
    refine Form.ofMembers_varied orderly steady (fun _ _ _ _ => skim_varied)
      ((variedMembers_iff.1 varied).imp fun _ _ => MemberVaried.replaces) (fun m mem => ?_) perm
      read
    obtain ⟨-, ⟨name, unknown, text⟩, fine⟩ := passed m mem
    exact ⟨name, unknown, text, m.2.skim_of_check fine⟩
  | word w | number n | string q | broken b => exact absurd read (Tree.mismatch_ne_ok _ _ _)

open Json.Read in
theorem Point.steady_read : Point.read.Steady (Varied .point) :=
  steady_record (fun _ => rfl) rfl (by decide)
    (Form.orderly_map (Form.orderly_and (Form.orderly_required _ _) (Form.orderly_required _ _)) _)
    (Form.steady_map (Form.steady_and (steady_required rfl steady_number)
      (steady_required rfl steady_number)) _) _

open Json.Read in
theorem Viewport.steady_read : Viewport.read.Steady (Varied .viewport) :=
  steady_record (fun _ => rfl) rfl (by decide)
    (Form.orderly_map (Form.orderly_and (Form.orderly_required _ _)
      (Form.orderly_and (Form.orderly_required _ _) (Form.orderly_optional _ _ _))) _)
    (Form.steady_map (Form.steady_and (steady_required rfl steady_number)
      (Form.steady_and (steady_required rfl steady_number)
        (steady_optional rfl (steady_variant _) _))) _) _

/- Six numbers in a row. -/
open Json.Read in
theorem Affine.steady_read : Affine.read.Steady (Varied .plain) := by
  have form : Affine.form.Steady fun name => Varied (partNamed [] name) :=
    Form.steady_map (Form.steady_and (steady_required rfl steady_number)
      (Form.steady_and (steady_required rfl steady_number)
      (Form.steady_and (steady_required rfl steady_number)
      (Form.steady_and (steady_required rfl steady_number)
      (Form.steady_and (steady_required rfl steady_number)
        (steady_required rfl steady_number)))))) _
  intro recalled t u m varied read
  cases t with
  | list items ending =>
    obtain ⟨items', rfl, varied⟩ := varied
    exact Form.ofItems_along form (along_of_plain _ varied) read
  | object members ending | word w | number n | string q | broken b =>
    exact absurd read (Tree.mismatch_ne_ok _ _ _)

/-! Nodes. -/

namespace Kind

theorem read_varied {numbered : Bool} {t u : Tree} {k : Kind} (varied : Varied .plain t u)
    (done : read numbered t = .ok k) : read numbered u = .ok k := by
  cases t with
  | string q | number n =>
    obtain rfl := varied
    exact done
  | list items ending | object members ending | word w | broken b =>
    exact absurd done (Tree.mismatch_ne_ok _ _ _)

def ofMember (numbered : Bool) (other : Tree → Except Json.Fault Unit) (found : Option Kind)
    (m : Member) : Except Json.ReadError (Option Kind) := do
  let name ← m.1.text
  if name = typeKey then
    if found.isSome then throw (.duplicateField typeKey)
    return some (← read numbered m.2)
  else
    other m.2
    return found

theorem ofMembers_eq (numbered : Bool) (other : Tree → Except Json.Fault Unit)
    (found : Option Kind) (ms : List Member) :
    ofMembers numbered other found ms = ms.foldlM (ofMember numbered other) found := by
  induction ms generalizing found with
  | nil => rfl
  | cons m ms ih =>
    obtain ⟨key, t⟩ := m
    rw [List.foldlM_cons, ofMembers, ofMember]
    simp only [bind_assoc]
    refine bind_congr fun name => ?_
    split
    · split
      · rfl
      · simp only [bind_assoc]
        exact bind_congr fun k => ih _
    · simp only [bind_assoc]
      exact bind_congr fun _ => ih _

theorem ofMember_iff {numbered : Bool} {other : Tree → Except Json.Fault Unit}
    {found found' : Option Kind} {m : Member} :
    ofMember numbered other found m = .ok found' ↔ ∃ name, m.1.text = .ok name ∧
      (name = typeKey ∧ found = none ∧ (∃ k, read numbered m.2 = .ok k ∧ found' = some k) ∨
        name ≠ typeKey ∧ other m.2 = .ok () ∧ found' = found) := by
  constructor
  · intro done
    obtain ⟨name, text, done⟩ := bind_ok done
    refine ⟨name, lift_ok text, ?_⟩
    dsimp only at done
    split at done
    · rename_i type
      split at done
      · cases done
      · rename_i empty
        obtain ⟨k, here, same⟩ := bind_ok done
        cases same
        exact .inl ⟨type, by simpa using empty, k, here, rfl⟩
    · rename_i unlike
      obtain ⟨_, fine, same⟩ := bind_ok done
      cases same
      exact .inr ⟨unlike, lift_ok fine, rfl⟩
  · rintro ⟨name, text, ⟨rfl, rfl, k, here, rfl⟩ | ⟨unlike, fine, rfl⟩⟩
    · rw [ofMember, text, Json.lift_eq, ok_bind]
      simp only [here]
      rfl
    · rw [ofMember, text, Json.lift_eq, ok_bind]
      simp only [unlike, fine]
      rfl

theorem exchanges_ofMember (numbered : Bool) (other : Tree → Except Json.Fault Unit) :
    Json.Exchanges (ofMember numbered other) := by
  intro d e f m n first second
  rw [ofMember_iff] at first second
  obtain ⟨a, text, ⟨rfl, rfl, k, here, rfl⟩ | ⟨unlike, fine, rfl⟩⟩ := first
  · obtain ⟨b, key, ⟨rfl, none, -⟩ | ⟨unlike, fine, rfl⟩⟩ := second
    · cases none
    · exact ⟨none, ofMember_iff.2 ⟨b, key, .inr ⟨unlike, fine, rfl⟩⟩,
        ofMember_iff.2 ⟨_, text, .inl ⟨rfl, rfl, k, here, rfl⟩⟩⟩
  · exact ⟨f, ofMember_iff.2 second, ofMember_iff.2 ⟨a, text, .inr ⟨unlike, fine, rfl⟩⟩⟩

/-- The type is found in any order, and members that are passed over are none. -/
theorem ofMembers_varied {numbered : Bool} {other : Tree → Except Json.Fault Unit}
    (passes : ∀ role t u, Varied role t u → other t = .ok () → other u = .ok ())
    {parts : List (String × Role)} (known : typeKey ∈ parts.map Prod.fst)
    (type : partNamed parts typeKey = .plain) {ms ms' added ns : List Member}
    (varied : VariedMembers parts ms ms')
    (idle : ∀ m ∈ added, Passed (parts.map Prod.fst) m ∧ other m.2 = .ok ())
    (perm : (ms' ++ added).Perm ns) {found kind : Option Kind}
    (done : ofMembers numbered other found ms = .ok kind) :
    ofMembers numbered other found ns = .ok kind := by
  rw [ofMembers_eq] at done ⊢
  refine Json.foldlM_varied (exchanges_ofMember numbered other) ?_ (variedMembers_iff.1 varied) ?_
    perm done
  · rintro ⟨key, t⟩ ⟨_, u⟩ d e ⟨rfl, varied⟩ done
    obtain ⟨name, text, ⟨rfl, rfl, k, here, rfl⟩ | ⟨unlike, fine, rfl⟩⟩ := ofMember_iff.1 done
    · have plain : Varied .plain t u := by
        rwa [partAt_of_text text, type] at varied
      exact ofMember_iff.2 ⟨_, text, .inl ⟨rfl, rfl, k, read_varied plain here, rfl⟩⟩
    · exact ofMember_iff.2 ⟨name, text, .inr ⟨unlike, passes _ t u varied fine, rfl⟩⟩
  · intro m mem found
    obtain ⟨⟨⟨name, unknown, text⟩, -⟩, fine⟩ := idle m mem
    refine ofMember_iff.2 ⟨name, text, .inr ⟨?_, fine, rfl⟩⟩
    rintro rfl
    exact unknown known

end Kind

namespace Entry

/-- What `childrenOfTree` reads of a tree goes with it. -/
def ofTree (t : Tree) : Entry := ⟨t, fun _ => Node.childrenOfTree t⟩

/-- The tree varies, and where children are wanted they stay the same. -/
def Varied (role : Role) (e e' : Entry) : Prop :=
  SceneTree.Varied role e.tree e'.tree ∧
    (role = .nodes → ∀ kids, e.children () = .ok kids → e'.children () = .ok kids)

theorem steady_reads {α : Type} {role : Role} {read : Read Tree α}
    (steady : read.Steady (SceneTree.Varied role)) : (reads read).Steady (Varied role) :=
  fun varied done => steady varied.1 done

theorem steady_group {parts : List (String × Role)} (part : partNamed parts "children" = .nodes) :
    group.Steady fun name => Varied (partNamed parts name) :=
  steady_optional part (fun varied done => varied.2 rfl _ done) _

theorem steady_text {parts : List (String × Role)} {name : String}
    (part : partNamed parts name = .plain) :
    (text name).Steady fun name => Varied (partNamed parts name) :=
  steady_required part (steady_reads Read.steady_text)

theorem steady_number {parts : List (String × Role)} {name : String}
    (part : partNamed parts name = .plain) :
    (number name).Steady fun name => Varied (partNamed parts name) :=
  steady_required part (steady_reads Read.steady_number)

theorem steady_point {parts : List (String × Role)} {name : String}
    (part : partNamed parts name = .point) :
    (point name).Steady fun name => Varied (partNamed parts name) :=
  steady_required part (steady_reads Point.steady_read)

theorem steady_style {parts : List (String × Role)} (fill : partNamed parts "fill" = .plain)
    (stroke : partNamed parts "stroke" = .plain) (width : partNamed parts "strokeWidth" = .plain) :
    style.Steady fun name => Varied (partNamed parts name) :=
  Form.steady_map (Form.steady_and
    (steady_optional fill (steady_reads (Read.steady_nullable Read.steady_text)) _)
    (Form.steady_and
      (steady_optional stroke (steady_reads (Read.steady_nullable Read.steady_text)) _)
      (steady_optional width (steady_reads (Read.steady_nullable Read.steady_number)) _))) _

theorem orderly_style : style.Orderly :=
  Form.orderly_map (Form.orderly_and (Form.orderly_optional _ _ _)
    (Form.orderly_and (Form.orderly_optional _ _ _) (Form.orderly_optional _ _ _))) _

end Entry

namespace Kind

theorem names_form (k : Kind) : k.form.names = k.parts.map Prod.fst := by
  cases k <;> rfl

theorem orderly_form (k : Kind) : k.form.Orderly := by
  cases k <;> refine Form.orderly_map ?_ _
  case material =>
    exact Form.orderly_and (Form.orderly_required _ _) (Form.orderly_and (Form.orderly_required _ _)
      (Form.orderly_and Entry.orderly_style (Form.orderly_optional _ _ _)))
  case transform =>
    exact Form.orderly_and (Form.orderly_required _ _) (Form.orderly_optional _ _ _)
  case circle | line =>
    exact Form.orderly_and (Form.orderly_required _ _) (Form.orderly_required _ _)
  case rectangle =>
    exact Form.orderly_and (Form.orderly_required _ _)
      (Form.orderly_and (Form.orderly_required _ _) (Form.orderly_required _ _))
  case image =>
    exact Form.orderly_and (Form.orderly_required _ _) (Form.orderly_and (Form.orderly_required _ _)
      (Form.orderly_and (Form.orderly_required _ _) (Form.orderly_required _ _)))

theorem steady_form (k : Kind) :
    k.form.Steady fun name => Entry.Varied (partNamed (("type", .plain) :: k.parts) name) := by
  cases k <;> refine Form.steady_map ?_ _
  case material =>
    exact Form.steady_and (Entry.steady_text rfl) (Form.steady_and (Entry.steady_text rfl)
      (Form.steady_and (Entry.steady_style rfl rfl rfl) (Entry.steady_group rfl)))
  case transform =>
    exact Form.steady_and (steady_required rfl (Entry.steady_reads Affine.steady_read))
      (Entry.steady_group rfl)
  case circle => exact Form.steady_and (Entry.steady_point rfl) (Entry.steady_number rfl)
  case line => exact Form.steady_and (Entry.steady_point rfl) (Entry.steady_point rfl)
  case rectangle =>
    exact Form.steady_and (Entry.steady_point rfl)
      (Form.steady_and (Entry.steady_number rfl) (Entry.steady_number rfl))
  case image =>
    exact Form.steady_and (Entry.steady_text rfl) (Form.steady_and (Entry.steady_point rfl)
      (Form.steady_and (Entry.steady_number rfl) (Entry.steady_number rfl)))

end Kind

namespace Node

theorem entriesOfItems_eq (ts : List Tree) : entriesOfItems ts = ts.map Entry.ofTree := by
  induction ts with
  | nil => rfl
  | cons t ts ih => rw [entriesOfItems, ih]; rfl

theorem entriesOfMembers_eq (ms : List Member) :
    entriesOfMembers ms = ms.map (Prod.map id Entry.ofTree) := by
  induction ms with
  | nil => rfl
  | cons m ms ih => rw [entriesOfMembers, ih]; rfl

/-- What varies as children is read as the same children. -/
def KidsKept (t : Tree) : Prop :=
  ∀ u kids, Varied .nodes t u → childrenOfTree t = .ok kids → childrenOfTree u = .ok kids

/-- What varies as a node is read as the same node. -/
def Kept (t : Tree) : Prop := ∀ u n, Varied .node t u → ofTree t = .ok n → ofTree u = .ok n

theorem KidsKept.entry {t u : Tree} (kept : KidsKept t) {role : Role} (varied : Varied role t u) :
    Entry.Varied role (Entry.ofTree t) (Entry.ofTree u) := by
  refine ⟨varied, ?_⟩
  rintro rfl kids
  exact kept u kids varied

theorem KidsKept.along {parts : List (String × Role)} {names : List String} {ts us : List Tree}
    (kept : ∀ t ∈ ts, KidsKept t)
    (along : Form.Along (fun name => Varied (partNamed parts name)) names ts us) :
    Form.Along (fun name => Entry.Varied (partNamed parts name)) names (ts.map Entry.ofTree)
      (us.map Entry.ofTree) := by
  induction ts generalizing names us with
  | nil =>
    have none : us = [] := by cases names <;> exact along
    subst none
    cases names <;> rfl
  | cons t ts ih =>
    obtain ⟨here, later⟩ := List.forall_mem_cons.1 kept
    cases names with
    | nil =>
      have length : us.length = ts.length + 1 := along
      simpa [Form.Along] using length
    | cons name names =>
      obtain ⟨u, us, rfl, first, rest⟩ := along
      exact ⟨_, _, rfl, here.entry first, ih later rest⟩

theorem KidsKept.members {parts : List (String × Role)} {ms ns : List Member}
    (kept : ∀ m ∈ ms, KidsKept m.2) (varied : List.Forall₂ (MemberVaried parts) ms ns) :
    List.Forall₂ (Form.Replaces fun name => Entry.Varied (partNamed parts name))
      (ms.map (Prod.map id Entry.ofTree)) (ns.map (Prod.map id Entry.ofTree)) := by
  induction varied with
  | nil => exact .nil
  | cons first _ ih =>
    obtain ⟨here, later⟩ := List.forall_mem_cons.1 kept
    refine .cons ⟨first.1, fun name text => here.entry ?_⟩ (ih later)
    exact first.replaces.2 name text

theorem kids_kept {items : List Tree} {ending : Json.ListEnd} (kept : ∀ t ∈ items, Kept t) :
    KidsKept (.list items ending) := by
  rintro _ kids ⟨items', rfl, varied⟩ done
  change ofTrees items = .ok kids at done
  change ofTrees items' = .ok kids
  replace varied : VariedItems [] .node items items' := varied
  induction items generalizing items' kids with
  | nil =>
    obtain rfl : items' = [] := varied
    exact done
  | cons t ts ih =>
    obtain ⟨here, later⟩ := List.forall_mem_cons.1 kept
    obtain ⟨u, us, rfl, first, rest⟩ := varied
    obtain ⟨n, node, done⟩ := bind_ok done
    obtain ⟨ns, others, same⟩ := bind_ok done
    cases same
    rw [ofTrees, here u n first node, ih later ns us others rest]
    rfl

theorem list_kept {items : List Tree} {ending : Json.ListEnd} (kept : ∀ t ∈ items, KidsKept t) :
    Kept (.list items ending) := by
  rintro _ n ⟨items', rfl, varied⟩ done
  cases items with
  | nil => cases done
  | cons t ts =>
    obtain ⟨k, kind, done⟩ := bind_ok done
    have parts : Role.parts (.list (t :: ts) ending) .node = ("type", .plain) :: k.parts := by
      rw [Role.parts, Json.Tree.kind?, kind]
      rfl
    rw [parts] at varied
    obtain ⟨u, us, rfl, type, rest⟩ := varied
    have named : ∀ p ∈ k.parts, partNamed (("type", .plain) :: k.parts) p.1 = p.2 := by
      cases k <;> decide
    have along := KidsKept.along (List.forall_mem_cons.1 kept).2 (along_of_variedItems named rest)
    rw [← k.names_form] at along
    rw [entriesOfItems_eq] at done
    rw [ofTree, Kind.read_varied type kind, ok_bind, entriesOfItems_eq]
    change k.form.ofItems _ (freely true) _ ending = _ at done
    exact Form.ofItems_along k.steady_form along done

theorem object_kept {members : List Member} {ending : Json.ObjectEnd}
    (kept : ∀ m ∈ members, KidsKept m.2) : Kept (.object members ending) := by
  rintro _ n ⟨members', added, members'', rfl, varied, perm, passed⟩ done
  obtain ⟨kind, found, done⟩ := bind_ok done
  cases kind with
  | none => cases done
  | some k =>
    have parts : Role.parts (.object members ending) .node = ("type", .plain) :: k.parts := by
      rw [Role.parts, Json.Tree.kind?, found]
      rfl
    simp only [parts] at varied passed
    have found := Kind.ofMembers_varied (fun _ _ _ _ _ => rfl) (by simp [typeKey]) rfl varied
      (fun m mem => ⟨(passed m mem).2, rfl⟩) perm found
    change k.form.ofMembers recalled (fun _ => .ok ()) (entriesOfMembers members) ending = _ at done
    rw [ofTree, found, ok_bind]
    change k.form.ofMembers recalled (fun _ => .ok ()) (entriesOfMembers members'') ending = _
    rw [entriesOfMembers_eq] at done ⊢
    have perm := perm.map (Prod.map id Entry.ofTree)
    rw [List.map_append] at perm
    change k.form.ofMembers (freely true) _ _ ending = _ at done
    refine Form.ofMembers_varied k.orderly_form k.steady_form (fun _ _ _ _ _ _ => rfl)
      (KidsKept.members kept (variedMembers_iff.1 varied)) ?_ perm done
    intro e mem
    obtain ⟨m, own, rfl⟩ := List.mem_map.1 mem
    obtain ⟨-, ⟨name, unknown, text⟩, -⟩ := passed m own
    rw [k.names_form]
    exact ⟨name, fun known => unknown (List.mem_cons_of_mem _ known), text, rfl⟩

theorem kept (t : Tree) : Kept t ∧ KidsKept t := by
  induction t using Tree.ind with
  | word w | number n | string q | broken b =>
    exact ⟨fun _ _ _ done => absurd done (Tree.mismatch_ne_ok _ _ _),
      fun _ _ _ done => absurd done (Tree.mismatch_ne_ok _ _ _)⟩
  | list items ending ih =>
    exact ⟨list_kept fun t mem => (ih t mem).2, kids_kept fun t mem => (ih t mem).1⟩
  | object members ending ih =>
    exact ⟨object_kept fun m mem => (ih m mem).2,
      fun _ _ _ done => absurd done (Tree.mismatch_ne_ok _ _ _)⟩

theorem judge_varied {recalled : Bool} {t u : Tree} (varied : Varied .node t u)
    (done : judge (freely recalled) t = .ok ()) : judge (freely recalled) u = .ok () := by
  cases t with
  | object members ending =>
    obtain ⟨members', added, members'', rfl, varied, perm, passed⟩ := varied
    obtain ⟨ctx, enter, done⟩ := bind_ok done
    cases enter
    obtain ⟨kind, found, done⟩ := bind_ok done
    have again := Kind.ofMembers_varied (fun _ _ _ => check_varied) (by simp [Role.parts, typeKey])
      rfl varied (fun m mem => ⟨(passed m mem).2, (passed m mem).2.2⟩) perm found
    change (Kind.ofMembers false (Tree.check none) none members'' >>= _) = _
    rw [again, ok_bind]
    exact done
  | list items ending =>
    obtain ⟨items', rfl, varied⟩ := varied
    cases items with
    | nil =>
      obtain rfl : items' = [] := varied
      exact done
    | cons t ts =>
      obtain ⟨u, us, rfl, type, rest⟩ := varied
      obtain ⟨ctx, enter, done⟩ := bind_ok done
      cases enter
      obtain ⟨_, kind, done⟩ := bind_ok done
      obtain ⟨k, kind, -⟩ := map_ok kind
      obtain ⟨_, fine, last⟩ := bind_ok done
      have again := Kind.read_varied type kind
      have fine : Tree.checkItems none us = .ok () := by
        refine Tree.checkItems_iff.2 (forall_of_forall₂ (forall₂_of_variedItems rest) ?_)
        rintro t mem u ⟨_, varied⟩
        exact check_varied varied (Tree.checkItems_iff.1 (lift_ok fine) t mem)
      change (discard (Kind.read false u) >>= _) = _
      rw [again]
      change (liftM (Tree.checkItems none us) >>= _ : Except Json.ReadError Unit) = _
      rw [fine]
      exact last
  | word w | number n | string q | broken b => exact absurd done (Tree.mismatch_ne_ok _ _ _)

theorem steady_read : Node.read.Steady (Varied .node) := by
  intro recalled t u n varied done
  obtain ⟨_, judged, done⟩ := bind_ok done
  rw [read, judge_varied varied judged, ok_bind]
  exact (kept t).1 u n varied done

end Node

theorem Json.Read.steady_list {α : Type} {read : Read Tree α}
    (steady : read.Steady (Varied .node)) : (Read.list read).Steady (Varied .nodes) := by
  intro recalled t u as varied done
  cases t with
  | list items ending =>
    obtain ⟨items', rfl, varied⟩ := varied
    obtain ⟨ctx, enter, done⟩ := bind_ok done
    cases enter
    obtain ⟨bs, done, last⟩ := bind_ok done
    have again := Json.mapM_same (read (freely recalled)) (fun t u a => steady)
      (forall₂_of_variedItems_nil varied) done
    change (items'.mapM (read (freely recalled)) >>= _) = _
    rw [again]
    exact last
  | object members ending | word w | number n | string q | broken b =>
    exact absurd done (Tree.mismatch_ne_ok _ _ _)

open Json.Read in
theorem Root.steady_read : Root.read.Steady (Varied .root) := by
  have form : (record "RootMaterialDef" Root.form).Steady (Varied .root) :=
    steady_record (fun _ => rfl) rfl (by decide)
      (Form.orderly_map (Form.orderly_and (Form.orderly_required _ _)
        (Form.orderly_and (Form.orderly_required _ _) (Form.orderly_and (Form.orderly_required _ _)
        (Form.orderly_and (Form.orderly_required _ _) (Form.orderly_and (Form.orderly_required _ _)
          (Form.orderly_optional _ _ _)))))) _)
      (Form.steady_map (Form.steady_and (steady_required rfl (steady_variant _))
        (Form.steady_and (steady_required rfl steady_text)
        (Form.steady_and (steady_required rfl steady_text)
        (Form.steady_and (steady_required rfl steady_text)
        (Form.steady_and (steady_required rfl steady_number)
          (steady_optional rfl (steady_list Node.steady_read) _)))))) _) _
  intro recalled t u root varied done
  obtain ⟨read, here, done⟩ := bind_ok done
  rw [Root.read, form varied here, ok_bind]
  exact done

open Json.Read in
theorem Frame.steady_read : Frame.read.Steady (Varied .frame) :=
  steady_record (fun _ => rfl) rfl (by decide)
    (Form.orderly_map (Form.orderly_and (Form.orderly_required _ _)
      (Form.orderly_and (Form.orderly_optional _ _ _) (Form.orderly_required _ _))) _)
    (Form.steady_map (Form.steady_and (steady_required rfl Viewport.steady_read)
      (Form.steady_and (steady_optional rfl (steady_nullable steady_text) _)
        (steady_required rfl Root.steady_read))) _) _

/-- Reading does not depend on the order of members, on white space or on members that are passed
over: every text of every variation of the tree is read as the same frame. -/
theorem Frame.ofText_varied {s : String} {f : Frame Unit} (read : ofText s = .ok f) :
    (∃ t : Tree, t.Spelled s.toList) ∧ ∀ (t u : Tree) (s' : String), t.Spelled s.toList →
      Varied .frame t u → u.Spelled s'.toList → ofText s' = .ok f := by
  obtain ⟨v, spelled, here⟩ := spelled_of_ofText read
  refine ⟨⟨v, spelled⟩, fun t u s' from_ varied to_ => ?_⟩
  obtain rfl : t = v := congrArg Prod.fst (from_.parsed.symm.trans spelled.parsed)
  exact ofText_of_parsed to_.parsed (steady_read varied here)

namespace Json

theorem spelled_text {j : Json} (plain : j.countless) : j.tree.Spelled j.text.toList :=
  Tree.spelled_of_ofText (ofText_text j) (Tree.whole_of_check _ (check_tree j plain))

theorem spelled_prettyText {j : Json} (plain : j.countless) : j.tree.Spelled j.prettyText.toList :=
  Tree.spelled_of_ofText (ofText_prettyText j) (Tree.whole_of_check _ (check_tree j plain))

end Json

/-- A member that is written, with a value that varies. -/
def WrittenVaried (parts : List (String × Role)) (m n : String × Json) : Prop :=
  n.1 = m.1 ∧ Varied (partNamed parts m.1) m.2.tree n.2.tree

theorem varied_written {role : Role} {ms ms' added ns : List (String × Json)}
    {parts : List (String × Role)} (own : role.parts (Json.object ms).tree = parts)
    (each : List.Forall₂ (WrittenVaried parts) ms ms') (perm : (ms' ++ added).Perm ns)
    (passed : ∀ m ∈ added, role.passes ∧ m.1 ∉ parts.map Prod.fst ∧ m.2.countless) :
    Varied role (Json.object ms).tree (Json.object ns).tree := by
  have trees (ms : List (String × Json)) :
      Json.memberTrees ms = ms.map fun m => (Quoted.of m.1, m.2.tree) := by
    rw [Json.memberTrees_eq, Json.written, List.map_map]
    rfl
  refine ⟨Json.memberTrees ms', Json.memberTrees added, Json.memberTrees ns, rfl,
    variedMembers_iff.2 ?_, ?_, ?_⟩
  · change List.Forall₂ (MemberVaried (role.parts (Json.object ms).tree)) _ _
    rw [own, trees, trees, List.forall₂_map_left_iff, List.forall₂_map_right_iff]
    refine each.imp ?_
    rintro m n ⟨key, varied⟩
    refine ⟨congrArg Quoted.of key, ?_⟩
    rwa [partAt_of_text (Quoted.text_of m.1)]
  · rw [trees, trees, trees, ← List.map_append]
    exact perm.map _
  · change ∀ e ∈ _, _ ∧ Passed ((role.parts (Json.object ms).tree).map Prod.fst) e
    rw [own, trees]
    intro e mem
    obtain ⟨m, added, rfl⟩ := List.mem_map.1 mem
    obtain ⟨passes, unknown, plain⟩ := passed m added
    exact ⟨passes, ⟨m.1, unknown, Quoted.text_of m.1⟩, Json.check_tree m.2 plain⟩

theorem Frame.ofText_varied_reversed :
    let origin : List (String × Json) := [("x", .number 0), ("y", .number 0)]
    let circle (center : List (String × Json)) : List (String × Json) :=
      [("type", .string "circle"), ("center", .object center), ("radius", .number 3)]
    let root (kid : List (String × Json)) : List (String × Json) :=
      [("type", .string "material"), ("id", .string "root"), ("fill", .string "a"),
        ("stroke", .string "b"), ("strokeWidth", .number 1), ("children", .list [.object kid])]
    let viewport : Json := .object [("halfWidth", .number 2), ("halfHeight", .number 1)]
    let frame (root : List (String × Json)) : List (String × Json) :=
      [("viewport", viewport), ("root", .object root)]
    let written : Json := .object (frame (root (circle origin)))
    let other : Json := .object (("version", .number 1.5) ::
      (frame (root (("note", .list []) :: (circle origin.reverse).reverse)).reverse).reverse)
    ∃ f, ofText written.text = .ok f ∧ ofText other.prettyText = .ok f := by
  intro origin circle root viewport frame written other
  have reversed (ms : List (String × Json)) : (ms ++ []).Perm ms.reverse := by
    rw [List.append_nil]
    exact (List.reverse_perm ms).symm
  have added (m : String × Json) (ms : List (String × Json)) :
      (ms ++ [m]).Perm (m :: ms.reverse) :=
    List.perm_append_comm.trans ((List.reverse_perm ms).symm.cons m)
  have centers : Varied .point (Json.object origin).tree (Json.object origin.reverse).tree :=
    varied_written rfl (List.forall₂_same.2 fun m _ => ⟨rfl, varied_refl _ _⟩) (reversed _) nofun
  have circles : Varied .node (Json.object (circle origin)).tree
      (Json.object (("note", .list []) :: (circle origin.reverse).reverse)).tree := by
    have own : Role.parts (Json.object (circle origin)).tree .node =
        ("type", .plain) :: Kind.circle.parts := rfl
    have each : List.Forall₂ (WrittenVaried (("type", .plain) :: Kind.circle.parts))
        (circle origin) (circle origin.reverse) :=
      .cons ⟨rfl, varied_refl _ _⟩ (.cons ⟨rfl, centers⟩ (.cons ⟨rfl, varied_refl _ _⟩ .nil))
    refine varied_written own each (added _ _) ?_
    simp [Role.passes, Kind.parts, Json.countless, Json.countlessItems]
  have roots : Varied .root (Json.object (root (circle origin))).tree (Json.object
      (root (("note", .list []) :: (circle origin.reverse).reverse)).reverse).tree := by
    have kids : Varied .nodes (Json.list [.object (circle origin)]).tree
        (Json.list [.object (("note", .list []) :: (circle origin.reverse).reverse)]).tree :=
      ⟨_, rfl, _, _, rfl, circles, rfl⟩
    have each : List.Forall₂ (WrittenVaried (Role.root.parts (.word .null)))
        (root (circle origin))
        (root (("note", .list []) :: (circle origin.reverse).reverse)) :=
      .cons ⟨rfl, varied_refl _ _⟩ (.cons ⟨rfl, varied_refl _ _⟩ (.cons ⟨rfl, varied_refl _ _⟩
        (.cons ⟨rfl, varied_refl _ _⟩ (.cons ⟨rfl, varied_refl _ _⟩ (.cons ⟨rfl, kids⟩ .nil)))))
    exact varied_written rfl each (reversed _) nofun
  have frames : Varied .frame written.tree other.tree := by
    have each : List.Forall₂ (WrittenVaried (Role.frame.parts (.word .null)))
        (frame (root (circle origin)))
        (frame (root (("note", .list []) :: (circle origin.reverse).reverse)).reverse) :=
      .cons ⟨rfl, varied_refl _ _⟩ (.cons ⟨rfl, roots⟩ .nil)
    refine varied_written rfl each (added _ _) ?_
    simp [Role.passes, Role.parts, Json.countless]
  obtain ⟨f, read⟩ := Json.exists_ok (by decide +kernel : (ofText written.text).toOption.isSome)
  exact ⟨f, read, (ofText_varied read).2 written.tree other.tree _ (Json.spelled_text rfl) frames
    (Json.spelled_prettyText rfl)⟩

end SceneTree
