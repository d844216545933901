import SceneTree.Proofs.Building
import SceneTree.Proofs.Exchange

/-! Other texts for the same thing. What a tree is read as says which of its parts are read as what,
and where members may be added that nothing looks at. A tree varies another if it comes from it by
adding such members and by changing the order of members, at any depth. -/
namespace SceneTree

/- What a value is read as. Everything that is no record, and no list of nodes, is plain. -/
inductive Role where
  | frame | viewport | root | nodes | node | point | plain
deriving DecidableEq

def Kind.parts : Kind → List (String × Role)
  | .material => [("id", .plain), ("ref", .plain), ("fill", .plain), ("stroke", .plain),
      ("strokeWidth", .plain), ("children", .nodes)]
  | .transform => [("matrix", .plain), ("children", .nodes)]
  | .circle => [("center", .point), ("radius", .plain)]
  | .line => [("start", .point), ("end", .point)]
  | .rectangle => [("center", .point), ("width", .plain), ("height", .plain)]
  | .image => [("url", .plain), ("position", .point), ("width", .plain), ("height", .plain)]

namespace Json

def Tree.kind? : Tree → Option Kind
  | .object members _ =>
    match Kind.ofMembers true (fun _ => .ok ()) none members with
    | .ok kind => kind
    | .error _ => none
  | .list (t :: _) _ => (Kind.read true t).toOption
  | .list [] _ | .word _ | .number _ | .string _ | .broken _ => none

end Json

open Json (Tree Quoted Member)

namespace Role

/-- The fields of the record that a tree is read as, in their order. -/
def parts (t : Tree) : Role → List (String × Role)
  | .frame => [("viewport", .viewport), ("background", .plain), ("root", .root)]
  | .viewport => [("halfWidth", .plain), ("halfHeight", .plain), ("scaleMode", .plain)]
  | .root => [("type", .plain), ("id", .plain), ("fill", .plain), ("stroke", .plain),
      ("strokeWidth", .plain), ("children", .nodes)]
  | .node => ("type", .plain) :: (t.kind?.map Kind.parts).getD []
  | .point => [("x", .plain), ("y", .plain)]
  | .nodes | .plain => []

def item : Role → Role
  | .nodes => .node
  | .frame | .viewport | .root | .node | .point | .plain => .plain

/-- Members that no field has the name of are passed over. -/
def passes : Role → Bool
  | .frame | .viewport | .root | .node | .point => true
  | .nodes | .plain => false

end Role

/- What a field is read as. -/
def partNamed (parts : List (String × Role)) (name : String) : Role :=
  (parts.lookup name).getD .plain

def partAt (parts : List (String × Role)) (key : Quoted) : Role :=
  match key.text with
  | .ok name => partNamed parts name
  | .error _ => .plain

theorem partAt_of_text {parts : List (String × Role)} {key : Quoted} {name : String}
    (text : key.text = .ok name) : partAt parts key = partNamed parts name := by
  rw [partAt, text]

/-- A member that may be added: its key is none of the names, and its value has no fault. -/
def Passed (names : List String) (m : Member) : Prop :=
  (∃ name ∉ names, m.1.text = .ok name) ∧ m.2.check none = .ok ()

mutual
/-- The second tree varies the first. -/
def Varied : Role → Tree → Tree → Prop
  | role, .list items ending, u => ∃ items', u = .list items' ending ∧
      VariedItems ((role.parts (.list items ending)).map Prod.snd) role.item items items'
  | role, .object members ending, u => ∃ members' added members'',
      u = .object members'' ending ∧
      VariedMembers (role.parts (.object members ending)) members members' ∧
      (members' ++ added).Perm members'' ∧ ∀ m ∈ added,
        role.passes ∧ Passed ((role.parts (.object members ending)).map Prod.fst) m
  | _, .word w, u => u = .word w
  | _, .number n, u => u = .number n
  | _, .string q, u => u = .string q
  | _, .broken b, u => u = .broken b

def VariedItems : List Role → Role → List Tree → List Tree → Prop
  | _, _, [], us => us = []
  | roles, other, t :: ts, us => ∃ u us', us = u :: us' ∧ Varied (roles.headD other) t u ∧
      VariedItems roles.tail other ts us'

def VariedMembers : List (String × Role) → List (Quoted × Tree) → List (Quoted × Tree) → Prop
  | _, [], ns => ns = []
  | parts, (key, t) :: ms, ns => ∃ u ns', ns = (key, u) :: ns' ∧ Varied (partAt parts key) t u ∧
      VariedMembers parts ms ns'
end

def MemberVaried (parts : List (String × Role)) (m n : Member) : Prop :=
  n.1 = m.1 ∧ Varied (partAt parts m.1) m.2 n.2

theorem variedMembers_iff {parts : List (String × Role)} {ms ns : List Member} :
    VariedMembers parts ms ns ↔ List.Forall₂ (MemberVaried parts) ms ns := by
  induction ms generalizing ns with
  | nil => simp [VariedMembers]
  | cons m ms ih =>
    simp only [VariedMembers, List.forall₂_cons_left_iff, ih, MemberVaried]
    constructor
    · rintro ⟨u, ns, rfl, here, later⟩
      exact ⟨(m.1, u), ns, ⟨rfl, here⟩, later, rfl⟩
    · rintro ⟨⟨_, u⟩, ns, ⟨rfl, here⟩, later, rfl⟩
      exact ⟨u, ns, rfl, here, later⟩

theorem forall₂_of_variedItems {roles : List Role} {other : Role} {ts us : List Tree}
    (varied : VariedItems roles other ts us) :
    List.Forall₂ (fun t u => ∃ role, Varied role t u) ts us := by
  induction ts generalizing roles us with
  | nil =>
    obtain rfl : us = [] := varied
    exact .nil
  | cons t ts ih =>
    obtain ⟨u, us, rfl, here, later⟩ := varied
    exact .cons ⟨_, here⟩ (ih later)

theorem forall₂_of_variedItems_nil {other : Role} {ts us : List Tree}
    (varied : VariedItems [] other ts us) : List.Forall₂ (Varied other) ts us := by
  induction ts generalizing us with
  | nil =>
    obtain rfl : us = [] := varied
    exact .nil
  | cons t ts ih =>
    obtain ⟨u, us, rfl, here, later⟩ := varied
    exact .cons here (ih later)

theorem forall_of_forall₂ {α : Type} {R : α → α → Prop} {P : α → Prop} {xs ys : List α}
    (each : List.Forall₂ R xs ys) (keeps : ∀ x ∈ xs, ∀ y, R x y → P y) : ∀ y ∈ ys, P y := by
  induction each with
  | nil => nofun
  | cons here _ ih =>
    obtain ⟨first, later⟩ := List.forall_mem_cons.1 keeps
    exact List.forall_mem_cons.2 ⟨first _ here, ih later⟩

theorem varied_refl (t : Tree) (role : Role) : Varied role t t := by
  induction t using Tree.ind generalizing role with
  | word w | number n | string q | broken b => rfl
  | list items ending ih =>
    refine ⟨items, rfl, ?_⟩
    generalize (role.parts (.list items ending)).map Prod.snd = roles
    induction items generalizing roles with
    | nil => rfl
    | cons t ts later =>
      obtain ⟨here, rest⟩ := List.forall_mem_cons.1 ih
      exact ⟨t, ts, rfl, here _, later rest _⟩
  | object members ending ih =>
    refine ⟨members, [], members, rfl, variedMembers_iff.2 ?_, by simp, nofun⟩
    exact List.forall₂_same.2 fun m mem => ⟨rfl, ih m mem _⟩

/-- What a tree has that all values and keys in it have, and the members that may be added, is had
by every variation of it. -/
theorem kept_varied {P : Tree → Prop} {K : Quoted → Prop} {L : Json.ListEnd → Prop}
    {O : Json.ObjectEnd → Prop}
    (list : ∀ items ending, P (.list items ending) ↔ (∀ t ∈ items, P t) ∧ L ending)
    (object : ∀ members ending,
      P (.object members ending) ↔ (∀ m ∈ members, K m.1 ∧ P m.2) ∧ O ending)
    (passes : ∀ names m, Passed names m → K m.1 ∧ P m.2)
    {role : Role} {t u : Tree} (varied : Varied role t u) (fine : P t) : P u := by
  induction t using Tree.ind generalizing role u with
  | word w | number n | string q | broken b =>
    obtain rfl := varied
    exact fine
  | list items ending ih =>
    obtain ⟨items', rfl, varied⟩ := varied
    obtain ⟨inside, last⟩ := (list _ _).1 fine
    refine (list _ _).2 ⟨forall_of_forall₂ (forall₂_of_variedItems varied) ?_, last⟩
    rintro t mem u ⟨role, varied⟩
    exact ih t mem varied (inside t mem)
  | object members ending ih =>
    obtain ⟨members', added, members'', rfl, varied, perm, passed⟩ := varied
    obtain ⟨inside, last⟩ := (object _ _).1 fine
    refine (object _ _).2 ⟨fun m mem => ?_, last⟩
    obtain mem | mem := List.mem_append.1 (perm.mem_iff.2 mem)
    · refine forall_of_forall₂ (P := fun n => K n.1 ∧ P n.2) (variedMembers_iff.1 varied) ?_ m mem
      rintro m mem ⟨key, u⟩ ⟨rfl, varied⟩
      exact ⟨(inside m mem).1, ih m mem varied (inside m mem).2⟩
    · exact passes _ m (passed m mem).2

theorem check_varied {role : Role} {t u : Tree} (varied : Varied role t u)
    (fine : t.check none = .ok ()) : u.check none = .ok () := by
  refine kept_varied (P := fun t => t.check none = .ok ())
    (K := fun key => ∃ name, key.text = .ok name) (fun _ _ => Tree.check_list)
    (fun _ _ => Tree.check_object) ?_ varied fine
  rintro names m ⟨⟨name, -, text⟩, fine⟩
  exact ⟨⟨name, text⟩, fine⟩

theorem skim_varied {role : Role} {t u : Tree} (varied : Varied role t u)
    (fine : t.skim = .ok ()) : u.skim = .ok () := by
  refine kept_varied (P := fun t => t.skim = .ok ()) (K := fun key => key.skim = .ok ())
    (fun _ _ => Tree.skim_list) (fun _ _ => Tree.skim_object) ?_ varied fine
  rintro names m ⟨⟨name, -, text⟩, fine⟩
  exact ⟨Quoted.skim_of_text text, m.2.skim_of_check fine⟩

end SceneTree
