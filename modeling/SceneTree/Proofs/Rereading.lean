import SceneTree.Failure
import SceneTree.Frame.Writing
import SceneTree.Proofs.Materials
import SceneTree.Proofs.Records

/-! Frames read back. What comes back from the text of a frame is the frame itself, each number
replaced by the value that is read from its own text. A number that is not finite does not come
back: where it may be missing it is missing, elsewhere nothing is read at all. -/
namespace SceneTree
open Json (Read Form Tree Context Quoted written)
variable {ι : Type}

namespace Json

/-- What the reader gives for the text of a number. -/
def recovered (x : Float) : Option Float :=
  (Read.whole Read.number none ((numberText x).map .char)).toOption

/- Reading that goes on as deep as it likes, from the text or from what was read in full. -/
def freely (recalled : Bool) : Context := ⟨none, recalled⟩

theorem whole_of_tree {α : Type} (read : Read Tree α) {text : List Symbol} {t : Tree}
    (parsed : Tree.ofText text = (t, false)) : read.whole none text = read (freely false) t := by
  cases result : read (freely false) t with
  | error e | ok a =>
    have result : read ⟨none, false⟩ t = _ := result
    simp [Read.whole, parsed, result, bind, Except.bind, pure, Except.pure]

theorem read_number (ctx : Context) (x : Float) :
    (Read.number ctx (numberTree x)).toOption = recovered x := by
  have text : (numberText x).map .char = Symbol.ofString (Json.number x).text := by
    rw [Json.text, Symbol.ofString, String.toList_ofList, compact, List.append_nil]
  rw [recovered, text, whole_of_tree _ (ofText_text _)]
  rfl

theorem isSome_recovered (x : Float) : (recovered x).isSome = x.isFinite := by
  rw [← read_number (freely false), numberTree]
  cases finite : x.isFinite with
  | false => rfl
  | true =>
    obtain ⟨v, value⟩ := Option.isSome_iff_exists.1 (Numeral.ofFloat_isSome finite)
    simp [Read.number, value]

theorem read_nullable_number (ctx : Context) (x : Float) :
    (Read.nullable Read.number ctx (numberTree x)).toOption = some (recovered x) := by
  have value := read_number ctx x
  have some := isSome_recovered x
  rw [numberTree] at value ⊢
  cases finite : x.isFinite with
  | false =>
    rw [finite, Option.isSome_eq_false_iff, Option.isNone_iff_eq_none] at some
    rw [some]
    rfl
  | true =>
    rw [finite, Option.isSome_iff_exists] at some
    obtain ⟨v, here⟩ := some
    rw [finite] at value
    rw [here] at value ⊢
    change (_ <$> Read.number ctx _).toOption = _
    rw [toOption_map, value]
    rfl

theorem read_text (ctx : Context) (s : String) : Read.text ctx (.string (.of s)) = .ok s := by
  rw [Read.text, Quoted.text_of]
  rfl

theorem read_nullable_text (ctx : Context) (s : String) :
    Read.nullable Read.text ctx (.string (.of s)) = .ok (some s) := by
  change some <$> Read.text ctx _ = _
  rw [read_text]
  rfl

theorem memberTrees_eq (ms : List (String × Json)) :
    memberTrees ms = written (ms.map (Prod.map id tree)) := by
  induction ms with
  | nil => rfl
  | cons m ms ih => simp [memberTrees, written, ih]

theorem read_record {α : Type} (name : String) (form : Form Tree α) (recalled : Bool)
    (ms : List (String × Json)) :
    (Read.record name form (freely recalled) (tree (.object ms))).toOption =
      form.takes (freely recalled) Tree.skim (ms.map (Prod.map id tree)) := by
  rw [Form.takes, ← memberTrees_eq]
  rfl

end Json

open Json (recovered freely)

def Point.recovered (p : Point) : Option Point :=
  return ⟨← Json.recovered p.x, ← Json.recovered p.y⟩

def Affine.recovered (m : Affine) : Option Affine :=
  return ⟨← Json.recovered m.a, ← Json.recovered m.b, ← Json.recovered m.c, ← Json.recovered m.d,
    ← Json.recovered m.e, ← Json.recovered m.f⟩

/-- A width that is not finite is written `null`, and comes back as one that is not set. -/
def Style.recovered (s : Style) : Style :=
  { s with strokeWidth := s.strokeWidth.bind Json.recovered }

def Shape.recovered : Shape → Option Shape
  | .circle c r => return .circle (← c.recovered) (← Json.recovered r)
  | .line s t => return .line (← s.recovered) (← t.recovered)
  | .rectangle c w h => return .rectangle (← c.recovered) (← Json.recovered w) (← Json.recovered h)
  | .image u p w h => return .image u (← p.recovered) (← Json.recovered w) (← Json.recovered h)

def Head.recovered : Head → Option Head
  | .material m => some (.material { m with style := m.style.recovered })
  | .transform m => return .transform (← m.recovered)

namespace Node

mutual
def recovered : Node ι → Option (Node Unit)
  | .shape _ s => return .shape () (← s.recovered)
  | .group _ h kids => return .group () (← h.recovered) (← recoveredAll kids)

def recoveredAll : List (Node ι) → Option (List (Node Unit))
  | [] => some []
  | n :: ns => return (← n.recovered) :: (← recoveredAll ns)
end

end Node

def Viewport.recovered (v : Viewport) : Option Viewport :=
  return ⟨← Json.recovered v.halfWidth, ← Json.recovered v.halfHeight, v.scaleMode⟩

def Paint.recovered (p : Paint) : Option Paint :=
  return { p with strokeWidth := ← Json.recovered p.strokeWidth }

def Root.recovered (r : Root ι) : Option (Root Unit) :=
  return ⟨(), ← r.paint.recovered, ← Node.recoveredAll r.children⟩

def Frame.recovered (f : Frame ι) : Option (Frame Unit) :=
  return ⟨← f.viewport.recovered, f.background, ← f.root.recovered⟩

theorem Point.read_toJson (recalled : Bool) (p : Point) :
    (Point.read (freely recalled) p.toJson.tree).toOption = p.recovered := by
  rw [Point.read, toJson, Json.read_record, form, Form.takes_map]
  simp only [List.map_cons, List.map_nil, Prod.map, id]
  rw [Form.takes_required_and _ _ _ _ _ _ (by simp), Form.takes_required, Json.tree, Json.tree,
    Json.read_number, Json.read_number, recovered]
  cases Json.recovered p.x <;> cases Json.recovered p.y <;> rfl

theorem Affine.read_toJson (recalled : Bool) (m : Affine) :
    (Affine.read (freely recalled) m.toJson.tree).toOption = m.recovered := by
  rw [recovered]
  simp only [← Json.read_number (freely recalled)]
  change (Affine.read (freely recalled) (.list [Json.numberTree m.a, Json.numberTree m.b,
    Json.numberTree m.c, Json.numberTree m.d, Json.numberTree m.e, Json.numberTree m.f]
    .closed)).toOption = _
  have enter : (freely recalled).enter = .ok (freely recalled) := rfl
  simp only [Affine.read, Read.tuple, enter, bind, Except.bind, Form.ofItems, form, Form.and,
    Form.required, Form.map, Form.slot, Json.Field.onLeft, Json.Field.onRight, List.map_cons,
    List.map_nil, List.cons_append, List.nil_append, Form.readItems]
  generalize Read.number (freely recalled) (Json.numberTree m.a) = a
  generalize Read.number (freely recalled) (Json.numberTree m.b) = b
  generalize Read.number (freely recalled) (Json.numberTree m.c) = c
  generalize Read.number (freely recalled) (Json.numberTree m.d) = d
  generalize Read.number (freely recalled) (Json.numberTree m.e) = e
  generalize Read.number (freely recalled) (Json.numberTree m.f) = f
  -- the numbers are read in order, and the first that is none ends the reading
  obtain _ | _ := a
  · rfl
  obtain _ | _ := b
  · rfl
  obtain _ | _ := c
  · rfl
  obtain _ | _ := d
  · rfl
  obtain _ | _ := e
  · rfl
  cases f <;> rfl

namespace Entry

def of (j : Json) : Entry := ⟨j.tree, fun _ => Node.childrenOfTree j.tree⟩

theorem ofMembers_memberTrees (ms : List (String × Json)) :
    Node.entriesOfMembers (Json.memberTrees ms) = written (ms.map (Prod.map id of)) := by
  induction ms with
  | nil => rfl
  | cons m ms ih => simp [Json.memberTrees, Node.entriesOfMembers, written, of, ih]

end Entry

namespace Kind

theorem read_name (numbered : Bool) (k : Kind) :
    Kind.read numbered (.string (.of k.name)) = .ok k := by
  rw [Kind.read, Quoted.text_of]
  cases k <;> rfl

theorem ofMembers_untyped {numbered : Bool} {other : Tree → Except Json.Fault Unit}
    {found : Option Kind} {ms : List (String × Json)} (untyped : ∀ m ∈ ms, m.1 ≠ typeKey)
    (fine : ∀ m ∈ ms, other m.2.tree = .ok ()) :
    Kind.ofMembers numbered other found (Json.memberTrees ms) = .ok found := by
  induction ms with
  | nil => rfl
  | cons m ms ih =>
    obtain ⟨name, first⟩ := List.forall_mem_cons.1 untyped
    obtain ⟨here, later⟩ := List.forall_mem_cons.1 fine
    have rest := ih first later
    rw [Json.memberTrees, Kind.ofMembers, Quoted.text_of]
    change (if m.1 = typeKey then _ else _) = _
    rw [if_neg name, here]
    exact rest

theorem ofMembers_tagged {numbered : Bool} {other : Tree → Except Json.Fault Unit} (k : Kind)
    {ms : List (String × Json)} (untyped : ∀ m ∈ ms, m.1 ≠ typeKey)
    (fine : ∀ m ∈ ms, other m.2.tree = .ok ()) :
    Kind.ofMembers numbered other none
      (Json.memberTrees ((typeKey, .string k.name) :: ms)) = .ok (some k) := by
  have rest : Kind.ofMembers numbered other (some k) (Json.memberTrees ms) = .ok (some k) :=
    ofMembers_untyped untyped fine
  rw [Json.memberTrees, Kind.ofMembers, Quoted.text_of]
  change (do let k ← Kind.read numbered (.string (.of k.name)); _) = _
  rw [read_name]
  exact rest

end Kind

namespace Node

theorem ofTree_tagged (k : Kind) {ms : List (String × Json)} (untyped : ∀ m ∈ ms, m.1 ≠ typeKey) :
    (ofTree (tagged k ms).tree).toOption =
      k.form.takes Node.recalled (fun _ => .ok ()) (ms.map (Prod.map id Entry.of)) := by
  have unknown : typeKey ∉ k.form.names := by cases k <;> decide
  have kind : Kind.ofMembers true (fun _ => .ok ()) none
      (Json.memberTrees ((typeKey, .string k.name) :: ms)) = .ok (some k) :=
    Kind.ofMembers_tagged k untyped fun _ _ => rfl
  change (ofTree
    (.object (Json.memberTrees ((typeKey, .string k.name) :: ms)) .closed)).toOption = _
  rw [ofTree, kind, Entry.ofMembers_memberTrees]
  exact Form.takes_unknown _ _ unknown rfl _

end Node

namespace Entry
variable (ctx : Context) (recalled : Bool)

theorem reads_point (p : Point) :
    (reads Point.read (freely recalled) (of p.toJson)).toOption = p.recovered :=
  Point.read_toJson recalled p

theorem reads_number (x : Float) :
    (reads Read.number ctx (of (.number x))).toOption = Json.recovered x := Json.read_number ctx x

theorem reads_text (s : String) : (reads Read.text ctx (of (.string s))).toOption = some s := by
  rw [reads, of, Json.tree, Json.read_text, Json.toOption_ok]

end Entry

theorem Shape.untyped (s : Shape) : ∀ m ∈ s.members, m.1 ≠ typeKey := by
  cases s <;> simp [members, typeKey]

theorem Shape.ofTree_toJson (s : Shape) :
    (Node.ofTree (Node.tagged s.kind s.members).tree).toOption = s.recovered.map (.shape ()) := by
  rw [Node.ofTree_tagged _ s.untyped]
  change Form.takes (freely true) _ _ _ = _
  cases s with
  | circle _ _ | line _ _ | rectangle _ _ _ | image _ _ _ _ =>
    simp (disch := simp) only [members, kind, Kind.form, List.map_cons, List.map_nil, Prod.map, id,
      Form.takes_map, Entry.point, Entry.number, Entry.text, Form.takes_required_and,
      Form.takes_required, Entry.reads_point, Entry.reads_number, Entry.reads_text, recovered,
      Option.map_bind, Option.map_map, Function.comp_def, Option.bind_eq_bind, bind_pure_comp,
      Option.map_eq_map, Option.bind_some]

namespace Entry
variable (ctx : Context)

theorem reads_override_text (a : Option String) :
    ((a.map fun s => of (.string s)).map fun e =>
      (reads (Read.nullable Read.text) ctx e).toOption).getD (some none) = some a := by
  cases a with
  | none => rfl
  | some s => exact congrArg Except.toOption (Json.read_nullable_text ctx s)

theorem reads_override_number (w : Option Float) :
    ((w.map fun x => of (.number x)).map fun e =>
      (reads (Read.nullable Read.number) ctx e).toOption).getD (some none) =
        some (w.bind Json.recovered) := by
  cases w with
  | none => rfl
  | some x => exact Json.read_nullable_number ctx x

end Entry

theorem Style.takes_members (s : Style) (ctx : Context) :
    Entry.style.takes ctx (fun _ => .ok ()) (s.members.map (Prod.map id Entry.of)) =
      some s.recovered := by
  have split : s.members.map (Prod.map id Entry.of) =
      (s.fill.map fun a => Entry.of (.string a)).toList.map ("fill", ·) ++
        ((s.stroke.map fun a => Entry.of (.string a)).toList.map ("stroke", ·) ++
          (s.strokeWidth.map fun x => Entry.of (.number x)).toList.map ("strokeWidth", ·)) := by
    cases fill : s.fill <;> cases stroke : s.stroke <;> cases width : s.strokeWidth <;>
      simp [members, Json.ifSome, fill, stroke, width]
  rw [split, Entry.style, Form.takes_map, Entry.override, Entry.override, Entry.override,
    Form.takes_optional_and _ _ _ _ _ _ _ (by grind),
    Form.takes_optional_and _ _ _ _ _ _ _ (by grind),
    Form.takes_written, Entry.reads_override_text, Entry.reads_override_text,
    Entry.reads_override_number]
  rfl

theorem Style.name_mem {s : Style} {m : String × Json} (mem : m ∈ s.members) :
    m.1 ∈ ["fill", "stroke", "strokeWidth"] := by
  simp only [members, Json.ifSome] at mem
  grind

theorem Head.untyped (h : Head) (kids : List Json) :
    ∀ m ∈ h.members ++ [("children", .list kids)], m.1 ≠ typeKey := by
  cases h with
  | material m =>
    have style := fun x mem => Style.name_mem (s := m.style) (m := x) mem
    simp only [members, typeKey]
    grind
  | transform m => simp [members, typeKey]

theorem Entry.takes_group (ctx : Context) (kids : List Json) :
    Entry.group.takes ctx (fun _ => .ok ()) [("children", .of (.list kids))] =
      (Node.ofTrees (Json.itemTrees kids)).toOption := Form.takes_optional ..

theorem Head.ofTree_toJson (h : Head) (kids : List Json) :
    (Node.ofTree (Node.tagged h.kind (h.members ++ [("children", .list kids)])).tree).toOption =
      h.recovered.bind fun head =>
        (Node.ofTrees (Json.itemTrees kids)).toOption.map (.group () head) := by
  rw [Node.ofTree_tagged _ (h.untyped kids), List.map_append]
  change Form.takes (freely true) _ _ (_ ++ [("children", Entry.of (.list kids))]) = _
  cases h with
  | transform m =>
    have matrix : (Entry.reads Affine.read (freely true) (.of m.toJson)).toOption = m.recovered :=
      Affine.read_toJson true m
    simp (disch := simp) only [members, kind, Kind.form, List.map_cons, List.map_nil, Prod.map, id,
      List.cons_append, List.nil_append, Form.takes_map, Form.takes_required_and, matrix,
      Entry.takes_group, recovered, Option.map_bind, Option.map_map, Function.comp_def,
      bind_pure_comp, Option.map_eq_map, Option.bind_map]
  | material m =>
    have style := m.style.takes_members (freely true)
    have name := fun x mem => Style.name_mem (s := m.style) (m := x) mem
    have own : ∀ x ∈ m.style.members.map (Prod.map id Entry.of), x.1 ∈ Entry.style.names := by
      simp only [List.mem_map]
      rintro _ ⟨x, mem, rfl⟩
      exact name x mem
    have other : ∀ x ∈ [("children", Entry.of (.list kids))], x.1 ∉ Entry.style.names := by
      simp [Entry.style, Entry.override]
    simp (disch := grind) only [members, kind, Kind.form, List.map_cons, Prod.map, id,
      List.cons_append, List.nil_append, Form.takes_map, Entry.text, Form.takes_required_and,
      Entry.reads_text, Form.takes_and _ _ Entry.style Entry.group own other, style,
      Entry.takes_group, recovered, Option.map_map, Function.comp_def, Option.bind_some]

namespace Node

theorem ofTrees_toJson (ns : List (Node ι)) :
    (ofTrees (Json.itemTrees (allToJson ns))).toOption = recoveredAll ns := by
  induction ns using forest with
  | nil => rfl
  | shape i s ns ih =>
    rw [allToJson, toJson, Json.itemTrees, ofTrees, Json.toOption_bind, s.ofTree_toJson]
    simp only [recoveredAll, recovered, ← ih, Json.toOption_map, Option.bind_eq_bind,
      bind_pure_comp, Option.map_eq_map, Option.bind_map, Function.comp_def]
  | group i h kids ns inside ih =>
    rw [allToJson, toJson, Json.itemTrees, ofTrees, Json.toOption_bind, h.ofTree_toJson]
    simp only [recoveredAll, recovered, ← ih, ← inside, Json.toOption_map, Option.bind_eq_bind,
      bind_pure_comp, Option.map_eq_map, Option.bind_map, Function.comp_def, Option.bind_assoc]

theorem countless_tagged (k : Kind) (ms : List (String × Json)) :
    (tagged k ms).countless ↔ ∀ m ∈ ms, m.2.countless := by
  rw [← Json.countlessMembers_iff, tagged, Json.countless, Json.countlessMembers, Json.countless,
    Bool.true_and]

theorem countless_toJson (ns : List (Node ι)) : Json.countlessItems (allToJson ns) := by
  induction ns using forest with
  | nil => rfl
  | shape i s ns ih =>
    have here : (tagged s.kind s.members).countless := by cases s <;> rfl
    rw [allToJson, toJson, Json.countlessItems, here, ih]
    rfl
  | group i h kids ns inside ih =>
    have here :
        (tagged h.kind (h.members ++ [("children", .list (allToJson kids))])).countless := by
      have head : ∀ m ∈ h.members, m.2.countless := by
        cases h with
        | transform m => exact (Json.countlessMembers_iff _).1 rfl
        | material m =>
          simp only [Head.members, Style.members, Json.ifSome]
          grind [Json.countless]
      rw [countless_tagged, List.forall_mem_append]
      exact ⟨head, fun m mem => by rwa [List.mem_singleton.1 mem]⟩
    rw [allToJson, toJson, Json.countlessItems, here, ih]
    rfl

theorem read_tagged {k : Kind} {ms : List (String × Json)} (untyped : ∀ m ∈ ms, m.1 ≠ typeKey)
    (plain : (tagged k ms).countless) :
    Node.read (freely false) (tagged k ms).tree = ofTree (tagged k ms).tree := by
  have fine : ∀ m ∈ ms, Tree.check none m.2.tree = .ok () := fun m mem =>
    Json.check_tree m.2 ((countless_tagged k ms).1 plain m mem)
  have kind : Kind.ofMembers false (Tree.check none) none
      (Json.memberTrees ((typeKey, .string k.name) :: ms)) = .ok (some k) :=
    Kind.ofMembers_tagged k untyped fine
  have judged : judge (freely false) (tagged k ms).tree = .ok () := by
    change (do
      let kind ← Kind.ofMembers false (Tree.check none) none
        (Json.memberTrees ((typeKey, .string k.name) :: ms))
      discard (Kind.orMissing kind)) = _
    rw [kind]
    rfl
  rw [read, judged]
  rfl

theorem untyped_toJson (n : Node ι) : ∃ k ms, n.toJson = tagged k ms ∧ ∀ m ∈ ms, m.1 ≠ typeKey := by
  cases n with
  | shape i s => exact ⟨s.kind, s.members, by rw [toJson], s.untyped⟩
  | group i h kids => exact ⟨h.kind, _, by rw [toJson], h.untyped _⟩

theorem read_toJson (n : Node ι) (plain : n.toJson.countless) :
    Node.read (freely false) n.toJson.tree = ofTree n.toJson.tree := by
  obtain ⟨k, ms, written, untyped⟩ := n.untyped_toJson
  rw [written] at plain ⊢
  exact read_tagged untyped plain

theorem mapM_read (ns : List (Node ι)) (plain : Json.countlessItems (allToJson ns)) :
    (Json.itemTrees (allToJson ns)).mapM (Node.read (freely false)) =
      ofTrees (Json.itemTrees (allToJson ns)) := by
  induction ns with
  | nil => rfl
  | cons n ns ih =>
    rw [allToJson, Json.countlessItems, Bool.and_eq_true] at plain
    rw [allToJson, Json.itemTrees, List.mapM_cons, ofTrees, n.read_toJson plain.1, ih plain.2]

theorem read_list (ns : List (Node ι)) :
    (Read.list Node.read (freely false) (Json.list (allToJson ns)).tree).toOption =
      recoveredAll ns := by
  change ((Json.itemTrees (allToJson ns)).mapM (Node.read (freely false)) >>= pure).toOption = _
  rw [mapM_read ns (countless_toJson ns), bind_pure, ofTrees_toJson]

end Node

theorem Viewport.read_toJson (v : Viewport) :
    (Viewport.read (freely false) v.toJson.tree).toOption = v.recovered := by
  have mode : ScaleMode.read (freely false) (.string (.of v.scaleMode.name)) = .ok v.scaleMode := by
    rw [ScaleMode.read, Read.variant, Quoted.text_of]
    cases v.scaleMode <;> rfl
  rw [Viewport.read, toJson, Json.read_record]
  simp (disch := simp) only [List.map_cons, List.map_nil, Prod.map, id, Form.takes_map,
    Form.takes_required_and, Form.takes_optional, mode, Json.tree, Json.read_number, recovered,
    Json.toOption_ok, Option.map_eq_bind, Function.comp_def, Option.bind_assoc, Option.bind_some,
    Option.bind_eq_bind, Option.pure_def]

theorem Root.read_toJson (r : Root ι) :
    (Root.read (freely false) r.toJson.tree).toOption = r.recovered := by
  have kind : Read.variant [(Kind.material.name, ())] (freely false)
      (.string (.of Kind.material.name)) = .ok () := by
    rw [Read.variant, Quoted.text_of]
    rfl
  have kids := Node.read_list r.children
  have record : (Read.record "RootMaterialDef" form (freely false) r.toJson.tree).toOption =
      r.recovered.map (rootId, ·) := by
    rw [toJson, Node.tagged, Json.read_record, form, Paint.members]
    rw [Json.tree] at kids
    simp (disch := simp) only [typeKey, List.map_cons, List.map_nil, Prod.map, id, List.cons_append,
      List.nil_append, Json.tree, Form.takes_map, Form.takes_required_and, kind, Json.read_text,
      Json.read_number, Form.takes_optional, kids, recovered, Paint.recovered, Json.toOption_ok,
      Option.map_eq_bind, Function.comp_def, Option.bind_assoc, Option.bind_some,
      Option.bind_eq_bind, Option.pure_def]
  rw [Root.read, Json.toOption_bind, record]
  cases r.recovered <;> rfl

namespace Frame

theorem read_toJson (f : Frame ι) :
    (Frame.read (freely false) f.toJson.tree).toOption = f.recovered := by
  have viewport := f.viewport.read_toJson
  have root := f.root.read_toJson
  have background : (Json.ifSome "background" .string f.background).map (Prod.map id Json.tree) =
      (f.background.map fun a => Tree.string (.of a)).toList.map ("background", ·) := by
    cases f.background <;> rfl
  have unset : ((f.background.map fun a => Tree.string (.of a)).map fun t =>
      (Read.nullable Read.text (freely false) t).toOption).getD (some none) =
        some f.background := by
    cases f.background with
    | none => rfl
    | some a => exact congrArg Except.toOption (Json.read_nullable_text _ a)
  rw [Frame.read, toJson, Json.read_record, form]
  simp only [List.cons_append, List.map_cons, List.map_nil, List.map_append, background,
    Prod.map, id]
  rw [Form.takes_map, Form.takes_required_and _ _ _ _ _ _ (by grind), viewport,
    Form.takes_optional_and _ _ _ _ _ _ _ (by simp), unset, Form.takes_required, root, recovered]
  simp only [Option.map_eq_bind, Function.comp_def, Option.bind_assoc, Option.bind_some,
    Option.bind_eq_bind, Option.pure_def]

/-- Both texts of a frame come back as the frame of the recovered numbers. -/
theorem ofSymbols_text (f : Frame ι) :
    (ofSymbols (Json.Symbol.ofString f.text)).toOption = f.recovered := by
  rw [ofSymbols, text, Json.whole_of_tree _ (Json.ofText_text _), read_toJson]

theorem ofSymbols_prettyText (f : Frame ι) :
    (ofSymbols (Json.Symbol.ofString f.prettyText)).toOption = f.recovered := by
  rw [ofSymbols, prettyText, Json.whole_of_tree _ (Json.ofText_prettyText _), read_toJson]

end Frame

end SceneTree
