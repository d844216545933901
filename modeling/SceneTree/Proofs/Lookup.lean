import Mathlib.Data.List.Dedup
import SceneTree.MaterialIndex
import SceneTree.Proofs.Materials

/-! What an id names. The walk that fills the index is the reverse of a postorder, and the later
entry wins; so an id names the first material with it, children coming before their parent. -/
namespace SceneTree
open Node (materialsAll)
variable {ι κ : Type}

namespace Node

/- From left to right, each node after its children. -/
mutual
def postorder : Node κ → List (Node κ)
  | .shape i s => [.shape i s]
  | .group i h kids => postorderAll kids ++ [.group i h kids]

def postorderAll : List (Node κ) → List (Node κ)
  | [] => []
  | n :: ns => n.postorder ++ postorderAll ns
end

@[simp] theorem postorderAll_append (ns ms : List (Node κ)) :
    postorderAll (ns ++ ms) = postorderAll ns ++ postorderAll ms := by
  induction ns with
  | nil => rfl
  | cons n ns ih => simp [postorderAll, ih]

theorem postorder_eq (n : Node κ) : n.postorder = postorderAll n.children ++ [n] := by
  cases n <;> rfl

theorem mem_preorderAll (n : Node κ) (ns rest : List (Node κ)) :
    n ∈ preorderAll ns rest ↔ n ∈ postorderAll ns ∨ n ∈ rest := by
  induction ns using forest generalizing rest with
  | nil => simp [preorderAll, postorderAll]
  | shape i s ns ih => simp [preorderAll, preorder, postorderAll, postorder, ih, or_assoc]
  | group i h kids ns inside ih =>
    simp only [preorderAll, preorder, postorderAll, postorder, List.mem_cons, List.mem_append,
      inside, ih, List.not_mem_nil, or_false]
    rw [← or_assoc, ← or_assoc, or_comm (a := n = _)]

theorem mem_materialsAll (m : Material) (ns : List (Node κ)) :
    m ∈ materialsAll ns ↔ ∃ n ∈ postorderAll ns, n.material? = some m := by
  induction ns using forest with
  | nil => simp [postorderAll]
  | shape i s ns ih => simp [postorderAll, postorder, ih, material?]
  | group i h kids ns inside ih =>
    simp only [postorderAll, postorder, List.mem_append, List.mem_singleton, or_and_right,
      exists_or, exists_eq_left, ← inside, ← ih]
    cases h with
    | material c =>
      simp only [materialsAll_material, List.mem_cons, List.mem_append, material?,
        Option.some.injEq]
      rw [← or_assoc, or_comm (a := m = c), eq_comm (a := m)]
    | transform c => simp [material?]

def id? (n : Node κ) : Option String := n.material?.map Material.id

def named? (id : String) : Node κ → Option (Material × List (Node κ))
  | .group _ (.material m) kids => if m.id = id then some (m, kids) else none
  | _ => none

theorem named?_eq_some (n : Node κ) (id : String) (m : Material) (kids : List (Node κ)) :
    n.named? id = some (m, kids) ↔ m.id = id ∧ ∃ i, n = .group i (.material m) kids := by
  match n with
  | .shape _ _ | .group _ (.transform _) _ => simp [named?]
  | .group i (.material m') kids' =>
    rw [named?]
    by_cases same : m'.id = id
    · rw [if_pos same]
      constructor
      · intro named
        obtain ⟨rfl, rfl⟩ := Prod.mk.inj (Option.some.inj named)
        exact ⟨same, i, rfl⟩
      · rintro ⟨-, _, node⟩
        cases node
        rfl
    · rw [if_neg same]
      constructor
      · intro named
        cases named
      · rintro ⟨other, _, node⟩
        cases node
        exact absurd other same

theorem named?_eq_none (n : Node κ) (id : String) : n.named? id = none ↔ n.id? ≠ some id := by
  match n with
  | .shape _ _ | .group _ (.transform _) _ => simp [named?, id?, material?]
  | .group _ (.material m) _ => simp [named?, id?, material?]

end Node

namespace Frame

theorem mem_nodes (f : Frame κ) (n : Node κ) :
    n ∈ f.nodes ↔ n ∈ Node.postorderAll f.root.children := by
  rw [nodes, Node.mem_preorderAll]
  simp

theorem mem_materials (f : Frame κ) (m : Material) :
    m ∈ f.materials ↔ ∃ n ∈ f.nodes, n.material? = some m := by
  rw [materials, Node.mem_materialsAll]
  simp only [mem_nodes]

theorem mem_ids (f : Frame κ) (id : String) : id ∈ f.ids ↔ ∃ n ∈ f.nodes, n.id? = some id := by
  simp only [ids, List.mem_map, mem_materials, Node.id?, Option.map_eq_some_iff]
  constructor
  · rintro ⟨m, ⟨n, mem, here⟩, same⟩
    exact ⟨n, mem, m, here, same⟩
  · rintro ⟨n, mem, m, here, same⟩
    exact ⟨m, ⟨n, mem, here⟩, same⟩

end Frame

namespace MaterialIndex

theorem enterAll_eq (entries : Entries κ) (waiting : List (Node κ)) :
    enterAll entries waiting =
      (Node.postorderAll waiting.reverse).foldr (fun n e => enter e n) entries := by
  fun_induction enterAll entries waiting with
  | case1 entries => rfl
  | case2 entries n waiting ih =>
    have visited : Node.postorderAll (n :: waiting).reverse =
        Node.postorderAll (n.children.reverse ++ waiting).reverse ++ [n] := by
      rw [List.reverse_cons, List.reverse_append, List.reverse_reverse, Node.postorderAll_append,
        Node.postorderAll_append, List.append_assoc, ← Node.postorder_eq]
      simp [Node.postorderAll]
    rw [ih, visited, List.foldr_append]
    rfl

theorem getElem?_enter (entries : Entries κ) (n : Node κ) (id : String) :
    (enter entries n)[id]? = (n.named? id).or entries[id]? := by
  match n with
  | .shape _ _ | .group _ (.transform _) _ => rfl
  | .group _ (.material m) kids =>
    rw [enter, Std.TreeMap.getElem?_insert, Node.named?]
    by_cases same : m.id = id
    · simp [same]
    · simp [same]

/-- An id names the first material with it, in postorder. -/
theorem get?_ofFrame (f : Frame κ) (id : String) :
    (ofFrame f).get? id = (Node.postorderAll f.root.children).findSome? (Node.named? id) := by
  have entered (ns : List (Node κ)) :
      (ns.foldr (fun n e => enter e n) (∅ : Entries κ))[id]? = ns.findSome? (Node.named? id) := by
    induction ns with
    | nil => simp
    | cons n ns ih =>
      rw [List.foldr_cons, getElem?_enter, ih, List.findSome?_cons]
      cases n.named? id <;> rfl
  rw [get?, ofFrame, enterAll_eq, List.reverse_reverse]
  exact entered _

theorem get?_some {f : Frame κ} {id : String} {m : Material} {kids : List (Node κ)}
    (found : (ofFrame f).get? id = some (m, kids)) :
    m.id = id ∧ ∃ i, .group i (.material m) kids ∈ f.nodes := by
  rw [get?_ofFrame] at found
  obtain ⟨n, mem, named⟩ := List.exists_of_findSome?_eq_some found
  obtain ⟨same, i, rfl⟩ := (n.named?_eq_some id m kids).1 named
  exact ⟨same, i, (f.mem_nodes _).2 mem⟩

theorem get?_eq_none (f : Frame κ) (id : String) : (ofFrame f).get? id = none ↔ id ∉ f.ids := by
  rw [get?_ofFrame, List.findSome?_eq_none_iff, f.mem_ids]
  simp only [Node.named?_eq_none, f.mem_nodes, not_exists, not_and]

theorem nodup_keys (index : MaterialIndex κ) : index.entries.keys.Nodup :=
  index.entries.distinct_keys.imp fun differ same => differ (Std.compare_eq_iff_eq.2 same)

theorem mem_keys (f : Frame κ) (id : String) : id ∈ (ofFrame f).entries.keys ↔ id ∈ f.ids := by
  have missing := get?_eq_none f id
  rw [Std.TreeMap.mem_keys, Std.TreeMap.mem_iff_isSome_getElem?, Option.isSome_iff_ne_none]
  exact (not_congr missing).trans not_not

/-- An id names the first material with it, children coming before their parent and the left before
the right, and it names nothing only if no material has it. There are as many entries as there are
different ids. -/
theorem ofFrame_names (f : Frame κ) (id : String) :
    (∀ m kids, (ofFrame f).get? id = some (m, kids) ↔
      ∃ before i after, Node.postorderAll f.root.children =
          before ++ .group i (.material m) kids :: after ∧
        m.id = id ∧ ∀ n ∈ before, n.id? ≠ some id) ∧
    ((ofFrame f).get? id = none ↔ ∀ m ∈ f.materials, m.id ≠ id) ∧
    (ofFrame f).size = f.ids.dedup.length := by
  refine ⟨fun m kids => ?_, ?_, ?_⟩
  · rw [get?_ofFrame, List.findSome?_eq_some_iff]
    simp only [Node.named?_eq_some, Node.named?_eq_none]
    constructor
    · rintro ⟨before, _, after, order, ⟨same, i, rfl⟩, first⟩
      exact ⟨before, i, after, order, same, first⟩
    · rintro ⟨before, i, after, order, same, first⟩
      exact ⟨before, _, after, order, ⟨same, i, rfl⟩, first⟩
  · rw [get?_eq_none, Frame.ids, List.mem_map]
    simp only [not_exists, not_and]
  · have same : (ofFrame f).entries.keys.Perm f.ids.dedup := by
      refine (List.perm_ext_iff_of_nodup (nodup_keys _) (List.nodup_dedup _)).2 fun id => ?_
      rw [mem_keys, List.mem_dedup]
    rw [size, ← Std.TreeMap.length_keys]
    exact same.length_eq

end MaterialIndex
end SceneTree
