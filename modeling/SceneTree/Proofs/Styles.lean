import SceneTree.Proofs.Inheritance
import SceneTree.Proofs.Lookup
import SceneTree.Proofs.Scope
import SceneTree.Proofs.Trail

/-! A pass keeps styles. Refs are followed from id to id and not along the tree, so it is shown of
each material by itself that it looks as its id looked before, and that its ref leads to a larger
material of the frame before. Both survive a squash, and together they fix every style. -/
namespace SceneTree
open Node (materialsAll mapAll postorderAll)
variable {ι κ : Type} {o : Options}

namespace Node

def bare (n : Node κ) : Node Unit := n.map fun _ => ()

theorem sizeAll_mapAll (f : ι → κ) (ns : List (Node ι)) : sizeAll (mapAll f ns) = sizeAll ns := by
  induction ns using forest with
  | nil => rfl
  | shape i s ns ih => simp [mapAll, map, sizeAll, size, ih]
  | group i h kids ns inside ih => simp [mapAll, map, sizeAll, size, inside, ih]

theorem size_bare (n : Node κ) : n.bare.size = n.size := by
  cases n with
  | shape i s => rfl
  | group i h kids => simp [bare, map, size, sizeAll_mapAll]

theorem material?_bare (n : Node κ) : n.bare.material? = n.material? := by
  match n with
  | .shape _ _ | .group _ (.material _) _ | .group _ (.transform _) _ => rfl

theorem size_le_sizeAll (ns : List (Node κ)) : ∀ n ∈ postorderAll ns, n.size ≤ sizeAll ns := by
  induction ns using forest with
  | nil => intro n mem; cases mem
  | shape i s ns ih =>
    intro n mem
    obtain rfl | mem := List.mem_cons.1 mem
    · simp [sizeAll]
    · have later := ih n mem
      simp only [sizeAll]
      omega
  | group i h kids ns inside ih =>
    intro n mem
    simp only [postorderAll, postorder, List.mem_append, List.mem_singleton] at mem
    simp only [sizeAll, size]
    obtain (mem | rfl) | mem := mem
    · have below := inside n mem
      omega
    · simp [size]
    · have later := ih n mem
      omega

end Node

namespace Frame

/-- Materials with the same id are alike down to their leaves, and refs lead outwards or nowhere.
Neither asks for ids that differ: a material may be used many times. -/
structure Coherent (f : Frame κ) : Prop where
  notRoot : rootId ∉ f.ids
  alike : ∀ x ∈ f.nodes, ∀ y ∈ f.nodes, x.id?.isSome → x.id? = y.id? → x.bare = y.bare
  scope : Node.ScopedAll (fun ref => ref = rootId ∨ ref ∉ f.ids) [] f.root.children

/-- How many nodes the material with an id takes up. -/
def extent (f : Frame κ) (id : String) : Nat :=
  ((MaterialIndex.ofFrame f).get? id).elim 0 fun entry => 1 + Node.sizeAll entry.2

namespace Coherent
variable {f : Frame κ}

theorem get?_id (coherent : f.Coherent) {i : κ} {m : Material} {kids : List (Node κ)}
    (mem : .group i (.material m) kids ∈ f.nodes) :
    ∃ kids', (MaterialIndex.ofFrame f).get? m.id = some (m, kids') ∧
      Node.sizeAll kids' = Node.sizeAll kids := by
  cases found : (MaterialIndex.ofFrame f).get? m.id with
  | none =>
    have absent := (MaterialIndex.get?_eq_none f m.id).1 found
    exact absurd ((f.mem_ids m.id).2 ⟨_, mem, rfl⟩) absent
  | some entry =>
    obtain ⟨m', kids'⟩ := entry
    obtain ⟨same, i', mem'⟩ := MaterialIndex.get?_some found
    have alike := coherent.alike _ mem _ mem' rfl (congrArg some same.symm)
    have material := congrArg Node.material? alike
    have size := congrArg Node.size alike
    rw [Node.material?_bare, Node.material?_bare] at material
    rw [Node.size_bare, Node.size_bare, Node.size, Node.size] at size
    obtain rfl : m = m' := Option.some.inj material
    exact ⟨kids', rfl, by omega⟩

theorem extent_id (coherent : f.Coherent) {i : κ} {m : Material} {kids : List (Node κ)}
    (mem : .group i (.material m) kids ∈ f.nodes) : f.extent m.id = 1 + Node.sizeAll kids := by
  obtain ⟨kids', found, size⟩ := coherent.get?_id mem
  simp [extent, found, size]

end Coherent
end Frame

theorem Node.ScopedAll.larger {free : String → Prop} {around : List String} (extent : String → Nat)
    {ns : List (Node κ)} (scope : ScopedAll free around ns)
    (sizes : ∀ i m kids, .group i (.material m) kids ∈ postorderAll ns →
      extent m.id = 1 + sizeAll kids)
    (wider : ∀ id ∈ around, sizeAll ns < extent id) :
    ∀ m ∈ materialsAll ns, free m.ref ∨ extent m.id < extent m.ref := by
  induction ns using forest generalizing around with
  | nil => intro m mem; cases mem
  | shape i s ns ih =>
    refine ih scope.2 (fun i m kids mem => sizes i m kids (List.mem_cons_of_mem _ mem)) ?_
    intro id mem
    have large := wider id mem
    simp only [sizeAll] at large
    omega
  | group i h kids ns inside ih =>
    obtain ⟨here, later⟩ := scope
    have room : ∀ id ∈ around, 1 + sizeAll kids + sizeAll ns < extent id := wider
    have below (j : κ) (m : Material) (ks : List (Node κ))
        (mem : .group j (.material m) ks ∈ postorderAll kids) : extent m.id = 1 + sizeAll ks :=
      sizes j m ks (List.mem_append_left _ (List.mem_append_left _ mem))
    have after : ∀ m ∈ materialsAll ns, free m.ref ∨ extent m.id < extent m.ref := by
      refine ih later (fun j m ks mem => sizes j m ks (List.mem_append_right _ mem)) ?_
      intro id mem
      have large := room id mem
      omega
    intro m mem
    obtain mem | mem := List.mem_append.1 mem
    · cases h with
      | material c =>
        have own : extent c.id = 1 + sizeAll kids :=
          sizes i c kids (by simp [postorderAll, postorder])
        obtain rfl | mem := List.mem_cons.1 mem
        · refine here.1.imp_right fun known => ?_
          have large := room _ known
          omega
        · refine inside here.2 below (fun id known => ?_) m mem
          obtain rfl | known := List.mem_cons.1 known
          · omega
          · have large := room id known
            omega
      | transform c =>
        refine inside here below (fun id known => ?_) m mem
        have large := room id known
        omega
    · exact after m mem

namespace Frame

/-- What a material of a coherent frame keeps through a pass: its id looks as it does, and its ref
leads to a larger material, or nowhere. -/
structure Keeps (f : Frame κ) (m : Material) : Prop where
  id : m.id ∈ f.ids
  paint : (MaterialIndex.ofFrame f).resolve m.id =
    m.style.onto ((MaterialIndex.ofFrame f).resolve m.ref)
  larger : (m.ref = rootId ∨ m.ref ∉ f.ids) ∨ f.extent m.id < f.extent m.ref

theorem Keeps.join {f : Frame κ} (root : rootId ∉ f.ids) {m c : Material} (outer : f.Keeps m)
    (inner : f.Keeps c) (child : c.ref = m.id) : f.Keeps (m.join c) where
  id := inner.id
  paint := by
    calc (MaterialIndex.ofFrame f).resolve c.id
        = c.style.onto ((MaterialIndex.ofFrame f).resolve m.id) := child ▸ inner.paint
      _ = c.style.onto (m.style.onto ((MaterialIndex.ofFrame f).resolve m.ref)) := by
          rw [outer.paint]
      _ = (m.style.overlay c.style).onto ((MaterialIndex.ofFrame f).resolve m.ref) :=
          (Style.overlay_onto _ _ _).symm
  larger := by
    have below : f.extent c.id < f.extent m.id := by
      obtain (top | absent) | below := inner.larger
      · exact absurd (top ▸ child ▸ outer.id) root
      · exact absurd (child ▸ outer.id) absent
      · exact child ▸ below
    exact outer.larger.imp_right (Nat.lt_trans below)

theorem Coherent.keeps {f : Frame κ} (coherent : f.Coherent) : ∀ m ∈ f.materials, f.Keeps m := by
  intro m mem
  have sizes (i : κ) (m : Material) (kids : List (Node κ))
      (mem : .group i (.material m) kids ∈ postorderAll f.root.children) :
      f.extent m.id = 1 + Node.sizeAll kids := coherent.extent_id ((f.mem_nodes _).2 mem)
  have larger := coherent.scope.larger f.extent sizes (fun id mem => by cases mem) m mem
  obtain ⟨n, node, here⟩ := (f.mem_materials m).1 mem
  match n with
  | .shape _ _ | .group _ (.transform _) _ => cases here
  | .group i (.material m') kids =>
    obtain rfl : m' = m := Option.some.inj here
    obtain ⟨kids', found, -⟩ := coherent.get?_id node
    have known : m'.id ∈ f.ids := List.mem_map_of_mem mem
    have below : m'.id ≠ rootId := fun same => coherent.notRoot (same ▸ known)
    exact ⟨known, MaterialIndex.resolve_some _ below found, larger⟩

end Frame

theorem Rewrite.materials {P : Material → Prop} {ns ns' : List (Node κ)} (step : Rewrite o ns ns')
    (join : ∀ m c, P m → P c → c.ref = m.id → P (m.join c)) (all : ∀ m ∈ materialsAll ns, P m) :
    ∀ m ∈ materialsAll ns', P m := by
  induction step with
  | merge on => simpa using all
  | splice on unit => simpa using all
  | @squash i j k m c kids on child free =>
    simp only [Node.materialsAll_material, Node.materialsAll_nil, List.append_nil,
      List.forall_mem_cons] at all ⊢
    exact ⟨join m c all.1 all.2.1 child, all.2.2⟩
  | @renew i j h kids => cases h <;> exact all
  | @inside i h kids kids' step ih =>
    cases h with
    | material m =>
      simp only [Node.materialsAll_material, Node.materialsAll_nil, List.append_nil,
        List.forall_mem_cons] at all ⊢
      exact ⟨all.1, ih all.2⟩
    | transform m =>
      simp only [Node.materialsAll_transform, Node.materialsAll_nil, List.append_nil] at all ⊢
      exact ih all
  | among step ih =>
    simp only [Node.materialsAll_append, List.forall_mem_append] at all ⊢
    exact ⟨⟨all.1.1, ih all.1.2⟩, all.2⟩

theorem Node.mem_heads (ns : List (Node κ)) (m : Material) :
    ∀ t ∈ trailsAll ns, .material m ∈ t.heads → m ∈ materialsAll ns := by
  induction ns using forest with
  | nil => intro t mem; cases mem
  | shape i s ns ih =>
    intro t mem around
    obtain rfl | mem := List.mem_cons.1 mem
    · cases around
    · exact ih t mem around
  | group i h kids ns inside ih =>
    intro t mem around
    obtain mem | mem := List.mem_append.1 mem
    · obtain ⟨t', mem', rfl⟩ := List.mem_map.1 mem
      obtain rfl | around := List.mem_cons.1 around
      · simp
      · have below := inside t' mem' around
        cases h <;> simp [below]
    · have later := ih t mem around
      cases h <;> simp [later]

theorem Head.nearest_mem (heads : List Head) (id : String) :
    heads.foldl nearest id = id ∨ ∃ m, .material m ∈ heads ∧ m.id = heads.foldl nearest id := by
  induction heads generalizing id with
  | nil => exact .inl rfl
  | cons h heads ih =>
    cases h with
    | material m =>
      obtain same | ⟨m', mem, same⟩ := ih m.id
      · exact .inr ⟨m, List.mem_cons_self, same.symm⟩
      · exact .inr ⟨m', List.mem_cons_of_mem _ mem, same⟩
    | transform m =>
      obtain same | ⟨m', mem, same⟩ := ih id
      · exact .inl same
      · exact .inr ⟨m', List.mem_cons_of_mem _ mem, same⟩

theorem Frame.leaf_material (f : Frame κ) :
    ∀ l ∈ f.leaves, l.material = rootId ∨ l.material ∈ f.ids := by
  intro l mem
  rw [leaves_eq] at mem
  obtain ⟨t, trail, rfl⟩ := List.mem_map.1 mem
  refine (Head.nearest_mem t.heads rootId).imp_right fun ⟨m, around, same⟩ => ?_
  exact List.mem_map.2 ⟨m, Node.mem_heads f.root.children m t trail around, same⟩

namespace Frame

theorem root_paint_optimize (o : Options) (f : Frame ι) :
    (f.optimize o).1.root.paint = f.root.paint := by
  rw [root_optimize]
  rfl

theorem Coherent.keeps_optimize {f : Frame ι} (coherent : f.Coherent) (o : Options) :
    ∀ m ∈ (f.optimize o).1.materials, f.Keeps m := by
  refine f.optimize_keeps o (P := fun ns => ∀ m ∈ materialsAll ns, f.Keeps m) ?_ ?_
  · rw [Node.materialsAll_mapAll]
    exact coherent.keeps
  · intro ns ns' step all
    exact step.materials (fun m c outer inner child => outer.join coherent.notRoot inner child) all

theorem extent_le (f : Frame κ) (id : String) : f.extent id ≤ Node.sizeAll f.root.children := by
  rw [extent]
  cases found : (MaterialIndex.ofFrame f).get? id with
  | none => exact Nat.zero_le _
  | some entry =>
    obtain ⟨m, kids⟩ := entry
    obtain ⟨-, i, mem⟩ := MaterialIndex.get?_some found
    have within := Node.size_le_sizeAll f.root.children _ ((f.mem_nodes _).1 mem)
    rwa [Node.size] at within

theorem resolve_free (o : Options) (f : Frame ι) {ref : String}
    (free : ref = rootId ∨ ref ∉ f.ids) :
    (MaterialIndex.ofFrame (f.optimize o).1).resolve ref =
      (MaterialIndex.ofFrame f).resolve ref := by
  have base := f.root_paint_optimize o
  obtain rfl | absent := free
  · rw [MaterialIndex.resolve_root, MaterialIndex.resolve_root]
    exact base
  · have gone : ref ∉ (f.optimize o).1.ids := fun mem => absent ((f.ids_optimize o).subset mem)
    rw [MaterialIndex.resolve_none _ ((MaterialIndex.get?_eq_none f ref).2 absent),
      MaterialIndex.resolve_none _ ((MaterialIndex.get?_eq_none _ ref).2 gone)]
    exact base

theorem leaf_paint (f : Frame κ) :
    ∀ l ∈ f.leaves, l.paint = (MaterialIndex.ofFrame f).resolve l.material := by
  intro l mem
  rw [leaves_eq] at mem
  obtain ⟨t, -, rfl⟩ := List.mem_map.1 mem
  rfl

/- From id to id the extents grow, and none is larger than the frame. -/
theorem Coherent.resolve_optimize {f : Frame ι} (coherent : f.Coherent) (o : Options) (id : String)
    (mem : id ∈ (f.optimize o).1.ids) :
    (MaterialIndex.ofFrame (f.optimize o).1).resolve id = (MaterialIndex.ofFrame f).resolve id := by
  have present : (MaterialIndex.ofFrame (f.optimize o).1).get? id ≠ none :=
    fun missing => (MaterialIndex.get?_eq_none _ id).1 missing mem
  obtain ⟨⟨m, kids⟩, found⟩ := Option.ne_none_iff_exists'.1 present
  obtain ⟨same, i, node⟩ := MaterialIndex.get?_some found
  have material : m ∈ (f.optimize o).1.materials := (mem_materials _ m).2 ⟨_, node, rfl⟩
  have kept := coherent.keeps_optimize o m material
  have paint := kept.paint
  have known := kept.id
  rw [same] at paint known
  have below : id ≠ rootId := fun top => coherent.notRoot (top ▸ known)
  have outer : (MaterialIndex.ofFrame (f.optimize o).1).resolve m.ref =
      (MaterialIndex.ofFrame f).resolve m.ref := by
    obtain free | larger := kept.larger
    · exact f.resolve_free o free
    · have scope := f.scoped_optimize o coherent.scope
      obtain free | none | ⟨x, there, at_ref⟩ := scope.ref_mem m material
      · exact f.resolve_free o free
      · cases none
      · have wider : f.extent id < f.extent m.ref := same ▸ larger
        have bound := f.extent_le m.ref
        exact coherent.resolve_optimize o m.ref (List.mem_map.2 ⟨x, there, at_ref⟩)
  rw [MaterialIndex.resolve_some _ below found, outer, paint]
termination_by Node.sizeAll f.root.children - f.extent id
decreasing_by omega

/-- In a coherent frame every id that is still there resolves as before, and so does the root; and
the leaves are drawn in the same styles, in the same order. -/
theorem styles_optimize (o : Options) (f : Frame ι) (coherent : f.Coherent) :
    (∀ id, id = rootId ∨ ((MaterialIndex.ofFrame (f.optimize o).1).get? id).isSome →
      (MaterialIndex.ofFrame (f.optimize o).1).resolve id =
        (MaterialIndex.ofFrame f).resolve id) ∧
    List.Forall₂ (fun l k => k.node = l.node.map some ∧ k.paint = l.paint)
      f.leaves (f.optimize o).1.leaves := by
  have resolved := coherent.resolve_optimize o
  have root := f.resolve_free o (.inl rfl)
  have drawn : ∀ l ∈ (f.optimize o).1.leaves,
      (MaterialIndex.ofFrame (f.optimize o).1).resolve l.material =
        (MaterialIndex.ofFrame f).resolve l.material := by
    intro l mem
    obtain top | known := (f.optimize o).1.leaf_material l mem
    · rw [top]
      exact root
    · exact resolved l.material known
  refine ⟨fun id present => ?_, ?_⟩
  · obtain rfl | present := present
    · exact root
    · apply resolved id
      by_contra missing
      rw [(MaterialIndex.get?_eq_none _ id).2 missing] at present
      cases present
  · obtain ⟨length, each⟩ := List.forall₂_iff_get.1 (f.leaves_same o)
    refine List.forall₂_iff_get.2 ⟨length, fun i h h' => ?_⟩
    obtain ⟨node, material⟩ := each i h h'
    refine ⟨node, ?_⟩
    rw [leaf_paint _ _ (List.get_mem _ _), drawn _ (List.get_mem _ _), material,
      leaf_paint _ _ (List.get_mem _ _)]

theorem styles_optimize_shared :
    let shared : Node Nat :=
      .group 1 (.material ⟨"outer", "nowhere", ⟨some "red", none, none⟩⟩)
        [.group 2 (.material ⟨"inner", "outer", ⟨none, some "blue", none⟩⟩)
          [.shape 3 (.circle ⟨0, 0⟩ 1)]]
    let f : Frame Nat := ⟨⟨1, 1, .fit⟩, none, ⟨0, ⟨"white", "black", 1⟩, [shared, shared]⟩⟩
    f.Coherent ∧
      (∀ id, id = rootId ∨ ((MaterialIndex.ofFrame (f.optimize .allRules).1).get? id).isSome →
        (MaterialIndex.ofFrame (f.optimize .allRules).1).resolve id =
          (MaterialIndex.ofFrame f).resolve id) ∧
      List.Forall₂ (fun l k => k.node = l.node.map some ∧ k.paint = l.paint)
        f.leaves (f.optimize .allRules).1.leaves := by
  intro shared f
  have coherent : f.Coherent := by
    refine ⟨by decide, ?_, by decide⟩
    simp [f, shared, nodes, Node.preorderAll, Node.preorder, Node.id?, Node.material?]
  exact ⟨coherent, styles_optimize .allRules f coherent⟩

end Frame
end SceneTree
