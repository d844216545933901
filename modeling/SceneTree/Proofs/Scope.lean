import SceneTree.Proofs.Rewriting

/-! Refs that lead outwards, to a material around. A squash takes an outer material away only when
nothing further below needs it, so the refs of a frame lead outwards after a pass too. -/
namespace SceneTree
open Node (materialsAll mapAll)
variable {ι κ : Type} {o : Options}

namespace Node

/- Every ref is free, or the id of a material around its own. -/
mutual
def Scoped (free : String → Prop) (around : List String) : Node κ → Prop
  | .shape _ _ => True
  | .group _ (.material m) kids =>
    (free m.ref ∨ m.ref ∈ around) ∧ ScopedAll free (m.id :: around) kids
  | .group _ (.transform _) kids => ScopedAll free around kids

def ScopedAll (free : String → Prop) (around : List String) : List (Node κ) → Prop
  | [] => True
  | n :: ns => Scoped free around n ∧ ScopedAll free around ns
end

mutual
def decideScoped (free : String → Prop) [DecidablePred free] (around : List String) :
    (n : Node κ) → Decidable (Scoped free around n)
  | .shape _ _ => isTrue trivial
  | .group _ (.material m) kids =>
    have := decideScopedAll free (m.id :: around) kids
    inferInstanceAs (Decidable (_ ∧ _))
  | .group _ (.transform _) kids => decideScopedAll free around kids

def decideScopedAll (free : String → Prop) [DecidablePred free] (around : List String) :
    (ns : List (Node κ)) → Decidable (ScopedAll free around ns)
  | [] => isTrue trivial
  | n :: ns =>
    have := decideScoped free around n
    have := decideScopedAll free around ns
    inferInstanceAs (Decidable (_ ∧ _))
end

instance (free : String → Prop) [DecidablePred free] (around : List String) (ns : List (Node κ)) :
    Decidable (ScopedAll free around ns) := decideScopedAll free around ns

variable {free : String → Prop} {around : List String}

@[simp] theorem scopedAll_append (ns ms : List (Node κ)) :
    ScopedAll free around (ns ++ ms) ↔ ScopedAll free around ns ∧ ScopedAll free around ms := by
  induction ns with
  | nil => simp [ScopedAll]
  | cons n ns ih => simp [ScopedAll, ih, and_assoc]

theorem scopedAll_mapAll (f : ι → κ) (ns : List (Node ι)) :
    ScopedAll free around (mapAll f ns) ↔ ScopedAll free around ns := by
  induction ns using forest generalizing around with
  | nil => rfl
  | shape i s ns ih => simp [mapAll, map, ScopedAll, Scoped, ih]
  | group i h kids ns inside ih =>
    cases h <;> simp [mapAll, map, ScopedAll, Scoped, inside, ih]

/-- Only the materials that are referred to need to be around. -/
theorem ScopedAll.within {around' : List String} {ns : List (Node κ)}
    (scope : ScopedAll free around ns)
    (enough : ∀ m ∈ materialsAll ns, m.ref ∈ around → m.ref ∈ around') :
    ScopedAll free around' ns := by
  induction ns using forest generalizing around around' with
  | nil => trivial
  | shape i s ns ih => exact ⟨trivial, ih scope.2 enough⟩
  | group i h kids ns inside ih =>
    obtain ⟨here, later⟩ := scope
    cases h with
    | material m =>
      have own : free m.ref ∨ m.ref ∈ around' := here.1.imp_right (enough m (by simp))
      have below : ScopedAll free (m.id :: around') kids := by
        refine inside here.2 fun x mem known => ?_
        obtain same | known := List.mem_cons.1 known
        · exact List.mem_cons.2 (.inl same)
        · exact List.mem_cons_of_mem _ (enough x (by simp [mem]) known)
      exact ⟨⟨own, below⟩, ih later fun x mem => enough x (by simp [mem])⟩
    | transform m =>
      have below : ScopedAll free around' kids :=
        inside here fun x mem => enough x (by simp [mem])
      exact ⟨below, ih later fun x mem => enough x (by simp [mem])⟩

theorem ScopedAll.ref_mem {ns : List (Node κ)} (scope : ScopedAll free around ns) (m : Material)
    (mem : m ∈ materialsAll ns) :
    free m.ref ∨ m.ref ∈ around ∨ ∃ x ∈ materialsAll ns, x.id = m.ref := by
  induction ns using forest generalizing around with
  | nil => cases mem
  | shape i s ns ih => exact ih scope.2 mem
  | group i h kids ns inside ih =>
    obtain ⟨here, later⟩ := scope
    obtain mem | mem := List.mem_append.1 mem
    · cases h with
      | material c =>
        obtain rfl | mem := List.mem_cons.1 mem
        · exact here.1.imp_right .inl
        · obtain known | known | ⟨x, found, same⟩ := inside here.2 mem
          · exact .inl known
          · obtain same | known := List.mem_cons.1 known
            · exact .inr (.inr ⟨c, by simp, same.symm⟩)
            · exact .inr (.inl known)
          · exact .inr (.inr ⟨x, by simp [found], same⟩)
      | transform c =>
        obtain known | known | ⟨x, found, same⟩ := inside here mem
        · exact .inl known
        · exact .inr (.inl known)
        · exact .inr (.inr ⟨x, by simp [found], same⟩)
    · obtain known | known | ⟨x, found, same⟩ := ih later mem
      · exact .inl known
      · exact .inr (.inl known)
      · exact .inr (.inr ⟨x, List.mem_append_right _ found, same⟩)

end Node

namespace Rewrite

theorem scopedAll {free : String → Prop} {around : List String} {ns ns' : List (Node κ)}
    (step : Rewrite o ns ns') (scope : Node.ScopedAll free around ns) :
    Node.ScopedAll free around ns' := by
  induction step generalizing around with
  | merge on => exact ⟨scope.1.1, trivial⟩
  | splice on unit => exact scope.1
  | @squash i j k m c kids on child free =>
    obtain ⟨⟨outer, ⟨inner, below⟩, -⟩, -⟩ := scope
    refine ⟨⟨outer, below.within fun x mem known => ?_⟩, trivial⟩
    obtain same | known := List.mem_cons.1 known
    · exact same ▸ List.mem_cons_self
    · exact (List.mem_cons.1 known).elim (absurd · (free x mem)) (List.mem_cons_of_mem _)
  | @renew i j h kids => cases h <;> exact scope
  | @inside i h kids kids' step ih =>
    cases h with
    | material m => exact ⟨⟨scope.1.1, ih scope.1.2⟩, trivial⟩
    | transform m => exact ⟨ih scope.1, trivial⟩
  | among step ih =>
    simp only [Node.scopedAll_append] at scope ⊢
    exact ⟨⟨scope.1.1, ih scope.1.2⟩, scope.2⟩

theorem ids_sublist {ns ns' : List (Node κ)} (step : Rewrite o ns ns') :
    ((materialsAll ns').map Material.id).Sublist ((materialsAll ns).map Material.id) := by
  induction step with
  | merge on => simp
  | splice on unit => simp
  | squash on child free => simp [Material.join]
  | @renew i j h kids => cases h <;> exact .refl _
  | @inside i h kids kids' step ih => cases h <;> simpa using ih
  | among step ih =>
    simp only [Node.materialsAll_append, List.map_append]
    exact (ih.append_left _).append_right _

end Rewrite

namespace Frame

theorem scoped_optimize (o : Options) (f : Frame ι) {free : String → Prop}
    (scope : Node.ScopedAll free [] f.root.children) :
    Node.ScopedAll free [] (f.optimize o).1.root.children :=
  f.optimize_keeps o ((Node.scopedAll_mapAll some _).2 scope) fun _ _ step => step.scopedAll

theorem ids_optimize (o : Options) (f : Frame ι) : (f.optimize o).1.ids.Sublist f.ids := by
  refine f.optimize_keeps o (P := fun ns => ((materialsAll ns).map Material.id).Sublist f.ids) ?_ ?_
  · rw [Node.materialsAll_mapAll]
    exact .refl _
  · exact fun _ _ step fewer => step.ids_sublist.trans fewer

/-- The ids differ, none is that of the root, and every ref leads to the root or to a material
around. -/
structure WellFormed (f : Frame κ) : Prop where
  distinct : f.ids.Nodup
  notRoot : rootId ∉ f.ids
  scope : Node.ScopedAll (· = rootId) [] f.root.children

theorem wellFormed_optimize (o : Options) (f : Frame ι) (wf : f.WellFormed) :
    (f.optimize o).1.WellFormed ∧ ∀ id ∈ (f.optimize o).1.ids, id ∈ f.ids := by
  have fewer := f.ids_optimize o
  have notRoot : rootId ∉ (f.optimize o).1.ids := fun mem => wf.notRoot (fewer.subset mem)
  have scope := f.scoped_optimize o wf.scope
  exact ⟨⟨wf.distinct.sublist fewer, notRoot, scope⟩, fun id mem => fewer.subset mem⟩

theorem wellFormed_optimize_nested :
    let f : Frame Nat := ⟨⟨1, 1, .fit⟩, none, ⟨0, ⟨"white", "black", 1⟩,
      [.group 1 (.material ⟨"outer", rootId, ⟨some "red", none, none⟩⟩)
        [.group 2 (.transform .identity)
          [.group 3 (.material ⟨"middle", "outer", ⟨none, some "blue", none⟩⟩)
            [.group 4 (.material ⟨"inner", "middle", .inherit⟩) [.shape 5 (.circle ⟨0, 0⟩ 1)]]]]]⟩⟩
    f.WellFormed ∧
      (f.optimize .allRules).1.WellFormed ∧ ∀ id ∈ (f.optimize .allRules).1.ids, id ∈ f.ids := by
  intro f
  have wf : f.WellFormed := ⟨by decide, by decide, by decide⟩
  exact ⟨wf, wellFormed_optimize .allRules f wf⟩

end Frame
end SceneTree
