import SceneTree.Frame

/-! The materials of a scene, one for each place where they stand. What is said of ids and
refs is said of this list. -/
namespace SceneTree
variable {ι κ : Type}

namespace Node

/- What holds of the empty forest, and of a forest with one more tree in front, holds of every
forest. -/
mutual
theorem forest_node {P : List (Node κ) → Prop} (nil : P [])
    (shape : ∀ i s ns, P ns → P (.shape i s :: ns))
    (group : ∀ i h kids ns, P kids → P ns → P (.group i h kids :: ns)) :
    ∀ (n : Node κ) (ns : List (Node κ)), P ns → P (n :: ns)
  | .shape i s, ns, rest => shape i s ns rest
  | .group i h kids, ns, rest => group i h kids ns (forest nil shape group kids) rest

@[elab_as_elim]
theorem forest {P : List (Node κ) → Prop} (nil : P [])
    (shape : ∀ i s ns, P ns → P (.shape i s :: ns))
    (group : ∀ i h kids ns, P kids → P ns → P (.group i h kids :: ns)) :
    ∀ ns : List (Node κ), P ns
  | [] => nil
  | n :: ns => forest_node nil shape group n ns (forest nil shape group ns)
end

def material? : Node κ → Option Material
  | .group _ (.material m) _ => some m
  | _ => none

mutual
def materials : Node κ → List Material
  | .shape _ _ => []
  | .group _ (.material m) kids => m :: materialsAll kids
  | .group _ (.transform _) kids => materialsAll kids

def materialsAll : List (Node κ) → List Material
  | [] => []
  | n :: ns => n.materials ++ materialsAll ns
end

@[simp] theorem materialsAll_nil : materialsAll ([] : List (Node κ)) = [] := rfl

@[simp] theorem materialsAll_shape (i : κ) (s : Shape) (ns : List (Node κ)) :
    materialsAll (.shape i s :: ns) = materialsAll ns := rfl

@[simp] theorem materialsAll_material (i : κ) (m : Material) (kids ns : List (Node κ)) :
    materialsAll (.group i (.material m) kids :: ns) =
      m :: (materialsAll kids ++ materialsAll ns) := rfl

@[simp] theorem materialsAll_transform (i : κ) (m : Affine) (kids ns : List (Node κ)) :
    materialsAll (.group i (.transform m) kids :: ns) =
      materialsAll kids ++ materialsAll ns := rfl

@[simp] theorem materialsAll_append (ns ms : List (Node κ)) :
    materialsAll (ns ++ ms) = materialsAll ns ++ materialsAll ms := by
  induction ns with
  | nil => rfl
  | cons n ns ih => simp [materialsAll, ih]

@[simp] theorem materialsAll_mapAll (f : ι → κ) (ns : List (Node ι)) :
    materialsAll (mapAll f ns) = materialsAll ns := by
  induction ns using forest with
  | nil => rfl
  | shape i s ns ih => simpa [mapAll, map] using ih
  | group i h kids ns inside ih => cases h <;> simp [mapAll, map, inside, ih]

end Node

/-- A material and the one just inside it as one: known by the inner id, and set further out. -/
def Material.join (outer inner : Material) : Material where
  id := inner.id
  ref := outer.ref
  style := outer.style.overlay inner.style

theorem Material.join_assoc (a b c : Material) : (a.join b).join c = a.join (b.join c) := by
  simp [join, Style.overlay_assoc]

def Frame.materials (f : Frame κ) : List Material := Node.materialsAll f.root.children

def Frame.ids (f : Frame κ) : List String := f.materials.map Material.id

end SceneTree
