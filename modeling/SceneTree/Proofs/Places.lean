import SceneTree.Proofs.Trail

/-! Every node in its place. A place is known by its address, the number of the child that is taken
at each step from the root. In the order of addresses a node comes before those below it and these
before whatever stands to the right of it; that is the order in which leaves are collected, each
with what the groups on the way to it amount to. -/
namespace SceneTree
variable {κ : Type}

namespace Head

def material? : Head → Option Material
  | .material m => some m
  | .transform _ => none

theorem foldl_nearest (heads : List Head) (id : String) :
    heads.foldl nearest id =
      ((heads.filterMap material?).getLast?.map Material.id).getD id := by
  induction heads generalizing id with
  | nil => rfl
  | cons h heads ih =>
    cases h with
    | material m =>
      have around : (material m :: heads).filterMap material? = m :: heads.filterMap material? :=
        List.filterMap_cons_some rfl
      rw [List.foldl_cons, ih, around, List.getLast?_cons]
      cases (heads.filterMap material?).getLast? <;> rfl
    | transform m => exact ih id

end Head

/-- A node, its address, and the heads of the groups on the way to it, the outermost first. -/
structure Place (κ : Type) where
  address : List Nat
  heads : List Head
  node : Node κ

namespace Place

def below (k : Nat) (h : Head) (p : Place κ) : Place κ :=
  ⟨k :: p.address, h :: p.heads, p.node⟩

def shifted (p : Place κ) : Place κ := { p with address := p.address.modifyHead (· + 1) }

/-- In the forest such a node stands at that address, within groups with these heads. -/
inductive Of : List (Node κ) → Place κ → Prop
  | top {ns : List (Node κ)} {k : Nat} {n : Node κ} (tree : ns[k]? = some n) :
    Of ns ⟨[k], [], n⟩
  | inner {ns : List (Node κ)} {k : Nat} {i : κ} {h : Head} {kids : List (Node κ)} {p : Place κ}
    (tree : ns[k]? = some (.group i h kids)) (inside : Of kids p) : Of ns (p.below k h)

theorem not_of_nil (p : Place κ) : ¬Of [] p := by
  intro none
  cases none with
  | top tree => cases tree
  | inner tree inside => cases tree

theorem Of.address_eq {ns : List (Node κ)} {p : Place κ} (place : Of ns p) :
    ∃ k address, p.address = k :: address := by
  cases place with
  | top tree => exact ⟨_, _, rfl⟩
  | inner tree inside => exact ⟨_, _, rfl⟩

theorem of_cons (n : Node κ) (ns : List (Node κ)) (p : Place κ) :
    Of (n :: ns) p ↔ p = ⟨[0], [], n⟩ ∨
      (∃ i h kids q, n = .group i h kids ∧ Of kids q ∧ q.below 0 h = p) ∨
      ∃ q, Of ns q ∧ q.shifted = p := by
  constructor
  · intro place
    cases place with
    | @top _ k n' tree =>
      cases k with
      | zero => exact .inl (Option.some.inj tree ▸ rfl)
      | succ k => exact .inr (.inr ⟨⟨[k], [], n'⟩, .top tree, rfl⟩)
    | @inner _ k i h kids q tree inside =>
      cases k with
      | zero => exact .inr (.inl ⟨i, h, kids, q, Option.some.inj tree, inside, rfl⟩)
      | succ k => exact .inr (.inr ⟨q.below k h, .inner tree inside, rfl⟩)
  · rintro (rfl | ⟨i, h, kids, q, rfl, inside, rfl⟩ | ⟨q, later, rfl⟩)
    · exact .top rfl
    · exact .inner rfl inside
    · cases later with
      | @top _ k n' tree => exact .top (k := k + 1) tree
      | @inner _ k i h kids q tree inside => exact .inner (k := k + 1) tree inside

/-- The matrices on the way multiplied from the left, beginning with the identity. -/
def world (p : Place κ) : Affine :=
  (p.heads.filterMap Head.transform?).foldl Affine.compose .identity

def material (p : Place κ) : String :=
  ((p.heads.filterMap Head.material?).getLast?.map Material.id).getD rootId

def leaf? (index : MaterialIndex κ) (p : Place κ) : Option (Leaf κ) :=
  match p.node with
  | .shape i s => some ⟨i, s, p.world, p.material, index.resolve p.material⟩
  | .group _ _ _ => none

def trail? (p : Place κ) : Option (Trail κ) :=
  match p.node with
  | .shape i s => some ⟨p.heads, i, s⟩
  | .group _ _ _ => none

theorem trail?_below (k : Nat) (h : Head) (p : Place κ) :
    (p.below k h).trail? = p.trail?.map (Trail.under h) := by
  unfold trail? below
  cases p.node <;> rfl

theorem leaf?_eq (index : MaterialIndex κ) (p : Place κ) :
    p.leaf? index = p.trail?.map (Trail.leaf index rootId .identity) := by
  unfold leaf? trail?
  cases p.node with
  | shape i s => simp [Trail.leaf, Head.foldl_moved, Head.foldl_nearest, world, material]
  | group i h kids => rfl

end Place

namespace Node

mutual
def places : Node κ → List (Place κ)
  | .shape i s => [⟨[0], [], .shape i s⟩]
  | .group i h kids => ⟨[0], [], .group i h kids⟩ :: (placesAll kids).map (Place.below 0 h)

def placesAll : List (Node κ) → List (Place κ)
  | [] => []
  | n :: ns => n.places ++ (placesAll ns).map Place.shifted
end

theorem mem_placesAll (ns : List (Node κ)) (p : Place κ) : p ∈ placesAll ns ↔ Place.Of ns p := by
  induction ns using forest generalizing p with
  | nil => simp [placesAll, Place.not_of_nil]
  | shape i s ns ih => simp [placesAll, places, Place.of_cons, ih]
  | group i h kids ns inside ih =>
    rw [Place.of_cons, placesAll, places, List.cons_append, List.mem_cons, List.mem_append,
      List.mem_map, List.mem_map]
    simp only [inside, ih]
    refine or_congr_right (or_congr_left ⟨?_, ?_⟩)
    · rintro ⟨q, place, rfl⟩
      exact ⟨i, h, kids, q, rfl, place, rfl⟩
    · rintro ⟨_, _, _, q, same, place, rfl⟩
      cases same
      exact ⟨q, place, rfl⟩

theorem address_eq {ns : List (Node κ)} {p : Place κ} (mem : p ∈ placesAll ns) :
    ∃ k rest, p.address = k :: rest := ((mem_placesAll ns p).1 mem).address_eq

/-- What is within the first tree comes before all that is within the others. -/
theorem lt_shifted {ns : List (Node κ)} {p : Place κ} (mem : p ∈ (placesAll ns).map Place.shifted)
    (address : List Nat) : 0 :: address < p.address := by
  obtain ⟨q, place, rfl⟩ := List.mem_map.1 mem
  obtain ⟨k, rest, same⟩ := address_eq place
  rw [Place.shifted, same]
  exact List.cons_lt_cons_iff.2 (.inl k.succ_pos)

theorem sorted_shifted {ns : List (Node κ)}
    (sorted : (placesAll ns).Pairwise (·.address < ·.address)) :
    ((placesAll ns).map Place.shifted).Pairwise (·.address < ·.address) := by
  rw [List.pairwise_map]
  refine sorted.imp_of_mem fun {p q} left right less => ?_
  obtain ⟨k, rest, same⟩ := address_eq left
  obtain ⟨k', rest', same'⟩ := address_eq right
  rw [Place.shifted, Place.shifted, same, same']
  rw [same, same', List.cons_lt_cons_iff] at less
  exact List.cons_lt_cons_iff.2 (less.imp Nat.succ_lt_succ (And.imp_left (congrArg (· + 1))))

theorem sorted_below {kids : List (Node κ)} (h : Head)
    (sorted : (placesAll kids).Pairwise (·.address < ·.address)) :
    (∀ p ∈ (placesAll kids).map (Place.below 0 h), [0] < p.address) ∧
      ((placesAll kids).map (Place.below 0 h)).Pairwise (·.address < ·.address) := by
  constructor
  · intro p mem
    obtain ⟨q, place, rfl⟩ := List.mem_map.1 mem
    obtain ⟨k, rest, same⟩ := address_eq place
    rw [Place.below, same]
    exact List.cons_lt_cons_iff.2 (.inr ⟨rfl, List.nil_lt_cons k rest⟩)
  · rw [List.pairwise_map]
    exact sorted.imp fun less => List.cons_lt_cons_iff.2 (.inr ⟨rfl, less⟩)

theorem sorted_placesAll (ns : List (Node κ)) :
    (placesAll ns).Pairwise (·.address < ·.address) := by
  induction ns using forest with
  | nil => exact .nil
  | shape i s ns ih =>
    exact List.pairwise_cons.2 ⟨fun p mem => lt_shifted mem [], sorted_shifted ih⟩
  | group i h kids ns inside ih =>
    -- First the group, then what is below it, then what stands to its right.
    obtain ⟨first, within⟩ := sorted_below h inside
    rw [placesAll, places, List.cons_append, List.pairwise_cons, List.pairwise_append]
    refine ⟨fun p mem => ?_, within, sorted_shifted ih, fun p left q right => ?_⟩
    · obtain below | later := List.mem_append.1 mem
      · exact first p below
      · exact lt_shifted later []
    · obtain ⟨p, place, rfl⟩ := List.mem_map.1 left
      exact lt_shifted right p.address

example (s : Shape) :
    (placesAll [.group 1 (.transform .identity) [.shape 2 s, .shape 3 s], .shape 4 s]).map
      Place.address = [[0], [0, 0], [0, 1], [1]] := rfl

theorem length_placesAll (ns : List (Node κ)) : (placesAll ns).length = sizeAll ns := by
  induction ns using forest with
  | nil => rfl
  | shape i s ns ih => simp [placesAll, places, sizeAll, size, ih, Nat.add_comm]
  | group i h kids ns inside ih =>
    simp only [placesAll, places, sizeAll, size, List.length_append, List.length_cons,
      List.length_map, inside, ih]
    omega

theorem trailsAll_eq (ns : List (Node κ)) :
    trailsAll ns = (placesAll ns).filterMap Place.trail? := by
  have others (ns : List (Node κ)) : ((placesAll ns).map Place.shifted).filterMap Place.trail? =
      (placesAll ns).filterMap Place.trail? := by
    rw [List.filterMap_map]
    rfl
  induction ns using forest with
  | nil => rfl
  | shape i s ns ih =>
    rw [placesAll, List.filterMap_append, others, ← ih]
    rfl
  | group i h kids ns inside ih =>
    have within : ((placesAll kids).map (Place.below 0 h)).filterMap Place.trail? =
        (trailsAll kids).map (Trail.under h) := by
      rw [inside, List.filterMap_map, List.map_filterMap]
      exact List.filterMap_congr fun p _ => p.trail?_below 0 h
    rw [placesAll, places, List.filterMap_append, others, ← ih, List.filterMap_cons_none rfl,
      within]
    rfl

end Node

namespace Frame

def places (f : Frame κ) : List (Place κ) := Node.placesAll f.root.children

/-- The leaves are the shapes of the frame, each in its place and the places in the order of their
addresses. A leaf is drawn with the product of the matrices around it, the outermost first, and in
the style that the nearest material around it resolves to. The count is that of all places, and one
for the root. -/
theorem leaves_places (f : Frame κ) :
    (∀ p, p ∈ f.places ↔ Place.Of f.root.children p) ∧
    f.places.Pairwise (·.address < ·.address) ∧
    f.leaves = f.places.filterMap (Place.leaf? (.ofFrame f)) ∧
    f.count = 1 + f.places.length := by
  refine ⟨Node.mem_placesAll _, Node.sorted_placesAll _, ?_, ?_⟩
  · calc f.leaves
        = f.trails.map (Trail.leaf (.ofFrame f) rootId .identity) := f.leaves_eq
      _ = (f.places.filterMap Place.trail?).map (Trail.leaf (.ofFrame f) rootId .identity) := by
          rw [trails, Node.trailsAll_eq, places]
      _ = f.places.filterMap (Place.leaf? (.ofFrame f)) := by
          rw [List.map_filterMap]
          exact List.filterMap_congr fun p _ => (p.leaf?_eq (.ofFrame f)).symm
  · rw [f.count_eq, places, Node.length_placesAll]

end Frame
end SceneTree
