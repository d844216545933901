import SceneTree.Proofs.Scripts

/-! Sketches as scripts. A script that places its materials in the order in which it makes them
draws what a sketch draws, so what holds of scripts holds of drawings. -/
namespace SceneTree

namespace Slot

mutual
/-- The sketch of a slot, those of the materials being there already. -/
def sketch (made : List Sketch) : Slot → List Sketch
  | .shape s => [.shape s]
  | .made n => made[n]?.toList
  | .transform m slots => [.group (.transform m) (sketchAll made slots)]

def sketchAll (made : List Sketch) : List Slot → List Sketch
  | [] => []
  | slot :: slots => slot.sketch made ++ sketchAll made slots
end

end Slot

def Script.sketches (made : List Sketch) : Script → List Sketch
  | .layOut layout => Slot.sketchAll made layout
  | .material parent style children next =>
    next.sketches (made ++ [.group (.material parent style) (children.sketches [])])

namespace Hand
variable {around : List String}

inductive Draws (around : List String) : Hand → List Sketch → List (Node Unit) → Hand → Prop
  | nil (hand : Hand) : Draws around hand [] [] hand
  | cons {hand hand' hand'' : Hand} {s : Sketch} {n : Node Unit} {ss : List Sketch}
    {ns : List (Node Unit)} (one : draw around hand s = ([n], hand'))
    (rest : Draws around hand' ss ns hand'') : Draws around hand (s :: ss) (n :: ns) hand''

theorem Draws.snoc {hand hand' hand'' : Hand} {ss : List Sketch} {ns : List (Node Unit)}
    {s : Sketch} {n : Node Unit} (draws : Draws around hand ss ns hand')
    (one : draw around hand' s = ([n], hand'')) :
    Draws around hand (ss ++ [s]) (ns ++ [n]) hand'' := by
  induction draws with
  | nil hand => exact .cons one (.nil _)
  | cons first rest ih => exact .cons first (ih one)

theorem Draws.split {hand hand' : Hand} {ss ts : List Sketch} {ns : List (Node Unit)}
    (draws : Draws around hand (ss ++ ts) ns hand') :
    ∃ ms os between, ns = ms ++ os ∧ ms.length = ss.length ∧
      Draws around hand ss ms between ∧ Draws around between ts os hand' := by
  induction ss generalizing hand ns with
  | nil => exact ⟨[], ns, hand, rfl, rfl, .nil _, draws⟩
  | cons s ss ih =>
    cases draws with
    | cons one rest =>
      obtain ⟨ms, os, between, rfl, size, front, back⟩ := ih rest
      exact ⟨_ :: ms, os, between, rfl, congrArg (· + 1) size, .cons one front, back⟩

theorem prefix_drop_succ {α : Type} {a : α} {as all : List α} {n : Nat}
    (found : a :: as <+: all.drop n) : all[n]? = some a ∧ as <+: all.drop (n + 1) := by
  obtain ⟨rest, same⟩ := found
  rw [List.cons_append] at same
  constructor
  · rw [← List.head?_drop, ← same, List.head?_cons]
  · rw [← List.tail_drop, ← same, List.tail_cons]
    exact List.prefix_append ..

theorem drawAll_sketchAll {made : List Sketch} {nodes : List (Node Unit)} (slots : List Slot)
    (first : Nat) (ss : List Sketch) (ns : List (Node Unit)) (hand hand' : Hand)
    (taken : Slot.takenAll slots = List.range' first ss.length) (sketched : ss <+: made.drop first)
    (placed : ns <+: nodes.drop first) (draws : Draws around hand ss ns hand') :
    drawAll around hand (Slot.sketchAll made slots) = (Slot.placeAll nodes slots, hand') := by
  induction slots using Slot.layouts generalizing first ss ns hand hand' with
  | nil =>
    obtain rfl : ss = [] :=
      List.eq_nil_of_length_eq_zero (List.range'_eq_nil_iff.1 taken.symm)
    cases draws
    rfl
  | shape s slots ih =>
    have rest := ih first ss ns hand hand' taken sketched placed draws
    simp only [Slot.sketchAll, Slot.sketch, List.singleton_append, drawAll, draw, rest,
      Slot.placeAll, Slot.place]
  | made n slots ih =>
    cases draws with
    | nil => cases taken
    | @cons _ between _ s node ss ns one rest =>
      rw [List.length_cons, List.range'_succ] at taken
      obtain ⟨rfl, taken⟩ := List.cons.inj taken
      obtain ⟨sketch, sketched⟩ := prefix_drop_succ sketched
      obtain ⟨place, placed⟩ := prefix_drop_succ placed
      have later := ih (n + 1) ss ns between hand' taken sketched placed rest
      simp only [Slot.sketchAll, Slot.sketch, Slot.placeAll, Slot.place, sketch, place,
        Option.toList_some, List.singleton_append, drawAll, one, later]
  | transform m inside slots within ih =>
    -- The group takes the first `k` of the materials, and what follows it the others.
    obtain ⟨k, small, front, back⟩ := List.range'_eq_append_iff.1 taken.symm
    rw [Nat.mul_one] at back
    rw [← List.take_append_drop k ss] at draws
    obtain ⟨ms, os, between, rfl, size, inner, outer⟩ := draws.split
    have length := List.length_take_of_le small
    rw [length] at size
    have below := within first (ss.take k) ms hand between (by rw [length]; exact front)
      ((List.take_prefix k ss).trans sketched) ((List.prefix_append ms os).trans placed) inner
    have further : os <+: nodes.drop (first + k) := by
      simpa [size, List.drop_drop] using placed.drop k
    have later := ih (first + k) (ss.drop k) os between hand'
      (by rw [List.length_drop]; exact back)
      (by simpa [List.drop_drop] using sketched.drop k) further outer
    simp only [Slot.sketchAll, Slot.sketch, Slot.placeAll, Slot.place, List.singleton_append,
      drawAll, draw, layer, below, later]

end Hand

/-- Where a script places its materials as it makes them, drawing its sketch is running it. -/
theorem Script.drawAll_sketches (script : Script) {around : List String} {hand between : Hand}
    {made : List Sketch} {nodes : List (Node Unit)}
    (draws : Hand.Draws around hand made nodes between) (inOrder : script.Lays Eq made.length) :
    Hand.drawAll around hand (script.sketches made) = script.run around between nodes := by
  induction script generalizing around hand between made nodes with
  | layOut layout =>
    refine Hand.drawAll_sketchAll layout 0 made nodes hand between ?_ ?_ ?_ draws
    · exact inOrder.trans List.range_eq_range'
    · exact List.prefix_rfl
    · exact List.prefix_rfl
  | material parent style children next within later =>
    rw [sketches, run]
    refine later (draws.snoc ?_) (by simpa using inOrder.2)
    have inside : Hand.Draws (between.ids.next.1 :: around)
        { between with ids := between.ids.next.2 } [] []
        { between with ids := between.ids.next.2 } := .nil _
    have kids := within inside inOrder.1
    rw [Hand.draw]
    simp only [Hand.layer, kids]
    rfl

theorem Drawing.frame_sketches (d : Drawing) (script : Script) (inOrder : script.InOrder)
    (children : d.children = script.sketches []) :
    d.frame = script.frame d.viewport d.background d.paint d.ids := by
  have start : Hand.Draws [] ⟨d.ids, []⟩ [] [] ⟨d.ids, []⟩ := .nil _
  have drawn := script.drawAll_sketches start inOrder
  rw [frame, children, drawn, Script.frame]

end SceneTree
