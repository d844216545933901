import Std.Data.TreeMap

/-! How often each material is referred to. -/
namespace SceneTree
open Std (TreeMap)

structure RefCount where
  counts : TreeMap String Nat

namespace RefCount

def empty : RefCount := ⟨∅⟩

def count (r : RefCount) (id : String) : Nat := r.counts.getD id 0

def add (r : RefCount) (id : String) (n : Nat) : RefCount := ⟨r.counts.insert id (r.count id + n)⟩

def insert (r : RefCount) (id : String) : RefCount := r.add id 1

/-- One reference to `id` less, if there is any. A count of zero is not kept. -/
def removeOne (r : RefCount) (id : String) : RefCount :=
  if r.count id ≤ 1 then ⟨r.counts.erase id⟩ else ⟨r.counts.insert id (r.count id - 1)⟩

/-- The references of both; the smaller table is added to the larger. -/
def absorb (r s : RefCount) : RefCount :=
  if r.counts.size < s.counts.size then r.counts.foldl add s else s.counts.foldl add r

@[simp] theorem count_empty (x : String) : empty.count x = 0 := by
  simp [empty, count]

@[simp] theorem count_add (r : RefCount) (id : String) (n : Nat) (x : String) :
    (r.add id n).count x = r.count x + if id = x then n else 0 := by
  simp only [count, add, TreeMap.getD_insert]
  split <;> simp_all

@[simp] theorem count_insert (r : RefCount) (id x : String) :
    (r.insert id).count x = r.count x + if id = x then 1 else 0 := count_add r id 1 x

@[simp] theorem count_removeOne (r : RefCount) (id x : String) :
    (r.removeOne id).count x = r.count x - if id = x then 1 else 0 := by
  unfold removeOne
  split
  · simp only [count, TreeMap.getD_erase] at *
    split <;> simp_all
  · simp only [count, TreeMap.getD_insert] at *
    split <;> simp_all

theorem count_foldl_add (entries : List (String × Nat)) (r : RefCount) (x : String)
    (distinct : entries.Pairwise fun a b => ¬compare a.1 b.1 = .eq) :
    (entries.foldl (fun r e => r.add e.1 e.2) r).count x =
      r.count x + ((entries.find? (compare ·.1 x == .eq)).map (·.2)).getD 0 := by
  induction entries generalizing r with
  | nil => simp
  | cons e entries ih =>
    obtain ⟨he, hrest⟩ := List.pairwise_cons.1 distinct
    rw [List.foldl_cons, ih _ hrest, count_add, List.find?_cons]
    by_cases h : e.1 = x
    · subst h
      have absent : entries.find? (compare ·.1 e.1 == .eq) = none := by
        rw [List.find?_eq_none]
        intro e' mem same
        have eq : e'.1 = e.1 := by simpa using same
        exact he e' mem (Std.compare_eq_iff_eq.2 eq.symm)
      simp [absent]
    · have other : (compare e.1 x == .eq) = false := by simpa using h
      simp [h, other]

theorem count_foldl_counts (r s : RefCount) (x : String) :
    (s.counts.foldl add r).count x = r.count x + s.count x := by
  rw [TreeMap.foldl_eq_foldl_toList, count_foldl_add _ _ _ TreeMap.distinct_keys_toList]
  congr 1
  rw [count, TreeMap.getD_eq_getD_getElem?]
  congr 1
  cases h : s.counts.toList.find? (compare ·.1 x == .eq) with
  | none =>
    cases hv : s.counts[x]? with
    | none => rfl
    | some v =>
      have := List.find?_eq_none.1 h (x, v) (TreeMap.mem_toList_iff_getElem?_eq_some.2 hv)
      simp at this
  | some e =>
    rw [Option.map_some]
    exact (TreeMap.find?_toList_eq_some_iff_getKey?_eq_some_and_getElem?_eq_some.1 h).2.symm

@[simp] theorem count_absorb (r s : RefCount) (x : String) :
    (r.absorb s).count x = r.count x + s.count x := by
  unfold absorb
  split
  · rw [count_foldl_counts, Nat.add_comm]
  · rw [count_foldl_counts]

end RefCount
end SceneTree
