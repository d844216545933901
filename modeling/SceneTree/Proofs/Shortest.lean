import SceneTree.Proofs.Rounding

/-! Shortest decimals. The decimal that is printed for a float lies among the values that are
rounded to that float, whether the search finds it or the exact value stands in. -/
namespace SceneTree.Decimal
open Binary (Canonical Within gap)
open Float.Model.UnpackedFloat (Sign)

variable {m : Nat} {q : Int}

theorem ofBits_eq {bits : UInt64} (form : significand bits = (m, q)) :
    Span.ofBits bits =
      ⟨(4 * m - if m = 2 ^ 52 ∧ -1074 < q then 1 else 2) * 2 ^ (q - 2).toNat,
        4 * m * 2 ^ (q - 2).toNat, (4 * m + 2) * 2 ^ (q - 2).toNat, 2 ^ (2 - q).toNat,
        m % 2 = 0⟩ := by
  rw [Span.ofBits, form]
  rfl

theorem common_unit (q g : ℤ) : ∃ u > (0 : ℚ),
    (∀ n : Nat, ((n * 2 ^ (q - 2).toNat * 10 ^ (-g).toNat : Nat) : ℚ) = n * 2 ^ (q - 2) * u) ∧
      ∀ d : Nat, ((d * 10 ^ g.toNat * 2 ^ (2 - q).toNat : Nat) : ℚ) = d * 10 ^ g * u := by
  have two := Binary.zpow_parts (b := 2) two_ne_zero (q - 2)
  have ten := Binary.zpow_parts (b := 10) (by norm_num) g
  rw [neg_sub] at two
  refine ⟨2 ^ (2 - q).toNat * 10 ^ (-g).toNat, by positivity, fun n => ?_, fun d => ?_⟩
  · push_cast
    rw [← two]
    ring
  · push_cast
    rw [← ten]
    ring

theorem quarter (q : ℤ) : (2 : ℚ) ^ q = 4 * 2 ^ (q - 2) := by
  rw [zpow_sub₀ two_ne_zero]
  norm_num
  ring

theorem within_of_contains {bits : UInt64} (form : Canonical m q)
    (bits_eq : significand bits = (m, q)) {d : Nat} {g : Int}
    (found : (Span.ofBits bits).contains d g = true) : Within m q (d * 10 ^ g) := by
  have pos := form.pos
  generalize below : (if m = 2 ^ 52 ∧ -1074 < q then 1 else 2) = b at *
  have reach : gap m q = b / 4 := by
    rw [gap, ← below]
    split <;> norm_num
  have short : b ≤ 4 * m := by
    rw [← below]
    split <;> omega
  have low : ((4 * m - b : Nat) : ℚ) * 2 ^ (q - 2) = (m - gap m q) * 2 ^ q := by
    rw [reach, quarter q, Nat.cast_sub short]
    push_cast
    ring
  have high : ((4 * m + 2 : Nat) : ℚ) * 2 ^ (q - 2) = (m + 1 / 2) * 2 ^ q := by
    rw [quarter q]
    push_cast
    ring
  obtain ⟨u, unit, bound, value⟩ := common_unit q g
  have lower := bound (4 * m - b)
  have upper := bound (4 * m + 2)
  rw [low] at lower
  rw [high] at upper
  have value := value d
  simp only [ofBits_eq bits_eq, below, Span.contains, Nat.pow_eq, decide_eq_true_eq] at found
  split at found
  · rename_i even
    simp only [decide_eq_true_eq, ← Nat.cast_le (α := ℚ), lower, upper, value,
      mul_le_mul_iff_left₀ unit] at found
    exact ⟨found.1, found.2, fun _ => even⟩
  · simp only [decide_eq_true_eq, ← Nat.cast_lt (α := ℚ), lower, upper, value,
      mul_lt_mul_iff_left₀ unit] at found
    exact ⟨found.1.le, found.2.le, fun h => absurd h (not_or.2 ⟨found.1.ne', found.2.ne⟩)⟩

/-- The decimal that is printed for a float is rounded to that float. -/
theorem shortest_within (form : Canonical m q) (s : Sign) :
    Within m q ((shortest (Binary.float s m q form.pos)).1 *
      10 ^ (shortest (Binary.float s m q form.pos)).2) := by
  have bits := form.significand_bits
  rw [shortest, form.abs_float, Span.shortest]
  split
  · rename_i found search
    obtain ⟨g, -, hit⟩ := List.exists_of_findSome?_eq_some search
    obtain ⟨d, here, rfl⟩ := Option.map_eq_some_iff.1 hit
    exact within_of_contains form bits (Span.contains_of_onGrid here)
  · have exact : ((4 * m * 2 ^ (q - 2).toNat * 5 ^ (2 - q).toNat : Nat) : ℚ) *
        10 ^ (-((2 - q).toNat : ℤ)) = m * 2 ^ q := by
      have two := Binary.zpow_parts (b := 2) two_ne_zero (q - 2)
      have ten : (10 : ℚ) ^ (2 - q).toNat = 5 ^ (2 - q).toNat * 2 ^ (2 - q).toNat := by
        rw [← mul_pow]
        norm_num
      rw [neg_sub] at two
      rw [zpow_neg, zpow_natCast, ten, quarter q]
      push_cast
      rw [← two]
      field_simp
    simp only [ofBits_eq bits, Nat.log2_two_pow, Nat.pow_eq]
    rw [exact]
    exact form.within

theorem shortest_pos (form : Canonical m q) (s : Sign) :
    0 < (shortest (Binary.float s m q form.pos)).1 := by
  have within := shortest_within form s
  by_contra zero
  rw [Nat.eq_zero_of_not_pos zero, Nat.cast_zero, zero_mul] at within
  have one : (1 : ℚ) ≤ m := by exact_mod_cast form.pos
  have inner : 0 < (m - gap m q) * (2 : ℚ) ^ q :=
    mul_pos (by linarith [Binary.gap_le m q]) (by positivity)
  exact absurd within.low (not_le.2 inner)

end SceneTree.Decimal
