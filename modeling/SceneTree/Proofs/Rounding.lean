import SceneTree.Proofs.Binary

/-! Rounding. An operation on floats computes its exact result far enough to tell on which side of
the middle between two neighbours it lies. What it gives is the nearest float, and a tie goes to the
even significand. -/
namespace SceneTree.Binary
open Float.Model (UnpackedFloat Format totalExponent)
open Float.Model.UnpackedFloat

/-- What a cut significand and its two spare bits say of the exact value `x`. -/
structure Locates (em : ExtendedMantissa) (x : ℚ) : Prop where
  low : (em.mantissa : ℚ) ≤ x
  high : x < em.mantissa + 1
  round : em.roundBit = true ↔ em.mantissa + 1 / 2 ≤ x
  sticky : em.stickyBit = false ↔ x = em.mantissa ∨ x = em.mantissa + 1 / 2

/-- The integer nearest to `x`, the even one of two. -/
structure Nearest (x : ℚ) (r : Nat) : Prop where
  above : x ≤ r + 1 / 2
  below : r ≤ x + 1 / 2
  tie : x = r + 1 / 2 ∨ r = x + 1 / 2 → r % 2 = 0

namespace Locates
variable {em : ExtendedMantissa} {x : ℚ}

theorem exact (m : Nat) : Locates (.ofMantissaAndAccuracy m .exact) m where
  low := le_rfl
  high := lt_add_one _
  round := by simp [ExtendedMantissa.ofMantissaAndAccuracy]
  sticky := by simp [ExtendedMantissa.ofMantissaAndAccuracy]

theorem half (located : Locates em x) : Locates em.shiftRightOne (x / 2) := by
  obtain ⟨m, round, sticky⟩ := em
  obtain ⟨low, high, middle, edge⟩ := located
  simp only at low high middle edge
  have split : ((m % 2 : Nat) : ℚ) + 2 * ((m / 2 : Nat) : ℚ) = m := by
    exact_mod_cast Nat.mod_add_div m 2
  have spare : (round || sticky) = false ↔ x = m := by
    rw [Bool.or_eq_false_iff, edge, ← Bool.not_eq_true, middle]
    constructor
    · rintro ⟨below, rfl | rfl⟩
      · rfl
      · exact absurd le_rfl below
    · rintro rfl
      exact ⟨by linarith, .inl rfl⟩
  obtain even | odd := Nat.mod_two_eq_zero_or_one m
  · rw [even, Nat.cast_zero] at split
    refine ⟨?_, ?_, ?_, ?_⟩ <;> simp only [ExtendedMantissa.shiftRightOne]
    · linarith
    · linarith
    · simp only [even, bne_self_eq_false, Bool.false_eq_true, false_iff, not_le]
      linarith
    · rw [spare]
      constructor
      · rintro rfl
        left; linarith
      · rintro (h | h) <;> linarith
  · rw [odd, Nat.cast_one] at split
    refine ⟨?_, ?_, ?_, ?_⟩ <;> simp only [ExtendedMantissa.shiftRightOne]
    · linarith
    · linarith
    · simp only [odd, bne_iff_ne, ne_eq, one_ne_zero, not_false_eq_true, true_iff]
      linarith
    · rw [spare]
      constructor
      · rintro rfl
        right; linarith
      · rintro (h | h) <;> linarith

theorem shift (located : Locates em x) (k : Nat) : Locates (em >>> k) (x / 2 ^ k) := by
  change Locates (k.repeat ExtendedMantissa.shiftRightOne em) _
  induction k with
  | zero => simpa [Nat.repeat] using located
  | succ k ih => simpa [Nat.repeat, pow_succ, div_div] using ih.half

theorem nearest (located : Locates em x) : Nearest x em.roundedMantissa := by
  obtain ⟨m, round, sticky⟩ := em
  obtain ⟨low, high, middle, edge⟩ := located
  simp only at low high middle edge
  cases round with
  | false =>
    have below : x < m + 1 / 2 := not_le.1 fun h => Bool.false_ne_true (middle.2 h)
    have down : ExtendedMantissa.roundedMantissa ⟨m, false, sticky⟩ = m := by
      cases sticky <;> rfl
    rw [down]
    exact ⟨below.le, by linarith, by rintro (h | h) <;> exfalso <;> linarith⟩
  | true =>
    have above := middle.1 rfl
    cases sticky with
    | false =>
      have even : ExtendedMantissa.roundedMantissa ⟨m, true, false⟩ = m + m % 2 := rfl
      obtain rfl : x = m + 1 / 2 := (edge.1 rfl).resolve_left (by intro h; linarith)
      rw [even]
      obtain parity | parity := Nat.mod_two_eq_zero_or_one m <;> rw [parity]
      · exact ⟨by push_cast; linarith, by push_cast; linarith, fun _ => by omega⟩
      · exact ⟨by push_cast; linarith, by push_cast; linarith, fun _ => by omega⟩
    | true =>
      have up : ExtendedMantissa.roundedMantissa ⟨m, true, true⟩ = m + 1 := rfl
      have beyond : x ≠ m + 1 / 2 := fun h => Bool.false_ne_true (edge.2 (.inr h)).symm
      have above := lt_of_le_of_ne above beyond.symm
      have next : ((m + 1 : Nat) : ℚ) = m + 1 := Nat.cast_succ m
      rw [up]
      exact ⟨by linarith, by linarith, by rintro (h | h) <;> exfalso <;> linarith⟩

theorem inexact {m : Nat} (low : m < x) (high : x < m + 1) (o : Ordering)
    (side : compare x (m + 1 / 2) = o) : Locates (.ofMantissaAndAccuracy m (.inexact o)) x := by
  have beyond : x ≠ m := low.ne'
  cases o with
  | lt =>
    have below : x < m + 1 / 2 := compare_lt_iff_lt.1 side
    exact ⟨low.le, high, iff_of_false Bool.false_ne_true below.not_ge,
      iff_of_false nofun fun h => h.elim beyond below.ne⟩
  | eq =>
    have middle : x = m + 1 / 2 := compare_eq_iff_eq.1 side
    exact ⟨low.le, high, iff_of_true rfl middle.ge, iff_of_true rfl (.inr middle)⟩
  | gt =>
    have above : m + 1 / 2 < x := compare_gt_iff_gt.1 side
    exact ⟨low.le, high, iff_of_true rfl above.le,
      iff_of_false nofun fun h => h.elim beyond above.ne'⟩

theorem quotient (a : Nat) {b : Nat} (pos : 0 < b) :
    Locates (.ofMantissaAndAccuracy (a / b) (accuracyOfFraction (a % b) b)) (a / b) := by
  have den : (0 : ℚ) < b := by exact_mod_cast pos
  have whole : (a : ℚ) = b * ((a / b : Nat) : ℚ) + ((a % b : Nat) : ℚ) := by
    exact_mod_cast (Nat.div_add_mod a b).symm
  have value : (a : ℚ) / b = ((a / b : Nat) : ℚ) + ((a % b : Nat) : ℚ) / b := by
    rw [div_eq_iff den.ne', add_mul, div_mul_cancel₀ _ den.ne', mul_comm]
    exact whole
  have small := Nat.mod_lt a pos
  rw [value]
  generalize a / b = m, a % b = r at small
  unfold accuracyOfFraction
  split
  · rename_i none
    rw [none, Nat.cast_zero, zero_div, add_zero]
    exact exact m
  · rename_i some
    have part : (0 : ℚ) < r / b := div_pos (by exact_mod_cast Nat.pos_of_ne_zero some) den
    refine inexact (by linarith) ?_ _ ?_
    · rw [add_lt_add_iff_left, div_lt_one den]
      exact_mod_cast small
    · obtain side | side | side := lt_trichotomy (2 * r) b
      · rw [compare_lt_iff_lt.2 side, compare_lt_iff_lt, add_lt_add_iff_left, div_lt_iff₀ den]
        have : (2 * r : ℚ) < b := by exact_mod_cast side
        linarith
      · rw [compare_eq_iff_eq.2 side, compare_eq_iff_eq, add_right_inj, div_eq_iff den.ne']
        have : (2 * r : ℚ) = b := by exact_mod_cast side
        linarith
      · rw [compare_gt_iff_gt.2 side, compare_gt_iff_gt, add_lt_add_iff_left, lt_div_iff₀ den]
        have : (b : ℚ) < 2 * r := by exact_mod_cast side
        linarith

end Locates

/-- The exact value `x` of a positive result lies nearest to `r * 2^t`, and `2^t` is the unit that a
float of this size has. -/
structure Rounds (x : ℚ) (r : Nat) (t : ℤ) : Prop where
  nearest : Nearest (x / 2 ^ t) r
  least : -1074 ≤ t
  below : x < 2 ^ 53 * 2 ^ t
  above : 2 ^ 52 * 2 ^ t ≤ x ∨ t = -1074

/- The result, where a significand that was rounded up to one bit more is halved. -/
def settled (s : Sign) (r : Nat) (t : ℤ) : UnpackedFloat :=
  if zero : r = 0 then .zero s
  else if r = 2 ^ 53 then .finite s (2 ^ 52) (t + 1) (by decide)
  else .finite s r t (Nat.pos_of_ne_zero zero)

theorem Nearest.le_of_lt {x : ℚ} {r n : Nat} (nearest : Nearest x r) (small : x < n) : r ≤ n := by
  by_contra more
  have next : (n : ℚ) + 1 ≤ r := by exact_mod_cast Nat.lt_of_not_le more
  linarith [nearest.below]

theorem Nearest.ge_of_le {x : ℚ} {r n : Nat} (nearest : Nearest x r) (large : n ≤ x) : n ≤ r := by
  by_contra less
  have next : (r : ℚ) + 1 ≤ n := by exact_mod_cast Nat.lt_of_not_le less
  linarith [nearest.above]

theorem target_eq (m : Nat) (e : ℤ) :
    format.targetExponent (totalExponent m e) = max (m.log2 + e - 52) (-1074) := by
  have least : format.minExponent = -1074 := by decide
  have bits : format.mantissaBits = 53 := rfl
  rw [Format.targetExponent, totalExponent, least, bits]
  congr 1
  omega

theorem target_quotient (m m' : Nat) (q q' : ℤ) :
    format.targetExponent (totalExponent m q - totalExponent m' q') =
      max (m.log2 + q - (m'.log2 + q') - 53) (-1074) := by
  have least : format.minExponent = -1074 := by decide
  have bits : format.mantissaBits = 53 := rfl
  rw [Format.targetExponent, least, bits, totalExponent, totalExponent]
  congr 1
  omega

theorem mantissa_ofMantissaAndAccuracy (m : Nat) (accuracy : Accuracy) :
    (ExtendedMantissa.ofMantissaAndAccuracy m accuracy).mantissa = m := by
  cases accuracy with
  | exact => rfl
  | inexact o => cases o <;> rfl

theorem Locates.lt_two_pow {m : Nat} {accuracy : Accuracy} {x : ℚ}
    (located : Locates (.ofMantissaAndAccuracy m accuracy) x) : x < 2 ^ (m.log2 + 1) := by
  have high := located.high
  rw [mantissa_ofMantissaAndAccuracy] at high
  have size : ((m + 1 : Nat) : ℚ) ≤ 2 ^ (m.log2 + 1) := by exact_mod_cast Nat.lt_log2_self
  push_cast at size
  linarith

theorem Locates.two_pow_le {m : Nat} {accuracy : Accuracy} {x : ℚ}
    (located : Locates (.ofMantissaAndAccuracy m accuracy) x) (nonzero : m ≠ 0) :
    2 ^ m.log2 ≤ x := by
  have low := located.low
  rw [mantissa_ofMantissaAndAccuracy] at low
  have size : ((2 ^ m.log2 : Nat) : ℚ) ≤ m := by exact_mod_cast Nat.log2_self_le nonzero
  push_cast at size
  linarith

theorem zpow_parts {b : ℚ} (nonzero : b ≠ 0) (e : ℤ) : b ^ e * b ^ (-e).toNat = b ^ e.toNat := by
  rw [← zpow_natCast, ← zpow_natCast, ← zpow_add₀ nonzero]
  congr 1
  omega

theorem zpow_le {a b : ℤ} (le : a ≤ b) : (2 : ℚ) ^ a ≤ 2 ^ b := zpow_le_zpow_right₀ one_le_two le

/- A significand that still fits needs no second shift, and one that does not is a power of two. -/
theorem second_shift (s : Sign) {r : Nat} {t : ℤ} (fits : r ≤ 2 ^ 53) (least : -1074 ≤ t) :
    (let (em, e) := shiftToTargetExponent format r t .exact
     if h : em.mantissa = 0 then UnpackedFloat.zero s
     else .finite s em.mantissa e (Nat.pos_of_ne_zero h)) = settled s r t := by
  have shape : shiftToTargetExponent format r t .exact =
      shiftToExponent r t .exact (max (r.log2 + t - 52) (-1074)) := by
    rw [shiftToTargetExponent, target_eq]
  rw [shape, settled]
  obtain full | small := fits.eq_or_lt
  · have log : (2 ^ 53 : Nat).log2 = 53 := Nat.log2_two_pow
    have one : (max (((53 : Nat) : ℤ) + t - 52) (-1074) - t).toNat = 1 := by omega
    subst full
    rw [dif_neg (by decide), if_pos rfl, shiftToExponent, log, one]
    rfl
  · have log : r.log2 ≤ 52 := by
      by_cases zero : r = 0
      · simp [zero]
      · have := (Nat.log2_lt zero).2 small
        omega
    have none : (max ((r.log2 : ℤ) + t - 52) (-1074) - t).toNat = 0 := by omega
    simp only [if_neg small.ne, shiftToExponent, none, Nat.cast_zero, add_zero]
    rfl

namespace Rounds
variable {x : ℚ} {r : Nat} {t : ℤ} (rounds : Rounds x r t)
include rounds

theorem fits : r ≤ 2 ^ 53 := by
  refine rounds.nearest.le_of_lt ?_
  rw [div_lt_iff₀ (by positivity)]
  exact_mod_cast rounds.below

theorem full : 2 ^ 52 ≤ r ∨ t = -1074 := by
  refine rounds.above.imp_left fun above => rounds.nearest.ge_of_le ?_
  rw [le_div_iff₀ (by positivity)]
  exact_mod_cast above

end Rounds

/-- Rounding gives the nearest float, if the significand has not been cut too short before. -/
theorem round_exact (s : Sign) {m : Nat} {e : ℤ} {accuracy : Accuracy} {x : ℚ}
    (located : Locates (.ofMantissaAndAccuracy m accuracy) x) (enough : 2 ^ 52 ≤ m ∨ e ≤ -1074) :
    ∃ r t, Rounds (x * 2 ^ e) r t ∧ roundWithAccuracy format s m e accuracy = settled s r t := by
  obtain ⟨t, target⟩ : ∃ t, t = max (m.log2 + e - 52) (-1074) := ⟨_, rfl⟩
  obtain ⟨k, shift⟩ : ∃ k, k = (t - e).toNat := ⟨_, rfl⟩
  have log : 2 ^ 52 ≤ m → 52 ≤ m.log2 := fun h => (Nat.le_log2 (by omega)).2 h
  have reach : t = e + k := by omega
  have scaled : x * 2 ^ e / 2 ^ t = x / 2 ^ k := by
    rw [reach, zpow_add₀ two_ne_zero, zpow_natCast]
    field_simp
  have unit (n : Nat) (a : ℤ) : (2 : ℚ) ^ n * 2 ^ a = 2 ^ (n + a) := by
    rw [zpow_add₀ two_ne_zero, zpow_natCast]
  have below : x * 2 ^ e < 2 ^ 53 * 2 ^ t := by
    have size := located.lt_two_pow
    calc x * 2 ^ e < 2 ^ (m.log2 + 1) * 2 ^ e := by gcongr
      _ = 2 ^ (((m.log2 + 1 : Nat) : ℤ) + e) := unit ..
      _ ≤ 2 ^ (((53 : Nat) : ℤ) + t) := zpow_le (by omega)
      _ = 2 ^ 53 * 2 ^ t := (unit ..).symm
  have above : 2 ^ 52 * 2 ^ t ≤ x * 2 ^ e ∨ t = -1074 := by
    by_cases bottom : t = -1074
    · exact .inr bottom
    · have nonzero : m ≠ 0 := by
        rintro rfl
        simp at enough target
        omega
      have size := located.two_pow_le nonzero
      left
      calc 2 ^ 52 * 2 ^ t = 2 ^ (((52 : Nat) : ℤ) + t) := unit ..
        _ = 2 ^ ((m.log2 : ℤ) + e) := by congr 1; omega
        _ = 2 ^ m.log2 * 2 ^ e := (unit ..).symm
        _ ≤ x * 2 ^ e := by gcongr
  have nearest := (located.shift k).nearest
  rw [← scaled] at nearest
  have rounds : Rounds (x * 2 ^ e) _ t := ⟨nearest, by omega, below, above⟩
  refine ⟨_, t, rounds, ?_⟩
  have first : shiftToTargetExponent format m e accuracy =
      (ExtendedMantissa.ofMantissaAndAccuracy m accuracy >>> k, e + (k : ℤ)) := by
    simp only [shiftToTargetExponent, target_eq, ← target, shiftToExponent, ← shift]
  rw [roundWithAccuracy, first, ← reach]
  exact second_shift s rounds.fits (by omega)

/- How far down the values reach that are nearest to `m * 2^q`, in units of `2^q`: below a power of
   two the floats lie closer together. -/
def gap (m : Nat) (q : ℤ) : ℚ := if m = 2 ^ 52 ∧ -1074 < q then 1 / 4 else 1 / 2

/-- The values that are rounded to `m * 2^q`. -/
structure Within (m : Nat) (q : ℤ) (x : ℚ) : Prop where
  low : (m - gap m q) * 2 ^ q ≤ x
  high : x ≤ (m + 1 / 2) * 2 ^ q
  edge : x = (m - gap m q) * 2 ^ q ∨ x = (m + 1 / 2) * 2 ^ q → m % 2 = 0

theorem gap_le (m : Nat) (q : ℤ) : gap m q ≤ 1 / 2 := by
  unfold gap
  split <;> norm_num

namespace Within
variable {m r : Nat} {q t : ℤ} {x : ℚ} (within : Within m q x) (form : Canonical m q)
  (rounds : Rounds x r t)
include within form rounds

theorem unit_le : t ≤ q := by
  by_contra more
  have large := rounds.above.resolve_right (by have := form.least; omega)
  have step : (2 : ℚ) * 2 ^ q ≤ 2 ^ t := by
    rw [← zpow_one_add₀ two_ne_zero]
    exact zpow_le (by omega)
  have short : (m : ℚ) + 1 ≤ 2 ^ 53 := by exact_mod_cast form.small
  have high := within.high
  have unit : (0 : ℚ) < 2 ^ q := by positivity
  nlinarith

/- A value just below a power of two may have a smaller unit, and is rounded up to it. -/
theorem carry (less : t < q) : q = t + 1 ∧ m = 2 ^ 52 ∧ r = 2 ^ 53 := by
  have unit (a : ℤ) : (0 : ℚ) < 2 ^ a := by positivity
  have full := form.full.resolve_right (by have := rounds.least; omega)
  have gap_le := gap_le m q
  have low := within.low
  have step : (2 : ℚ) * 2 ^ t ≤ 2 ^ q := by
    rw [← zpow_one_add₀ two_ne_zero]
    exact zpow_le (by omega)
  obtain rfl : m = 2 ^ 52 := by
    have : (m : ℚ) < 2 ^ 52 + 1 := by
      by_contra large
      nlinarith [unit q, rounds.below]
    have : m < 2 ^ 52 + 1 := by exact_mod_cast this
    omega
  have near : gap (2 ^ 52) q = 1 / 4 := if_pos ⟨rfl, by have := rounds.least; omega⟩
  rw [near] at low
  push_cast at low
  have next : q = 1 + t := by
    by_contra far
    have double : (4 : ℚ) * 2 ^ t ≤ 2 ^ q := by
      have : (4 : ℚ) = 2 ^ (2 : ℤ) := by norm_num
      rw [this, ← zpow_add₀ two_ne_zero]
      exact zpow_le (by omega)
    nlinarith [unit q, rounds.below]
  rw [next, zpow_one_add₀ two_ne_zero] at low
  have bottom : 2 ^ 53 - 1 / 2 ≤ x / 2 ^ t := by
    rw [le_div_iff₀ (unit t)]
    linarith
  have nearest := rounds.nearest
  generalize x / 2 ^ t = y at bottom nearest
  refine ⟨by omega, rfl, ?_⟩
  have upper := rounds.fits
  have lower := nearest.ge_of_le (n := 2 ^ 53 - 1) (by norm_num; linarith)
  by_contra other
  obtain rfl : r = 2 ^ 53 - 1 := by omega
  have := nearest.tie (.inl (le_antisymm nearest.above (by norm_num; linarith)))
  omega

/- With the same unit the nearest significand is the one of the float: both sides are even at a
   tie, and they cannot both be. -/
theorem significand_eq (same : t = q) : r = m := by
  have unit : (0 : ℚ) < 2 ^ t := by positivity
  have gap_le := gap_le m q
  obtain ⟨low, high, edge⟩ := within
  have nearest := rounds.nearest
  subst same
  rw [← le_div_iff₀ unit] at low
  rw [← div_le_iff₀ unit] at high
  rw [← div_eq_iff unit.ne', ← div_eq_iff unit.ne'] at edge
  generalize x / 2 ^ t = y at low high edge nearest
  have up : r < m + 2 := by
    have : (r : ℚ) < m + 2 := by linarith [nearest.below]
    exact_mod_cast this
  have down : m < r + 2 := by
    have : (m : ℚ) < r + 2 := by linarith [nearest.above]
    exact_mod_cast this
  obtain upper | equal | lower : r = m + 1 ∨ r = m ∨ m = r + 1 := by omega
  · have next : (r : ℚ) = m + 1 := by exact_mod_cast upper
    have middle : y = m + 1 / 2 := le_antisymm high (by linarith [nearest.below])
    have even := edge (.inr middle)
    have odd := nearest.tie (.inr (by rw [next, middle]; ring))
    omega
  · exact equal
  · have next : (m : ℚ) = r + 1 := by exact_mod_cast lower
    have middle : y = r + 1 / 2 := le_antisymm nearest.above (by linarith)
    have even := nearest.tie (.inl middle)
    have odd := edge (.inl (le_antisymm (by linarith [nearest.above]) low))
    omega

theorem settled_eq (s : Sign) : settled s r t = .finite s m q form.pos := by
  obtain less | same := (within.unit_le form rounds).lt_or_eq
  · obtain ⟨rfl, rfl, rfl⟩ := within.carry form rounds less
    rw [settled, dif_neg (by decide), if_pos rfl]
  · obtain rfl := within.significand_eq form rounds same
    subst same
    rw [settled, dif_neg form.pos.ne', if_neg form.small.ne]

end Within

theorem Canonical.within {m : Nat} {q : ℤ} (_ : Canonical m q) : Within m q (m * 2 ^ q) := by
  have unit : (0 : ℚ) < 2 ^ q := by positivity
  have gap_pos : 0 < gap m q := by
    unfold gap
    split <;> norm_num
  refine ⟨by nlinarith, by nlinarith, ?_⟩
  rintro (h | h) <;> nlinarith

namespace Rounds
variable {x : ℚ} {r : Nat} {t : ℤ} (rounds : Rounds x r t)
include rounds

theorem most (bounded : x < (2 ^ 53 - 1 / 2) * 2 ^ (971 : ℤ)) :
    t ≤ 971 ∧ (r = 2 ^ 53 → t ≤ 970) := by
  have unit (a : ℤ) : (0 : ℚ) < 2 ^ a := by positivity
  have most : t ≤ 971 := by
    by_contra large
    obtain above | bottom := rounds.above
    · have step : (2 : ℚ) * 2 ^ (971 : ℤ) ≤ 2 ^ t := by
        rw [← zpow_one_add₀ two_ne_zero]
        exact zpow_le (by omega)
      have top := unit 971
      generalize (2 : ℚ) ^ (971 : ℤ) = u at step bounded top
      linarith
    · omega
  refine ⟨most, fun carry => ?_⟩
  by_contra last
  obtain rfl : t = 971 := by omega
  have := rounds.nearest.below
  rw [carry, ← sub_le_iff_le_add, le_div_iff₀ (unit 971), Nat.cast_pow, Nat.cast_ofNat] at this
  exact absurd this (not_le.2 bounded)

theorem shape (s : Sign) : settled s r t = .zero s ∨
    ∃ m q pos, settled s r t = .finite s m q pos ∧ m < 2 ^ 53 ∧ -1074 ≤ q ∧
      (2 ^ 52 ≤ m ∨ q = -1074) ∧ (q = t ∧ m = r ∨ q = t + 1 ∧ r = 2 ^ 53 ∧ m = 2 ^ 52) := by
  have least := rounds.least
  have fits := rounds.fits
  have full := rounds.full
  by_cases zero : r = 0
  · left
    rw [settled, dif_pos zero]
  · right
    by_cases carry : r = 2 ^ 53
    · refine ⟨2 ^ 52, t + 1, by decide, ?_, by decide, by omega, .inl le_rfl,
        .inr ⟨rfl, carry, rfl⟩⟩
      rw [settled, dif_neg zero, if_pos carry]
    · refine ⟨r, t, Nat.pos_of_ne_zero zero, ?_, by omega, least, full, .inl ⟨rfl, rfl⟩⟩
      rw [settled, dif_neg zero, if_neg carry]

theorem finite (s : Sign) (normal : 2 ^ (-1022 : ℤ) ≤ x)
    (bounded : x < (2 ^ 53 - 1 / 2) * 2 ^ (971 : ℤ)) :
    ∃ m q pos, Canonical m q ∧ settled s r t = .finite s m q pos ∧
      |m * 2 ^ q - x| ≤ x / 2 ^ 53 := by
  have unit (a : ℤ) : (0 : ℚ) < 2 ^ a := by positivity
  have above : 2 ^ 52 * 2 ^ t ≤ x := by
    obtain above | rfl := rounds.above
    · exact above
    · have least : (2 : ℚ) ^ (-1022 : ℤ) = 2 ^ 52 * 2 ^ (-1074 : ℤ) := by
        rw [← zpow_natCast, ← zpow_add₀ two_ne_zero]
        rfl
      exact least ▸ normal
  have full : 2 ^ 52 ≤ r := by
    refine rounds.nearest.ge_of_le ?_
    rw [le_div_iff₀ (unit t)]
    exact_mod_cast above
  have error : |(r : ℚ) * 2 ^ t - x| ≤ x / 2 ^ 53 := by
    have up := rounds.nearest.above
    have down := rounds.nearest.below
    rw [div_le_iff₀ (unit t)] at up
    rw [← sub_le_iff_le_add, le_div_iff₀ (unit t)] at down
    rw [abs_le]
    constructor <;> linarith
  obtain ⟨most, room⟩ := rounds.most bounded
  obtain zero | ⟨m, q, pos, result, small, least, canonical, parts⟩ := rounds.shape s
  · rw [settled, dif_neg (by omega)] at zero
    split at zero <;> cases zero
  · refine ⟨m, q, pos, ⟨pos, small, least, by omega, canonical⟩, result, ?_⟩
    obtain ⟨rfl, rfl⟩ | ⟨rfl, carry, rfl⟩ := parts
    · exact error
    · rw [carry] at error
      rw [zpow_add_one₀ two_ne_zero]
      convert error using 3
      push_cast
      ring

end Rounds

end SceneTree.Binary
