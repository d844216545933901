import SceneTree.Json.Numeral
import SceneTree.Proofs.Rounding

/-! Products and quotients of floats, and powers of ten. Each is the float nearest to its exact
value. -/
namespace SceneTree.Binary
open Float.Model (UnpackedFloat Format totalExponent)
open Float.Model.UnpackedFloat

theorem two_pow_le_shift {m j k : Nat} (pos : 0 < m) (room : j ≤ m.log2 + k) :
    2 ^ j ≤ m * 2 ^ k :=
  calc 2 ^ j ≤ 2 ^ (m.log2 + k) := Nat.pow_le_pow_right (by decide) room
    _ = 2 ^ m.log2 * 2 ^ k := pow_add ..
    _ ≤ m * 2 ^ k := Nat.mul_le_mul_right _ (Nat.log2_self_le pos.ne')

/-- A positive float and its value. -/
def Stands (x : Float) (v : ℚ) : Prop :=
  ∃ m q pos, Canonical m q ∧ x = float .positive m q pos ∧ v = m * 2 ^ q

def Measures (x : Float) : Prop := x = zero .positive ∨ ∃ v, Stands x v

/-- The float that a positive value is rounded to. -/
def Rounded (x : Float) (v : ℚ) : Prop :=
  ∃ r t, Rounds v r t ∧ x = .ofModel (.pack (settled .positive r t))

namespace Rounded
variable {x : Float} {v : ℚ}

theorem eq_of_within {m : Nat} {q : ℤ} (rounded : Rounded x v) (form : Canonical m q)
    (within : Within m q v) : x = float .positive m q form.pos := by
  obtain ⟨r, t, rounds, rfl⟩ := rounded
  rw [within.settled_eq form rounds, float]

theorem of_stands {w : ℚ} (rounded : Rounded x v) {y : Float} (exact : Stands y w) (same : v = w) :
    Stands x v := by
  obtain ⟨m, q, pos, form, -, value⟩ := exact
  have value := same.trans value
  exact ⟨m, q, pos, form, rounded.eq_of_within form (value ▸ form.within), value⟩

theorem near (rounded : Rounded x v) (normal : 2 ^ (-1022 : ℤ) ≤ v)
    (bounded : v < (2 ^ 53 - 1 / 2) * 2 ^ (971 : ℤ)) :
    ∃ w, Stands x w ∧ |w - v| ≤ v / 2 ^ 53 := by
  obtain ⟨r, t, rounds, rfl⟩ := rounded
  obtain ⟨m, q, pos, form, result, error⟩ := rounds.finite .positive normal bounded
  exact ⟨_, ⟨m, q, pos, form, by rw [result, float], rfl⟩, error⟩

theorem measures_or_isInf (rounded : Rounded x v) : Measures x ∨ x.isInf := by
  obtain ⟨r, t, rounds, rfl⟩ := rounded
  obtain none | ⟨m, q, pos, result, small, least, full, -⟩ := rounds.shape .positive
  · rw [none]
    exact .inl (.inl rfl)
  · rw [result]
    by_cases most : q ≤ 971
    · exact .inl (.inr ⟨_, m, q, pos, ⟨pos, small, least, most, full⟩, rfl, rfl⟩)
    · have top : Float.Model.pack (.finite .positive m q pos) = .pack (.infinity .positive) := by
        simp only [Float.Model.pack]
        congr 2
        exact pack_overflow .positive pos (not_le.1 most)
      rw [top]
      exact .inr rfl

theorem measures (rounded : Rounded x v) (bounded : v < (2 ^ 53 - 1 / 2) * 2 ^ (971 : ℤ)) :
    Measures x := by
  obtain ⟨r, t, rounds, rfl⟩ := rounded
  obtain ⟨most, room⟩ := rounds.most bounded
  obtain none | ⟨m, q, pos, result, small, least, full, parts⟩ := rounds.shape .positive
  · rw [none]
    exact .inl rfl
  · rw [result]
    exact .inr ⟨_, m, q, pos, ⟨pos, small, least, by omega, full⟩, rfl, rfl⟩

end Rounded

namespace Stands
variable {x y : Float} {v w : ℚ}

theorem pos (stands : Stands x v) : 0 < v := by
  obtain ⟨m, q, pos, form, rfl, rfl⟩ := stands
  have pos : (0 : ℚ) < m := by exact_mod_cast pos
  positivity

theorem isInf (stands : Stands x v) : x.isInf = false := by
  obtain ⟨m, q, pos, form, rfl, -⟩ := stands
  exact form.isInf_float .positive

theorem mul (left : Stands x v) (right : Stands y w) : Rounded (x * y) (v * w) := by
  obtain ⟨m, q, pos, form, rfl, rfl⟩ := left
  obtain ⟨m', q', pos', form', rfl, rfl⟩ := right
  have enough : 2 ^ 52 ≤ m * m' ∨ q + q' ≤ -1074 := by
    obtain full | bottom := form.full
    · left; nlinarith
    · obtain full | bottom' := form'.full
      · left; nlinarith
      · right; omega
  obtain ⟨r, t, rounds, result⟩ := round_exact .positive (e := q + q') (.exact (m * m')) enough
  refine ⟨r, t, ?_, ?_⟩
  · convert rounds using 1
    rw [zpow_add₀ two_ne_zero]
    push_cast
    ring
  · change Float.ofModel (.pack (UnpackedFloat.mul format (float ..).toModel.unpack
      (float ..).toModel.unpack)) = _
    rw [form.unpack_float, form'.unpack_float, ← result]
    rfl

theorem zero_mul (stands : Stands x v) : zero .positive * x = zero .positive := by
  obtain ⟨m, q, pos, form, rfl, -⟩ := stands
  change Float.ofModel (.pack (UnpackedFloat.mul format (zero ..).toModel.unpack
    (float ..).toModel.unpack)) = _
  rw [form.unpack_float, unpack_zero]
  rfl

theorem zero_div (stands : Stands x v) : zero .positive / x = zero .positive := by
  obtain ⟨m, q, pos, form, rfl, -⟩ := stands
  change Float.ofModel (.pack (UnpackedFloat.div format (zero ..).toModel.unpack
    (float ..).toModel.unpack)) = _
  rw [form.unpack_float, unpack_zero]
  rfl

theorem le_top (stands : Stands x v) : v ≤ (2 ^ 53 - 1) * 2 ^ (971 : ℤ) := by
  obtain ⟨m, q, pos, form, rfl, rfl⟩ := stands
  have small : (m : ℚ) + 1 ≤ 2 ^ 53 := by exact_mod_cast form.small
  calc (m : ℚ) * 2 ^ q ≤ (2 ^ 53 - 1) * 2 ^ q := by
        gcongr
        linarith
    _ ≤ (2 ^ 53 - 1) * 2 ^ (971 : ℤ) := mul_le_mul_of_nonneg_left (zpow_le form.most) (by norm_num)

theorem div (left : Stands x v) (right : Stands y w) : Rounded (x / y) (v / w) := by
  obtain ⟨m, q, pos, form, rfl, rfl⟩ := left
  obtain ⟨m', q', pos', form', rfl, rfl⟩ := right
  obtain ⟨t, target⟩ : ∃ t, t = min (q - q')
      (format.targetExponent (totalExponent m q - totalExponent m' q')) := ⟨_, rfl⟩
  obtain ⟨k, shift⟩ : ∃ k, k = (q - q' - t).toNat := ⟨_, rfl⟩
  have reach : q - q' = k + t := by omega
  have enough : 2 ^ 52 ≤ (m <<< k) / m' ∨ t ≤ -1074 := by
    by_cases bottom : t ≤ -1074
    · exact .inr bottom
    · have size := target_quotient m m' q q'
      have shifted : m'.log2 + 1 + 52 ≤ m.log2 + k := by omega
      left
      rw [Nat.le_div_iff_mul_le form'.pos, Nat.shiftLeft_eq]
      calc 2 ^ 52 * m' ≤ 2 ^ 52 * 2 ^ (m'.log2 + 1) :=
            Nat.mul_le_mul_left _ Nat.lt_log2_self.le
        _ = 2 ^ (m'.log2 + 1 + 52) := by rw [← pow_add, add_comm]
        _ ≤ m * 2 ^ k := two_pow_le_shift form.pos shifted
  obtain ⟨r, u, rounds, result⟩ :=
    round_exact .positive (.quotient (m <<< k) form'.pos) enough
  refine ⟨r, u, ?_, ?_⟩
  · convert rounds using 1
    have den : (m' : ℚ) ≠ 0 := by exact_mod_cast form'.pos.ne'
    have scale : (2 : ℚ) ^ q = 2 ^ q' * (2 ^ k * 2 ^ t) := by
      rw [← zpow_natCast (2 : ℚ) k, ← zpow_add₀ two_ne_zero, ← zpow_add₀ two_ne_zero]
      congr 1
      omega
    rw [scale, Nat.shiftLeft_eq]
    push_cast
    field_simp
  · change Float.ofModel (.pack (UnpackedFloat.div format (float ..).toModel.unpack
      (float ..).toModel.unpack)) = _
    rw [form.unpack_float, form'.unpack_float, ← result, shift, target]
    rfl

end Stands

namespace Measures
variable {x y : Float} {w : ℚ}

theorem isFinite (measures : Measures x) : x.isFinite := by
  obtain rfl | ⟨v, m, q, pos, form, rfl, -⟩ := measures
  · rfl
  · exact form.isFinite_float .positive

theorem isFinite_neg (measures : Measures x) : (-x).isFinite := by
  obtain rfl | ⟨v, m, q, pos, form, rfl, -⟩ := measures
  · rfl
  · rw [form.neg_float]
    exact form.isFinite_float _

theorem mul (measures : Measures x) (right : Stands y w) : Measures (x * y) ∨ (x * y).isInf := by
  obtain rfl | ⟨v, left⟩ := measures
  · rw [right.zero_mul]
    exact .inl (.inl rfl)
  · exact (left.mul right).measures_or_isInf

theorem div (measures : Measures x) (right : Stands y w) (one : 1 ≤ w) : Measures (x / y) := by
  obtain rfl | ⟨v, left⟩ := measures
  · rw [right.zero_div]
    exact .inl rfl
  · have unit : (0 : ℚ) < 2 ^ (971 : ℤ) := by positivity
    refine (left.div right).measures ?_
    calc v / w ≤ (2 ^ 53 - 1) * 2 ^ (971 : ℤ) := (div_le_self left.pos.le one).trans left.le_top
      _ < (2 ^ 53 - 1 / 2) * 2 ^ (971 : ℤ) := mul_lt_mul_of_pos_right (by norm_num) unit

end Measures

theorem canonical_of_product {a b : Nat} (pos : 0 < a) (small : a < 2 ^ 53) (room : b ≤ 900) :
    ∃ m q, Canonical m q ∧ (a * 2 ^ b : ℚ) = m * 2 ^ q := by
  have log : a.log2 ≤ 52 := by
    have := (Nat.log2_lt pos.ne').2 small
    omega
  obtain ⟨k, rest⟩ := Nat.exists_eq_add_of_le log
  have low : 2 ^ 52 ≤ a * 2 ^ k := two_pow_le_shift pos rest.le
  have high : a * 2 ^ k < 2 ^ 53 := by
    have : a * 2 ^ k < 2 ^ (a.log2 + 1) * 2 ^ k :=
      Nat.mul_lt_mul_of_pos_right Nat.lt_log2_self (by positivity)
    rwa [← pow_add, add_right_comm, ← rest] at this
  refine ⟨a * 2 ^ k, b - k, ⟨by omega, high, by omega, by omega, .inl low⟩, ?_⟩
  push_cast
  rw [mul_assoc, ← zpow_natCast (2 : ℚ) k, ← zpow_add₀ two_ne_zero, add_sub_cancel, zpow_natCast]

theorem rounded_toFloat {n : UInt64} (pos : 0 < n.toNat) : Rounded n.toFloat n.toNat := by
  obtain ⟨k, shift⟩ : ∃ k, k = (0 - max ((n.toNat.log2 : ℤ) + 0 - 52) (-1074)).toNat :=
    ⟨_, rfl⟩
  have enough : 2 ^ 52 ≤ n.toNat <<< k ∨ (0 - k : ℤ) ≤ -1074 := by
    left
    rw [Nat.shiftLeft_eq]
    exact two_pow_le_shift pos (by omega)
  obtain ⟨r, t, rounds, result⟩ := round_exact .positive (.exact (n.toNat <<< k)) enough
  refine ⟨r, t, ?_, ?_⟩
  · convert rounds using 1
    rw [Nat.shiftLeft_eq, zero_sub, zpow_neg, zpow_natCast]
    push_cast
    field_simp
  · have sign : compare (n.toNat : ℤ) 0 = .gt := compare_gt_iff_gt.2 (by omega)
    change Float.ofModel (.pack (UnpackedFloat.normalize format (n.toNat : ℤ) 0 .positive)) = _
    rw [← result, UnpackedFloat.normalize, sign]
    simp only [UnpackedFloat.round, Int.toNat_natCast, target_eq, decreaseExponent, ← shift]

theorem stands_toFloat {n : Nat} (pos : 0 < n) (small : n < 2 ^ 53) :
    Stands n.toUInt64.toFloat n := by
  have value : n.toUInt64.toNat = n := Nat.mod_eq_of_lt (by omega)
  obtain ⟨m, q, form, product⟩ := canonical_of_product (b := 0) pos small (by decide)
  rw [pow_zero, mul_one] at product
  have rounded := rounded_toFloat (n := n.toUInt64) (by omega)
  rw [value, product] at rounded
  exact ⟨m, q, form.pos, form, rounded.eq_of_within form form.within, product⟩

instance (m : Nat) (q : ℤ) : Decidable (Canonical m q) :=
  decidable_of_iff (0 < m ∧ m < 2 ^ 53 ∧ -1074 ≤ q ∧ q ≤ 971 ∧ (2 ^ 52 ≤ m ∨ q = -1074))
    ⟨fun ⟨a, b, c, d, e⟩ => ⟨a, b, c, d, e⟩, fun ⟨a, b, c, d, e⟩ => ⟨a, b, c, d, e⟩⟩

theorem stands_table (n : Fin 23) :
    Stands (Float.exactlyRepresentablePowersOfTen[n]) (10 ^ (n : Nat)) := by
  have exact : ∀ n : Fin 23,
      let x := Float.exactlyRepresentablePowersOfTen[n]
      let m := (Decimal.significand x.toBits).1
      let q := (Decimal.significand x.toBits).2
      ∃ form : Canonical m q, x = float .positive m q form.pos ∧
        m * 2 ^ q.toNat = 10 ^ (n : Nat) * 2 ^ (-q).toNat := by
    decide +kernel
  obtain ⟨form, same, value⟩ := exact n
  refine ⟨_, _, form.pos, form, same, ?_⟩
  have value : ((_ * 2 ^ _ : Nat) : ℚ) = (10 ^ (n : Nat) * 2 ^ _ : Nat) := congrArg Nat.cast value
  push_cast at value
  rw [← zpow_parts two_ne_zero, ← mul_assoc] at value
  exact (mul_right_cancel₀ (by positivity) value).symm

/-- A number with a power of ten is rounded once. -/
theorem rounded_ofScientific {m n : Nat} (pos : 0 < m) (room : n ≤ 2048) :
    Rounded (.ofScientific m false n) (m * 10 ^ n) := by
  by_cases fast : m < 2 ^ 53 ∧ n ≤ 22
  · have product := (stands_toFloat pos fast.1).mul (stands_table ⟨n, by omega⟩)
    rw [Float.ofScientific, dif_pos fast]
    exact product
  · have scaled : m <<< 53 * 10 ^ n = m * 10 ^ n * 2 ^ 53 := by
      rw [Nat.shiftLeft_eq]
      ring
    have positive : 0 < m * 10 ^ n := by positivity
    have enough : 2 ^ 52 ≤ m <<< 53 * 10 ^ n ∨ (-53 + 0 : ℤ) ≤ -1074 := by
      left
      rw [scaled]
      nlinarith
    obtain ⟨r, t, rounds, result⟩ := round_exact .positive (.exact (m <<< 53 * 10 ^ n)) enough
    refine ⟨r, t, ?_, ?_⟩
    · convert rounds using 1
      rw [scaled, add_zero, zpow_neg]
      push_cast
      rw [mul_inv_cancel_right₀ (by positivity)]
    · have shape : UnpackedFloat.ofScientific format m (n : ℤ) =
          roundWithAccuracy format .positive (m <<< 53 * 10 ^ n) (-53 + 0) .exact := by
        rw [UnpackedFloat.ofScientific, dif_neg pos.ne', if_neg (by simp; omega),
          if_neg (by simp; omega), if_pos (by omega)]
        rfl
      rw [Float.ofScientific, dif_neg fast, ← result, ← shape]
      rfl

end SceneTree.Binary
