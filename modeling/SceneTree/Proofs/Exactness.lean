import SceneTree.Proofs.Rereading

/-! Short numbers read back exactly. The reader rounds the digits, the power of ten and their
product or quotient; where the first two are floats already, only one rounding is left, and that one
is the right one. -/
namespace SceneTree
open Binary (Stands Rounded Canonical Within)
open Decimal (Layout)
open Float.Model.UnpackedFloat (Sign)

namespace Json.Numeral

/-- The digits make a number below `2^53`, and the last of them counts a power of ten that is a
float, or the inverse of one. -/
structure Short (n : Numeral) : Prop where
  digits : digitsValue (n.whole ++ n.fraction) < 2 ^ 53
  place : n.place.natAbs ≤ 22

instance (n : Numeral) : Decidable n.Short :=
  decidable_of_iff (digitsValue (n.whole ++ n.fraction) < 2 ^ 53 ∧ n.place.natAbs ≤ 22)
    ⟨fun ⟨a, b⟩ => ⟨a, b⟩, fun ⟨a, b⟩ => ⟨a, b⟩⟩

theorem magnitude_of_fits {n : Numeral} (fits : digitsValue (n.whole ++ n.fraction) < 2 ^ 64)
    (room : ∀ down ds, n.exponent = some (down, ds) → digitsValue ds < 2 ^ 31) :
    n.magnitude = scale (digitsValue (n.whole ++ n.fraction)) n.place := by
  rw [digitsValue_append] at fits ⊢
  have front : digitsValue n.whole ≤ digitsValue n.whole * 10 ^ n.fraction.length :=
    Nat.le_mul_of_pos_right _ (by positivity)
  have whole := accumulate_whole (front.trans_lt (by omega))
  have fraction := accumulate_exact fits
  rw [magnitude, whole]
  simp only [fraction, place, shift]
  cases written : n.exponent with
  | none => simp
  | some mark =>
    obtain ⟨down, ds⟩ := mark
    have small : digitsValue ds < 0x80000000 := room down ds written
    simp only [small, ↓reduceIte]
    congr 1
    cases down <;> simp <;> omega

theorem stands_ofNat {s : Nat} (pos : 0 < s) (small : s < 2 ^ 53) : Stands (Float.ofNat s) s :=
  (rounded_ofNat pos).of_stands (Binary.stands_toFloat pos small) rfl

theorem stands_powerOfTen {n : Nat} (few : n ≤ 22) : Stands (powerOfTen n) (10 ^ n) :=
  (rounded_powerOfTen (by omega)).of_stands (Binary.stands_table ⟨n, by omega⟩) rfl

theorem scale_rounded {s : Nat} {e : ℤ} (pos : 0 < s) (small : s < 2 ^ 53) (few : e.natAbs ≤ 22)
    {m : Nat} {q : ℤ} (form : Canonical m q) (within : Within m q (s * 10 ^ e)) :
    scale s e = some (Binary.float .positive m q form.pos) := by
  have digits := stands_ofNat pos small
  have power := stands_powerOfTen few
  rw [scale]
  split
  next down =>
    have quotient : Rounded (Float.ofNat s / powerOfTen e.natAbs) (s * 10 ^ e) := by
      have inverse : (s : ℚ) * 10 ^ e = s / 10 ^ e.natAbs := by
        rw [div_eq_mul_inv, ← zpow_natCast, ← zpow_neg]
        congr 2
        omega
      rw [inverse]
      exact digits.div power
    rw [divide, if_pos (by omega), quotient.eq_of_within form within]
  next up =>
    have product : Rounded (Float.ofNat s * powerOfTen e.natAbs) (s * 10 ^ e) := by
      obtain ⟨n, rfl⟩ := Int.eq_ofNat_of_zero_le (not_lt.1 up)
      rw [zpow_natCast]
      exact digits.mul power
    rw [if_neg (by omega), product.eq_of_within form within]
    simp only [form.isInf_float]
    rfl

theorem exponent_lt {negative : Bool} {d : Nat} {g : ℤ}
    (short : (ofDecimal numberLayout negative d g).Short) (down : Bool) (ds : List Nat)
    (written : (ofDecimal numberLayout negative d g).exponent = some (down, ds)) :
    digitsValue ds < 2 ^ 31 := by
  obtain ⟨small, few⟩ := short
  rw [ofDecimal] at small few written
  split at written
  next plain =>
    rw [Numeral.plain] at written
    split_ifs at written
  next scientific =>
    obtain ⟨digits, place⟩ := parts_scientific negative d g
    rw [if_neg scientific] at small few
    rw [digits] at small
    rw [place] at few
    have length : (Decimal.digits d).length ≤ 16 :=
      (Nat.length_toDigits_le_iff (by decide) (by decide)).2 (small.trans (by decide))
    obtain ⟨-, rfl⟩ := Prod.mk.inj (Option.some.inj written)
    rw [digitsValue_digits]
    omega

theorem value_ofDecimal (l : Layout) (negative : Bool) (d : Nat) (g : ℤ) :
    (ofDecimal l negative d g).value =
      (ofDecimal l negative d g).magnitude.map fun x => .float (signed negative x) := by
  have sign : (ofDecimal l negative d g).negative = negative := by
    simp only [ofDecimal, plain, scientific]
    split_ifs <;> rfl
  have broken : (ofDecimal l negative d g).integral = false := by
    have filled := digits_ne_nil d
    simp only [ofDecimal, plain, scientific, integral]
    split_ifs
    · rfl
    · have rest : (Decimal.digits d).drop ((Decimal.digits d).length + g).toNat ≠ [] := by
        rw [ne_eq, List.drop_eq_nil_iff]
        omega
      simpa [figures] using rest
    · simp [figures, filled]
    · simp
  simp only [value, broken, sign]
  rfl

theorem value_short {m : Nat} {q : ℤ} (form : Canonical m q) (s : Sign)
    (short : (ofFloat numberLayout (Binary.float s m q form.pos)).Short) :
    (ofFloat numberLayout (Binary.float s m q form.pos)).value.map Number.toFloat =
      some (Binary.float s m q form.pos) := by
  have pos := Decimal.shortest_pos form s
  have within := Decimal.shortest_within form s
  rw [ofFloat, form.float_ne_zero] at short ⊢
  simp only [Bool.false_eq_true, ↓reduceIte, form.negative_float] at short ⊢
  generalize Decimal.shortest (Binary.float s m q form.pos) = decimal at *
  obtain ⟨d, g⟩ := decimal
  have exact := exact_ofDecimal numberLayout (s == .negative) d g
  have magnitude : (ofDecimal numberLayout (s == .negative) d g).magnitude =
      some (Binary.float .positive m q form.pos) := by
    rw [magnitude_of_fits (short.digits.trans (by decide)) (exponent_lt short)]
    rw [Numeral.exact] at exact
    rw [← exact] at within
    have filled : 0 < digitsValue ((ofDecimal numberLayout (s == .negative) d g).whole ++
        (ofDecimal numberLayout (s == .negative) d g).fraction) := by
      by_contra none
      rw [Nat.eq_zero_of_not_pos none, Nat.cast_zero, zero_mul] at exact
      have : (0 : ℚ) < d * 10 ^ g := by positivity
      exact absurd exact this.ne
    exact scale_rounded filled short.digits short.place form within
  rw [value_ofDecimal, magnitude]
  cases s with
  | positive => rfl
  | negative => exact congrArg some (form.neg_float .positive)

end Json.Numeral

namespace Json

/-- A finite number with a short numeral comes back as it is. -/
theorem recovered_short {x : Float} (finite : x.isFinite)
    (short : (Numeral.ofFloat numberLayout x).Short) : recovered x = some x := by
  have read : recovered x = (Numeral.ofFloat numberLayout x).value.map Number.toFloat := by
    rw [← read_number (freely false), numberTree, if_pos finite, Read.number]
    cases (Numeral.ofFloat numberLayout x).value <;> rfl
  rw [read]
  obtain ⟨s, rfl⟩ | ⟨s, m, q, pos, form, rfl⟩ := Binary.cases_of_finite finite
  · cases s <;> decide +kernel
  · exact Numeral.value_short form s short

end Json
end SceneTree
