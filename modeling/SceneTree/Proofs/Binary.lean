import Mathlib
import SceneTree.Decimal.Layout

/-! Binary64 values. A finite value other than zero is a significand times a power of two, in one
form only; packing that form into bits loses nothing, and the printer takes the same form out of the
bits again. -/
namespace SceneTree.Binary
open Float.Model (UnpackedFloat Format)
open Float.Model.UnpackedFloat

/-- A significand and an exponent as the bits of a float hold them. -/
structure Canonical (m : Nat) (q : Int) : Prop where
  pos : 0 < m
  small : m < 2 ^ 53
  least : -1074 ≤ q
  most : q ≤ 971
  full : 2 ^ 52 ≤ m ∨ q = -1074

abbrev format : Format := .binary64

theorem toNat_append {v w : Nat} (high : BitVec v) (low : BitVec w) :
    (high ++ low).toNat = 2 ^ w * high.toNat + low.toNat := by
  rw [BitVec.toNat_append, ← Nat.shiftLeft_add_eq_or_of_lt low.isLt, Nat.shiftLeft_eq, Nat.mul_comm]

theorem toNat_components (s : Sign) (e : BitVec 11) (f : BitVec 52) :
    (packComponents format s e f).toNat =
      2 ^ 52 * (2 ^ 11 * s.toBitVec.toNat + e.toNat) + f.toNat := by
  have parts : (packComponents format s e f).toNat = (s.toBitVec ++ e ++ f).toNat := rfl
  rw [parts, toNat_append, toNat_append]

theorem log2_of_full {m : Nat} (full : 2 ^ 52 ≤ m) (small : m < 2 ^ 53) : m.log2 = 52 := by
  have pos : m ≠ 0 := by omega
  have low := (Nat.le_log2 pos).2 full
  have high := (Nat.log2_lt pos).2 small
  omega

/- The exponent field: zero for a significand without the leading bit. -/
def field (m : Nat) (q : Int) : Nat := if 2 ^ 52 ≤ m then (q + 1075).toNat else 0

theorem Canonical.field_lt {m : Nat} {q : Int} (form : Canonical m q) : field m q < 2047 := by
  have := form.most
  unfold field
  split <;> omega

theorem Canonical.toNat_field {m : Nat} {q : Int} (form : Canonical m q) :
    (BitVec.ofNat 11 (field m q)).toNat = field m q :=
  Nat.mod_eq_of_lt (form.field_lt.trans (by decide))

theorem Canonical.field_ne_top {m : Nat} {q : Int} (form : Canonical m q) :
    BitVec.ofNat 11 (field m q) ≠ -1#11 := by
  intro top
  have same := congrArg BitVec.toNat top
  rw [form.toNat_field] at same
  exact form.field_lt.ne same

theorem Canonical.field_eq_zero {m : Nat} {q : Int} (form : Canonical m q) :
    BitVec.ofNat 11 (field m q) = 0#11 ↔ m < 2 ^ 52 := by
  have least := form.least
  rw [← BitVec.toNat_inj, form.toNat_field, field]
  split
  · simp
    omega
  · simp
    omega

theorem Canonical.pack_eq {m : Nat} {q : Int} (form : Canonical m q) (s : Sign) (pos : 0 < m) :
    pack format (.finite s m q pos) =
      packComponents format s (.ofNat 11 (field m q)) (.ofNat 52 m) := by
  obtain ⟨-, small, least, most, full⟩ := form
  have biased : (q + (format.exponentBias : Int) + (52 : Nat)).toNat = (q + 1075).toNat := by
    simp [Format.exponentBias]
    omega
  have room : ¬ 2048 ≤ (q + 1075).toNat + 1 := by omega
  unfold pack
  simp only [biased, Format.mantissaBits]
  rw [if_neg (by simpa using room)]
  by_cases normal : 2 ^ 52 ≤ m
  · rw [if_pos (by rw [log2_of_full normal small]), field, if_pos normal]
  · have short : m.log2 < 52 := (Nat.log2_lt (by omega)).2 (by omega)
    rw [if_neg (by omega), field, if_neg normal]

theorem pack_overflow (s : Sign) {m : Nat} {q : Int} (pos : 0 < m) (large : 971 < q) :
    pack format (.finite s m q pos) = pack format (.infinity s) := by
  have biased : (q + (format.exponentBias : Int) + (52 : Nat)).toNat = (q + 1075).toNat := by
    simp [Format.exponentBias]
    omega
  have top : 2048 ≤ (q + 1075).toNat + 1 := by omega
  unfold pack
  simp only [biased, Format.mantissaBits]
  rw [if_pos (by simpa using top)]

theorem sign_of_components (s : Sign) (e : BitVec 11) (f : BitVec 52) :
    unpackSign (packComponents format s e f) = s.toBitVec := by
  apply BitVec.eq_of_getLsbD_eq
  intro i bound
  obtain rfl : i = 0 := by omega
  have top : (s.toBitVec ++ e ++ f).getLsbD 63 = s.toBitVec.getLsbD 0 := by
    rw [BitVec.getLsbD_append, BitVec.getLsbD_append]
    rfl
  simp only [unpackSign, packComponents, BitVec.getLsbD_cast, BitVec.getLsbD_extract]
  exact top

theorem ofBitVec_toBitVec (s : Sign) : Sign.ofBitVec s.toBitVec = s := by cases s <;> rfl

theorem toNat_lead (f : BitVec 52) : (1#1 ++ f).toNat = 2 ^ 52 + f.toNat := by
  rw [toNat_append]
  rfl

theorem Canonical.unpack_pack {m : Nat} {q : Int} (form : Canonical m q) (s : Sign) (pos : 0 < m) :
    unpack format (pack format (.finite s m q pos)) = .finite s m q pos := by
  have exponent := form.toNat_field
  have fraction : (BitVec.ofNat 52 m).toNat = m % 2 ^ 52 := BitVec.toNat_ofNat ..
  have bottom := form.field_eq_zero
  rw [form.pack_eq]
  unfold unpack
  simp only [unpackExponent_packComponents, unpackMantissa_packComponents, sign_of_components,
    ofBitVec_toBitVec, if_neg form.field_ne_top]
  obtain ⟨-, small, least, most, full⟩ := form
  by_cases normal : 2 ^ 52 ≤ m
  · rw [if_neg (by rw [bottom]; omega)]
    congr 1
    · rw [toNat_lead, fraction]
      omega
    · rw [exponent, field, if_pos normal]
      simp [Format.exponentBias]
      omega
  · have nonzero : BitVec.ofNat 52 m ≠ 0#52 := by
      intro none
      have same := congrArg BitVec.toNat none
      rw [fraction] at same
      simp at same
      omega
    rw [if_pos (bottom.2 (not_le.1 normal)), dif_neg nonzero]
    congr 1
    · rw [fraction]
      omega
    · rw [exponent, field, if_neg normal]
      simp [Format.exponentBias]
      omega

theorem components_of_bits (b : BitVec format.numBits) :
    b = packComponents format (.ofBitVec (unpackSign b)) (unpackExponent b) (unpackMantissa b) := by
  have sign (v : BitVec 1) : (Sign.ofBitVec v).toBitVec = v := by
    revert v
    decide
  unfold packComponents
  rw [sign]
  apply BitVec.eq_of_getLsbD_eq
  intro i bound
  rw [BitVec.getLsbD_append, BitVec.getLsbD_append]
  by_cases low : i < 52
  · simp [unpackMantissa, low]
  · by_cases middle : i - 52 < 11
    · have place : 52 + (i - 52) = i := by omega
      simp [unpackExponent, low, middle, place]
    · obtain rfl : i = 63 := by
        simp only [Format.numBits] at bound
        omega
      simp [unpackSign]

theorem parts_of_unpack {b : BitVec format.numBits} {s : Sign} {m : Nat} {q : Int} {pos : 0 < m}
    (finite : unpack format b = .finite s m q pos) :
    Canonical m q ∧ Sign.ofBitVec (unpackSign b) = s ∧
      (unpackExponent b).toNat = field m q ∧ (unpackMantissa b).toNat = m % 2 ^ 52 := by
  obtain ⟨e, exponent⟩ : ∃ e : BitVec 11, e = unpackExponent b := ⟨_, rfl⟩
  obtain ⟨f, fraction⟩ : ∃ f : BitVec 52, f = unpackMantissa b := ⟨_, rfl⟩
  have small := e.isLt
  have short := f.isLt
  have bias : format.exponentBias = 1023 := rfl
  unfold unpack at finite
  simp only [← exponent, ← fraction, bias] at finite ⊢
  by_cases top : e = -1#11
  · rw [if_pos top] at finite
    split at finite <;> cases finite
  have inner : e.toNat ≠ 2047 := fun h => top (BitVec.eq_of_toNat_eq h)
  rw [if_neg top] at finite
  by_cases bottom : e = 0#11
  · rw [if_pos bottom] at finite
    split at finite
    · cases finite
    · cases finite
      have zero : e.toNat = 0 := by rw [bottom]; rfl
      refine ⟨⟨pos, by omega, by omega, by omega, ?_⟩, rfl, ?_, by omega⟩
      · right; omega
      · rw [field, if_neg (by omega), zero]
  · have nonzero : e.toNat ≠ 0 := fun h => bottom (BitVec.eq_of_toNat_eq h)
    have lead := toNat_lead f
    rw [if_neg bottom] at finite
    cases finite
    refine ⟨⟨pos, by omega, by omega, by omega, ?_⟩, rfl, ?_, by omega⟩
    · left; omega
    · rw [field, if_pos (by omega)]
      omega

/-- What the bits of a finite value hold is canonical, and packing it gives the bits back. -/
theorem canonical_of_unpack {b : BitVec format.numBits} {s : Sign} {m : Nat} {q : Int} {pos : 0 < m}
    (finite : unpack format b = .finite s m q pos) :
    Canonical m q ∧ b = pack format (.finite s m q pos) := by
  obtain ⟨canonical, rfl, exponent, fraction⟩ := parts_of_unpack finite
  have high : BitVec.ofNat 11 (field m q) = unpackExponent b := by
    apply BitVec.eq_of_toNat_eq
    rw [canonical.toNat_field, exponent]
  have low : BitVec.ofNat 52 m = unpackMantissa b := by
    apply BitVec.eq_of_toNat_eq
    rw [fraction, BitVec.toNat_ofNat]
  refine ⟨canonical, ?_⟩
  rw [canonical.pack_eq, high, low]
  exact components_of_bits b

theorem pack_of_unpack_zero {b : BitVec format.numBits} {s : Sign}
    (none : unpack format b = .zero s) : b = pack format (.zero s) := by
  have bits := components_of_bits b
  unfold unpack at none
  simp only at none
  split at none
  · split at none <;> cases none
  · rename_i exponent
    split at none
    · rename_i zero
      split at none
      · rename_i empty
        cases none
        rw [zero, empty] at bits
        exact bits
      · cases none
    · cases none

def float (s : Sign) (m : Nat) (q : Int) (pos : 0 < m) : Float :=
  .ofModel (.pack (.finite s m q pos))

def zero (s : Sign) : Float := .ofModel (.pack (.zero s))

theorem unpack_zero (s : Sign) : (zero s).toModel.unpack = .zero s := by
  cases s <;> rfl

theorem isFinite_eq (x : Float) : x.isFinite = !(x.isNaN || x.isInf) := by
  simp only [Float.isFinite, Float.isNaN, Float.isInf, Float.Model.isFinite, Float.Model.isNaN,
    Float.Model.isInf]
  cases x.toModel.unpack <;> rfl

theorem cases_of_finite {x : Float} (finite : x.isFinite) :
    (∃ s, x = zero s) ∨ ∃ s m q pos, Canonical m q ∧ x = float s m q pos := by
  obtain ⟨⟨bits, valid⟩⟩ := x
  have shape : (unpack format bits.toBitVec).isFinite = true := finite
  cases form : unpack format bits.toBitVec with
  | infinity s => simp [form, isFinite] at shape
  | notANumber => simp [form, isFinite] at shape
  | zero s =>
    refine .inl ⟨s, ?_⟩
    simp only [zero, Float.Model.pack]
    congr 2
    exact congrArg UInt64.ofBitVec (pack_of_unpack_zero form)
  | finite s m q pos =>
    obtain ⟨canonical, packed⟩ := canonical_of_unpack form
    refine .inr ⟨s, m, q, pos, canonical, ?_⟩
    simp only [float, Float.Model.pack]
    congr 2
    exact congrArg UInt64.ofBitVec packed

namespace Canonical
variable {m : Nat} {q : Int} (form : Canonical m q) (s : Sign)
include form

theorem unpack_float : (float s m q form.pos).toModel.unpack = .finite s m q form.pos :=
  form.unpack_pack s form.pos

theorem isFinite_float : (float s m q form.pos).isFinite = true := by
  simp [Float.isFinite, Float.Model.isFinite, form.unpack_float, isFinite]

theorem isInf_float : (float s m q form.pos).isInf = false := by
  simp [Float.isInf, Float.Model.isInf, form.unpack_float, isInf]

theorem abs_float : (float s m q form.pos).abs = float .positive m q form.pos := by
  change Float.ofModel (.pack (float s m q form.pos).toModel.unpack.abs) = _
  rw [form.unpack_float]
  rfl

theorem neg_float : -(float s m q form.pos) = float (-s) m q form.pos := by
  change Float.ofModel (.pack (float s m q form.pos).toModel.unpack.neg) = _
  rw [form.unpack_float]
  rfl

theorem float_ne_zero : (float s m q form.pos == 0) = false := by
  have none : (0 : Float).toModel.unpack = .zero .positive := by
    have : (0 : Float) = zero .positive := rfl
    rw [this, unpack_zero]
  change ((float s m q form.pos).toModel.unpack.beq (0 : Float).toModel.unpack) = false
  rw [form.unpack_float, none]
  cases s <;> rfl

theorem toNat_bits : (float s m q form.pos).toBits.toNat =
    2 ^ 52 * (2 ^ 11 * s.toBitVec.toNat + field m q) + m % 2 ^ 52 := by
  change (pack format (.finite s m q form.pos)).toNat = _
  rw [form.pack_eq, toNat_components, form.toNat_field, BitVec.toNat_ofNat]

theorem negative_float : Decimal.negative (float s m q form.pos) = (s == .negative) := by
  have bits := form.toNat_bits s
  have bound := form.field_lt
  have top : ((float s m q form.pos).toBits >>> 63).toNat = s.toBitVec.toNat := by
    have shift : (63 : UInt64).toNat % 64 = 63 := rfl
    have small := s.toBitVec.isLt
    rw [UInt64.toNat_shiftRight, bits, shift, Nat.shiftRight_eq_div_pow]
    omega
  rw [Decimal.negative, Bool.eq_iff_iff, decide_eq_true_iff, ← UInt64.toNat_inj, top]
  cases s <;> decide

/-- The printer finds the canonical form in the bits. -/
theorem significand_bits :
    Decimal.significand (float .positive m q form.pos).toBits = (m, q) := by
  have bits : _ = 2 ^ 52 * (2 ^ 11 * 0 + field m q) + m % 2 ^ 52 := form.toNat_bits .positive
  have bound := form.field_lt
  have exponent : (((float .positive m q form.pos).toBits >>> 52) &&& 0x7FF).toNat = field m q := by
    have mask : (0x7FF : UInt64).toNat = 2 ^ 11 - 1 := rfl
    have shift : (52 : UInt64).toNat % 64 = 52 := rfl
    rw [UInt64.toNat_and, UInt64.toNat_shiftRight, bits, mask, Nat.and_two_pow_sub_one_eq_mod,
      shift, Nat.shiftRight_eq_div_pow]
    omega
  have fraction : ((float .positive m q form.pos).toBits &&& 0xFFFFFFFFFFFFF).toNat =
      m % 2 ^ 52 := by
    have mask : (0xFFFFFFFFFFFFF : UInt64).toNat = 2 ^ 52 - 1 := rfl
    rw [UInt64.toNat_and, bits, mask, Nat.and_two_pow_sub_one_eq_mod]
    omega
  have small := form.small
  have least := form.least
  simp only [Decimal.significand, exponent, fraction, field]
  by_cases normal : 2 ^ 52 ≤ m
  · rw [if_pos normal, if_neg (by omega)]
    simp only [Prod.mk.injEq]
    omega
  · have bottom := form.full.resolve_left normal
    rw [if_neg normal, if_pos rfl]
    simp only [Prod.mk.injEq]
    omega

end Canonical
end SceneTree.Binary
