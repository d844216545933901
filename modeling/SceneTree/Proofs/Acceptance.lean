import SceneTree.Proofs.Arithmetic
import SceneTree.Proofs.Digits
import SceneTree.Proofs.Shortest

/-! Numbers read back. Every number that is printed for a finite float is in the range of the
reader, although the reader rounds more than once. -/
namespace SceneTree.Json.Numeral
open Binary (Stands Rounded Canonical Within)
open Float.Model.UnpackedFloat (Sign)

/-- What the reader surely takes: the rounding of the significand, of the power of ten and of their
product does not lead from here to the end of the range. -/
def limit : ℚ := (2 ^ 54 - 7) * 2 ^ (970 : ℤ)

theorem foldl_digits (n : Nat) (ds : List Nat) :
    ds.foldl (fun n d => 10 * n + d) n = n * 10 ^ ds.length + digitsValue ds := by
  induction ds generalizing n with
  | nil => simp [digitsValue]
  | cons d ds ih =>
    rw [digitsValue, List.foldl_cons, List.foldl_cons, ih, ih (10 * 0 + d), List.length_cons]
    ring

theorem digitsValue_append (ds es : List Nat) :
    digitsValue (ds ++ es) = digitsValue ds * 10 ^ es.length + digitsValue es := by
  rw [digitsValue, List.foldl_append, foldl_digits]
  rfl

theorem digitsValue_cons (d : Nat) (ds : List Nat) :
    digitsValue (d :: ds) = d * 10 ^ ds.length + digitsValue ds := by
  rw [digitsValue, List.foldl_cons, foldl_digits]
  simp

theorem accumulate_exact {s : Nat} {ds : List Nat}
    (fits : s * 10 ^ ds.length + digitsValue ds < 2 ^ 64) :
    accumulate s ds = (s * 10 ^ ds.length + digitsValue ds, 0) := by
  induction ds generalizing s with
  | nil => simp [accumulate, digitsValue]
  | cons d ds ih =>
    rw [digitsValue_cons, List.length_cons] at *
    have step : s * 10 ^ (ds.length + 1) + (d * 10 ^ ds.length + digitsValue ds) =
        (s * 10 + d) * 10 ^ ds.length + digitsValue ds := by ring
    rw [step] at fits ⊢
    have here : s * 10 + d < 2 ^ 64 := by
      have : s * 10 + d ≤ (s * 10 + d) * 10 ^ ds.length := Nat.le_mul_of_pos_right _ (by positivity)
      omega
    rw [accumulate, if_pos (by simpa using here), ih fits]

theorem accumulate_whole {ds : List Nat} (fits : digitsValue ds < 2 ^ 64) :
    accumulate 0 ds = (digitsValue ds, 0) := by
  have fits : 0 * 10 ^ ds.length + digitsValue ds < 2 ^ 64 := by simpa using fits
  simpa using accumulate_exact fits

theorem accumulate_le {s t k : Nat} {ds : List Nat} (fits : s < 2 ^ 64)
    (taken : accumulate s ds = (t, k)) :
    k ≤ ds.length ∧ t < 2 ^ 64 ∧ t * 10 ^ k ≤ s * 10 ^ ds.length + digitsValue ds := by
  induction ds generalizing s with
  | nil =>
    cases taken
    exact ⟨le_rfl, fits, by simp⟩
  | cons d ds ih =>
    rw [digitsValue_cons, List.length_cons]
    rw [accumulate] at taken
    split at taken
    · rename_i here
      obtain ⟨short, small, le⟩ := ih here taken
      refine ⟨by omega, small, le.trans (le_of_eq ?_)⟩
      ring
    · cases taken
      exact ⟨le_rfl, fits, Nat.le_add_right _ _⟩

theorem limit_lt : limit < 10 ^ 309 := by
  have power : (2 : ℚ) ^ 1024 < 10 ^ 309 := by
    exact_mod_cast (by decide +kernel : 2 ^ 1024 < 10 ^ 309)
  have unit : (0 : ℚ) < 2 ^ (970 : ℤ) := by positivity
  calc limit < 2 ^ 54 * 2 ^ (970 : ℤ) := mul_lt_mul_of_pos_right (by norm_num) unit
    _ = 2 ^ 1024 := by
      rw [← zpow_natCast, ← zpow_natCast, ← zpow_add₀ two_ne_zero]
      rfl
    _ < 10 ^ 309 := power

theorem power_le_limit {n : Nat} (room : n ≤ 308) : (10 : ℚ) ^ n ≤ limit := by
  have last : (10 : ℚ) ^ 308 + 7 * 2 ^ 970 ≤ 2 ^ 54 * 2 ^ 970 := by
    exact_mod_cast (by decide +kernel : 10 ^ 308 + 7 * 2 ^ 970 ≤ 2 ^ 54 * 2 ^ 970)
  refine (pow_le_pow_right₀ (by norm_num) room).trans ?_
  rw [limit, sub_mul]
  exact le_sub_iff_add_le.2 last

theorem natural_le_limit {s : Nat} (small : s < 2 ^ 64) : (s : ℚ) ≤ limit := by
  have unit : (2 : ℚ) ^ (11 : ℤ) ≤ 2 ^ (970 : ℤ) := Binary.zpow_le (by decide)
  have small : (s : ℚ) < 2 ^ 64 := by exact_mod_cast small
  calc (s : ℚ) ≤ (2 ^ 54 - 7) * 2 ^ (11 : ℤ) := by
        norm_num at small ⊢
        linarith
    _ ≤ limit := mul_le_mul_of_nonneg_left unit (by norm_num)

theorem lt_top {v : ℚ} (bound : v ≤ limit * (1 + 1 / 2 ^ 53) ^ 2) :
    v < (2 ^ 53 - 1 / 2) * 2 ^ (971 : ℤ) := by
  have unit : (0 : ℚ) < 2 ^ (970 : ℤ) := by positivity
  have room : ((2 : ℚ) ^ 54 - 7) * (1 + 1 / 2 ^ 53) ^ 2 < (2 ^ 53 - 1 / 2) * 2 := by norm_num
  calc v ≤ (2 ^ 54 - 7) * (1 + 1 / 2 ^ 53) ^ 2 * 2 ^ (970 : ℤ) :=
        bound.trans_eq (mul_right_comm ..)
    _ < (2 ^ 53 - 1 / 2) * 2 * 2 ^ (970 : ℤ) := mul_lt_mul_of_pos_right room unit
    _ = (2 ^ 53 - 1 / 2) * 2 ^ (971 : ℤ) := by
      rw [mul_assoc, ← zpow_one_add₀ two_ne_zero]
      rfl

theorem near_rounded {x : Float} {a : ℚ} (rounded : Rounded x a) (one : 1 ≤ a)
    (bound : a ≤ limit) : ∃ v, Stands x v ∧ |v - a| ≤ a / 2 ^ 53 := by
  refine rounded.near ?_ (lt_top ?_)
  · exact (Binary.zpow_le (by decide : (-1022 : ℤ) ≤ 0)).trans (by simpa using one)
  · have margin : limit ≤ limit * (1 + 1 / 2 ^ 53) ^ 2 :=
      le_mul_of_one_le_right (zero_le_one.trans (one.trans bound)) (by norm_num)
    exact bound.trans margin

theorem rounded_ofNat {s : Nat} (pos : 0 < s) : Rounded (Float.ofNat s) s := by
  have rounded := Binary.rounded_ofScientific pos (Nat.zero_le 2048)
  rwa [pow_zero, mul_one] at rounded

theorem rounded_powerOfTen {n : Nat} (room : n ≤ 308) : Rounded (powerOfTen n) (10 ^ n) := by
  have rounded := Binary.rounded_ofScientific one_pos (by omega : n ≤ 2048)
  rwa [Nat.cast_one, one_mul] at rounded

theorem near_ofNat {s : Nat} (pos : 0 < s) (small : s < 2 ^ 64) :
    ∃ v, Stands (Float.ofNat s) v ∧ |v - s| ≤ s / 2 ^ 53 :=
  near_rounded (rounded_ofNat pos) (by exact_mod_cast pos) (natural_le_limit small)

theorem near_powerOfTen {n : Nat} (room : n ≤ 308) :
    ∃ w, Stands (powerOfTen n) w ∧ |w - 10 ^ n| ≤ 10 ^ n / 2 ^ 53 :=
  near_rounded (rounded_powerOfTen room) (one_le_pow₀ (by norm_num)) (power_le_limit room)

theorem power_lt {s n : Nat} (pos : 0 < s) (bound : s * (10 : ℚ) ^ n ≤ limit) : n ≤ 308 := by
  have one : (1 : ℚ) ≤ s := by exact_mod_cast pos
  have size : (10 : ℚ) ^ n < 10 ^ 309 := by
    refine lt_of_le_of_lt ?_ (bound.trans_lt limit_lt)
    exact le_mul_of_one_le_left (by positivity) one
  have := (pow_lt_pow_iff_right₀ (by norm_num : (1 : ℚ) < 10)).1 size
  omega

/- Each factor is off by one part in `2^53` at most, so the product is by two. -/
theorem isInf_product {s n : Nat} (pos : 0 < s) (small : s < 2 ^ 64)
    (bound : s * (10 : ℚ) ^ n ≤ limit) : (Float.ofNat s * powerOfTen n).isInf = false := by
  have one : (1 : ℚ) ≤ s := by exact_mod_cast pos
  have power : (1 : ℚ) ≤ 10 ^ n := one_le_pow₀ (by norm_num)
  obtain ⟨v, left, error⟩ := near_ofNat pos small
  obtain ⟨w, right, error'⟩ := near_powerOfTen (power_lt pos bound)
  obtain ⟨low, high⟩ := abs_le.1 error
  obtain ⟨low', high'⟩ := abs_le.1 error'
  have normal : 2 ^ (-1022 : ℤ) ≤ v * w := by
    have low : 1 / 2 ≤ v := by linarith
    have low' : 1 / 2 ≤ w := by linarith
    calc (2 : ℚ) ^ (-1022 : ℤ) ≤ 2 ^ (-2 : ℤ) := Binary.zpow_le (by decide)
      _ = 1 / 2 * (1 / 2) := by norm_num
      _ ≤ v * w := by gcongr
  have bounded : v * w ≤ limit * (1 + 1 / 2 ^ 53) ^ 2 := by
    have positive := right.pos
    calc v * w ≤ s * (1 + 1 / 2 ^ 53) * (10 ^ n * (1 + 1 / 2 ^ 53)) := by
          gcongr <;> linarith
      _ = s * 10 ^ n * (1 + 1 / 2 ^ 53) ^ 2 := by ring
      _ ≤ limit * (1 + 1 / 2 ^ 53) ^ 2 := by gcongr
  obtain ⟨z, product, -⟩ := (left.mul right).near normal (lt_top bounded)
  exact product.isInf

theorem isInf_zero {n : Nat} (room : n ≤ 308) : (Float.ofNat 0 * powerOfTen n).isInf = false := by
  have none : Float.ofNat 0 = Binary.zero .positive := rfl
  obtain ⟨w, right, -⟩ := near_powerOfTen room
  rw [none, right.zero_mul]
  rfl

theorem scale_isSome {s : Nat} {e : ℤ} (small : s < 2 ^ 64) (bound : s * 10 ^ e ≤ limit) :
    (scale s e).isSome := by
  rw [scale]
  by_cases down : e < 0
  · rw [if_pos down]
    rfl
  · obtain ⟨n, rfl⟩ := Int.eq_ofNat_of_zero_le (not_lt.1 down)
    rw [if_neg down]
    rw [zpow_natCast] at bound
    obtain rfl | pos := Nat.eq_zero_or_pos s
    · split
      · rfl
      · simp [isInf_zero (n := n) (by omega)]
    · have room := power_lt pos bound
      rw [if_neg (by omega)]
      simp [isInf_product pos small bound]

/-- A numeral short of the end of the range is read, if its whole part fits in 64 bits and its
exponent in 32. -/
theorem magnitude_isSome {n : Numeral} (short : digitsValue n.whole < 2 ^ 64)
    (up : ∀ ds, n.exponent = some (false, ds) → digitsValue ds < 2 ^ 31) (bound : n.exact ≤ limit) :
    n.magnitude.isSome := by
  obtain ⟨⟨s, dropped⟩, taken⟩ : ∃ r, accumulate (digitsValue n.whole) n.fraction = r := ⟨_, rfl⟩
  obtain ⟨part, small, le⟩ := accumulate_le short taken
  rw [← digitsValue_append] at le
  have scaled (t : ℤ) : (s : ℚ) * 10 ^ (t - ((n.fraction.length - dropped : Nat) : ℤ)) ≤
      digitsValue (n.whole ++ n.fraction) * 10 ^ (t - n.fraction.length) := by
    have le : (s : ℚ) * 10 ^ dropped ≤ digitsValue (n.whole ++ n.fraction) := by exact_mod_cast le
    have split : t - ((n.fraction.length - dropped : Nat) : ℤ) =
        dropped + (t - n.fraction.length) := by
      omega
    rw [split, zpow_add₀ (by norm_num), ← mul_assoc, zpow_natCast]
    gcongr
  rw [exact, place, shift] at bound
  rw [magnitude, accumulate_whole short]
  simp only [taken]
  have taken (t e : ℤ) (split : e = t - ((n.fraction.length - dropped : Nat) : ℤ))
      (bound : digitsValue (n.whole ++ n.fraction) * (10 : ℚ) ^ (t - n.fraction.length) ≤ limit) :
      (scale s e).isSome :=
    scale_isSome small ((split ▸ scaled t).trans bound)
  cases written : n.exponent with
  | none =>
    simp only [written] at bound ⊢
    exact taken 0 _ (by simp) bound
  | some mark =>
    obtain ⟨down, ds⟩ := mark
    simp only [written] at bound ⊢
    cases down with
    | true =>
      split
      · exact taken (-digitsValue ds) _ (by simp; ring) bound
      · rfl
    | false =>
      rw [if_pos (by simpa using up ds written)]
      exact taken (digitsValue ds) _ (by simp; ring) bound

theorem value_isSome {n : Numeral} (read : n.magnitude.isSome) : n.value.isSome := by
  simp only [value]
  split
  · split
    · rfl
    · split <;> rfl
  · simpa using read

theorem digitsValue_lt {ds : List Nat} (small : ∀ d ∈ ds, d < 10) :
    digitsValue ds < 10 ^ ds.length := by
  induction ds with
  | nil => simp [digitsValue]
  | cons d ds ih =>
    rw [digitsValue_cons, List.length_cons, pow_succ]
    have here := small d List.mem_cons_self
    have later := ih fun e mem => small e (List.mem_cons_of_mem _ mem)
    nlinarith [Nat.mul_le_mul_right (10 ^ ds.length) (Nat.le_of_lt_succ here)]

theorem short_whole {cs : List Char} (figured : Figured cs) (few : cs.length ≤ 16) :
    digitsValue (figures cs) < 2 ^ 64 := by
  have bound := digitsValue_lt figured.small
  rw [length_figures] at bound
  calc digitsValue (figures cs) < 10 ^ cs.length := bound
    _ ≤ 10 ^ 16 := Nat.pow_le_pow_right (by decide) few
    _ ≤ 2 ^ 64 := by decide

theorem leading_digit {d : Nat} (pos : 0 < d) (g : ℤ) :
    (10 : ℚ) ^ ((Decimal.digits d).length + g - 1) ≤ d * 10 ^ g := by
  obtain ⟨n, size⟩ := Nat.exists_eq_succ_of_ne_zero
    (List.length_pos_of_ne_nil (digits_ne_nil d)).ne'
  have least : 10 ^ n ≤ d := by
    by_contra less
    obtain rfl | more := Nat.eq_zero_or_pos n
    · omega
    · have := (Nat.length_toDigits_le_iff (by decide) more).2 (not_le.1 less)
      rw [← Decimal.digits, size] at this
      omega
  have place : ((n.succ : Nat) : ℤ) + g - 1 = n + g := by
    push_cast
    ring
  rw [size, place, zpow_add₀ (by norm_num), zpow_natCast]
  gcongr
  exact_mod_cast least

theorem ofDecimal_isSome (negative : Bool) {d : Nat} (pos : 0 < d) {g : ℤ}
    (bound : d * 10 ^ g ≤ limit) : (ofDecimal numberLayout negative d g).value.isSome := by
  have exact := exact_ofDecimal numberLayout negative d g
  have figured := figured_digits d
  have point := figured_zeros 1
  have room : ((Decimal.digits d).length + g - 1 : ℤ) < 309 := by
    have size := (leading_digit pos g).trans_lt (bound.trans_lt limit_lt)
    rw [← zpow_natCast] at size
    exact (zpow_lt_zpow_iff_right₀ (by norm_num)).1 size
  refine value_isSome (magnitude_isSome ?_ ?_ (exact ▸ bound))
  · rw [ofDecimal]
    split
    · rename_i places
      have last : ((Decimal.digits d).length + g - 1 : ℤ) ≤ 15 := places.2
      rw [plain]
      split_ifs
      · refine short_whole (figured.append (figured_zeros _)) ?_
        rw [List.length_append, Decimal.zeros, List.length_replicate]
        omega
      · refine short_whole (figured.take _) ?_
        rw [List.length_take]
        omega
      · exact short_whole point (by decide)
    · exact short_whole (figured.take 1) (by rw [List.length_take]; omega)
  · intro ds written
    rw [ofDecimal] at written
    split at written
    · rw [plain] at written
      split_ifs at written
    · obtain ⟨up, rfl⟩ := Prod.mk.inj (Option.some.inj written)
      rw [digitsValue_digits]
      rw [decide_eq_false_iff_not] at up
      omega

theorem middle_le_limit {m : Nat} {q : ℤ} (form : Canonical m q)
    (below : ¬ (q = 971 ∧ 2 ^ 53 - 3 ≤ m)) : (m + 1 / 2) * (2 : ℚ) ^ q ≤ limit := by
  have unit : (0 : ℚ) < 2 ^ (970 : ℤ) := by positivity
  obtain last | inner := form.most.eq_or_lt
  · have small : (m : ℚ) + 4 ≤ 2 ^ 53 := by
      have : m + 4 ≤ 2 ^ 53 := by omega
      exact_mod_cast this
    have double : (2 : ℚ) ^ (971 : ℤ) = 2 * 2 ^ (970 : ℤ) := zpow_one_add₀ two_ne_zero 970
    rw [last, double, limit, ← mul_assoc]
    exact mul_le_mul_of_nonneg_right (by linarith) unit.le
  · have small : (m : ℚ) + 1 ≤ 2 ^ 53 := by exact_mod_cast form.small
    calc ((m : ℚ) + 1 / 2) * 2 ^ q ≤ (2 ^ 54 - 7) * 2 ^ q := by
          gcongr
          linarith
      _ ≤ limit := mul_le_mul_of_nonneg_left (Binary.zpow_le (by omega)) (by norm_num)

/- The texts of the three greatest floats are beyond the limit. -/
theorem greatest_isSome (s : Sign) (k : Fin 3) :
    (ofFloat numberLayout (Binary.float s (2 ^ 53 - 1 - k) 971 (by omega))).value.isSome := by
  cases s <;> revert k <;> decide +kernel

/-- What is printed for a finite float is read. -/
theorem ofFloat_isSome {x : Float} (finite : x.isFinite) :
    (ofFloat numberLayout x).value.isSome := by
  obtain ⟨s, rfl⟩ | ⟨s, m, q, pos, form, rfl⟩ := Binary.cases_of_finite finite
  · cases s <;> decide +kernel
  · by_cases top : q = 971 ∧ 2 ^ 53 - 3 ≤ m
    · obtain ⟨rfl, large⟩ := top
      have small := form.small
      obtain ⟨k, rfl⟩ : ∃ k : Fin 3, m = 2 ^ 53 - 1 - k :=
        ⟨⟨2 ^ 53 - 1 - m, by omega⟩, by simp; omega⟩
      exact greatest_isSome s k
    · have within := Decimal.shortest_within form s
      rw [ofFloat, form.float_ne_zero]
      have pos := Decimal.shortest_pos form s
      exact ofDecimal_isSome _ pos (within.high.trans (middle_le_limit form top))

theorem proper_of_finite {x : Float} (finite : x.isFinite) : (ofFloat numberLayout x).Proper := by
  obtain ⟨s, rfl⟩ | ⟨s, m, q, pos, form, rfl⟩ := Binary.cases_of_finite finite
  · refine proper_ofFloat numberLayout fun nonzero => ?_
    cases s <;> exact absurd nonzero (by decide +kernel)
  · exact proper_ofFloat numberLayout fun _ => Decimal.shortest_pos form s

end SceneTree.Json.Numeral
