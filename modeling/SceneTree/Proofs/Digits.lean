import Mathlib
import SceneTree.Json.Numeral
import SceneTree.Json.Printer

/-! Numerals of floats. The text of a finite value spells a numeral, with no needless zero in front,
and the numeral stands for the very decimal that the printer found. -/
namespace SceneTree.Json
open Decimal (Layout digits zeros)

def Digits (ds : List Nat) : Prop := ds ≠ [] ∧ ∀ d ∈ ds, d < 10

def figures (cs : List Char) : List Nat := cs.map fun c => c.toNat - 48

@[simp] theorem length_figures (cs : List Char) : (figures cs).length = cs.length :=
  List.length_map ..

namespace Numeral

def digitsText (ds : List Nat) : List Char := ds.map Nat.digitChar

def minus (negative : Bool) : List Char := if negative then ['-'] else []

def spell (n : Numeral) : List Char :=
  minus n.negative ++ digitsText n.whole ++
    (if n.fraction = [] then [] else '.' :: digitsText n.fraction) ++
    match n.exponent with
    | none => []
    | some (down, ds) => 'e' :: (if down then '-' else '+') :: digitsText ds

/-- A numeral that can be spelled: it has no needless zero in front. -/
structure Proper (n : Numeral) : Prop where
  whole : Digits n.whole
  lead : n.whole.head? = some 0 → n.whole = [0]
  fraction : ∀ d ∈ n.fraction, d < 10
  exponent : ∀ down ds, n.exponent = some (down, ds) → Digits ds

def shift (n : Numeral) : ℤ :=
  match n.exponent with
  | none => 0
  | some (down, ds) => if down then -(digitsValue ds : ℤ) else digitsValue ds

def place (n : Numeral) : ℤ := n.shift - n.fraction.length

/-- The value of a numeral, not rounded. -/
def exact (n : Numeral) : ℚ := digitsValue (n.whole ++ n.fraction) * 10 ^ n.place

def plain (negative : Bool) (ds : List Char) (g : Int) : Numeral :=
  let whole := ds.length + g
  if 0 ≤ g then ⟨negative, figures (ds ++ zeros g.toNat), figures ['0'], none⟩
  else if 0 < whole then
    ⟨negative, figures (ds.take whole.toNat), figures (ds.drop whole.toNat), none⟩
  else ⟨negative, figures ['0'], figures (zeros (-whole).toNat ++ ds), none⟩

def scientific (negative : Bool) (ds : List Char) (e : Int) : Numeral :=
  ⟨negative, figures (ds.take 1), figures (ds.drop 1), some (e < 0, figures (digits e.natAbs))⟩

def ofDecimal (l : Layout) (negative : Bool) (d : Nat) (g : Int) : Numeral :=
  let ds := digits d
  let e := ds.length + g - 1
  if l.plainFrom ≤ e ∧ e ≤ l.plainTo then plain negative ds g else scientific negative ds e

def ofFloat (l : Layout) (x : Float) : Numeral :=
  if x == 0 then ⟨Decimal.negative x, figures ['0'], figures ['0'], none⟩
  else ofDecimal l (Decimal.negative x) (Decimal.shortest x).1 (Decimal.shortest x).2

def Figured (cs : List Char) : Prop := ∀ c ∈ cs, 48 ≤ c.toNat ∧ c.toNat ≤ 57

theorem figured_digits (n : Nat) : Figured (digits n) := by
  intro c mem
  have digit := Nat.isDigit_of_mem_toDigits (b := 10) (by decide) le_rfl mem
  simp only [Char.isDigit, Bool.and_eq_true, decide_eq_true_eq] at digit
  exact digit

theorem figured_zeros (n : Nat) : Figured (zeros n) := by
  intro c mem
  obtain rfl := List.eq_of_mem_replicate mem
  decide

theorem Figured.append {cs ds : List Char} (front : Figured cs) (back : Figured ds) :
    Figured (cs ++ ds) := by
  intro c mem
  exact (List.mem_append.1 mem).elim (front c) (back c)

theorem Figured.take {cs : List Char} (figured : Figured cs) (n : Nat) : Figured (cs.take n) :=
  fun c mem => figured c (List.mem_of_mem_take mem)

theorem Figured.drop {cs : List Char} (figured : Figured cs) (n : Nat) : Figured (cs.drop n) :=
  fun c mem => figured c (List.mem_of_mem_drop mem)

theorem Figured.text {cs : List Char} (figured : Figured cs) : digitsText (figures cs) = cs := by
  rw [digitsText, figures, List.map_map]
  refine (List.map_congr_left fun c mem => ?_).trans (List.map_id cs)
  obtain ⟨low, high⟩ := figured c mem
  apply Char.toNat_inj.1
  simp only [Function.comp, id]
  rw [Nat.toNat_digitChar_of_lt_ten (by omega)]
  omega

theorem Figured.small {cs : List Char} (figured : Figured cs) : ∀ d ∈ figures cs, d < 10 := by
  intro d mem
  obtain ⟨c, inside, rfl⟩ := List.mem_map.1 mem
  obtain ⟨low, high⟩ := figured c inside
  omega

theorem digitsValue_figures (cs : List Char) :
    digitsValue (figures cs) = Nat.ofDigitChars 10 cs 0 := by
  rw [digitsValue, figures, List.foldl_map]
  rfl

theorem figures_ne_nil {cs : List Char} (filled : cs ≠ []) : figures cs ≠ [] := by
  simpa [figures] using filled

theorem digits_ne_nil (n : Nat) : digits n ≠ [] := Nat.toDigits_ne_nil

theorem spell_positional {w f : List Char} (whole : Figured w) (fraction : Figured f)
    (filled : f ≠ []) (negative : Bool) :
    spell ⟨negative, figures w, figures f, none⟩ =
      minus negative ++ (w ++ '.' :: f) := by
  simp [spell, whole.text, fraction.text, figures_ne_nil filled]

section
variable {ds : List Char} (figured : Figured ds) (filled : ds ≠ []) (negative : Bool)
include figured filled

theorem spell_plain (g : Int) :
    (plain negative ds g).spell = minus negative ++ Decimal.plain ds g := by
  have point : Figured ['0'] := figured_zeros 1
  simp only [plain, Decimal.plain]
  split_ifs with high middle
  · rw [spell_positional (figured.append (figured_zeros _)) point (by decide)]
  · have rest : ds.drop (ds.length + g).toNat ≠ [] := by
      rw [ne_eq, List.drop_eq_nil_iff]
      omega
    rw [spell_positional (figured.take _) (figured.drop _) rest]
  · rw [spell_positional point ((figured_zeros _).append figured) (by simp [filled])]
    rfl

theorem spell_scientific (e : Int) :
    (scientific negative ds e).spell =
      minus negative ++ Decimal.scientific ds e := by
  obtain _ | ⟨d, rest⟩ := ds
  · exact absurd rfl filled
  have first : Figured [d] := fun c mem => figured c (by simp_all)
  have later : Figured rest := fun c mem => figured c (List.mem_cons_of_mem _ mem)
  have exponent := (figured_digits e.natAbs).text
  simp only [scientific, spell, List.take_one, List.head?_cons, Option.toList_some, List.drop_one,
    List.tail_cons, first.text, later.text, exponent, decide_eq_true_eq]
  cases rest with
  | nil => simp [Decimal.scientific, figures]
  | cons d' rest => simp [Decimal.scientific, figures]

end

theorem spell_ofFloat (l : Layout) (x : Float) : (ofFloat l x).spell = l.text x := by
  have figured := figured_digits (Decimal.shortest x).1
  have filled := digits_ne_nil (Decimal.shortest x).1
  have point : Figured ['0'] := figured_zeros 1
  have sign (cs : List Char) : (if Decimal.negative x then '-' :: cs else cs) =
      minus (Decimal.negative x) ++ cs := by
    rw [minus]
    split <;> rfl
  rw [Layout.text, sign, ofFloat, Layout.magnitude]
  split
  · rw [spell_positional point point (by decide)]
    rfl
  · simp only [ofDecimal]
    split
    · exact spell_plain figured filled _ _
    · exact spell_scientific figured filled _ _

theorem head_digits {d : Nat} (pos : 0 < d) : (digits d).head? ≠ some '0' := by
  induction d using Nat.strong_induction_on with
  | _ d ih =>
    rw [digits, Nat.toDigits_eq_if (by decide)]
    split
    · rename_i small
      have nonzero : ∀ d < 10, 0 < d → Nat.digitChar d ≠ '0' := by decide
      simpa using nonzero d small pos
    · rw [List.head?_append_of_ne_nil _ Nat.toDigits_ne_nil]
      exact ih (d / 10) (by omega) (by omega)

section
variable {d : Nat} (pos : 0 < d) (negative : Bool)
include pos

theorem lead_figures {cs : List Char} (front : cs.head? = (digits d).head?) :
    (figures cs).head? ≠ some 0 := by
  have head := head_digits pos
  rw [figures, List.head?_map, front]
  cases first : (digits d).head? with
  | none => nofun
  | some c =>
    obtain ⟨low, high⟩ := figured_digits d c (List.mem_of_head? first)
    rw [first] at head
    intro zero
    have least : c.toNat = 48 := by
      have : c.toNat - 48 = 0 := Option.some.inj zero
      omega
    exact head (congrArg some (Char.toNat_inj.1 least))

theorem proper_plain (g : Int) : (plain negative (digits d) g).Proper := by
  have figured := figured_digits d
  have filled := digits_ne_nil d
  have point := (figured_zeros 1).small
  simp only [plain]
  split_ifs with high middle
  · have lead : (figures (digits d ++ zeros g.toNat)).head? ≠ some 0 :=
      lead_figures pos (List.head?_append_of_ne_nil _ filled)
    exact ⟨⟨figures_ne_nil (by simp [filled]), (figured.append (figured_zeros _)).small⟩,
      fun h => absurd h lead, point, nofun⟩
  · obtain ⟨n, size⟩ :=
      Nat.exists_eq_succ_of_ne_zero (n := ((digits d).length + g).toNat) (by omega)
    rw [size]
    have lead : (figures ((digits d).take (n + 1))).head? ≠ some 0 :=
      lead_figures pos (by rw [List.head?_take, if_neg n.succ_ne_zero])
    exact ⟨⟨figures_ne_nil (by simp [filled]), (figured.take _).small⟩,
      fun h => absurd h lead, (figured.drop _).small, nofun⟩
  · exact ⟨⟨nofun, point⟩, fun _ => rfl, ((figured_zeros _).append figured).small, nofun⟩

theorem proper_scientific (e : Int) : (scientific negative (digits d) e).Proper := by
  have figured := figured_digits d
  have filled := digits_ne_nil d
  have lead : (figures ((digits d).take 1)).head? ≠ some 0 :=
    lead_figures pos (by rw [List.head?_take, if_neg one_ne_zero])
  refine ⟨⟨figures_ne_nil (by simp [filled]), (figured.take 1).small⟩,
    fun h => absurd h lead, (figured.drop 1).small, ?_⟩
  rintro down ds ⟨⟩
  exact ⟨figures_ne_nil (digits_ne_nil _), (figured_digits _).small⟩

end

theorem proper_ofFloat (l : Layout) {x : Float}
    (pos : (x == 0) = false → 0 < (Decimal.shortest x).1) : (ofFloat l x).Proper := by
  have point := (figured_zeros 1).small
  rw [ofFloat]
  split
  · exact ⟨⟨nofun, point⟩, fun _ => rfl, point, nofun⟩
  · rename_i nonzero
    rw [ofDecimal]
    have pos := pos (by simpa using nonzero)
    split
    · exact proper_plain pos _ _
    · exact proper_scientific pos _ _

theorem digitsValue_figures_append (cs ds : List Char) :
    digitsValue (figures cs ++ figures ds) = Nat.ofDigitChars 10 (cs ++ ds) 0 := by
  rw [← digitsValue_figures, figures, figures, figures, List.map_append]

theorem exact_plain (negative : Bool) (d : Nat) (g : Int) :
    (plain negative (digits d) g).exact = d * 10 ^ g := by
  have value : Nat.ofDigitChars 10 (digits d) 0 = d := Nat.ofDigitChars_ten_toDigits
  have zeros_value (n init : Nat) : Nat.ofDigitChars 10 (zeros n) init = 10 ^ n * init :=
    Nat.ofDigitChars_replicate_zero
  rw [plain]
  split_ifs with high middle
  · have whole : digitsValue (figures (digits d ++ zeros g.toNat) ++ figures ['0']) =
        d * 10 ^ g.toNat * 10 := by
      rw [digitsValue_figures_append, Nat.ofDigitChars_append, Nat.ofDigitChars_append, value,
        zeros_value]
      simp [Nat.ofDigitChars_cons]
      ring
    obtain ⟨n, rfl⟩ := Int.eq_ofNat_of_zero_le high
    have tenth : (10 : ℚ) ^ (0 - ((['0'].length : Nat) : ℤ)) = 1 / 10 := by norm_num
    simp only [exact, place, shift, whole, length_figures, tenth]
    rw [Int.toNat_natCast, zpow_natCast]
    push_cast
    ring
  · have whole : digitsValue (figures ((digits d).take ((digits d).length + g).toNat) ++
        figures ((digits d).drop ((digits d).length + g).toNat)) = d := by
      rw [digitsValue_figures_append, List.take_append_drop, value]
    have size : (0 : ℤ) - ((digits d).drop ((digits d).length + g).toNat).length = g := by
      rw [List.length_drop]
      omega
    simp only [exact, place, shift, whole, length_figures, size]
  · have whole : digitsValue (figures ['0'] ++
        figures (zeros (-((digits d).length + g)).toNat ++ digits d)) = d := by
      rw [digitsValue_figures_append, Nat.ofDigitChars_append, Nat.ofDigitChars_append, zeros_value]
      simpa [Nat.ofDigitChars_cons] using value
    have size : (0 : ℤ) - (zeros (-((digits d).length + g)).toNat ++ digits d).length = g := by
      rw [List.length_append, zeros, List.length_replicate]
      omega
    simp only [exact, place, shift, whole, length_figures, size]

theorem digitsValue_digits (n : Nat) : digitsValue (figures (digits n)) = n := by
  rw [digitsValue_figures]
  exact Nat.ofDigitChars_ten_toDigits

theorem parts_scientific (negative : Bool) (d : Nat) (g : Int) :
    let n := scientific negative (digits d) ((digits d).length + g - 1)
    digitsValue (n.whole ++ n.fraction) = d ∧ n.place = g := by
  have filled := List.length_pos_of_ne_nil (digits_ne_nil d)
  generalize leading : ((digits d).length + g - 1 : ℤ) = e
  constructor
  · rw [scientific, digitsValue_figures_append, List.take_append_drop]
    exact Nat.ofDigitChars_ten_toDigits
  · simp only [scientific, place, shift, digitsValue_digits, length_figures, List.length_drop,
      decide_eq_true_eq]
    split <;> omega

theorem exact_scientific (negative : Bool) (d : Nat) (g : Int) :
    (scientific negative (digits d) ((digits d).length + g - 1)).exact = d * 10 ^ g := by
  obtain ⟨digits, place⟩ := parts_scientific negative d g
  rw [exact, digits, place]

/-- The numeral of a float stands for the decimal that was found for it. -/
theorem exact_ofDecimal (l : Layout) (negative : Bool) (d : Nat) (g : Int) :
    (ofDecimal l negative d g).exact = d * 10 ^ g := by
  rw [ofDecimal]
  split
  · exact exact_plain negative d g
  · exact exact_scientific negative d g

end Numeral
end SceneTree.Json
