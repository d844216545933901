import SceneTree.Opening

/-! Texts in files. A text is read from its bytes as it is read from its characters. -/
namespace SceneTree
namespace Json.Symbol

theorem lead_ofNat {v : Nat} (byte : v < 256) :
    lead (UInt8.ofNat v) =
      if v < 0x80 then some (0, v, 0)
      else if v < 0xC0 then none
      else if v < 0xE0 then some (1, v - 0xC0, 0x80)
      else if v < 0xF0 then some (2, v - 0xE0, 0x800)
      else if v < 0xF8 then some (3, v - 0xF0, 0x10000)
      else none := by
  have value : (UInt8.ofNat v).toNat = v := UInt8.toNat_ofNat_of_lt byte
  simp only [lead, UInt8.lt_iff_toNat_lt, value]
  rfl

theorem lead_one {v : Nat} (bits : v < 0x80) : lead (UInt8.ofNat v) = some (0, v, 0) := by
  rw [lead_ofNat (by omega), if_pos bits]

theorem lead_two {v : Nat} (bits : v < 0x20) :
    lead (UInt8.ofNat (v + 0xC0)) = some (1, v, 0x80) := by
  rw [lead_ofNat (by omega), if_neg (by omega), if_neg (by omega), if_pos (by omega),
    Nat.add_sub_cancel]

theorem lead_three {v : Nat} (bits : v < 0x10) :
    lead (UInt8.ofNat (v + 0xE0)) = some (2, v, 0x800) := by
  rw [lead_ofNat (by omega), if_neg (by omega), if_neg (by omega), if_neg (by omega),
    if_pos (by omega), Nat.add_sub_cancel]

theorem lead_four {v : Nat} (bits : v < 0x08) :
    lead (UInt8.ofNat (v + 0xF0)) = some (3, v, 0x10000) := by
  rw [lead_ofNat (by omega), if_neg (by omega), if_neg (by omega), if_neg (by omega),
    if_neg (by omega), if_pos (by omega), Nat.add_sub_cancel]

/- A byte that is not the first of its character. -/
def sixBits (v : Nat) : UInt8 := UInt8.ofNat (v % 64 + 0x80)

theorem continuation_sixBits (v : Nat) : continuation (sixBits v) = some (v % 64) := by
  have value : (sixBits v).toNat = v % 64 + 0x80 :=
    UInt8.toNat_ofNat_of_lt (by change _ < 256; omega)
  have range : 0x80 ≤ sixBits v ∧ sixBits v < 0xC0 := by
    rw [UInt8.le_iff_toNat_le, UInt8.lt_iff_toNat_lt, value]
    exact ⟨Nat.le_add_left _ _, by change _ < 0xC0; omega⟩
  rw [continuation, if_pos range, value, Nat.add_sub_cancel]

theorem mapM_sixBits (vs : List Nat) :
    (vs.map sixBits).mapM continuation = some (vs.map (· % 64)) := by
  induction vs with
  | nil => rfl
  | cons v vs ih => simp [continuation_sixBits, ih]

theorem decode_append {c : Char} {first : UInt8} {high least : Nat} (vs : List Nat)
    (leads : lead first = some (vs.length, high, least))
    (value : (vs.map (· % 64)).foldl (fun v b => 64 * v + b) high = c.toNat)
    (enough : least ≤ c.toNat) (rest : List UInt8) :
    decode first (vs.map sixBits ++ rest) = some (c, vs.length) := by
  have taken : (vs.map sixBits ++ rest).take vs.length = vs.map sixBits :=
    List.take_left' (List.length_map _)
  have same {v : Nat} (valid : v.isValidChar) (eq : v = c.toNat) : Char.ofNatAux v valid = c := by
    subst eq
    rfl
  have valid : c.toNat.isValidChar := c.valid
  rw [decode, leads]
  dsimp only [bind, Option.bind]
  rw [taken, mapM_sixBits]
  dsimp only
  rw [dif_pos ⟨List.length_map _, value.symm ▸ enough, value.symm ▸ valid⟩]
  exact congrArg (fun d => some (d, vs.length)) (same _ value)

theorem decode_utf8 (c : Char) : ∃ first, ∃ vs : List Nat,
    String.utf8EncodeChar c = first :: vs.map sixBits ∧
      ∀ rest, decode first (vs.map sixBits ++ rest) = some (c, vs.length) := by
  have bound : c.toNat < 0x110000 := by
    obtain low | ⟨_, high⟩ := c.valid
    · exact Nat.lt_trans low (by decide)
    · exact high
  by_cases one : c.toNat ≤ 0x7F
  · have leads := lead_one (v := c.toNat) (by omega)
    exact ⟨_, [], if_pos one, decode_append [] leads rfl (Nat.zero_le _)⟩
  by_cases two : c.toNat ≤ 0x7FF
  · have leads := lead_two (v := c.toNat / 64 % 32) (by omega)
    have decodes := decode_append (c := c) [c.toNat] leads (by simp; omega) (by omega)
    exact ⟨_, [c.toNat], (if_neg one).trans (if_pos two), decodes⟩
  by_cases three : c.toNat ≤ 0xFFFF
  · have leads := lead_three (v := c.toNat / 4096 % 16) (by omega)
    have decodes := decode_append (c := c) [c.toNat / 64, c.toNat] leads (by simp; omega) (by omega)
    exact ⟨_, [c.toNat / 64, c.toNat],
      (if_neg one).trans ((if_neg two).trans (if_pos three)), decodes⟩
  · have leads := lead_four (v := c.toNat / 262144 % 8) (by omega)
    have decodes := decode_append (c := c) [c.toNat / 4096, c.toNat / 64, c.toNat] leads
      (by simp; omega) (by omega)
    exact ⟨_, [c.toNat / 4096, c.toNat / 64, c.toNat],
      (if_neg one).trans ((if_neg two).trans (if_neg three)), decodes⟩

theorem ofBytesFrom_append (vs : List Nat) (rest : List UInt8) :
    ofBytesFrom vs.length (vs.map sixBits ++ rest) = ofBytesFrom 0 rest := by
  induction vs with
  | nil => rfl
  | cons v vs ih => exact ih

theorem ofBytes_utf8 (cs : List Char) :
    ofBytes (cs.flatMap String.utf8EncodeChar) = cs.map .char := by
  induction cs with
  | nil => rfl
  | cons c cs ih =>
    obtain ⟨first, vs, bytes, decodes⟩ := decode_utf8 c
    rw [List.flatMap_cons, bytes, List.cons_append, ofBytes, ofBytesFrom, decodes]
    dsimp only
    rw [ofBytesFrom_append, List.map_cons, ← ih, ofBytes]

theorem ofBytes_toUTF8 (s : String) : ofBytes s.toUTF8.data.toList = ofString s := by
  have bytes : s.toUTF8.data.toList = s.toList.flatMap String.utf8EncodeChar := by
    have encoded : s.toUTF8 = s.toList.utf8Encode := by
      rw [← String.toByteArray_ofList, String.ofList_toList]
      rfl
    rw [encoded, List.utf8Encode, List.toList_data_toByteArray]
  rw [bytes, ofBytes_utf8, ofString]

end Json.Symbol

/-- A file that holds a text gives the frame of that text. -/
theorem Frame.ofFile_content (path s : String) :
    ofFile path (.content s.toUTF8.data.toList) = ofText s := by
  rw [ofFile, ofBytes, Json.Symbol.ofBytes_toUTF8, ofText]

end SceneTree
