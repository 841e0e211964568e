import Mathlib.Tactic.IntervalCases
import Grove.Text.Utf8

/-!
# Texts and their bytes

A text is written as the bytes of its characters. What reads bytes with replacements for ill-formed
stretches finds nothing to replace in them.

## What is proved

* `toNat_of_mem_utf8EncodeChar` — which bytes of a character can be a sign of ASCII.
* `decodeFrom_encoded` — the bytes of a character are read as the character.
* `decode_toUTF8`, `fromUTF8?_toUTF8` — the bytes of a text are read as the text.
-/

namespace Grove.Text

theorem toNat_byte {n : Nat} (h : n < 256) : (UInt8.ofNat n).toNat = n := by
  rw [UInt8.toNat_ofNat', Nat.mod_eq_of_lt h]

theorem byte_le_byte {n m : Nat} (hn : n < 256) (hm : m < 256) :
    UInt8.ofNat n ≤ UInt8.ofNat m ↔ n ≤ m := by
  rw [UInt8.le_iff_toNat_le, toNat_byte hn, toNat_byte hm]

/-! ### Bytes of a character -/

/-- The bytes of a character that is no sign of ASCII have their highest bit set. -/
theorem toNat_of_mem_utf8EncodeChar {c : Char} {b : UInt8} (h : b ∈ String.utf8EncodeChar c)
    (hb : b.toNat < 0x80) : c.toNat = b.toNat := by
  have hval : c.val.toNat = c.toNat := rfl
  simp only [String.utf8EncodeChar, hval] at h
  generalize c.toNat = v at *
  split at h
  · obtain rfl := List.mem_singleton.1 h
    rw [toNat_byte (by omega)]
  · -- every byte is too great
    exfalso
    split at h
    · simp only [List.mem_cons, List.not_mem_nil, or_false] at h
      rcases h with rfl | rfl <;> rw [toNat_byte (by omega)] at hb <;> omega
    split at h
    · simp only [List.mem_cons, List.not_mem_nil, or_false] at h
      rcases h with rfl | rfl | rfl <;> rw [toNat_byte (by omega)] at hb <;> omega
    · simp only [List.mem_cons, List.not_mem_nil, or_false] at h
      rcases h with rfl | rfl | rfl | rfl <;> rw [toNat_byte (by omega)] at hb <;> omega

theorem eq_ofNat_of_mem_utf8EncodeChar {c : Char} {b : UInt8} (h : b ∈ String.utf8EncodeChar c)
    (hb : b.toNat < 0x80) : c = Char.ofNat b.toNat := by
  rw [← toNat_of_mem_utf8EncodeChar h hb, Char.ofNat_toNat]

/-! ### Bytes of a sequence -/

/-- A byte that announces a sequence starts it. -/
theorem decodeFrom_announced {n owed low high bits : Nat} (hn : 0x80 ≤ n ∧ n < 256)
    (hlead : leadByte? (.ofNat n) = some (owed, .ofNat low, .ofNat high, bits))
    (rest : List UInt8) :
    decodeFrom 0 0 0 0 (.ofNat n :: rest) =
      decodeFrom owed (.ofNat low) (.ofNat high) bits rest := by
  have hascii : ¬ UInt8.ofNat n < 0x80 := by
    rw [UInt8.lt_iff_toNat_lt, toNat_byte hn.2]
    exact Nat.not_lt.2 hn.1
  rw [decodeFrom, startWith, if_neg hascii, hlead]

/-- A byte that continues a sequence adds its bits. -/
theorem decodeFrom_continued {owed low high bits n : Nat} (hn : low ≤ n ∧ n ≤ high)
    (hhigh : high < 256) (rest : List UInt8) :
    decodeFrom (owed + 1) (.ofNat low) (.ofNat high) bits (.ofNat n :: rest) =
      if owed = 0 then Char.ofNat (64 * bits + (n - 0x80)) :: decodeFrom 0 0 0 0 rest
      else decodeFrom owed (.ofNat 0x80) (.ofNat 0xBF) (64 * bits + (n - 0x80)) rest := by
  obtain ⟨hlow, hle⟩ := hn
  rw [decodeFrom, if_pos ⟨(byte_le_byte (by omega) (by omega)).2 hlow,
    (byte_le_byte (by omega) hhigh).2 hle⟩, toNat_byte (by omega)]
  rfl

section

variable {n m : Nat}

theorem leadByte?_two (hn : 0xC2 ≤ n ∧ n ≤ 0xDF) :
    leadByte? (.ofNat n) = some (1, .ofNat 0x80, .ofNat 0xBF, n - 0xC0) := by
  simp only [leadByte?, UInt8.le_iff_toNat_le, toNat_byte (show n < 256 by omega)]
  exact if_pos hn

/-- What announces three bytes keeps the second one out of overlong forms and surrogates. -/
theorem leadByte?_three (hn : 0xE0 ≤ n ∧ n ≤ 0xEF) (hm : 0x80 ≤ m ∧ m ≤ 0xBF)
    (hlong : n = 0xE0 → 0xA0 ≤ m) (hpair : n = 0xED → m ≤ 0x9F) :
    ∃ low high, leadByte? (.ofNat n) = some (2, .ofNat low, .ofNat high, n - 0xE0) ∧
      (low ≤ m ∧ m ≤ high) ∧ high < 256 := by
  obtain ⟨hlow, hhigh⟩ := hn
  by_cases hfirst : n = 0xE0
  · subst hfirst
    exact ⟨0xA0, 0xBF, rfl, ⟨hlong rfl, hm.2⟩, by decide⟩
  by_cases hsurrogate : n = 0xED
  · subst hsurrogate
    exact ⟨0x80, 0x9F, rfl, ⟨hm.1, hpair rfl⟩, by decide⟩
  refine ⟨0x80, 0xBF, ?_, hm, by decide⟩
  interval_cases n <;> first | rfl | contradiction

/-- What announces four bytes keeps the second one out of overlong forms and below the last
character. -/
theorem leadByte?_four (hn : 0xF0 ≤ n ∧ n ≤ 0xF4) (hm : 0x80 ≤ m ∧ m ≤ 0xBF)
    (hlong : n = 0xF0 → 0x90 ≤ m) (hlast : n = 0xF4 → m ≤ 0x8F) :
    ∃ low high, leadByte? (.ofNat n) = some (3, .ofNat low, .ofNat high, n - 0xF0) ∧
      (low ≤ m ∧ m ≤ high) ∧ high < 256 := by
  obtain ⟨hlow, hhigh⟩ := hn
  by_cases hfirst : n = 0xF0
  · subst hfirst
    exact ⟨0x90, 0xBF, rfl, ⟨hlong rfl, hm.2⟩, by decide⟩
  by_cases hend : n = 0xF4
  · subst hend
    exact ⟨0x80, 0x8F, rfl, ⟨hm.1, hlast rfl⟩, by decide⟩
  refine ⟨0x80, 0xBF, ?_, hm, by decide⟩
  interval_cases n <;> first | rfl | contradiction

end

/-! ### Whole texts -/

/-- The bytes of a character are read as the character. -/
theorem decodeFrom_encoded (c : Char) (rest : List UInt8) :
    decodeFrom 0 0 0 0 (String.utf8EncodeChar c ++ rest) = c :: decodeFrom 0 0 0 0 rest := by
  have hvalid : c.toNat < 0xD800 ∨ 0xDFFF < c.toNat ∧ c.toNat < 0x110000 := c.valid
  have hread : ∀ n, n = c.toNat → Char.ofNat n = c := fun n hn => by rw [hn, Char.ofNat_toNat]
  have hval : c.val.toNat = c.toNat := rfl
  simp only [String.utf8EncodeChar, hval]
  generalize c.toNat = v at *
  split
  · -- one byte
    have hascii : UInt8.ofNat v < 0x80 := by
      rw [UInt8.lt_iff_toNat_lt, toNat_byte (by omega)]
      exact Nat.lt_of_le_of_lt ‹v ≤ 127› (by decide)
    rw [List.singleton_append, decodeFrom, startWith, if_pos hascii,
      toNat_byte (by omega), hread v rfl]
  split
  · -- two bytes
    simp only [List.cons_append, List.nil_append]
    rw [decodeFrom_announced (by omega) (leadByte?_two (by omega)),
      decodeFrom_continued (by omega) (by decide), if_pos rfl, hread _ (by omega)]
  split
  · -- three bytes
    simp only [List.cons_append, List.nil_append]
    obtain ⟨low, high, hlead, hsecond, hhigh⟩ := leadByte?_three (n := v / 4096 % 16 + 224)
      (m := v / 64 % 64 + 128) (by omega) (by omega) (by omega) (by omega)
    rw [decodeFrom_announced (by omega) hlead, decodeFrom_continued hsecond hhigh,
      if_neg (by decide), decodeFrom_continued (by omega) (by decide), if_pos rfl,
      hread _ (by omega)]
  · -- four bytes
    simp only [List.cons_append, List.nil_append]
    obtain ⟨low, high, hlead, hsecond, hhigh⟩ := leadByte?_four (n := v / 262144 % 8 + 240)
      (m := v / 4096 % 64 + 128) (by omega) (by omega) (by omega) (by omega)
    rw [decodeFrom_announced (by omega) hlead, decodeFrom_continued hsecond hhigh,
      if_neg (by decide), decodeFrom_continued (by omega) (by decide), if_neg (by decide),
      decodeFrom_continued (by omega) (by decide), if_pos rfl, hread _ (by omega)]

/-- The bytes of a text are those of its characters. -/
theorem toList_toUTF8 (s : String) :
    s.toUTF8.data.toList = s.toList.flatMap String.utf8EncodeChar := by
  obtain ⟨cs, rfl⟩ : ∃ cs, s = String.ofList cs := ⟨s.toList, String.ofList_toList.symm⟩
  rw [String.toUTF8, String.toByteArray_ofList, List.utf8Encode, List.data_toByteArray,
    String.toList_ofList]

/-- The bytes of some characters are read as these characters. -/
theorem decodeFrom_flatMap (cs : List Char) (rest : List UInt8) :
    decodeFrom 0 0 0 0 (cs.flatMap String.utf8EncodeChar ++ rest) =
      cs ++ decodeFrom 0 0 0 0 rest := by
  induction cs with
  | nil => rfl
  | cons c cs ih => rw [List.flatMap_cons, List.append_assoc, decodeFrom_encoded, ih, List.cons_append]

theorem decodeFrom_flatMap_nil (cs : List Char) :
    decodeFrom 0 0 0 0 (cs.flatMap String.utf8EncodeChar) = cs := by
  have hread := decodeFrom_flatMap cs []
  rw [List.append_nil] at hread
  rw [hread, decodeFrom, if_pos rfl, List.append_nil]

/-- The bytes of a text are read as the text. -/
theorem decode_toUTF8 (s : String) : decode s.toUTF8 = s.toList := by
  rw [decode, toList_toUTF8, decodeFrom_flatMap_nil]

/-- The bytes of a text are well-formed. -/
theorem fromUTF8?_toUTF8 (s : String) : String.fromUTF8? s.toUTF8 = some s := by
  simp only [String.fromUTF8?, String.toUTF8_eq_toByteArray, dif_pos s.isValidUTF8]
  rfl

end Grove.Text
