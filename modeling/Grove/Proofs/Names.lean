import Mathlib.Data.String.Basic
import Grove.Ordered
import Grove.Path
import Grove.Proofs.Encoding

/-!
# Names and their bytes

Every name of the system is held, and names that differ are held differently. A name that is a text is
held and shown as this text, and such names are ordered by their bytes as texts are. A sign of ASCII
is shown only where the name has it.

## What is proved

* `nameBytes_ofNameBytes`, `isText_ofNameBytes_iff` — how the bytes of a name are held.
* `nameBytes_of_isText`, `shown_of_isText` — names that are texts.
* `mem_of_mem_shown` — signs of ASCII in what is shown.
* `shown_marred` — what is shown of a byte that belongs to no character.
* `compare_nameBytes` — the order of names that are texts.
-/

namespace Grove.Text

/-! ### Names that are texts -/

theorem isText_iff {name : String} : isText name = true ↔ '\x00' ∉ name.toList := by
  rw [isText, Bool.not_eq_true', List.contains_eq_mem, decide_eq_false_iff_not]

theorem nameBytes_cons_of_ne {c : Char} (h : c ≠ '\x00') (cs : List Char) :
    nameBytes (c :: cs) = String.utf8EncodeChar c ++ nameBytes cs := by
  cases cs with
  | nil => simp [nameBytes]
  | cons d cs =>
    have hholds : holdsByte c d = false := by simp [holdsByte, h]
    rw [nameBytes, hholds, if_neg Bool.false_ne_true]

theorem nameBytes_eq_flatMap {cs : List Char} (h : '\x00' ∉ cs) :
    nameBytes cs = cs.flatMap String.utf8EncodeChar := by
  induction cs with
  | nil => rfl
  | cons c cs ih =>
    rw [List.mem_cons, not_or] at h
    rw [nameBytes_cons_of_ne (Ne.symm h.1), ih h.2, List.flatMap_cons]

theorem nameBytes_of_isText {name : String} (h : isText name = true) :
    nameBytes name.toList = name.toUTF8.data.toList := by
  rw [nameBytes_eq_flatMap (isText_iff.1 h), toList_toUTF8]

theorem shown_of_isText {name : String} (h : isText name = true) : shown name = name := by
  rw [shown, nameBytes_of_isText h]
  exact (congrArg String.ofList (decode_toUTF8 name)).trans String.ofList_toList

/-! ### Names of any bytes -/

/-- Bytes that start with a character are those of the character and more. -/
theorem eq_of_firstChar? {bytes : List UInt8} {c : Char} (h : firstChar? bytes = some c) :
    bytes = String.utf8EncodeChar c ++ bytes.drop c.utf8Size := by
  obtain ⟨more, hmore⟩ := ByteArray.exists_of_utf8DecodeChar?_eq_some h
  have htake : bytes.take 4 = String.utf8EncodeChar c ++ more.data.toList := by
    simpa using congrArg (fun b : ByteArray => b.data.toList) hmore
  have hbytes : bytes = String.utf8EncodeChar c ++ (more.data.toList ++ bytes.drop 4) := by
    rw [← List.append_assoc, ← htake, List.take_append_drop]
  have hdrop : bytes.drop c.utf8Size = more.data.toList ++ bytes.drop 4 := by
    conv => lhs; rw [hbytes]
    rw [← String.length_utf8EncodeChar c, List.drop_left]
  rw [hdrop]
  exact hbytes

theorem toNat_ofNat {n : Nat} (h : n.isValidChar) : (Char.ofNat n).toNat = n := by
  rw [Char.ofNat, dif_pos h]
  rfl

/-- Every byte is the number of a character. -/
theorem toNat_ofNat_byte (b : UInt8) : (Char.ofNat b.toNat).toNat = b.toNat :=
  toNat_ofNat (.inl (Nat.lt_trans b.toNat_lt (by decide)))

/-- A sign of ASCII is one byte. -/
theorem utf8EncodeChar_of_lt {c : Char} (h : c.toNat < 0x80) :
    String.utf8EncodeChar c = [UInt8.ofNat c.toNat] := by
  have hval : c.val.toNat = c.toNat := rfl
  simp only [String.utf8EncodeChar, hval, if_pos (Nat.le_of_lt_succ h)]

/-- A sign of ASCII is a character. -/
theorem isSome_firstChar? {b : UInt8} (h : b.toNat < 0x80) (rest : List UInt8) :
    (firstChar? (b :: rest)).isSome = true := by
  have hbyte : String.utf8EncodeChar (Char.ofNat b.toNat) = [b] := by
    rw [utf8EncodeChar_of_lt (by rwa [toNat_ofNat_byte]), toNat_ofNat_byte, UInt8.ofNat_toNat]
  have hsplit : ByteArray.mk ((b :: rest).take 4).toArray =
      (String.utf8EncodeChar (Char.ofNat b.toNat)).toByteArray ++ ⟨(rest.take 3).toArray⟩ := by
    rw [hbyte]
    apply ByteArray.ext
    simp
  rw [firstChar?, hsplit, ByteArray.utf8DecodeChar?_utf8EncodeChar_append]
  rfl

/-- A byte that belongs to no character is one of what is held. -/
theorem nameBytes_held_cons {b : UInt8} (h : 0x80 ≤ b.toNat) (cs : List Char) :
    nameBytes ('\x00' :: Char.ofNat b.toNat :: cs) = b :: nameBytes cs := by
  have hholds : holdsByte '\x00' (Char.ofNat b.toNat) = true := by
    simp [holdsByte, toNat_ofNat_byte, h, Nat.le_of_lt_succ b.toNat_lt]
  rw [nameBytes, hholds, if_pos rfl, toNat_ofNat_byte, UInt8.ofNat_toNat]

theorem nameBytes_held {bytes : List UInt8} (h : 0 ∉ bytes) : nameBytes (held bytes) = bytes := by
  induction bytes using held.induct with
  | case1 => simp [held, nameBytes]
  | case2 b rest c hfirst ih =>
    have hsplit := eq_of_firstChar? hfirst
    have hsize : (b :: rest).drop c.utf8Size = rest.drop (c.utf8Size - 1) := by
      obtain ⟨n, hn⟩ := Nat.exists_eq_succ_of_ne_zero c.utf8Size_pos.ne'
      rw [hn, List.drop_succ_cons, Nat.succ_sub_one]
    have hne : c ≠ '\x00' := by
      rintro rfl
      exact h (hsplit ▸ List.mem_append_left _ (by decide))
    rw [held, hfirst]
    dsimp only
    rw [nameBytes_cons_of_ne hne, ih fun hmem => h (List.mem_cons_of_mem _ (List.mem_of_mem_drop hmem)),
      ← hsize, ← hsplit]
  | case3 b rest hfirst ih =>
    have hhigh : 0x80 ≤ b.toNat := by
      by_contra hlow
      have := isSome_firstChar? (Nat.lt_of_not_le hlow) rest
      rw [hfirst] at this
      cases this
    rw [held, hfirst]
    dsimp only
    rw [nameBytes_held_cons hhigh, ih fun hmem => h (List.mem_cons_of_mem _ hmem)]

/-- Bytes that are well-formed are those of a text. -/
theorem eq_toUTF8_of_fromUTF8? {bytes : List UInt8} {s : String}
    (h : String.fromUTF8? ⟨bytes.toArray⟩ = some s) : bytes = s.toUTF8.data.toList := by
  rw [String.fromUTF8?] at h
  split at h
  · next hvalid =>
    rw [← Option.some.inj h]
    rfl
  · cases h

theorem isText_of_fromUTF8? {bytes : List UInt8} (h : 0 ∉ bytes) {s : String}
    (hread : String.fromUTF8? ⟨bytes.toArray⟩ = some s) : isText s = true := by
  refine isText_iff.2 fun hzero => h ?_
  rw [eq_toUTF8_of_fromUTF8? hread, toList_toUTF8]
  exact List.mem_flatMap.2 ⟨_, hzero, by decide⟩

/-- Every row of bytes without a zero is that of the name it is held as. -/
theorem nameBytes_ofNameBytes {bytes : List UInt8} (h : 0 ∉ bytes) :
    nameBytes (ofNameBytes bytes).toList = bytes := by
  rw [ofNameBytes]
  split
  · next s hread =>
    rw [nameBytes_of_isText (isText_of_fromUTF8? h hread), ← eq_toUTF8_of_fromUTF8? hread]
  · rw [String.toList_ofList, nameBytes_held h]

/-- The names that are texts are those of well-formed bytes. -/
theorem isText_ofNameBytes_iff {bytes : List UInt8} (h : 0 ∉ bytes) :
    isText (ofNameBytes bytes) = true ↔ (String.fromUTF8? ⟨bytes.toArray⟩).isSome = true := by
  cases hread : String.fromUTF8? ⟨bytes.toArray⟩ with
  | some s => simp [ofNameBytes, hread, isText_of_fromUTF8? h hread]
  | none =>
    refine iff_of_false (fun htext => ?_) Bool.false_ne_true
    -- what is held would be well-formed
    have hbytes := nameBytes_of_isText htext
    rw [nameBytes_ofNameBytes h] at hbytes
    rw [hbytes, Array.toArray_toList] at hread
    exact absurd (hread.symm.trans (fromUTF8?_toUTF8 _)) (by simp)

/-! ### Signs of ASCII -/

/-- A sign of ASCII among the bytes of a name is one of the name. -/
theorem mem_of_mem_nameBytes {cs : List Char} {c : Char} (hc : c.toNat < 0x80)
    (h : UInt8.ofNat c.toNat ∈ nameBytes cs) : c ∈ cs := by
  have hbyte : (UInt8.ofNat c.toNat).toNat = c.toNat := toNat_byte (by omega)
  have hown : ∀ d, UInt8.ofNat c.toNat ∈ String.utf8EncodeChar d → c = d := fun d hd => by
    rw [eq_ofNat_of_mem_utf8EncodeChar hd (by omega), hbyte, Char.ofNat_toNat]
  induction cs using nameBytes.induct with
  | case1 => cases h
  | case2 d => exact List.mem_singleton.2 (hown d h)
  | case3 d e cs hholds ih =>
    rw [nameBytes, if_pos hholds] at h
    rcases List.mem_cons.1 h with heq | h
    · simp only [holdsByte, Bool.and_eq_true, decide_eq_true_eq] at hholds
      have := congrArg UInt8.toNat heq
      rw [hbyte, toNat_byte (by omega)] at this
      omega
    · exact List.mem_cons_of_mem _ (List.mem_cons_of_mem _ (ih h))
  | case4 d e cs hholds ih =>
    rw [nameBytes, if_neg hholds] at h
    rcases List.mem_append.1 h with h | h
    · exact hown d h ▸ List.mem_cons_self
    · exact List.mem_cons_of_mem _ (ih h)

/-- What is owed to a sequence makes a character that is no sign of ASCII. -/
def Owes (owed : Nat) (low : UInt8) (bits : Nat) : Prop :=
  owed ≠ 0 → 0x80 ≤ low.toNat ∧ 0x80 ≤ (64 * bits + (low.toNat - 0x80)) * 64 ^ (owed - 1)

theorem owes_of_leadByte? {b low high : UInt8} {owed bits : Nat}
    (h : leadByte? b = some (owed, low, high, bits)) : owed ≠ 0 ∧ Owes owed low bits := by
  simp only [leadByte?, UInt8.le_iff_toNat_le] at h
  repeat' split at h
  all_goals try
    simp only [Option.some.injEq, Prod.mk.injEq] at h
    obtain ⟨rfl, rfl, -, rfl⟩ := h
    refine ⟨by decide, fun _ => ?_⟩
    simp only [UInt8.reduceToNat, Nat.reduceSub, Nat.reducePow] at *
    omega
  cases h

theorem owes_of_continued {owed bits : Nat} {low b : UInt8} (h : Owes (owed + 2) low bits)
    (hb : low ≤ b) : Owes (owed + 1) 0x80 (64 * bits + (b.toNat - 0x80)) := by
  obtain ⟨-, hleast⟩ := h (Nat.succ_ne_zero _)
  have hbits : 64 * bits + (low.toNat - 0x80) ≤ 64 * bits + (b.toNat - 0x80) :=
    Nat.add_le_add_left (Nat.sub_le_sub_right (UInt8.le_iff_toNat_le.1 hb) _) _
  intro _
  refine ⟨Nat.le_refl _, hleast.trans ?_⟩
  generalize 64 * bits + (b.toNat - 0x80) = more at *
  have hlow : (0x80 : UInt8).toNat - 0x80 = 0 := rfl
  calc (64 * bits + (low.toNat - 0x80)) * 64 ^ (owed + 1)
    _ ≤ more * 64 ^ (owed + 1) := Nat.mul_le_mul_right _ hbits
    _ = (64 * more + ((0x80 : UInt8).toNat - 0x80)) * 64 ^ owed := by
      rw [hlow, Nat.add_zero (64 * more), Nat.pow_succ, Nat.mul_comm 64 more, Nat.mul_comm (64 ^ owed),
        Nat.mul_assoc]

/-- A character made of many bits is no sign of ASCII. -/
theorem ne_ofNat {n : Nat} (hn : 0x80 ≤ n) {c : Char} (hc : c.toNat < 0x80) (hzero : c ≠ '\x00') :
    c ≠ Char.ofNat n := by
  rintro rfl
  by_cases hvalid : n.isValidChar
  · rw [toNat_ofNat hvalid] at hc
    omega
  · exact hzero (by rw [Char.ofNat, dif_neg hvalid]; rfl)

/-- A sign of ASCII that is read from bytes is one of them. -/
theorem mem_of_mem_decodeFrom {bytes : List UInt8} {c : Char} (hc : c.toNat < 0x80)
    (hzero : c ≠ '\x00') {owed bits : Nat} {low high : UInt8} (howes : Owes owed low bits)
    (h : c ∈ decodeFrom owed low high bits bytes) : UInt8.ofNat c.toNat ∈ bytes := by
  have hnone : Owes 0 0 0 := fun h => absurd rfl h
  have hreplacement : c ≠ replacement := by
    rintro rfl
    exact absurd hc (by decide)
  induction bytes generalizing owed low high bits with
  | nil =>
    rw [decodeFrom] at h
    split at h
    · cases h
    · exact absurd (List.mem_singleton.1 h) hreplacement
  | cons b rest ih =>
    have hstart : c ∈ startWith b (fun owed low high bits => decodeFrom owed low high bits rest) →
        UInt8.ofNat c.toNat ∈ b :: rest := by
      intro h
      rw [startWith] at h
      split at h
      · rcases List.mem_cons.1 h with rfl | h
        · rw [toNat_ofNat_byte, UInt8.ofNat_toNat]
          exact List.mem_cons_self
        · exact List.mem_cons_of_mem _ (ih hnone h)
      · split at h
        · next hlead => exact List.mem_cons_of_mem _ (ih (owes_of_leadByte? hlead).2 h)
        · exact List.mem_cons_of_mem _ (ih hnone ((List.mem_cons.1 h).resolve_left hreplacement))
    cases owed with
    | zero => exact hstart (by rwa [decodeFrom] at h)
    | succ owed =>
      rw [decodeFrom] at h
      split at h
      · next hrange =>
        dsimp only at h
        split at h
        · next hlast =>
          subst hlast
          obtain ⟨-, hleast⟩ := howes (Nat.succ_ne_zero _)
          have hbits : 0x80 ≤ 64 * bits + (b.toNat - 0x80) := by
            have := UInt8.le_iff_toNat_le.1 hrange.1
            simp only [Nat.sub_self, Nat.pow_zero, Nat.mul_one] at hleast
            omega
          exact List.mem_cons_of_mem _
            (ih hnone ((List.mem_cons.1 h).resolve_left (ne_ofNat hbits hc hzero)))
        · next hmore =>
          obtain ⟨owed, rfl⟩ := Nat.exists_eq_succ_of_ne_zero hmore
          exact List.mem_cons_of_mem _ (ih (owes_of_continued howes hrange.1) h)
      · exact hstart ((List.mem_cons.1 h).resolve_left hreplacement)

/-- A sign of ASCII is shown only where the name has it. -/
theorem mem_of_mem_shown {name : String} {c : Char} (hc : c.toNat < 0x80) (hzero : c ≠ '\x00')
    (h : c ∈ (shown name).toList) : c ∈ name.toList := by
  rw [shown, String.toList_ofList] at h
  exact mem_of_mem_nameBytes hc (mem_of_mem_decodeFrom hc hzero (fun h => absurd rfl h) h)

/-! ### Names that are texts but for one byte -/

/-- The name that is a text but for one byte, which belongs to no character. -/
def marred (start : String) (b : UInt8) (rest : String) : String :=
  String.ofList (start.toList ++ '\x00' :: Char.ofNat b.toNat :: rest.toList)

section

variable {start rest : String} {b : UInt8}

theorem nameBytes_marred (hstart : isText start = true) (hb : 0x80 ≤ b.toNat)
    (hrest : isText rest = true) :
    nameBytes (marred start b rest).toList =
      start.toList.flatMap String.utf8EncodeChar ++
        b :: rest.toList.flatMap String.utf8EncodeChar := by
  have hzero := isText_iff.1 hstart
  rw [marred, String.toList_ofList]
  generalize start.toList = cs at hzero ⊢
  induction cs with
  | nil =>
    rw [List.nil_append, nameBytes_held_cons hb, nameBytes_eq_flatMap (isText_iff.1 hrest)]
    rfl
  | cons c cs ih =>
    rw [List.mem_cons, not_or] at hzero
    rw [List.cons_append, nameBytes_cons_of_ne (Ne.symm hzero.1), ih hzero.2, List.flatMap_cons,
      List.append_assoc]

/-- A byte that starts no character is read as the replacement. -/
theorem decodeFrom_marred (hb : 0x80 ≤ b.toNat) {bytes : List UInt8}
    (hascii : ∀ d, bytes.head? = some d → d.toNat < 0x80) :
    decodeFrom 0 0 0 0 (b :: bytes) = replacement :: decodeFrom 0 0 0 0 bytes := by
  have hhigh : ¬b < 0x80 := fun h => Nat.not_lt_of_le hb (UInt8.lt_iff_toNat_lt.1 h)
  rw [decodeFrom, startWith, if_neg hhigh]
  cases hlead : leadByte? b with
  | none => rfl
  | some lead =>
    obtain ⟨owed, low, high, bits⟩ := lead
    obtain ⟨howed, howes⟩ := owes_of_leadByte? hlead
    obtain ⟨n, rfl⟩ := Nat.exists_eq_succ_of_ne_zero howed
    cases bytes with
    | nil => simp [decodeFrom]
    | cons d bytes =>
      have hrange : ¬(low ≤ d ∧ d ≤ high) := fun h => Nat.not_lt_of_le
        ((howes howed).1.trans (UInt8.le_iff_toNat_le.1 h.1)) (hascii d rfl)
      dsimp only
      rw [decodeFrom, if_neg hrange, decodeFrom]

/-- A byte that belongs to no character and is not followed by one beyond ASCII is shown as the
replacement, whatever byte it is. -/
theorem shown_marred (hstart : isText start = true) (hb : 0x80 ≤ b.toNat)
    (hrest : isText rest = true) (hascii : ∀ c, rest.toList.head? = some c → c.toNat < 0x80) :
    shown (marred start b rest) = String.ofList (start.toList ++ replacement :: rest.toList) := by
  have hnext : ∀ d, (rest.toList.flatMap String.utf8EncodeChar).head? = some d →
      d.toNat < 0x80 := by
    intro d hd
    cases hchars : rest.toList with
    | nil => simp [hchars] at hd
    | cons c cs =>
      have hc := hascii c (by rw [hchars]; rfl)
      rw [hchars, List.flatMap_cons, utf8EncodeChar_of_lt hc] at hd
      rw [← Option.some.inj hd, toNat_byte (by omega)]
      exact hc
  rw [shown, nameBytes_marred hstart hb hrest, decodeFrom_flatMap, decodeFrom_marred hb hnext,
    decodeFrom_flatMap_nil]

end

/-! ### The order of names -/

/-- A smaller number has a smaller last digit, or a smaller number before it. -/
theorem digits_lt {v w : Nat} (h : v < w) :
    v / 64 < w / 64 ∨ v / 64 = w / 64 ∧ v % 64 < w % 64 := by
  omega

theorem compare_bytes {v w : Nat} (hv : v < 256) (hw : w < 256) (x y : List UInt8) :
    compare (UInt8.ofNat v :: x) (UInt8.ofNat w :: y) = .lt ↔
      v < w ∨ v = w ∧ compare x y = .lt := by
  rw [List.compare_cons_cons, Ordering.then_eq_lt, Std.compare_eq_lt, Std.compare_eq_iff_eq,
    UInt8.lt_iff_toNat_lt, ← UInt8.toNat_inj, toNat_byte hv, toNat_byte hw]

/-- Characters are ordered by their bytes. -/
theorem compare_utf8EncodeChar {c d : Char} (h : c.toNat < d.toNat) (x y : List UInt8) :
    compare (String.utf8EncodeChar c ++ x) (String.utf8EncodeChar d ++ y) = .lt := by
  have hcval : c.val.toNat = c.toNat := rfl
  have hdval : d.val.toNat = d.toNat := rfl
  have hd : d.toNat < 0x110000 := by
    rcases d.valid with h | h
    · exact Nat.lt_trans h (by decide)
    · exact h.2
  simp only [String.utf8EncodeChar, hcval, hdval]
  generalize c.toNat = v at *
  generalize d.toNat = w at *
  -- the digits by 64 of the numbers decide, the first that differ
  have hlow := digits_lt h
  have hmiddle := @digits_lt (v / 64) (w / 64)
  have hhigh := @digits_lt (v / 64 / 64) (w / 64 / 64)
  simp only [Nat.div_div_eq_div_mul, Nat.reduceMul] at hmiddle hhigh
  have hv : v / 262144 % 8 = v / 262144 := Nat.mod_eq_of_lt (by omega)
  have hw : w / 262144 % 8 = w / 262144 := Nat.mod_eq_of_lt (by omega)
  repeat' split
  all_goals
    simp (disch := omega) only [List.cons_append, List.nil_append, compare_bytes, hv, hw]
    omega

theorem compare_flatMap_utf8EncodeChar {cs ds : List Char} (h : cs < ds) :
    compare (cs.flatMap String.utf8EncodeChar) (ds.flatMap String.utf8EncodeChar) = .lt := by
  induction h with
  | @nil d ds =>
    obtain ⟨b, bs, hbytes⟩ := List.exists_cons_of_ne_nil (@String.utf8EncodeChar_ne_nil d)
    rw [List.flatMap_cons, hbytes]
    rfl
  | @rel c cs d ds hlt =>
    rw [List.flatMap_cons, List.flatMap_cons]
    exact compare_utf8EncodeChar hlt _ _
  | cons _ ih =>
    rw [List.flatMap_cons, List.flatMap_cons, List.compare_eq_compareLex,
      Ordered.compareLex_append_left]
    exact ih

theorem compare_nameBytes_of_lt {s t : String} (hs : isText s = true) (ht : isText t = true)
    (h : s < t) : compare (nameBytes s.toList) (nameBytes t.toList) = .lt := by
  rw [nameBytes_eq_flatMap (isText_iff.1 hs), nameBytes_eq_flatMap (isText_iff.1 ht)]
  exact compare_flatMap_utf8EncodeChar (String.lt_iff_toList_lt.1 h)

/-- Names that are texts are ordered by their bytes as the texts are. -/
theorem compare_nameBytes {s t : String} (hs : isText s = true) (ht : isText t = true) :
    compare (nameBytes s.toList) (nameBytes t.toList) = compare s t := by
  rcases lt_trichotomy s t with h | rfl | h
  · rw [compare_nameBytes_of_lt hs ht h, compare_lt_iff_lt.2 h]
  · rw [Std.ReflOrd.compare_self, Std.ReflOrd.compare_self]
  · rw [Std.OrientedOrd.eq_swap, compare_nameBytes_of_lt ht hs h, compare_gt_iff_gt.2 h]
    rfl

end Grove.Text
