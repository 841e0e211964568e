/-!
# Blanks

The characters that separate words, and the functions that strip them from text and count what is
between them. A blank is any character with the Unicode property `White_Space`; text is a list of
characters. Main statements: what stripping leaves as it is (`stripBoth_eq_self_iff`), and what it takes
away (`stripBoth_append`).
-/

namespace Grove.Text

/-- A character with the property `White_Space`. -/
def isBlank (c : Char) : Bool :=
  ('\t' ≤ c && c ≤ '\r') || c == ' ' || c == '\u0085' || c == '\u00a0' || c == '\u1680' ||
    ('\u2000' ≤ c && c ≤ '\u200a') || c == '\u2028' || c == '\u2029' || c == '\u202f' ||
    c == '\u205f' || c == '\u3000'

/-- Drops the last characters that satisfy `p`. -/
def dropEndWhile (p : Char → Bool) (cs : List Char) : List Char :=
  (cs.reverse.dropWhile p).reverse

/-- Strips the characters that satisfy `p` from both ends. -/
def stripBoth (p : Char → Bool) (cs : List Char) : List Char :=
  dropEndWhile p (cs.dropWhile p)

/-- Strips blanks from both ends. -/
def strip (cs : List Char) : List Char :=
  stripBoth isBlank cs

/-- Strips blanks from both ends of a string. -/
def stripped (s : String) : String :=
  String.ofList (strip s.toList)

/-- The maximal blank-free runs of the text, `inside` telling whether the run before it goes on. -/
def countRuns : Bool → List Char → Nat
  | _, [] => 0
  | inside, c :: rest =>
    if isBlank c then countRuns false rest
    else if inside then countRuns true rest
    else countRuns true rest + 1

/-- How many words the text holds. -/
def wordCount (cs : List Char) : Nat :=
  countRuns false cs

@[simp] theorem wordCount_nil : wordCount [] = 0 := rfl

/-- Stripping changes nothing exactly where neither end has anything to strip. -/
theorem stripBoth_eq_self_iff {p : Char → Bool} {cs : List Char} :
    stripBoth p cs = cs ↔
      (∀ c, cs.head? = some c → p c = false) ∧ ∀ c, cs.getLast? = some c → p c = false := by
  have hdrop : ∀ ds : List Char, ds.dropWhile p = ds ↔ ∀ c, ds.head? = some c → p c = false := by
    intro ds
    cases ds with
    | nil => simp
    | cons d ds =>
      by_cases hd : p d = true
      · have hlength := (List.dropWhile_suffix p (l := ds)).length_le
        refine iff_of_false (fun h => ?_) (by simp [hd])
        have := congrArg List.length h
        simp only [List.dropWhile_cons, hd, if_true, List.length_cons] at this
        omega
      · simp [hd]
  have hend : dropEndWhile p cs = cs ↔ ∀ c, cs.getLast? = some c → p c = false := by
    rw [dropEndWhile, List.reverse_eq_iff, hdrop, List.head?_reverse]
  constructor
  · intro h
    have hstart : cs.dropWhile p = cs := by
      refine (List.dropWhile_suffix p).eq_of_length_le ?_
      have hlength := (List.dropWhile_suffix p (l := (cs.dropWhile p).reverse)).length_le
      have := congrArg List.length h
      simp only [stripBoth, dropEndWhile, List.length_reverse] at this hlength
      omega
    rw [stripBoth, hstart] at h
    exact ⟨(hdrop cs).1 hstart, hend.1 h⟩
  · rintro ⟨hstart, hlast⟩
    rw [stripBoth, (hdrop cs).2 hstart, hend.2 hlast]

/-- What is stripped from both ends may be put there before. -/
theorem stripBoth_append {p : Char → Bool} {left text right : List Char}
    (hleft : left.all p = true) (hright : right.all p = true) (htext : stripBoth p text = text) :
    stripBoth p (left ++ (text ++ right)) = text := by
  rw [List.all_eq_true] at hleft hright
  have hright' : ∀ c ∈ right.reverse, p c = true := fun c hc => hright c (List.mem_reverse.1 hc)
  obtain ⟨hstart, -⟩ := stripBoth_eq_self_iff.1 htext
  rw [stripBoth, List.dropWhile_append_of_pos hleft]
  cases text with
  | nil =>
    have hnil : right.dropWhile p = [] := by
      have happend := @List.dropWhile_append_of_pos _ p right [] hright
      rwa [List.append_nil] at happend
    rw [List.nil_append, hnil]
    rfl
  | cons c text =>
    have hc : ¬p c = true := by simp [hstart c rfl]
    rw [stripBoth, List.dropWhile_cons_of_neg hc] at htext
    rw [List.cons_append, List.dropWhile_cons_of_neg hc, ← List.cons_append, dropEndWhile,
      List.reverse_append, List.dropWhile_append_of_pos hright']
    exact htext

end Grove.Text
