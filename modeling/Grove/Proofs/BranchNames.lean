import Mathlib.Data.List.Infix
import Grove.Git.Name

/-!
# Names that are accepted

Git has rules of its own for the name of a branch. They are told here apart from the checks, as what
a name may hold and what its components between slashes may be, and compared with what the checks
let through.

All rules but one are checked as git has them. That no component may end like a lock file is checked
of the whole name, so only of its last component: `feature.lock/login` is let through. Beyond the
rules the checks turn away blanks and control characters of every kind.

## What is proved

* `nameFault?_eq_none_iff` — the names without a fault.
* `suffix_getLast_splitOn` — the end of a name is that of its last component.
* `accepted_iff` — the names that are accepted, and which of them follow all of git's rules.
-/

namespace Grove

namespace Text

/-- A text holds a pattern where the pattern stands somewhere in it. -/
theorem holds_iff {pattern cs : List Char} : holds pattern cs = true ↔ pattern <:+: cs := by
  rw [holds]
  induction cs with
  | nil =>
    rw [cut]
    split
    · next h => simp [h]
    · next h => simpa using h
  | cons c cs ih =>
    rw [cut, List.infix_cons_iff]
    cases hdrop : dropStart? pattern (c :: cs) with
    | some rest =>
      rw [append_of_dropStart hdrop]
      simp
    | none =>
      have hstart : ¬pattern <+: c :: cs := by
        rintro ⟨rest, hrest⟩
        rw [← hrest, dropStart?_append] at hdrop
        exact absurd hdrop (by simp)
      simp [hstart, ih]

variable {sep : Char} {ending : List Char} (h : sep ∉ ending)

include h

/-- A text without the separator stands behind the last separator if it stands at the end. -/
theorem suffix_append_cons_iff {before after : List Char} :
    ending <:+ before ++ sep :: after ↔ ending <:+ after := by
  refine ⟨fun hend => ?_, fun hend => hend.trans ⟨before ++ [sep], by simp⟩⟩
  rcases List.suffix_or_suffix_of_suffix hend (List.suffix_append before (sep :: after)) with
    hin | hin
  · rcases List.suffix_cons_iff.1 hin with rfl | hin
    · exact absurd List.mem_cons_self h
    · exact hin
  · exact absurd (hin.subset List.mem_cons_self) h

theorem suffix_intercalate_iff {parts : List (List Char)} (hne : parts ≠ []) :
    ending <:+ [sep].intercalate parts ↔ ending <:+ parts.getLast hne := by
  induction parts with
  | nil => exact absurd rfl hne
  | cons part rest ih =>
    cases rest with
    | nil => simp
    | cons next rest =>
      rw [List.intercalate_cons_cons, List.append_assoc, List.singleton_append,
        suffix_append_cons_iff h, ih (by simp), List.getLast_cons (List.cons_ne_nil _ _)]

/-- A text without the separator stands at the end if it stands at the end of the last piece. -/
theorem suffix_getLast_splitOn (cs : List Char) :
    ending <:+ (cs.splitOn sep).getLast (List.splitOn_ne_nil sep cs) ↔ ending <:+ cs := by
  rw [← suffix_intercalate_iff h, List.intercalate_splitOn]

end Text

namespace Git

/-! ### Git's rules -/

/-- A character that git allows in no name: a space, a control character of ASCII, or one with a
meaning of its own. -/
def IsReserved (c : Char) : Prop :=
  c < ' ' ∨ c = '\x7f' ∨ c ∈ " ~^:?*[\\".toList

/-- How the name of a lock file ends. -/
def lockEnding : List Char := ".lock".toList

/-- Git's rules for the name of a branch, but for the one on lock files. -/
structure FollowsRules (name : List Char) : Prop where
  /-- There is a name. -/
  ne_nil : name ≠ []
  /-- It does not read as an option. -/
  dash : name.head? ≠ some '-'
  /-- It is not the short name of what is checked out. -/
  ne_at : name ≠ ['@']
  /-- It holds no range. -/
  dots : ¬"..".toList <:+: name
  /-- It holds no step through a log. -/
  brace : ¬['@', '\x7b'] <:+: name
  /-- None of its characters is reserved. -/
  reserved : ∀ c ∈ name, ¬IsReserved c
  /-- It does not end in a dot. -/
  endDot : ¬['.'] <:+ name
  /-- Every component is there and is not hidden. -/
  components : ∀ part ∈ name.splitOn '/', part ≠ [] ∧ part.head? ≠ some '.'

/-- A name that git takes for a branch. -/
structure IsBranchName (name : List Char) : Prop extends FollowsRules name where
  /-- No component ends like a lock file. -/
  lock : ∀ part ∈ name.splitOn '/', ¬lockEnding <:+ part

/-! ### What is checked -/

theorem endsWith_iff {ending name : List Char} : endsWith ending name = true ↔ ending <:+ name := by
  rw [endsWith, List.isPrefixOf_iff_prefix, List.reverse_prefix]

/-- A character is forbidden if it is reserved, a blank or a control character. -/
theorem isForbidden_eq_false_iff {c : Char} :
    isForbidden c = false ↔ ¬IsReserved c ∧ isControl c = false ∧ Text.isBlank c = false := by
  rw [isForbidden, Bool.or_eq_false_iff, Bool.or_eq_false_iff]
  constructor
  · rintro ⟨⟨hcontrol, hblank⟩, hmarks⟩
    refine ⟨?_, hcontrol, hblank⟩
    rintro (hlow | rfl | hmark)
    · simp [isControl, hlow] at hcontrol
    · exact absurd hcontrol (by decide)
    · rcases List.mem_cons.1 hmark with rfl | hmark
      · exact absurd hblank (by decide)
      · rw [List.contains_eq_mem, decide_eq_false_iff_not] at hmarks
        exact hmarks hmark
  · rintro ⟨hreserved, hcontrol, hblank⟩
    refine ⟨⟨hcontrol, hblank⟩, ?_⟩
    rw [List.contains_eq_mem, decide_eq_false_iff_not]
    exact fun hmark => hreserved (.inr (.inr (List.mem_cons_of_mem _ hmark)))

/-- The names without a fault. -/
theorem nameFault?_eq_none_iff {name : List Char} :
    nameFault? name = none ↔ FollowsRules name ∧ ¬lockEnding <:+ name ∧
      ∀ c ∈ name, isControl c = false ∧ Text.isBlank c = false := by
  have hchecks : nameFault? name = none ↔
      name ≠ [] ∧ name.head? ≠ some '-' ∧ (∀ part ∈ name.splitOn '/', part ≠ []) ∧
        (¬['.'] <:+ name ∧ ¬lockEnding <:+ name) ∧
        (¬"..".toList <:+: name ∧ ¬['@', '\x7b'] <:+: name ∧ name ≠ ['@']) ∧
        (∀ part ∈ name.splitOn '/', part.head? ≠ some '.') ∧
        ∀ c ∈ name, isForbidden c = false := by
    simp only [nameFault?, endsWith_iff, Text.holds_iff, List.any_eq_true, ite_eq_iff, reduceCtorEq,
      and_false, false_or, not_or, not_exists, not_and, List.isEmpty_iff, decide_eq_true_eq,
      Bool.not_eq_true, and_true, ne_eq, lockEnding]
  rw [hchecks]
  constructor
  · rintro ⟨hnil, hdash, hparts, ⟨hdot, hlock⟩, ⟨hdots, hbrace, hat⟩, hhidden, hchars⟩
    have hchars := fun c hc => isForbidden_eq_false_iff.1 (hchars c hc)
    exact ⟨⟨hnil, hdash, hat, hdots, hbrace, fun c hc => (hchars c hc).1, hdot,
      fun part hpart => ⟨hparts part hpart, hhidden part hpart⟩⟩, hlock,
      fun c hc => (hchars c hc).2⟩
  · rintro ⟨hrules, hlock, hchars⟩
    exact ⟨hrules.ne_nil, hrules.dash, fun part hpart => (hrules.components part hpart).1,
      ⟨hrules.endDot, hlock⟩, ⟨hrules.dots, hrules.brace, hrules.ne_at⟩,
      fun part hpart => (hrules.components part hpart).2,
      fun c hc => isForbidden_eq_false_iff.2 ⟨hrules.reserved c hc, hchars c hc⟩⟩

/-! ### What is accepted -/

theorem checkName_eq_ok_iff {option name : String} :
    checkName option name = .ok () ↔ nameFault? name.toList = none := by
  rw [checkName]
  cases nameFault? name.toList <;> simp

/-- A name that does not end like a lock file has a component that does only before the last. -/
theorem forall_components_iff {name : List Char} (hend : ¬lockEnding <:+ name) :
    (∀ part ∈ name.splitOn '/', ¬lockEnding <:+ part) ↔
      ∀ part ∈ (name.splitOn '/').dropLast, ¬lockEnding <:+ part := by
  have hlast : ¬lockEnding <:+ (name.splitOn '/').getLast (List.splitOn_ne_nil '/' name) :=
    fun h => hend ((Text.suffix_getLast_splitOn (by decide) name).1 h)
  constructor
  · exact fun h part hpart => h part (List.mem_of_mem_dropLast hpart)
  · intro h part hpart
    rw [← List.dropLast_append_getLast (List.splitOn_ne_nil '/' name), List.mem_append,
      List.mem_singleton] at hpart
    rcases hpart with hpart | rfl
    · exact h part hpart
    · exact hlast

/-- **Accepted names follow git's rules, but for one.** A name is accepted exactly if it follows the
rules for a branch other than that on lock files, does not itself end like a lock file, and holds no
blank and no control character of any kind. An accepted name is one that git takes for a branch
exactly if no component before its last ends like a lock file. -/
theorem accepted_iff (option name : String) :
    (checkName option name = .ok () ↔ FollowsRules name.toList ∧ ¬lockEnding <:+ name.toList ∧
      ∀ c ∈ name.toList, isControl c = false ∧ Text.isBlank c = false) ∧
    (checkName option name = .ok () → (IsBranchName name.toList ↔
      ∀ part ∈ (name.toList.splitOn '/').dropLast, ¬lockEnding <:+ part)) := by
  rw [checkName_eq_ok_iff, nameFault?_eq_none_iff]
  refine ⟨.rfl, fun ⟨hrules, hend, _⟩ => ?_⟩
  rw [← forall_components_iff hend]
  exact ⟨fun h => h.lock, fun h => ⟨hrules, h⟩⟩

/-- A name of two components is accepted, and git takes it for a branch. -/
theorem accepted_login :
    checkName "into" "feature/login" = .ok () ∧ IsBranchName "feature/login".toList := by
  have hok : checkName "into" "feature/login" = .ok () := by decide +kernel
  exact ⟨hok, ((accepted_iff "into" "feature/login").2 hok).2 (by decide +kernel)⟩

/-- A name whose first component ends like a lock file is accepted, and git does not take it for a
branch. -/
theorem accepted_locked :
    checkName "into" "feature.lock/login" = .ok () ∧ ¬IsBranchName "feature.lock/login".toList := by
  refine ⟨by decide +kernel, fun h => ?_⟩
  exact h.lock "feature.lock".toList (by decide +kernel) (by decide +kernel)

end Git

end Grove
