import Mathlib.Data.List.TakeWhile
import Grove.Git.Local
import Grove.Proofs.BranchNames
import Grove.Workflow.Merge

/-!
# Names of tags

A merged branch is tagged with the last component of its name. The rules for the name of a branch
hold of its last component if they hold of the whole, but for two that look at the whole name alone:
that it does not start with a dash, and that it is not a lone `@`. So a branch `x` below `feature` is
accepted whatever `x` starts with, and where that is a dash git takes the tag for an option.

## What is proved

* `cutLast_append`, `cutLast_of_notMem` — what the last separator cuts off.
* `toList_tagName` — the tag of a name without empty components is its last component.
* `IsLastComponent.followsRules_iff` — the rules that a last component takes over from its name.
* `tag_accepted_iff` — the tag of an accepted name, and when it is accepted itself.
-/

namespace Grove

namespace Text

variable {sep : Char}

theorem cutLast_of_notMem {cs : List Char} (h : sep ∉ cs) : cutLast sep cs = none := by
  have hdrop : cs.reverse.dropWhile (· != sep) = [] := by
    rw [List.dropWhile_eq_nil_iff]
    intro c hc
    rw [bne_iff_ne]
    rintro rfl
    exact h (List.mem_reverse.1 hc)
  simp [cutLast, hdrop]

/-- The cut is at the last separator. -/
theorem cutLast_append {after : List Char} (before : List Char) (h : sep ∉ after) :
    cutLast sep (before ++ sep :: after) = some (before, after) := by
  have hkept : ∀ c ∈ after.reverse, (c != sep) = true := by
    intro c hc
    rw [bne_iff_ne]
    rintro rfl
    exact h (List.mem_reverse.1 hc)
  have hreverse : (before ++ sep :: after).reverse = after.reverse ++ sep :: before.reverse := by
    simp
  rw [cutLast, hreverse, List.dropWhile_append_of_pos hkept, List.takeWhile_append_of_pos hkept]
  simp

end Text

namespace Git

/-! ### Last components -/

/-- A text is the last component of a name: what follows the last slash of it, or all of it where it
has none. -/
def IsLastComponent (last name : List Char) : Prop :=
  '/' ∉ last ∧ (name = last ∨ ∃ before, name = before ++ '/' :: last)

theorem exists_lastComponent (name : List Char) : ∃ last, IsLastComponent last name := by
  by_cases h : '/' ∈ name
  · obtain ⟨after, before, hname, hafter⟩ :=
      List.eq_append_cons_of_mem (List.mem_reverse.2 h)
    refine ⟨after.reverse, by simpa using hafter, .inr ⟨before.reverse, ?_⟩⟩
    simpa using congrArg List.reverse hname
  · exact ⟨name, h, .inl rfl⟩

namespace IsLastComponent

variable {last name : List Char} (h : IsLastComponent last name)

include h

theorem suffix : last <:+ name := by
  obtain ⟨-, rfl | ⟨before, rfl⟩⟩ := h
  · exact List.suffix_rfl
  · exact ⟨before ++ ['/'], by simp⟩

/-- The last component is one of the components. -/
theorem mem_splitOn : last ∈ name.splitOn '/' := by
  obtain ⟨hslash, rfl | ⟨before, rfl⟩⟩ := h
  · rw [List.splitOn_eq_singleton hslash]
    exact List.mem_singleton_self _
  · rw [List.splitOn_append_cons_self, List.splitOn_eq_singleton hslash]
    simp

/-- The tag of a name without empty components is its last component. -/
theorem toList_tagName (hparts : ∀ part ∈ name.splitOn '/', part ≠ []) :
    (tagName (String.ofList name)).toList = last := by
  obtain ⟨hslash, rfl | ⟨before, rfl⟩⟩ := h
  · simp [tagName, Text.cutLast_of_notMem hslash]
  · rw [List.splitOn_append_cons_self, List.splitOn_eq_singleton hslash] at hparts
    have hlast : last ≠ [] := hparts last (by simp)
    have hbefore : before ≠ [] := by
      rintro rfl
      exact hparts [] (by simp) rfl
    simp [tagName, Text.cutLast_append before hslash, hbefore, hlast]

/-- A last component follows the rules that its name follows, if it follows the two that are about
the whole name. -/
theorem followsRules_iff (hname : FollowsRules name) :
    FollowsRules last ↔ last.head? ≠ some '-' ∧ last ≠ ['@'] := by
  refine ⟨fun hlast => ⟨hlast.dash, hlast.ne_at⟩, fun ⟨hdash, hat⟩ => ?_⟩
  obtain ⟨hne, hhidden⟩ := hname.components last h.mem_splitOn
  exact {
    ne_nil := hne
    dash := hdash
    ne_at := hat
    dots := fun hdots => hname.dots (hdots.trans h.suffix.isInfix)
    brace := fun hbrace => hname.brace (hbrace.trans h.suffix.isInfix)
    reserved := fun c hc => hname.reserved c (h.suffix.subset hc)
    endDot := fun hdot => hname.endDot (hdot.trans h.suffix)
    components := by
      rw [List.splitOn_eq_singleton h.1]
      simpa using ⟨hne, hhidden⟩ }

end IsLastComponent

end Git

/-! ### Tags of accepted names -/

/-- The tag that a plan makes is named after the branch that it merges and replaces one of the
name. -/
theorem MergePlan.tag_mem_steps_iff {p : MergePlan} {flags : MergeFlags} {tag : String}
    {force : Bool} : .perform (.change (.tag tag force)) ∈ p.steps flags ↔
      flags.tag = true ∧ tag = Git.tagName p.source.name ∧ force = true := by
  have hcheckOut : ∀ t, .perform (.change (.tag tag force)) ∉ p.checkOut t := by
    intro t
    rw [checkOut]
    split <;> simp
  have hpushing : ∀ t, .perform (.change (.tag tag force)) ∉ p.pushing t := by
    intro t
    rw [pushing]
    split <;> simp
  have hsecond : ∀ t, .perform (.change (.tag tag force)) ∉ p.secondSteps flags t := by
    intro t
    cases hpush : flags.push <;> simp [secondSteps, hpush, hcheckOut, hpushing]
  have hmain : .perform (.change (.tag tag force)) ∈ p.mainSteps flags ↔
      flags.tag = true ∧ tag = Git.tagName p.source.name ∧ force = true := by
    cases htag : flags.tag <;> cases hdelete : flags.deleteMerged <;> cases hpush : flags.push <;>
      simp [mainSteps, htag, hdelete, hpush, hcheckOut, hpushing]
  cases halso : p.also? with
  | none => simpa [steps, halso] using hmain
  | some t => simpa [steps, halso, hsecond] using hmain

namespace Git

/-- A word of a command that git takes for an option. -/
def ReadsAsOption (word : String) : Prop :=
  word.toList.head? = some '-'

instance (word : String) : Decidable (ReadsAsOption word) :=
  inferInstanceAs (Decidable (_ = _))

/-- **The tag of an accepted name is its last component, which may be no accepted name.** It is there
and has no slash, and it is accepted exactly if it does not read as an option and is not a lone `@`.
The commands by which a merge of the branch tags a checkout name this tag as their only word besides
`tag -f`, and there is one if tags are asked for. -/
theorem tag_accepted_iff (option name : String) (h : checkName option name = .ok ()) :
    tagName name ≠ "" ∧ IsLastComponent (tagName name).toList name.toList ∧
    (∀ option', checkName option' (tagName name) = .ok () ↔
      ¬ReadsAsOption (tagName name) ∧ tagName name ≠ "@") ∧
    ∀ (p : MergePlan) (flags : MergeFlags), p.source.name = name →
      (flags.tag = true → .perform (.change (.tag (tagName name) true)) ∈ p.steps flags) ∧
      ∀ m, .perform (.change m) ∈ p.steps flags → m.words.head? = some "tag" →
        m.words = ["tag", "-f", tagName name] := by
  obtain ⟨hrules, hlock, hchars⟩ := nameFault?_eq_none_iff.1 (checkName_eq_ok_iff.1 h)
  obtain ⟨last, hlast⟩ := exists_lastComponent name.toList
  have htag : (tagName name).toList = last := by
    simpa using hlast.toList_tagName fun part hpart => (hrules.components part hpart).1
  rw [← htag] at hlast
  refine ⟨?_, hlast, fun option' => ?_, ?_⟩
  · intro hempty
    exact (hrules.components _ hlast.mem_splitOn).1 (by simp [hempty])
  · have hat : tagName name = "@" ↔ (tagName name).toList = ['@'] := by
      rw [← String.toList_inj]
      rfl
    rw [checkName_eq_ok_iff, nameFault?_eq_none_iff, hlast.followsRules_iff hrules, ReadsAsOption,
      ne_eq (tagName name), hat]
    exact ⟨fun hok => hok.1, fun hok => ⟨hok, fun hend => hlock (hend.trans hlast.suffix),
      fun c hc => hchars c (hlast.suffix.subset hc)⟩⟩
  · rintro p flags rfl
    refine ⟨fun hflag => MergePlan.tag_mem_steps_iff.2 ⟨hflag, rfl, rfl⟩, fun m hm hword => ?_⟩
    cases m with
    | tag tag force =>
      obtain ⟨-, rfl, rfl⟩ := MergePlan.tag_mem_steps_iff.1 hm
      rfl
    | create branch start? => cases start? <;> simp [Mutation.words] at hword
    | switchTo | merge | delete | push | pushNew | addAll | commit => simp [Mutation.words] at hword

/-- The tag of a branch of two components is accepted. -/
theorem tag_accepted_login : checkName "from" "feature/login" = .ok () ∧
    tagName "feature/login" = "login" ∧ checkName "from" "login" = .ok () := by
  have hok : checkName "from" "feature/login" = .ok () := by decide +kernel
  have htag : tagName "feature/login" = "login" := by decide +kernel
  refine ⟨hok, htag, ?_⟩
  rw [← htag]
  exact ((tag_accepted_iff "from" "feature/login" hok).2.2.1 "from").2 (by decide +kernel)

/-- A branch whose last component starts with a dash is accepted, and git takes its tag for an
option. -/
theorem tag_reads_as_option : checkName "from" "feature/-x" = .ok () ∧
    checkName "from" (tagName "feature/-x") ≠ .ok () ∧ ReadsAsOption (tagName "feature/-x") ∧
    (Mutation.tag (tagName "feature/-x") true).words = ["tag", "-f", "-x"] := by
  decide +kernel

end Git

end Grove
