import Mathlib.Data.List.Induction
import Grove.Versions
import Grove.Proofs.Assignment

/-!
# Pending changes over a run

Whoever moves versions until nothing changes any more relies on what each call answers and on the
flag. Over any run of calls, from nothing pending, a call that records or takes back tells exactly
whether what is pending became different, and the flag tells exactly whether some call since it was
last read did so or raised it outright. A change that is undone by a later call was a change all the
same.

## What is proved

* `get?_of_settles`, `get?_of_spares`, `raised_call` — what one call makes of what is pending and of
  the flag.
* `get?_after`, `raised_after` — what is pending and how the flag stands after a run.
* `changes_tracked` — what is pending, the answers and the flag after any run.
-/

namespace Grove

/-! ### The last of a list that matters -/

/-- An element of the list, seen with those before it, is as described by `P`, and all that come
after it are as described by `Q`. -/
def Since {α : Type} (P : List α → α → Prop) (Q : α → Prop) (l : List α) : Prop :=
  ∃ before x later, l = before ++ x :: later ∧ P before x ∧ ∀ y ∈ later, Q y

section

variable {α : Type} {P : List α → α → Prop} {Q : α → Prop}

theorem not_since_nil : ¬Since P Q [] := by
  rintro ⟨before, x, later, h, -⟩
  simp at h

/-- The last element is the one that matters, or else one before it is and the last does not. -/
theorem since_concat {l : List α} {a : α} : Since P Q (l ++ [a]) ↔ P l a ∨ (Q a ∧ Since P Q l) := by
  constructor
  · rintro ⟨before, x, later, h, hP, hQ⟩
    rcases List.eq_nil_or_concat' later with rfl | ⟨later, b, rfl⟩
    · obtain ⟨rfl, rfl⟩ := List.append_singleton_inj.1 h
      exact .inl hP
    · rw [← List.cons_append, ← List.append_assoc] at h
      obtain ⟨rfl, rfl⟩ := List.append_singleton_inj.1 h
      exact .inr ⟨hQ a (by simp), before, x, later, rfl, hP,
        fun y hy => hQ y (List.mem_append_left _ hy)⟩
  · rintro (hP | ⟨ha, before, x, later, rfl, hP, hQ⟩)
    · exact ⟨l, a, [], rfl, hP, by simp⟩
    · refine ⟨before, x, later ++ [a], by simp, hP, fun y hy => ?_⟩
      rcases List.mem_append.1 hy with hy | hy
      · exact hQ y hy
      · rwa [List.mem_singleton.1 hy]

end

/-! ### Keys without one -/

theorem Ordered.increasing_keys_erase {α β : Type} {cmp : α → α → Ordering} (k : α)
    {map : List (α × β)} (h : Increasing cmp (map.map (·.1))) :
    Increasing cmp ((erase cmp k map).map (·.1)) :=
  h.sublist (List.filter_sublist.map _)

namespace PendingVersions

/-! ### One call -/

/-- Whose changes a call records or takes back. -/
def Call.owner? : Call → Option VersionOwner
  | .change owner _ _ => some owner
  | .remove owner _ => some owner
  | .hasChanges | .mark | .or _ => Option.none

/-- A call settles what is pending for a project: a change that it records, or none. -/
inductive Call.Settles (owner : VersionOwner) (pom : Pom) : Option VersionChange → Call → Prop
  /-- The change is recorded. -/
  | change {pom' : Pom} (h : pom.order pom' = .eq) (c : VersionChange) :
      Settles owner pom (some c) (.change owner pom' c)
  /-- The change is taken back. -/
  | remove {pom' : Pom} (h : pom.order pom' = .eq) :
      Settles owner pom Option.none (.remove owner pom')

/-- A call leaves what is pending for a project as it is. -/
def Call.Spares (owner : VersionOwner) (pom : Pom) (call : Call) : Prop :=
  ∀ c?, ¬call.Settles owner pom c?

section

variable {v : PendingVersions} {call : Call} {owner : VersionOwner}

/-- A call writes or removes what is under its project, and does nothing else to what is pending. -/
theorem of_call :
    (v.call call).2.of owner =
      match call with
      | .change owner' pom c =>
        if owner' = owner then Ordered.put Pom.order pom c (v.of owner) else v.of owner
      | .remove owner' pom =>
        if owner' = owner then Ordered.erase Pom.order pom (v.of owner) else v.of owner
      | _ => v.of owner := by
  cases call with
  | change owner' pom c => cases owner' <;> cases owner <;> rfl
  | remove owner' pom => cases owner' <;> cases owner <;> rfl
  | hasChanges | mark | or _ => cases owner <;> rfl

theorem of_call_of_ne (h : call.owner? ≠ some owner) : (v.call call).2.of owner = v.of owner := by
  rw [of_call]
  cases call with
  | change owner' pom c => exact if_neg fun heq => h (congrArg some heq)
  | remove owner' pom => exact if_neg fun heq => h (congrArg some heq)
  | hasChanges | mark | or _ => rfl

/-- A call keeps every project listed once, in order. -/
theorem increasing_call (h : Ordered.Increasing Pom.order ((v.of owner).map (·.1))) :
    Ordered.Increasing Pom.order (((v.call call).2.of owner).map (·.1)) := by
  by_cases howner : call.owner? = some owner
  · rw [of_call]
    cases call with
    | change owner' pom c =>
      obtain rfl := Option.some.inj howner
      simp only [if_true]
      exact Ordered.increasing_keys_put _ pom c h
    | remove owner' pom =>
      obtain rfl := Option.some.inj howner
      simp only [if_true]
      exact Ordered.increasing_keys_erase pom h
    | hasChanges | mark | or _ => exact h
  · rwa [of_call_of_ne howner]

variable {pom : Pom}

theorem get?_of_settles {c? : Option VersionChange} (h : call.Settles owner pom c?) :
    (v.call call).2.get? owner pom = c? := by
  cases h with
  | change heq c =>
    rw [get?, of_call, Ordered.get?_congr _ heq]
    simp only [if_true, Ordered.get?_put_self]
  | remove heq =>
    rw [get?, of_call]
    simp only [if_true, Ordered.get?_erase, heq]

theorem get?_of_spares (h : call.Spares owner pom) :
    (v.call call).2.get? owner pom = v.get? owner pom := by
  by_cases howner : call.owner? = some owner
  · rw [get?, of_call, get?]
    cases call with
    | change owner' pom' c =>
      obtain rfl := Option.some.inj howner
      simp only [if_true]
      exact Ordered.get?_put_of_ne _ (fun heq => h _ (.change heq c)) _ _
    | remove owner' pom' =>
      obtain rfl := Option.some.inj howner
      simp only [if_true, Ordered.get?_erase]
      exact if_neg fun heq => h _ (.remove heq)
    | hasChanges | mark | or _ => rfl
  · rw [get?, of_call_of_ne howner, get?]

/-- A call that records or takes back settles one project, and answers whether that differs from
what was pending for it. -/
theorem exists_settles (h : call.owner? = some owner) :
    ∃ pom c?, call.Settles owner pom c? ∧ (v.call call).1 = some (v.get? owner pom != c?) ∧
      ∀ other, other.order pom ≠ .eq → call.Spares owner other := by
  cases call with
  | change owner' pom c =>
    obtain rfl := Option.some.inj h
    refine ⟨pom, some c, .change Std.ReflCmp.compare_self c, rfl, fun other hne c? hsettles => ?_⟩
    cases hsettles with
    | change heq _ => exact hne heq
  | remove owner' pom =>
    obtain rfl := Option.some.inj h
    refine ⟨pom, Option.none, .remove Std.ReflCmp.compare_self, ?_, fun other hne c? hsettles => ?_⟩
    · show some (v.get? owner' pom).isSome = _
      cases v.get? owner' pom <;> rfl
    · cases hsettles with
      | remove heq => exact hne heq
  | hasChanges | mark | or _ => cases h

/-- A call that records or takes back answers whether what is pending became different. -/
theorem answer_call (h : call.owner? = some owner) :
    ∃ changed, (v.call call).1 = some changed ∧
      (changed = true ↔ ∃ pom, (v.call call).2.get? owner pom ≠ v.get? owner pom) := by
  obtain ⟨pom, c?, hsettles, hanswer, hspares⟩ := exists_settles (v := v) h
  refine ⟨_, hanswer, ?_⟩
  rw [bne_iff_ne]
  constructor
  · intro hne
    exact ⟨pom, by rw [get?_of_settles hsettles]; exact hne.symm⟩
  · rintro ⟨other, hother⟩ hsame
    by_cases heq : other.order pom = .eq
    · -- a look-up does not tell the two projects apart, neither before the call nor after it
      rw [get?, Ordered.get?_congr _ heq, ← get?, get?_of_settles hsettles, get?,
        Ordered.get?_congr _ heq] at hother
      exact hother hsame.symm
    · exact hother (get?_of_spares (hspares other heq))

end

/-! ### The flag -/

/-- A call tells of a change, or raises the flag outright. -/
def Raises (v : PendingVersions) (call : Call) : Prop :=
  (call.owner?.isSome = true ∧ (v.call call).1 = some true) ∨ call = .mark ∨ call = .or true

/-- The flag is raised after a call if the call raises it, or does not read it and found it raised. -/
theorem raised_call {v : PendingVersions} {call : Call} :
    (v.call call).2.flag.raised = true ↔
      v.Raises call ∨ (call ≠ .hasChanges ∧ v.flag.raised = true) := by
  cases call with
  | change owner pom c =>
    have hflag : (v.call (.change owner pom c)).2.flag.raised =
        (v.flag.raised || (v.get? owner pom != some c)) := by cases owner <;> rfl
    have hanswer : (v.call (.change owner pom c)).1 = some (v.get? owner pom != some c) := rfl
    simp [hflag, hanswer, Raises, Call.owner?, or_comm]
  | remove owner pom =>
    have hflag : (v.call (.remove owner pom)).2.flag.raised =
        (v.flag.raised || (v.get? owner pom).isSome) := by cases owner <;> rfl
    have hanswer : (v.call (.remove owner pom)).1 = some (v.get? owner pom).isSome := rfl
    simp [hflag, hanswer, Raises, Call.owner?, or_comm]
  | hasChanges =>
    have hflag : (v.call .hasChanges).2.flag.raised = false := rfl
    simp [hflag, Raises, Call.owner?]
  | mark =>
    have hflag : (v.call .mark).2.flag.raised = true := rfl
    simp [hflag, Raises]
  | or changed =>
    have hflag : (v.call (.or changed)).2.flag.raised = (v.flag.raised || changed) := rfl
    cases changed <;> simp [hflag, Raises, Call.owner?]

/-! ### Runs -/

/-- What is pending after some calls, from nothing. -/
def after (calls : List Call) : PendingVersions :=
  calls.foldl (fun v call => (v.call call).2) none

theorem after_concat (calls : List Call) (call : Call) :
    after (calls ++ [call]) = ((after calls).call call).2 := by
  rw [after, List.foldl_concat, ← after]

theorem increasing_after (owner : VersionOwner) (calls : List Call) :
    Ordered.Increasing Pom.order (((after calls).of owner).map (·.1)) := by
  induction calls using List.reverseRecOn with
  | nil => cases owner <;> exact .nil
  | append_singleton calls call ih =>
    rw [after_concat]
    exact increasing_call ih

/-- A change is pending if it was recorded and its project was spared since. -/
theorem get?_after {owner : VersionOwner} {pom : Pom} {c : VersionChange} (calls : List Call) :
    (after calls).get? owner pom = some c ↔
      Since (fun _ call => call.Settles owner pom (some c)) (·.Spares owner pom) calls := by
  induction calls using List.reverseRecOn with
  | nil =>
    have hnone : (after []).get? owner pom = Option.none := by cases owner <;> rfl
    exact iff_of_false (by simp [hnone]) not_since_nil
  | append_singleton calls call ih =>
    rw [after_concat, since_concat, ← ih]
    by_cases hspares : call.Spares owner pom
    · rw [get?_of_spares hspares]
      exact ⟨fun h => .inr ⟨hspares, h⟩, fun h => h.elim (fun h => absurd h (hspares _)) (·.2)⟩
    · obtain ⟨c?, hsettles⟩ := not_forall_not.1 hspares
      rw [get?_of_settles hsettles]
      constructor
      · rintro rfl
        exact .inl hsettles
      · rintro (h | ⟨h, -⟩)
        · cases h with
          | change heq c => cases hsettles with | change _ _ => rfl
        · exact absurd h hspares

/-- The flag is raised if some call raised it and none has read it since. -/
theorem raised_after (calls : List Call) :
    (after calls).flag.raised = true ↔
      Since (fun before call => (after before).Raises call) (· ≠ .hasChanges) calls := by
  induction calls using List.reverseRecOn with
  | nil => exact iff_of_false (by simp [after, none, ChangeFlag.lowered]) not_since_nil
  | append_singleton calls call ih => rw [after_concat, raised_call, since_concat, ih]

/-- **Pending changes are tracked exactly.** After any run of calls each project is listed once, and
its change is the one last recorded and not taken back since; a call that records or takes back
answers whether it makes what is pending different, and leaves the changes of the other kind of
owner alone; all other calls leave both alone; and a reading tells whether, since the last one, a
call told of a change or raised the flag. -/
theorem changes_tracked (calls : List Call) :
    (∀ owner, Ordered.Increasing Pom.order (((after calls).of owner).map (·.1))) ∧
    (∀ owner pom c, (after calls).get? owner pom = some c ↔
      Since (fun _ call => call.Settles owner pom (some c)) (·.Spares owner pom) calls) ∧
    (∀ call owner, call.owner? = some owner →
      ∃ changed, ((after calls).call call).1 = some changed ∧
        (changed = true ↔ ∃ pom,
          ((after calls).call call).2.get? owner pom ≠ (after calls).get? owner pom)) ∧
    (∀ call owner, call.owner? ≠ some owner →
      ((after calls).call call).2.of owner = (after calls).of owner) ∧
    ∃ raised, ((after calls).call .hasChanges).1 = some raised ∧
      (raised = true ↔
        Since (fun before call => (after before).Raises call) (· ≠ .hasChanges) calls) :=
  ⟨fun owner => increasing_after owner calls, fun _ _ _ => get?_after calls,
    fun _ _ => answer_call, fun _ _ => of_call_of_ne, _, rfl, raised_after calls⟩

/-- A change that was taken back leaves nothing pending, and is told of all the same. -/
theorem changes_tracked_undone :
    let core : Pom := ⟨Path.ofString "core/pom.xml", ⟨"org.kivakit", "core", "1.0.0"⟩, "jar"⟩
    let calls := [.change .project core ⟨"1.0.0", "1.1.0"⟩, .remove .project core]
    (after calls).projects = [] ∧ ((after calls).call .hasChanges).1 = some true := by
  intro core calls
  obtain ⟨-, -, -, -, raised, hanswer, hraised⟩ := changes_tracked calls
  have htold : raised = true :=
    hraised.2 ⟨[], _, [.remove .project core], rfl, .inl ⟨rfl, rfl⟩, by simp⟩
  exact ⟨by decide +kernel, by rw [hanswer, htold]⟩

end PendingVersions

end Grove
