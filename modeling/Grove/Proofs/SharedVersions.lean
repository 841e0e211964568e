import Mathlib.Data.List.Induction
import Mathlib.Data.String.Basic
import Mathlib.Order.Compare
import Grove.Proofs.Assignment
import Grove.Statistics.Family

/-!
# The version that a family shares

The projects of a family should agree on their version. Their versions are tallied one by one, and
where they disagree and that is tolerated, a pass over the tally keeps the entry that is counted
most often. The tally is in text order, so of entries counted equally often the pass keeps the
greatest.

What is found is told here of the list of versions alone, by how often each occurs (`MostCommon`).
A list has at most one version of this kind, and its order does not matter, so neither does the order
in which projects are looked at.

## What is proved

* `Tally.mem_of_iff`, `Tally.increasing_of` — the tally of a list has each text once, in order, with
  how often it occurs.
* `Tally.leads_of_best?` — the pass keeps the entry that leads.
* `Tally.most?_of_eq_some_iff` — the text found is the most common one.
* `Family.version?_eq` — the outcome in cases, by the list of versions.
* `Family.shared_version_settled` — what the outcome is, and that it does not depend on the order.
-/

namespace Grove

/-- No text occurs in the list more often than this one, and any other that occurs as often is
smaller. -/
structure MostCommon (s : String) (texts : List String) : Prop where
  /-- The text occurs. -/
  mem : s ∈ texts
  /-- None occurs more often. -/
  most : ∀ t, texts.count t ≤ texts.count s
  /-- It is the greatest of those that occur as often. -/
  greatest : ∀ t, t ≠ s → texts.count t = texts.count s → t < s

namespace MostCommon

variable {s t : String} {texts texts' : List String}

/-- It is enough to look at the texts that occur. -/
theorem iff_forall_mem : MostCommon s texts ↔ s ∈ texts ∧ ∀ t ∈ texts,
    texts.count t ≤ texts.count s ∧ (t ≠ s → texts.count t = texts.count s → t < s) := by
  refine ⟨fun h => ⟨h.mem, fun t _ => ⟨h.most t, h.greatest t⟩⟩, fun ⟨hs, h⟩ => ⟨hs, ?_, ?_⟩⟩
  · intro t
    by_cases ht : t ∈ texts
    · exact (h t ht).1
    · rw [List.count_eq_zero.2 ht]
      exact Nat.zero_le _
  · intro t hne hcount
    exact (h t (List.count_pos_iff.1 (hcount ▸ List.count_pos_iff.2 hs))).2 hne hcount

instance (s : String) (texts : List String) : Decidable (MostCommon s texts) :=
  decidable_of_iff _ iff_forall_mem.symm

theorem unique (hs : MostCommon s texts) (ht : MostCommon t texts) : s = t := by
  by_contra hne
  have hcount : texts.count s = texts.count t := Nat.le_antisymm (ht.most s) (hs.most t)
  exact lt_asymm (ht.greatest s hne hcount) (hs.greatest t (Ne.symm hne) hcount.symm)

theorem perm (h : texts.Perm texts') (hs : MostCommon s texts) : MostCommon s texts' where
  mem := h.mem_iff.1 hs.mem
  most t := by simpa only [h.count_eq] using hs.most t
  greatest t := by simpa only [h.count_eq] using hs.greatest t

end MostCommon

namespace Tally

/-! ### The tally of a list -/

/-- The tally of a list of texts. -/
def of (texts : List String) : Tally :=
  texts.foldl count []

theorem of_concat (texts : List String) (s : String) : of (texts ++ [s]) = (of texts).count s :=
  List.foldl_concat ..

/-- Each text of the list is found with how often it occurs. -/
theorem get?_of (texts : List String) (s : String) :
    Ordered.get? compare s (of texts) = if s ∈ texts then some (texts.count s) else none := by
  induction texts using List.reverseRecOn with
  | nil => rfl
  | append_singleton texts t ih =>
    rw [of_concat, count]
    by_cases hst : s = t
    · subst hst
      rw [Ordered.get?_put_self, ih]
      by_cases hmem : s ∈ texts
      · simp [hmem]
      · simp [hmem, List.count_eq_zero.2 hmem]
    · have hne : compare s t ≠ .eq := fun h => hst (Std.LawfulEqOrd.eq_of_compare h)
      rw [Ordered.get?_put_of_ne compare hne, ih]
      simp [hst, Ne.symm hst]

/-- A tally is in text order, each text once. -/
theorem increasing_of (texts : List String) :
    Ordered.Increasing compare ((of texts).map (·.1)) := by
  induction texts using List.reverseRecOn with
  | nil => exact .nil
  | append_singleton texts t ih =>
    rw [of_concat]
    exact Ordered.increasing_keys_put compare _ _ ih

theorem mem_of_iff {texts : List String} {e : String × Nat} :
    e ∈ of texts ↔ e.1 ∈ texts ∧ e.2 = texts.count e.1 := by
  obtain ⟨s, n⟩ := e
  have hfind := get?_of texts s
  constructor
  · intro h
    rw [Ordered.get?_of_mem compare (increasing_of texts) h] at hfind
    split at hfind
    · next hmem => exact ⟨hmem, Option.some.inj hfind⟩
    · cases hfind
  · rintro ⟨hmem, hcount⟩
    dsimp only at hmem hcount
    rw [if_pos hmem, ← hcount] at hfind
    obtain ⟨s', heq, hentry⟩ := Ordered.exists_mem_of_get? compare hfind
    rwa [Std.LawfulEqOrd.eq_of_compare heq]

theorem mem_texts_of_iff {texts : List String} {s : String} :
    s ∈ (of texts).map (·.1) ↔ s ∈ texts := by
  constructor
  · intro h
    obtain ⟨e, he, rfl⟩ := List.mem_map.1 h
    exact (mem_of_iff.1 he).1
  · intro h
    exact List.mem_map.2 ⟨(s, texts.count s), mem_of_iff.2 ⟨h, rfl⟩, rfl⟩

/-- A tally has two entries where two texts of the list differ. -/
theorem one_lt_length_of_iff {texts : List String} :
    1 < (of texts).length ↔ ∃ a ∈ texts, ∃ b ∈ texts, a ≠ b := by
  have key : ∀ keys : List String, keys.Nodup →
      (1 < keys.length ↔ ∃ a ∈ keys, ∃ b ∈ keys, a ≠ b) := by
    rintro (- | ⟨a, - | ⟨b, keys⟩⟩) hnodup
    · simp
    · simp
    · have hab : a ≠ b := fun h => (List.nodup_cons.1 hnodup).1 (by simp [h])
      exact iff_of_true (by simp) ⟨a, by simp, b, by simp, hab⟩
  have hkeys := key ((of texts).map (·.1)) (increasing_of texts).nodup
  simpa only [List.length_map, mem_texts_of_iff] using hkeys

/-! ### The entry counted most often -/

/-- The entry of a tally that is kept when it is passed through. -/
def best? (tally : Tally) : Option (String × Nat) :=
  tally.foldl
    (fun best? (s, n) =>
      match best? with
      | some (_, m) => if m ≤ n then some (s, n) else best?
      | none => some (s, n))
    none

theorem most?_eq (tally : Tally) : tally.most? = (best? tally).map (·.1) := rfl

/-- An entry leads a tally if it is counted most often, and of those counted as often has the
greatest text. -/
def Leads (tally : Tally) (e : String × Nat) : Prop :=
  e ∈ tally ∧ ∀ d ∈ tally, d.2 ≤ e.2 ∧ (d.1 ≠ e.1 → d.2 = e.2 → d.1 < e.1)

/-- The entry that is kept leads, as the texts come in order. -/
theorem leads_of_best? {tally : Tally} (h : Ordered.Increasing compare (tally.map (·.1))) :
    match best? tally with
    | none => tally = []
    | some e => Leads tally e := by
  induction tally using List.reverseRecOn with
  | nil => rfl
  | append_singleton tally e ih =>
    obtain ⟨s, n⟩ := e
    rw [List.map_append, Ordered.Increasing, List.pairwise_append] at h
    obtain ⟨hinit, -, hlast⟩ := h
    have hlt : ∀ d ∈ tally, d.1 < s := fun d hd =>
      compare_lt_iff_lt.1 (hlast d.1 (List.mem_map_of_mem hd) s (by simp))
    specialize ih hinit
    rw [best?, List.foldl_concat, ← best?]
    cases hbest : best? tally with
    | none =>
      rw [hbest] at ih
      obtain rfl := ih
      simp [Leads]
    | some best =>
      rw [hbest] at ih
      obtain ⟨hmem, hleads⟩ := ih
      by_cases hle : best.2 ≤ n
      · simp only [if_pos hle]
        refine ⟨by simp, fun d hd => ?_⟩
        rcases List.mem_append.1 hd with hd | hd
        · exact ⟨(hleads d hd).1.trans hle, fun _ _ => hlt d hd⟩
        · obtain rfl := List.mem_singleton.1 hd
          exact ⟨le_rfl, fun hne => absurd rfl hne⟩
      · simp only [if_neg hle]
        refine ⟨List.mem_append_left _ hmem, fun d hd => ?_⟩
        rcases List.mem_append.1 hd with hd | hd
        · exact hleads d hd
        · obtain rfl := List.mem_singleton.1 hd
          exact ⟨by omega, fun _ heq => absurd heq (by omega)⟩

theorem mostCommon_of_leads {texts : List String} {e : String × Nat} (h : Leads (of texts) e) :
    MostCommon e.1 texts := by
  obtain ⟨hmem, hleads⟩ := h
  obtain ⟨hs, hn⟩ := mem_of_iff.1 hmem
  refine MostCommon.iff_forall_mem.2 ⟨hs, fun t ht => ?_⟩
  rw [← hn]
  exact hleads (t, texts.count t) (mem_of_iff.2 ⟨ht, rfl⟩)

theorem most?_of_eq_none_iff {texts : List String} : (of texts).most? = none ↔ texts = [] := by
  constructor
  · intro h
    rw [most?_eq, Option.map_eq_none_iff] at h
    have hempty := leads_of_best? (increasing_of texts)
    rw [h] at hempty
    dsimp only at hempty
    refine List.eq_nil_iff_forall_not_mem.2 fun s hs => ?_
    have := mem_texts_of_iff.2 hs
    simp [hempty] at this
  · rintro rfl
    rfl

/-- The text found in the tally of a list is the most common one of the list. -/
theorem most?_of_eq_some_iff {texts : List String} {s : String} :
    (of texts).most? = some s ↔ MostCommon s texts := by
  have hfound : ∀ {s}, (of texts).most? = some s → MostCommon s texts := by
    intro s h
    rw [most?_eq] at h
    obtain ⟨e, hbest, rfl⟩ := Option.map_eq_some_iff.1 h
    have hleads := leads_of_best? (increasing_of texts)
    rw [hbest] at hleads
    exact mostCommon_of_leads hleads
  refine ⟨hfound, fun h => ?_⟩
  cases hmost : (of texts).most? with
  | none =>
    have := h.mem
    simp [most?_of_eq_none_iff.1 hmost] at this
  | some s' => rw [(hfound hmost).unique h]

end Tally

namespace Family

/-! ### The shared version -/

/-- The versions of some projects. -/
def versions (poms : List Pom) : List String :=
  poms.map (·.coordinates.version)

/-- Two versions of a list differ. -/
def Disagree (versions : List String) : Prop :=
  ∃ a ∈ versions, ∃ b ∈ versions, a ≠ b

/-- The texts that occur in a list, each once, in ascending order. -/
def Lists (listed versions : List String) : Prop :=
  listed.Pairwise (· < ·) ∧ ∀ v, v ∈ listed ↔ v ∈ versions

theorem Disagree.perm {vs vs' : List String} (h : vs.Perm vs') : Disagree vs → Disagree vs' :=
  fun ⟨a, ha, b, hb, hab⟩ => ⟨a, h.mem_iff.1 ha, b, h.mem_iff.1 hb, hab⟩

theorem Lists.perm {listed vs vs' : List String} (h : vs.Perm vs') (hlisted : Lists listed vs) :
    Lists listed vs' :=
  ⟨hlisted.1, fun v => (hlisted.2 v).trans h.mem_iff⟩

theorem Lists.unique {listed listed' versions : List String} (h : Lists listed versions)
    (h' : Lists listed' versions) : listed = listed' := by
  have hlisted : Ordered.Increasing compare listed := h.1.imp compare_lt_iff_lt.2
  have hlisted' : Ordered.Increasing compare listed' := h'.1.imp compare_lt_iff_lt.2
  exact hlisted.ext hlisted' fun v => (h.2 v).trans (h'.2 v).symm

theorem lists_of (versions : List String) : Lists ((Tally.of versions).map (·.1)) versions :=
  ⟨(Tally.increasing_of versions).imp compare_lt_iff_lt.1, fun _ => Tally.mem_texts_of_iff⟩

variable (f : Family) (poms : List Pom) (tolerate : Bool)

/-- The outcome depends on the projects by the tally of their versions. -/
theorem version?_eq : f.version? poms tolerate =
    if 1 < (Tally.of (versions poms)).length ∧ tolerate = false then
      .error (.inconsistentVersions f.name ((Tally.of (versions poms)).map (·.1)))
    else .ok (Tally.of (versions poms)).most? := by
  rw [version?, Tally.of, versions, List.foldl_map]

variable {f poms tolerate}

theorem version?_eq_error_iff {e : ProjectError} : f.version? poms tolerate = .error e ↔
    tolerate = false ∧ Disagree (versions poms) ∧
      ∃ listed, e = .inconsistentVersions f.name listed ∧ Lists listed (versions poms) := by
  have hlength := @Tally.one_lt_length_of_iff (versions poms)
  rw [version?_eq]
  constructor
  · intro h
    split at h
    · next hrefused =>
      exact ⟨hrefused.2, hlength.1 hrefused.1, _, (Except.error.inj h).symm, lists_of _⟩
    · cases h
  · rintro ⟨htolerate, hdisagree, listed, rfl, hlisted⟩
    rw [if_pos ⟨hlength.2 hdisagree, htolerate⟩, hlisted.unique (lists_of _)]

theorem version?_eq_ok_iff {version? : Option String} : f.version? poms tolerate = .ok version? ↔
    (Disagree (versions poms) → tolerate = true) ∧
      (Tally.of (versions poms)).most? = version? := by
  have hlength := @Tally.one_lt_length_of_iff (versions poms)
  rw [version?_eq]
  split
  · next hrefused =>
    refine iff_of_false (by simp) fun h => ?_
    simp [h.1 (hlength.1 hrefused.1)] at hrefused
  · next haccepted =>
    have htolerate : Disagree (versions poms) → tolerate = true := fun hdisagree =>
      Bool.of_not_eq_false fun h => haccepted ⟨hlength.2 hdisagree, h⟩
    exact ⟨fun h => ⟨htolerate, Except.ok.inj h⟩, fun h => congrArg Except.ok h.2⟩

theorem version?_eq_none_iff : f.version? poms tolerate = .ok none ↔ poms = [] := by
  rw [version?_eq_ok_iff, Tally.most?_of_eq_none_iff, versions, List.map_eq_nil_iff]
  refine ⟨And.right, ?_⟩
  rintro rfl
  exact ⟨fun ⟨_, ha, _⟩ => by simp at ha, rfl⟩

/-- The order of the projects does not matter. -/
theorem version?_perm {poms' : List Pom} (h : poms.Perm poms') :
    f.version? poms tolerate = f.version? poms' tolerate := by
  have hversions : (versions poms).Perm (versions poms') := h.map _
  cases houtcome : f.version? poms tolerate with
  | error e =>
    obtain ⟨htolerate, hdisagree, listed, he, hlisted⟩ := version?_eq_error_iff.1 houtcome
    exact (version?_eq_error_iff.2
      ⟨htolerate, hdisagree.perm hversions, listed, he, hlisted.perm hversions⟩).symm
  | ok version? =>
    obtain ⟨htolerate, hmost⟩ := version?_eq_ok_iff.1 houtcome
    refine (version?_eq_ok_iff.2 ⟨fun h => htolerate (h.perm hversions.symm), ?_⟩).symm
    cases version? with
    | none =>
      rw [Tally.most?_of_eq_none_iff] at hmost ⊢
      exact (hmost ▸ hversions).nil_eq.symm
    | some v =>
      rw [Tally.most?_of_eq_some_iff] at hmost ⊢
      exact hmost.perm hversions

/-- **The version of a family is settled by the versions of its projects.** There is none exactly
where there are no projects. It is refused exactly where two projects differ in version and that is
not tolerated; the error then names the versions that occur, each once, in ascending order. Otherwise
it is the most common version, and of several the greatest. The order of the projects does not
matter. -/
theorem shared_version_settled (f : Family) (poms : List Pom) (tolerate : Bool) :
    let versions := poms.map (·.coordinates.version)
    let disagree := ∃ a ∈ versions, ∃ b ∈ versions, a ≠ b
    (f.version? poms tolerate = .ok none ↔ poms = []) ∧
    ((∃ e, f.version? poms tolerate = .error e) ↔ tolerate = false ∧ disagree) ∧
    (∀ e, f.version? poms tolerate = .error e →
      ∃ listed, e = .inconsistentVersions f.name listed ∧ listed.Pairwise (· < ·) ∧
        ∀ v, v ∈ listed ↔ v ∈ versions) ∧
    (∀ v, f.version? poms tolerate = .ok (some v) ↔
      ¬(tolerate = false ∧ disagree) ∧ MostCommon v versions) ∧
    ∀ poms', poms.Perm poms' → f.version? poms tolerate = f.version? poms' tolerate := by
  intro versions disagree
  refine ⟨version?_eq_none_iff, ⟨?_, fun ⟨htolerate, hdisagree⟩ => ?_⟩, fun e he => ?_, fun v => ?_,
    fun _ => version?_perm⟩
  · rintro ⟨e, he⟩
    obtain ⟨htolerate, hdisagree, -⟩ := version?_eq_error_iff.1 he
    exact ⟨htolerate, hdisagree⟩
  · exact ⟨_, version?_eq_error_iff.2 ⟨htolerate, hdisagree, _, rfl, lists_of _⟩⟩
  · obtain ⟨-, -, listed, rfl, hlisted⟩ := version?_eq_error_iff.1 he
    exact ⟨listed, rfl, hlisted⟩
  · rw [version?_eq_ok_iff, Tally.most?_of_eq_some_iff, not_and', Bool.not_eq_false]
    rfl

/-- Of two versions that occur twice each, the greater one as a text is taken where that is tolerated,
wherever the projects stand in the list. -/
theorem shared_version_settled_of_three :
    let project (version : String) : Pom := ⟨⟨["pom.xml"]⟩, ⟨"g", "core", version⟩, "jar"⟩
    let poms := ["1.10", "1.9", "1.8", "1.9", "1.10"].map project
    let kivakit : Family := ⟨"kivakit"⟩
    kivakit.version? poms true = .ok (some "1.9") ∧
    kivakit.version? poms.reverse true = .ok (some "1.9") ∧
    kivakit.version? poms false =
      .error (.inconsistentVersions "kivakit" ["1.10", "1.8", "1.9"]) := by
  intro project poms kivakit
  obtain ⟨-, -, -, hsome, hperm⟩ := shared_version_settled kivakit poms true
  have hcommon : MostCommon "1.9" (poms.map (·.coordinates.version)) := by decide +kernel
  have hfound := (hsome "1.9").2 ⟨by simp, hcommon⟩
  have hreversed := hperm poms.reverse (List.reverse_perm poms).symm
  exact ⟨hfound, hreversed.symm.trans hfound, by decide +kernel⟩

end Family

end Grove
