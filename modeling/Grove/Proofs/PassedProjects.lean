import Mathlib.Data.List.Count
import Mathlib.Data.List.Dedup
import Grove.Commands.Selection
import Grove.Git.Local
import Grove.Program.Launch
import Grove.Proofs.Markup
import Grove.Proofs.Selections

/-!
# Projects that a build passes over

A build passes over the projects outside the families asked for, by a line for each such project and
each property. Families and properties are named in texts with commas between them. The families make
a set, so that it does not matter how often one is named; the properties are gone through as they are
named, so that a property named twice stands in two lines for each project.

A line is told apart from the lines of other projects by the group id and the artifact id in front of
its first space. That does not tell it apart where spaces stand in these as well as in properties.

## What is proved

* `CommandContext.mem_wantedFamilies_iff` — the families asked for, by their names.
* `CommandContext.skipProperties_eq` — the lines, project by project.
* `Pom.skipLine_inj`, `count_skipLine` — how often a line occurs.
* `nodup_skipLines_iff`, `skipLines_eq_iff` — where each line is there once.
* `CommandContext.lines_as_named` — what is computed and printed, and when each line is there once.
* `CommandContext.line_repeated` — a property that is named twice.
-/

namespace Grove

/-! ### Names in a text -/

/-- The names in the text of an option, none where the option is not given. -/
def Text.named (text? : Option String) : List String :=
  (text?.map entries).getD []

theorem Family.mem_parseList_iff {text : String} {f : Family} :
    f ∈ parseList text ↔ f.name ∈ Text.entries text := by
  rw [parseList, Ordered.mem_ofList_iff, List.mem_map]
  constructor
  · rintro ⟨name, hname, rfl⟩
    exact hname
  · exact fun h => ⟨f.name, h, rfl⟩

theorem CommandContext.mem_listed_iff {text? : Option String} {f : Family} :
    f ∈ listed text? ↔ f.name ∈ Text.named text? := by
  cases text? with
  | none => simp [listed, Text.named]
  | some text => exact Family.mem_parseList_iff

theorem CommandContext.listed_eq_nil_iff {text? : Option String} :
    listed text? = [] ↔ Text.named text? = [] := by
  simp only [List.eq_nil_iff_forall_not_mem, mem_listed_iff]
  exact ⟨fun h name => h ⟨name⟩, fun h f => h f.name⟩

/-! ### Names that come first -/

theorem nodup_eraseDups (names : List String) : names.eraseDups.Nodup := by
  match names with
  | [] => simp
  | name :: names =>
    rw [List.eraseDups_cons, List.nodup_cons, List.mem_eraseDups]
    exact ⟨by simp, nodup_eraseDups _⟩
termination_by names.length
decreasing_by exact Nat.lt_succ_of_le (List.length_filter_le _ _)

theorem eraseDups_of_nodup {names : List String} (h : names.Nodup) : names.eraseDups = names := by
  induction names with
  | nil => rfl
  | cons name names ih =>
    obtain ⟨hname, hnames⟩ := List.nodup_cons.1 h
    have hkept : names.filter (fun other => !other == name) = names := by
      refine List.filter_eq_self.2 fun other hother => ?_
      have hne : other ≠ name := fun heq => hname (heq ▸ hother)
      simpa using hne
    rw [List.eraseDups_cons, hkept, ih hnames]

/-- No name is dropped as a repetition exactly where none is one. -/
theorem length_eraseDups_eq_iff {names : List String} :
    names.eraseDups.length = names.length ↔ names.Nodup := by
  have hperm : names.eraseDups.Perm names.dedup :=
    (List.perm_ext_iff_of_nodup (nodup_eraseDups names) names.nodup_dedup).2 fun _ => by
      rw [List.mem_eraseDups, List.mem_dedup]
  rw [hperm.length_eq]
  exact ⟨fun h => List.dedup_eq_self.1 (names.dedup_sublist.eq_of_length h),
    fun h => congrArg List.length h.dedup⟩

/-! ### Lines -/

namespace Pom

/-- The group id and the artifact id of a project. -/
def key (p : Pom) : String :=
  p.coordinates.group ++ ":" ++ p.coordinates.artifact

/-- The line by which a build passes over a project. -/
def skipLine (p : Pom) (property : String) : String :=
  p.key ++ " " ++ property ++ "=true"

theorem skipLine_injective (p : Pom) : Function.Injective p.skipLine := by
  intro property other h
  have hchars := congrArg String.toList h
  simp only [skipLine, String.toList_append] at hchars
  exact String.toList_inj.1 (List.append_cancel_left (List.append_cancel_right hchars))

/-- A line tells the project and the property, if there are no other spaces on one side of the space
between them. -/
theorem skipLine_inj {p q : Pom} {property other : String}
    (hspace : ' ' ∉ p.key.toList ∧ ' ' ∉ q.key.toList ∨
      ' ' ∉ property.toList ∧ ' ' ∉ other.toList)
    (h : p.skipLine property = q.skipLine other) : p.key = q.key ∧ property = other := by
  have hline : p.key.toList ++ ' ' :: property.toList = q.key.toList ++ ' ' :: other.toList := by
    have := congrArg String.toList h
    simp only [skipLine, String.toList_append] at this
    simpa using List.append_cancel_right this
  rcases hspace with ⟨hp, hq⟩ | ⟨hproperty, hother⟩
  · obtain ⟨hkey, hname⟩ := Markup.append_cons_inj hp hq hline
    exact ⟨String.toList_inj.1 hkey, String.toList_inj.1 hname⟩
  · -- the last space is the first one from behind
    have hreverse := congrArg List.reverse hline
    simp only [List.reverse_append, List.reverse_cons, List.append_assoc,
      List.singleton_append] at hreverse
    obtain ⟨hname, hkey⟩ := Markup.append_cons_inj (by simpa using hproperty) (by simpa using hother)
      hreverse
    exact ⟨String.toList_inj.1 (List.reverse_injective hkey),
      String.toList_inj.1 (List.reverse_injective hname)⟩

-- With spaces on both sides two projects can share a line.
example :
    skipLine ⟨⟨[]⟩, ⟨"g", "core", "1.0.0"⟩, "jar"⟩ "lib skip" =
      skipLine ⟨⟨[]⟩, ⟨"g", "core lib", "1.0.0"⟩, "jar"⟩ "skip" := by
  decide

end Pom

/-- In these cases no projects with different keys have a line in common: spaces stand in no key, or in no
property. -/
def TellsApart (poms : List Pom) (properties : List String) : Prop :=
  (∀ p ∈ poms, ' ' ∉ p.key.toList) ∨ ∀ property ∈ properties, ' ' ∉ property.toList

theorem TellsApart.inj {poms : List Pom} {properties : List String} (h : TellsApart poms properties)
    {p q : Pom} (hp : p ∈ poms) (hq : q ∈ poms) {property other : String}
    (hproperty : property ∈ properties) (hother : other ∈ properties)
    (hline : p.skipLine property = q.skipLine other) : p.key = q.key ∧ property = other :=
  Pom.skipLine_inj (h.imp (fun h => ⟨h p hp, h q hq⟩) fun h => ⟨h _ hproperty, h _ hother⟩) hline

/-- A line occurs as often as its property is named. -/
theorem count_skipLine {poms : List Pom} {properties : List String}
    (hapart : TellsApart poms properties) (hkeys : (poms.map Pom.key).Nodup) {p : Pom}
    (hp : p ∈ poms) {property : String} (hproperty : property ∈ properties) :
    (poms.flatMap fun q => properties.map q.skipLine).count (p.skipLine property) =
      properties.count property := by
  obtain ⟨before, after, rfl⟩ := List.append_of_mem hp
  simp only [List.map_append, List.map_cons, List.nodup_append, List.nodup_cons] at hkeys
  obtain ⟨-, ⟨hafter, -⟩, hbefore⟩ := hkeys
  have hothers : ∀ qs : List Pom, (∀ q ∈ qs, q ∈ before ++ p :: after ∧ q.key ≠ p.key) →
      (qs.flatMap fun q => properties.map q.skipLine).count (p.skipLine property) = 0 := by
    intro qs hqs
    refine List.count_eq_zero.2 fun hmem => ?_
    obtain ⟨q, hq, hline⟩ := List.mem_flatMap.1 hmem
    obtain ⟨other, hother, heq⟩ := List.mem_map.1 hline
    obtain ⟨hmember, hkey⟩ := hqs q hq
    exact hkey (hapart.inj hmember hp hother hproperty heq).1
  have hahead := hothers before fun q hq =>
    ⟨List.mem_append_left _ hq, hbefore _ (List.mem_map_of_mem hq) _ List.mem_cons_self⟩
  have hbehind := hothers after fun q hq =>
    ⟨List.mem_append_right _ (List.mem_cons_of_mem _ hq), fun h => hafter (h ▸ List.mem_map_of_mem hq)⟩
  rw [List.flatMap_append, List.flatMap_cons, List.count_append, List.count_append, hahead, hbehind,
    List.count_map_of_injective properties p.skipLine p.skipLine_injective, Nat.zero_add,
    Nat.add_zero]

theorem nodup_skipLines_iff {poms : List Pom} {properties : List String}
    (hapart : TellsApart poms properties) (hkeys : (poms.map Pom.key).Nodup) :
    (poms.flatMap fun q => properties.map q.skipLine).Nodup ↔ poms = [] ∨ properties.Nodup := by
  constructor
  · intro h
    refine or_iff_not_imp_left.2 fun hsome => ?_
    obtain ⟨p, hp⟩ := List.exists_mem_of_ne_nil _ hsome
    exact ((List.nodup_flatMap.1 h).1 p hp).of_map _
  · rintro (rfl | h)
    · exact List.nodup_nil
    · refine List.nodup_iff_count_le_one.2 fun line => ?_
      by_cases hline : line ∈ poms.flatMap fun q => properties.map q.skipLine
      · obtain ⟨p, hp, hown⟩ := List.mem_flatMap.1 hline
        obtain ⟨property, hproperty, rfl⟩ := List.mem_map.1 hown
        rw [count_skipLine hapart hkeys hp hproperty]
        exact List.nodup_iff_count_le_one.1 h property
      · rw [List.count_eq_zero.2 hline]
        exact Nat.zero_le _

/-- The lines of the properties without repetitions are as many, so they are all lines only where none
is repeated. -/
theorem skipLines_eq_iff {poms : List Pom} {properties : List String} :
    (poms.flatMap fun q => properties.map q.skipLine) =
        poms.flatMap (fun q => properties.eraseDups.map q.skipLine) ↔
      poms = [] ∨ properties.Nodup := by
  constructor
  · intro h
    have hlength := congrArg List.length h
    simp only [List.length_flatMap, List.length_map, List.map_const',
      List.sum_replicate_nat] at hlength
    rcases Nat.eq_zero_or_pos poms.length with hnone | hsome
    · exact .inl (List.eq_nil_of_length_eq_zero hnone)
    · exact .inr (length_eraseDups_eq_iff.1 (Nat.eq_of_mul_eq_mul_left hsome hlength).symm)
  · rintro (rfl | h)
    · rfl
    · rw [eraseDups_of_nodup h]

/-! ### The command -/

theorem Action.forM_print_apply {σ : Type} (lines : List String) (s : Session σ) :
    lines.forM Action.print s = .ok () { s with printed := s.printed ++ lines } := by
  induction lines generalizing s with
  | nil => simp
  | cons line lines ih =>
    have hline : Action.print line s = .ok () { s with printed := s.printed ++ [line] } := rfl
    refine (bind_of_ok hline).trans ((ih _).trans ?_)
    simp

namespace CommandContext

open CommandLine

variable {σ : Type} (x : CommandContext σ) (a : FilterArguments)

/-- The names of the families asked for: those of the list, or those of the single option where the
list names none. -/
def wantedNames : List String :=
  if Text.named a.families? = [] then Text.named (a.family? <|> x.settings.scope.family?)
  else Text.named a.families?

/-- The projects passed over: those of no family asked for, and none where no family is. -/
def passedOver (w : Workspace) : List Pom :=
  if x.wantedNames a = [] then []
  else w.projects.filter fun pom => pom.family.name ∉ x.wantedNames a

theorem passedOver_sublist (w : Workspace) : (x.passedOver a w).Sublist w.projects := by
  rw [passedOver]
  split
  · exact List.nil_sublist _
  · exact List.filter_sublist

theorem wantedFamilies_eq : x.wantedFamilies a =
    if Text.named a.families? = [] then listed (a.family? <|> x.settings.scope.family?)
    else listed a.families? := by
  rw [wantedFamilies, requestedFamilies, ← listed, ← listed, ite_not]
  exact if_congr listed_eq_nil_iff rfl rfl

theorem mem_wantedFamilies_iff {f : Family} :
    f ∈ x.wantedFamilies a ↔ f.name ∈ x.wantedNames a := by
  rw [wantedFamilies_eq, wantedNames]
  split <;> exact mem_listed_iff

theorem wantedFamilies_eq_nil_iff : x.wantedFamilies a = [] ↔ x.wantedNames a = [] := by
  rw [wantedFamilies_eq, wantedNames]
  split <;> exact listed_eq_nil_iff

/-- There is a line for each project passed over and each property, as it is named. -/
theorem skipProperties_eq (w : Workspace) (properties : List String) :
    skipProperties w (x.wantedFamilies a) properties =
      (x.passedOver a w).flatMap fun pom => properties.map pom.skipLine := by
  rw [skipProperties, passedOver]
  simp only [wantedFamilies_eq_nil_iff, mem_wantedFamilies_iff]
  by_cases hnames : x.wantedNames a = []
  · simp [hnames]
  · by_cases hproperties : properties = []
    · simp [hproperties]
    · rw [if_neg (by simp [hnames, hproperties]), if_neg hnames]
      rfl

variable [HasFiles σ]

/-- Without families or properties nothing is printed, whatever the files are. -/
theorem filterFamilies_of_none (h : x.wantedNames a = [] ∨ Text.named a.properties? = [])
    (s : Session σ) : ∃ t, x.filterFamilies a s = .ok () t ∧ t.printed = s.printed := by
  rw [← wantedFamilies_eq_nil_iff, Text.named] at h
  rw [filterFamilies, if_pos h]
  exact ⟨_, Action.note_apply _ _ s, rfl⟩

/-- In a workspace that can be scanned the lines are printed. -/
theorem filterFamilies_of_scan {scan : Workspace.Scan} (s : Session σ)
    (hscan : Workspace.scanAround (HasFiles.files s.host) x.directory = .ok scan) :
    ∃ t, x.filterFamilies a s = .ok () t ∧ t.printed = s.printed ++
      skipProperties scan.workspace (x.wantedFamilies a) (Text.named a.properties?) := by
  by_cases h : x.wantedFamilies a = [] ∨ Text.named a.properties? = []
  · rw [skipProperties, if_pos h, List.append_nil]
    exact x.filterFamilies_of_none a (by rwa [← wantedFamilies_eq_nil_iff]) s
  · obtain ⟨u, hreport⟩ := scan.exists_report_apply s
    have hkept : (reached (scan.report s)).printed = s.printed :=
      scan.keeps_report (P := fun t => t.printed = s.printed) (fun _ _ h => h) s rfl
    rw [hreport, reached_ok] at hkept
    rw [Text.named] at h ⊢
    rw [filterFamilies, if_neg h, bind_of_ok (get_apply s), hscan,
      bind_of_ok (Action.ofExcept_ok _ _), bind_of_ok hreport, ← hkept]
    exact ⟨_, Action.forM_print_apply _ u, rfl⟩

/-- **A line for each project passed over and each property as it is named.** The lines go through the
projects outside the families asked for in the order of the workspace, and for each through the
properties in the order in which they are named. There is none where no family or no property is named.
A property named twice has two lines for each project: the lines are those of the properties without
repetitions exactly where there are no repetitions, or no projects to pass over. If the projects of the
workspace have keys of their own and their lines tell them apart, a line occurs as often as its property
is named. The command prints the lines of the workspace around it; where no family or no property is
named it prints nothing and looks at no workspace. -/
theorem lines_as_named (w : Workspace) (hkeys : (w.projects.map Pom.key).Nodup) :
    let properties := Text.named a.properties?
    let passed := x.passedOver a w
    let lines := skipProperties w (x.wantedFamilies a) properties
    lines = passed.flatMap (fun pom => properties.map pom.skipLine) ∧
    (x.wantedNames a = [] ∨ properties = [] → lines = []) ∧
    (lines = passed.flatMap (fun pom => properties.eraseDups.map pom.skipLine) ↔
      passed = [] ∨ properties.Nodup) ∧
    (TellsApart passed properties →
      (∀ pom ∈ passed, ∀ property ∈ properties,
        lines.count (pom.skipLine property) = properties.count property) ∧
      (lines.Nodup ↔ passed = [] ∨ properties.Nodup)) ∧
    ∀ s : Session σ,
      (x.wantedNames a = [] ∨ properties = [] →
        ∃ t, x.filterFamilies a s = .ok () t ∧ t.printed = s.printed) ∧
      ∀ scan, Workspace.scanAround (HasFiles.files s.host) x.directory = .ok scan →
        scan.workspace = w →
          ∃ t, x.filterFamilies a s = .ok () t ∧ t.printed = s.printed ++ lines := by
  intro properties passed lines
  have hlines : lines = passed.flatMap fun pom => properties.map pom.skipLine :=
    x.skipProperties_eq a w properties
  have hpassed : (passed.map Pom.key).Nodup :=
    hkeys.sublist ((x.passedOver_sublist a w).map _)
  refine ⟨hlines, ?_, ?_, fun hapart => ⟨?_, ?_⟩,
    fun s => ⟨fun h => x.filterFamilies_of_none a h s, ?_⟩⟩
  · rintro (h | h)
    · have hnone : passed = [] := if_pos h
      rw [hlines, hnone, List.flatMap_nil]
    · rw [hlines, h]
      simp
  · rw [hlines]
    exact skipLines_eq_iff
  · intro pom hpom property hproperty
    rw [hlines]
    exact count_skipLine hapart hpassed hpom hproperty
  · rw [hlines]
    exact nodup_skipLines_iff hapart hpassed
  · rintro scan hscan rfl
    exact x.filterFamilies_of_scan a s hscan

/-- With a list that names no family the one of the settings counts: of three projects two are passed
over, each by a line for each of two properties. -/
theorem lines_as_named_of_two :
    let root (folder : String) : Path := ⟨["ws", folder]⟩
    let project (folder group : String) : Pom :=
      ⟨(root folder).child "pom.xml", ⟨group, folder, "1.0.0"⟩, "jar"⟩
    let w := Workspace.ofFinds ⟨["ws"]⟩ [root "tool", root "core", root "map"]
      [project "map" "com.telenav.mesakit", project "core" "com.telenav.kivakit",
        project "tool" "com.telenav.cactus"]
    let x : CommandContext Host := ⟨Git.direct, Host.programs, ⟨["ws"]⟩,
      { Settings.standard with scope := ⟨.family, false, some "kivakit"⟩ }⟩
    let a : FilterArguments := ⟨none, some " , ", some "skip.tests, ,skip.docs"⟩
    (w.projects.map Pom.key).Nodup ∧ TellsApart (x.passedOver a w) (Text.named a.properties?) ∧
      skipProperties w (x.wantedFamilies a) (Text.named a.properties?) =
        ["com.telenav.mesakit:map skip.tests=true", "com.telenav.mesakit:map skip.docs=true",
          "com.telenav.cactus:tool skip.tests=true", "com.telenav.cactus:tool skip.docs=true"] ∧
      (skipProperties w (x.wantedFamilies a) (Text.named a.properties?)).Nodup := by
  intro root project w x a
  have hkeys : (w.projects.map Pom.key).Nodup := by decide +kernel
  have hapart : TellsApart (x.passedOver a w) (Text.named a.properties?) := .inr (by decide +kernel)
  obtain ⟨hlines, -, -, hcount, -⟩ := x.lines_as_named a w hkeys
  exact ⟨hkeys, hapart, hlines.trans (by decide +kernel),
    (hcount hapart).2.2 (.inr (by decide +kernel))⟩

/-- A property that is named twice has two lines for one project. -/
theorem line_repeated :
    let core : Pom :=
      ⟨⟨["ws", "core", "pom.xml"]⟩, ⟨"com.telenav.kivakit", "core", "1.0.0"⟩, "jar"⟩
    let w := Workspace.ofFinds ⟨["ws"]⟩ [] [core]
    let x : CommandContext Host := ⟨Git.direct, Host.programs, ⟨["ws"]⟩, Settings.standard⟩
    let a : FilterArguments := ⟨none, some "cactus", some "skip,skip"⟩
    let lines := skipProperties w (x.wantedFamilies a) (Text.named a.properties?)
    w.projects = [core] ∧
      lines = ["com.telenav.kivakit:core skip=true", "com.telenav.kivakit:core skip=true"] ∧
      (Text.named a.properties?).eraseDups.map core.skipLine =
        ["com.telenav.kivakit:core skip=true"] ∧
      ¬lines.Nodup := by
  decide +kernel

end CommandContext

end Grove
