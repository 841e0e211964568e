import Grove.Proofs.SectionTables

/-!
# Sections read key by key

A section is read from a table entry by entry, over what holds when nothing is said. Every key has
its own place in the section: reading an entry changes the place of its key and no other, what it
puts there depends on the entry alone, and so does whether it can be read.

## What is proved

* `Reader.Fieldwise.of_read`, `Reader.Fieldwise.read_of_each` — what was read under a key is what
  its entry alone would have put there, and a table can be read if each of its entries can.
* `fieldwise_globalReader` and its siblings, `fieldwise_reader` — every section is read like this,
  and so is the table of sections.
* `shown_of_ofValue` — what settings show under a key is what the value under the key alone yields.
-/

namespace Grove.Settings

open KeyPath Value

variable {σ α β : Type}

/-- Two readings in a row go well if each does. -/
theorem except_bind_eq_ok {x : Except SettingsFault α} {f : α → Except SettingsFault β} {b : β} :
    (x >>= f) = .ok b ↔ ∃ a, x = .ok a ∧ f a = .ok b := by
  cases x with
  | error e => simp [bind, Except.bind]
  | ok a => simp [bind, Except.bind]

/-! ### Readers with a place for each key -/

/-- A reader that gives each key a place of its own, as a view of what was read tells. -/
structure Reader.Fieldwise (r : Reader σ) (view : σ → String → β) : Prop where
  other : ∀ {s s' : σ} {key : String} {v : Value}, r.put s key v = .ok s' →
    ∀ name, name ≠ key → view s' name = view s name
  own : ∀ {s s' : σ} {key : String} {v : Value}, r.put s key v = .ok s' →
    ∀ t, ∃ t', r.put t key v = .ok t' ∧ view t' key = view s' key

/-- What an entry does to a section: it is read by itself, and what was read is shown under its key
alone. -/
structure Placed (r : Reader σ) (view : σ → String → β) (key : String) (v : Value)
    (x : Except SettingsFault α) (f : σ → α → σ) (entry : α → β) : Prop where
  put : ∀ s, r.put s key v = x >>= fun a => pure (f s a)
  view : ∀ s a name, view (f s a) name = if name = key then entry a else view s name

namespace Reader.Fieldwise

variable {r : Reader σ} {view : σ → String → β}

theorem of_placed (h : ∀ key v, ∃ (α : Type) (x : Except SettingsFault α) (f : σ → α → σ)
    (entry : α → β), Placed r view key v x f entry) : r.Fieldwise view where
  other {s s' key v} hput name hne := by
    obtain ⟨α, x, f, entry, hplaced⟩ := h key v
    rw [hplaced.put, except_bind_eq_ok] at hput
    obtain ⟨a, -, hput⟩ := hput
    obtain rfl := Except.ok.inj hput
    rw [hplaced.view, if_neg hne]
  own {s s' key v} hput t := by
    obtain ⟨α, x, f, entry, hplaced⟩ := h key v
    rw [hplaced.put, except_bind_eq_ok] at hput
    obtain ⟨a, rfl, hput⟩ := hput
    obtain rfl := Except.ok.inj hput
    exact ⟨f t a, hplaced.put t, by rw [hplaced.view, hplaced.view, if_pos rfl, if_pos rfl]⟩

variable (h : r.Fieldwise view) {es : List (String × Value)} {initial s : σ}

include h

/-- What was read under a key is what its entry alone would have put there. -/
theorem of_read (hes : (es.map (·.1)).Nodup)
    (hread : es.foldlM (fun s (k, v) => r.put s k v) initial = .ok s) (key : String) :
    match es.lookup key with
    | none => view s key = view initial key
    | some v => ∃ t, r.put initial key v = .ok t ∧ view s key = view t key := by
  induction es generalizing initial with
  | nil =>
    obtain rfl := Except.ok.inj hread
    rfl
  | cons e rest ih =>
    obtain ⟨name, v⟩ := e
    obtain ⟨hfirst, hrest⟩ := List.nodup_cons.1 hes
    rw [List.foldlM_cons, except_bind_eq_ok] at hread
    obtain ⟨t, hput, hread⟩ := hread
    have hlater := ih hrest hread
    rw [List.lookup_cons]
    by_cases hname : key = name
    · -- no later entry has the key
      subst hname
      have hnone : rest.lookup key = none := by
        refine List.lookup_eq_none_iff.2 fun e he => bne_iff_ne.2 fun heq => hfirst ?_
        exact List.mem_map.2 ⟨e, he, heq.symm⟩
      rw [hnone] at hlater
      rw [beq_self_eq_true]
      exact ⟨t, hput, hlater⟩
    · rw [beq_eq_false_iff_ne.2 hname]
      have hsame := h.other hput key hname
      cases hlookup : rest.lookup key with
      | none =>
        rw [hlookup] at hlater
        exact hlater.trans hsame
      | some x =>
        rw [hlookup] at hlater
        obtain ⟨u, hu, hview⟩ := hlater
        obtain ⟨u', hu', hview'⟩ := h.own hu initial
        exact ⟨u', hu', hview.trans hview'.symm⟩

/-- A table can be read if each of its entries can. -/
theorem read_of_each (heach : ∀ e ∈ es, ∃ t, r.put initial e.1 e.2 = .ok t) :
    ∃ s, es.foldlM (fun s (k, v) => r.put s k v) initial = .ok s := by
  suffices hany : ∀ t, ∃ s, es.foldlM (fun s (k, v) => r.put s k v) t = .ok s from hany initial
  induction es with
  | nil => exact fun t => ⟨t, rfl⟩
  | cons e rest ih =>
    obtain ⟨⟨u, hu⟩, hrest⟩ := List.forall_mem_cons.1 heach
    intro t
    obtain ⟨t', ht', -⟩ := h.own hu t
    obtain ⟨s, hs⟩ := ih hrest t'
    exact ⟨s, by rw [List.foldlM_cons, except_bind_eq_ok]; exact ⟨t', ht', hs⟩⟩

/-- A table that was read has entries each of which can be read. -/
theorem each_of_read (hread : es.foldlM (fun s (k, v) => r.put s k v) initial = .ok s) :
    ∀ e ∈ es, ∃ t, r.put initial e.1 e.2 = .ok t := by
  suffices hany : ∀ t, es.foldlM (fun s (k, v) => r.put s k v) t = .ok s →
      ∀ e ∈ es, ∃ u, r.put initial e.1 e.2 = .ok u from hany initial hread
  clear hread
  induction es with
  | nil => simp
  | cons e rest ih =>
    intro t hread
    rw [List.foldlM_cons, except_bind_eq_ok] at hread
    obtain ⟨u, hput, hread⟩ := hread
    obtain ⟨u', hu', -⟩ := h.own hput initial
    exact List.forall_mem_cons.2 ⟨⟨u', hu'⟩, ih u hread⟩

end Reader.Fieldwise

/-- A reader that takes no table for a value. -/
def Reader.Plain (r : Reader σ) : Prop :=
  ∀ (s : σ) (key : String) (es : List (String × Value)), ∃ e, r.put s key (.table es) = .error e

/-! ### The sections -/

/-- What settings show under a key of a section. -/
def shown (s : Settings) (group key : String) : Option Value :=
  (s.sections.lookup group).bind (·.lookup key)

theorem lookup_cons_if {β : Type} (name key : String) (v : β) (es : List (String × β)) :
    ((key, v) :: es).lookup name = if name = key then some v else es.lookup name := by
  rw [List.lookup_cons]
  by_cases h : name = key
  · simp [h]
  · simp [h, beq_eq_false_iff_ne.2 h]

theorem lookup_shownIf (name key : String) (v? : Option Value) :
    (shownIf key v?).lookup name = if name = key then v? else none := by
  cases v? <;> simp [shownIf, lookup_cons_if]

/-- A key that no section has is read by none. -/
theorem placed_unknown {r : Reader σ} {view : σ → String → β} {key : String} {v : Value}
    (h : ∀ s, r.put s key v = .error (.unknownKey key)) :
    Placed (α := Empty) r view key v (.error (.unknownKey key)) (fun s _ => s) Empty.elim :=
  ⟨h, fun _ a => a.elim⟩

/-! #### Keys -/

theorem shown_global (g : GlobalSettings) (key : String) :
    ({ standard with global := g } : Settings).shown "global" key =
      if key = "output_log_level" then some (.integer g.consoleLevel.level)
      else if key = "file_log_level" then some (.integer g.fileLevel.level)
      else if key = "log_file" then g.logFile?.map .text
      else if key = "pretend" then some (.flag g.pretend)
      else none := by
  simp [shown, sections, lookup_cons_if, List.lookup_append, lookup_shownIf]
  grind

theorem fieldwise_globalReader : globalReader.Fieldwise fun g key =>
    ({ standard with global := g } : Settings).shown "global" key := by
  refine .of_placed fun key v => ?_
  simp only [shown_global]
  by_cases h : key ∈ globalReader.keys
  · simp only [globalReader, List.mem_cons, List.not_mem_nil, or_false] at h
    rcases h with rfl | rfl | rfl | rfl
    · exact ⟨_, _, fun g a => { g with consoleLevel := a }, fun a => some (.integer a.level),
        fun _ => rfl, by grind⟩
    · exact ⟨_, _, fun g a => { g with fileLevel := a }, fun a => some (.integer a.level),
        fun _ => rfl, by grind⟩
    · exact ⟨_, _, fun g a => { g with logFile? := a }, fun a => a.map .text, fun _ => rfl,
        by grind⟩
    · exact ⟨_, _, fun g a => { g with pretend := a }, fun a => some (.flag a), fun _ => rfl,
        by grind⟩
  · simp only [globalReader, List.mem_cons, List.not_mem_nil, or_false, not_or] at h
    exact ⟨_, _, _, _, placed_unknown fun s => by simp [globalReader, h]⟩

theorem plain_globalReader : globalReader.Plain := by
  intro s key es
  simp only [globalReader]
  split <;> exact ⟨_, rfl⟩

theorem shown_scope (o : ScopeSettings) (key : String) :
    ({ standard with scope := o } : Settings).shown "scope" key =
      if key = "scope" then some (.text o.scope.name)
      else if key = "include_root" then some (.flag o.includeRoot)
      else if key = "family" then o.family?.map .text
      else none := by
  simp [shown, sections, lookup_cons_if, lookup_shownIf]

theorem fieldwise_scopeReader : scopeReader.Fieldwise fun o key =>
    ({ standard with scope := o } : Settings).shown "scope" key := by
  refine .of_placed fun key v => ?_
  simp only [shown_scope]
  by_cases h : key ∈ scopeReader.keys
  · simp only [scopeReader, List.mem_cons, List.not_mem_nil, or_false] at h
    rcases h with rfl | rfl | rfl
    · exact ⟨_, _, fun o a => { o with scope := a }, fun a => some (.text a.name),
        fun _ => (bind_assoc _ _ _).symm, by grind⟩
    · exact ⟨_, _, fun o a => { o with includeRoot := a }, fun a => some (.flag a), fun _ => rfl,
        by grind⟩
    · exact ⟨_, _, fun o a => { o with family? := a }, fun a => a.map .text, fun _ => rfl, by grind⟩
  · simp only [scopeReader, List.mem_cons, List.not_mem_nil, or_false, not_or] at h
    exact ⟨_, _, _, _, placed_unknown fun s => by simp [scopeReader, h]⟩

theorem plain_scopeReader : scopeReader.Plain := by
  intro s key es
  simp only [scopeReader]
  split <;> exact ⟨_, rfl⟩

theorem shown_merge (m : MergeSettings) (key : String) :
    ({ standard with merge := m } : Settings).shown "merge" key =
      if key = "into" then some (.text m.into)
      else if key = "tag" then some (.flag m.tag)
      else if key = "push" then some (.flag m.push)
      else if key = "delete_merged" then some (.flag m.deleteMerged)
      else if key = "require_clean" then some (.flag m.requireClean)
      else none := by
  simp [shown, sections, lookup_cons_if]

theorem fieldwise_mergeReader : mergeReader.Fieldwise fun m key =>
    ({ standard with merge := m } : Settings).shown "merge" key := by
  refine .of_placed fun key v => ?_
  simp only [shown_merge]
  by_cases h : key ∈ mergeReader.keys
  · simp only [mergeReader, List.mem_cons, List.not_mem_nil, or_false] at h
    rcases h with rfl | rfl | rfl | rfl | rfl
    · exact ⟨_, _, fun m a => { m with into := a }, fun a => some (.text a), fun _ => rfl, by grind⟩
    · exact ⟨_, _, fun m a => { m with tag := a }, fun a => some (.flag a), fun _ => rfl, by grind⟩
    · exact ⟨_, _, fun m a => { m with push := a }, fun a => some (.flag a), fun _ => rfl, by grind⟩
    · exact ⟨_, _, fun m a => { m with deleteMerged := a }, fun a => some (.flag a), fun _ => rfl,
        by grind⟩
    · exact ⟨_, _, fun m a => { m with requireClean := a }, fun a => some (.flag a), fun _ => rfl,
        by grind⟩
  · simp only [mergeReader, List.mem_cons, List.not_mem_nil, or_false, not_or] at h
    exact ⟨_, _, _, _, placed_unknown fun s => by simp [mergeReader, h]⟩

theorem plain_mergeReader : mergeReader.Plain := by
  intro s key es
  simp only [mergeReader]
  split <;> exact ⟨_, rfl⟩

theorem shown_docs (d : DocumentationSettings) (key : String) :
    ({ standard with docs := d } : Settings).shown "docs" key =
      if key = "command" then some (.text d.command)
      else if key = "args" then some (.list (d.arguments.map .text))
      else if key = "update_readme" then some (.flag d.updateReadme)
      else if key = "overwrite_resources" then some (.flag d.overwriteResources)
      else if key = "commit_changes" then some (.flag d.commitChanges)
      else none := by
  simp [shown, sections, lookup_cons_if]

theorem fieldwise_docsReader : docsReader.Fieldwise fun d key =>
    ({ standard with docs := d } : Settings).shown "docs" key := by
  refine .of_placed fun key v => ?_
  simp only [shown_docs]
  by_cases h : key ∈ docsReader.keys
  · simp only [docsReader, List.mem_cons, List.not_mem_nil, or_false] at h
    rcases h with rfl | rfl | rfl | rfl | rfl
    · exact ⟨_, _, fun d a => { d with command := a }, fun a => some (.text a), fun _ => rfl,
        by grind⟩
    · exact ⟨_, _, fun d a => { d with arguments := a }, fun a => some (.list (a.map .text)),
        fun _ => rfl, by grind⟩
    · exact ⟨_, _, fun d a => { d with updateReadme := a }, fun a => some (.flag a), fun _ => rfl,
        by grind⟩
    · exact ⟨_, _, fun d a => { d with overwriteResources := a }, fun a => some (.flag a),
        fun _ => rfl, by grind⟩
    · exact ⟨_, _, fun d a => { d with commitChanges := a }, fun a => some (.flag a), fun _ => rfl,
        by grind⟩
  · simp only [docsReader, List.mem_cons, List.not_mem_nil, or_false, not_or] at h
    exact ⟨_, _, _, _, placed_unknown fun s => by simp [docsReader, h]⟩

theorem plain_docsReader : docsReader.Plain := by
  intro s key es
  simp only [docsReader]
  split <;> exact ⟨_, rfl⟩

theorem shown_statistics (c : StatisticsSettings) (key : String) :
    ({ standard with statistics := c } : Settings).shown "codeflowers" key =
      if key = "indent" then some (.flag c.indent)
      else if key = "source_glob" then some (.text c.sources)
      else if key = "tolerate_version_inconsistencies" then some (.list (c.tolerated.map .text))
      else none := by
  simp [shown, sections, lookup_cons_if]

theorem fieldwise_statisticsReader : statisticsReader.Fieldwise fun c key =>
    ({ standard with statistics := c } : Settings).shown "codeflowers" key := by
  refine .of_placed fun key v => ?_
  simp only [shown_statistics]
  by_cases h : key ∈ statisticsReader.keys
  · simp only [statisticsReader, List.mem_cons, List.not_mem_nil, or_false] at h
    rcases h with rfl | rfl | rfl
    · exact ⟨_, _, fun c a => { c with indent := a }, fun a => some (.flag a), fun _ => rfl,
        by grind⟩
    · exact ⟨_, _, fun c a => { c with sources := a }, fun a => some (.text a), fun _ => rfl,
        by grind⟩
    · exact ⟨_, _, fun c a => { c with tolerated := a }, fun a => some (.list (a.map .text)),
        fun _ => rfl, by grind⟩
  · simp only [statisticsReader, List.mem_cons, List.not_mem_nil, or_false, not_or] at h
    exact ⟨_, _, _, _, placed_unknown fun s => by simp [statisticsReader, h]⟩

theorem plain_statisticsReader : statisticsReader.Plain := by
  intro s key es
  simp only [statisticsReader]
  split <;> exact ⟨_, rfl⟩

theorem shown_scan (c : ScanSettings) (key : String) :
    ({ standard with scan := c } : Settings).shown "scan" key =
      if key = "threads" then c.threads?.map fun (n : Nat) => .integer n else none := by
  obtain ⟨threads?⟩ := c
  cases threads? <;> simp [shown, sections, lookup_cons_if, shownIf]

theorem fieldwise_scanReader : scanReader.Fieldwise fun c key =>
    ({ standard with scan := c } : Settings).shown "scan" key := by
  refine .of_placed fun key v => ?_
  simp only [shown_scan]
  by_cases h : key = "threads"
  · subst h
    exact ⟨_, _, fun c a => { c with threads? := a }, fun a => a.map fun (n : Nat) => .integer n,
      fun _ => rfl, by grind⟩
  · exact ⟨_, _, _, _, placed_unknown fun s => by simp [scanReader]⟩

theorem plain_scanReader : scanReader.Plain := by
  intro s key es
  simp only [scanReader]
  split <;> exact ⟨_, rfl⟩

/-! #### The table of sections -/

theorem fieldwise_reader : reader.Fieldwise fun s group => s.sections.lookup group := by
  refine .of_placed fun group v => ?_
  simp only [sections, lookup_cons_if]
  by_cases h : group ∈ reader.keys
  · simp only [reader, List.mem_cons, List.not_mem_nil, or_false] at h
    rcases h with rfl | rfl | rfl | rfl | rfl | rfl
    · exact ⟨_, _, fun s a => { s with global := a },
        fun a => ({ standard with global := a } : Settings).sections.lookup "global", fun _ => rfl,
        by simp only [sections, lookup_cons_if]; grind⟩
    · exact ⟨_, _, fun s a => { s with scope := a },
        fun a => ({ standard with scope := a } : Settings).sections.lookup "scope", fun _ => rfl,
        by simp only [sections, lookup_cons_if]; grind⟩
    · exact ⟨_, _, fun s a => { s with merge := a },
        fun a => ({ standard with merge := a } : Settings).sections.lookup "merge", fun _ => rfl,
        by simp only [sections, lookup_cons_if]; grind⟩
    · exact ⟨_, _, fun s a => { s with docs := a },
        fun a => ({ standard with docs := a } : Settings).sections.lookup "docs", fun _ => rfl,
        by simp only [sections, lookup_cons_if]; grind⟩
    · exact ⟨_, _, fun s a => { s with statistics := a },
        fun a => ({ standard with statistics := a } : Settings).sections.lookup "codeflowers",
        fun _ => rfl, by simp only [sections, lookup_cons_if]; grind⟩
    · exact ⟨_, _, fun s a => { s with scan := a },
        fun a => ({ standard with scan := a } : Settings).sections.lookup "scan", fun _ => rfl,
        by simp only [sections, lookup_cons_if]; grind⟩
  · simp only [reader, List.mem_cons, List.not_mem_nil, or_false, not_or] at h
    exact ⟨_, _, _, _, placed_unknown fun s => by simp [reader, h]⟩

/-- How a section is read from a table: under a key it shows what the entry of the key alone would
show, and what holds when nothing is said where there is none; and no value in it is a table. -/
structure SectionRead (group : String) : Prop where
  shown_of_put : ∀ {s t : Settings} {es : List (String × Value)}, (es.map (·.1)).Nodup →
    reader.put s group (.table es) = .ok t → ∀ key, match es.lookup key with
      | none => t.shown group key = standard.shown group key
      | some v => ∃ alone, reader.put standard group (.table [(key, v)]) = .ok alone ∧
          t.shown group key = alone.shown group key
  plain : ∀ (s : Settings) (key : String) (es : List (String × Value)),
    ∃ e, reader.put s group (.table [(key, .table es)]) = .error e
  put_iff : ∀ (s : Settings) (es : List (String × Value)),
    (∃ t, reader.put s group (.table es) = .ok t) ↔
      ∀ e ∈ es, ∃ t, reader.put standard group (.table [e]) = .ok t

/-- A section that a reader with a place for each key reads. -/
theorem SectionRead.of_fieldwise {group : String} {r : Reader σ} {initial : σ}
    {f : Settings → σ → Settings}
    (hput : ∀ s v, reader.put s group v = r.read group initial v >>= fun a => pure (f s a))
    (hshown : ∀ s a key, (f s a).shown group key = (f standard a).shown group key)
    (hinitial : f standard initial = standard)
    (hr : r.Fieldwise fun a key => (f standard a).shown group key) (hplain : r.Plain) :
    SectionRead group where
  shown_of_put {s t es} hes hread key := by
    rw [hput, except_bind_eq_ok] at hread
    obtain ⟨a, hread, hput'⟩ := hread
    obtain rfl := Except.ok.inj hput'
    have hkey := hr.of_read hes hread key
    rw [hinitial] at hkey
    cases hlookup : es.lookup key with
    | none =>
      rw [hlookup] at hkey
      exact (hshown s a key).trans hkey
    | some v =>
      rw [hlookup] at hkey
      obtain ⟨b, hb, hview⟩ := hkey
      refine ⟨f standard b, ?_, (hshown s a key).trans hview⟩
      rw [hput, except_bind_eq_ok]
      exact ⟨b, by simp [Reader.read, hb], rfl⟩
  plain s key es := by
    obtain ⟨e, he⟩ := hplain initial key es
    exact ⟨e, by simp [hput, Reader.read, he, bind, Except.bind]⟩
  put_iff s es := by
    have hput_iff : ∀ s es, (∃ t, reader.put s group (.table es) = .ok t) ↔
        ∃ a, es.foldlM (fun a (k, v) => r.put a k v) initial = .ok a := by
      intro s es
      simp only [hput, except_bind_eq_ok]
      exact ⟨fun ⟨_, a, hread, _⟩ => ⟨a, hread⟩, fun ⟨a, hread⟩ => ⟨_, a, hread, rfl⟩⟩
    have hone : ∀ e, (∃ t, reader.put standard group (.table [e]) = .ok t) ↔
        ∃ a, r.put initial e.1 e.2 = .ok a := by
      intro e
      rw [hput_iff]
      simp
    rw [hput_iff]
    simp only [hone]
    exact ⟨fun ⟨a, hread⟩ => hr.each_of_read hread, hr.read_of_each⟩

theorem sectionRead {group : String} (h : group ∈ reader.keys) : SectionRead group := by
  simp only [reader, List.mem_cons, List.not_mem_nil, or_false] at h
  rcases h with rfl | rfl | rfl | rfl | rfl | rfl
  · exact .of_fieldwise (f := fun s a => { s with global := a }) (fun _ _ => rfl)
      (by simp [shown, sections, lookup_cons_if]) rfl fieldwise_globalReader plain_globalReader
  · exact .of_fieldwise (f := fun s a => { s with scope := a }) (fun _ _ => rfl)
      (by simp [shown, sections, lookup_cons_if]) rfl fieldwise_scopeReader plain_scopeReader
  · exact .of_fieldwise (f := fun s a => { s with merge := a }) (fun _ _ => rfl)
      (by simp [shown, sections, lookup_cons_if]) rfl fieldwise_mergeReader plain_mergeReader
  · exact .of_fieldwise (f := fun s a => { s with docs := a }) (fun _ _ => rfl)
      (by simp [shown, sections, lookup_cons_if]) rfl fieldwise_docsReader plain_docsReader
  · exact .of_fieldwise (f := fun s a => { s with statistics := a }) (fun _ _ => rfl)
      (by simp [shown, sections, lookup_cons_if]) rfl fieldwise_statisticsReader
      plain_statisticsReader
  · exact .of_fieldwise (f := fun s a => { s with scan := a }) (fun _ _ => rfl)
      (by simp [shown, sections, lookup_cons_if]) rfl fieldwise_scanReader plain_scanReader

/-- Only the table of the known sections is read. -/
theorem group_mem_of_put {s t : Settings} {group : String} {v : Value}
    (h : reader.put s group v = .ok t) : group ∈ reader.keys := by
  refine Decidable.byContradiction fun hgroup => ?_
  simp only [reader, List.mem_cons, List.not_mem_nil, or_false, not_or] at hgroup
  simp [reader, hgroup] at h

/-! ### Whole settings -/

theorem ofValue_table (es : List (String × Value)) :
    ofValue (.table es) = es.foldlM (fun s (k, v) => reader.put s k v) standard := rfl

theorem ofValue_single {group : String} {v : Value} {s : Settings} :
    ofValue (.table [(group, v)]) = .ok s ↔ reader.put standard group v = .ok s := by
  rw [ofValue_table]
  simp

/-- What settings show under a key is what the value under the key alone yields, and what holds when
nothing is said where there is none. -/
theorem shown_of_ofValue {es : List (String × Value)} (hroot : (Value.table es).Orderly)
    {s : Settings} (hread : ofValue (.table es) = .ok s) {group : String}
    (hgroup : ∀ v, es.lookup group = some v → v.isTable = true) (key : String) :
    match slot group key (.table es) with
    | none => s.shown group key = standard.shown group key
    | some v => ∃ alone, ofValue (.table [(group, .table [(key, v)])]) = .ok alone ∧
        s.shown group key = alone.shown group key := by
  have hsections := fieldwise_reader.of_read hroot.distinct_entries hread group
  rw [entries_table] at hsections
  rw [slot, sectionOf, entries_table]
  cases hlookup : es.lookup group with
  | none =>
    rw [hlookup] at hsections
    show s.shown group key = standard.shown group key
    rw [shown, hsections, shown]
  | some v =>
    rw [hlookup] at hsections
    obtain ⟨es', rfl⟩ := isTable_iff.1 (hgroup v hlookup)
    obtain ⟨t, hput, hview⟩ := hsections
    have horderly : (Value.table es').Orderly := hroot.below_entries _ (mem_of_lookup hlookup)
    have hkey := (sectionRead (group_mem_of_put hput)).shown_of_put horderly.distinct_entries hput
      key
    have hshown : s.shown group key = t.shown group key := by rw [shown, hview, shown]
    rw [entries_table] at hkey
    rw [Option.getD_some, entries_table, hshown]
    cases hlookup' : es'.lookup key with
    | none =>
      rw [hlookup'] at hkey
      exact hkey
    | some x =>
      rw [hlookup'] at hkey
      obtain ⟨alone, halone, hview'⟩ := hkey
      exact ⟨alone, ofValue_single.2 halone, hview'⟩

/-- No key takes a table for its value. -/
theorem isTable_of_ofValue_single {group key : String} {v : Value} {s : Settings}
    (h : ofValue (.table [(group, .table [(key, v)])]) = .ok s) : v.isTable = false := by
  rw [ofValue_single] at h
  cases v with
  | table es =>
    obtain ⟨e, he⟩ := (sectionRead (group_mem_of_put h)).plain standard key es
    rw [he] at h
    simp at h
  | _ => rfl

end Grove.Settings
