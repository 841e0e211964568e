import Grove.Proofs.SettingLayers

/-!
# Settings in variables

A variable of the environment gives a key a value, and the value is guessed from its text: a truth
value or a number if it reads as one. A key that needs a text gets the number or truth value written
out again, which need not be the text that was given. A key that needs a list gets one only where
the text is guessed to be neither. The variables are applied in the order of their listing, which may
be any.

## What is proved

* `OneMore.laid` — one more assignment to a key changes that key alone, if what follows spares it.
* `OneMore.readable`, `OneMore.exists_alone` — then settings can be read as before exactly if the
  new value can be read by itself.
* `OneMore.shown_here`, `OneMore.shown_others` — they show under the key what the value yields by
  itself, and in other sections what they showed.
* `isPlain_of_comma` — a text with a comma reads as neither a truth value nor a number.
* `splitString_intercalate` — the items of a list are found between the commas.
* `variables_respelled` — what becomes of texts and lists in variables.
* `variables_not_kept` — a text that changes and a list that is refused.
-/

namespace Grove

namespace Settings

open KeyPath Value

/-! ### One more assignment -/

/-- Whether setting something at a path leaves a section and one of its keys alone. -/
def Spares (group key : String) (p : KeyPath) : Bool :=
  p.first ≠ group ||
    match p.rest with
    | .key name :: _ => name ≠ key
    | _ => false

theorem spares_iff {group key : String} {p : KeyPath} : Spares group key p = true ↔
    p.first ≠ group ∨ ∃ name rest, p.rest = .key name :: rest ∧ name ≠ key := by
  obtain ⟨first, rest⟩ := p
  rcases rest with - | ⟨⟨name⟩ | i, rest⟩ <;> simp [Spares]

/-- A value that differs from another by what a key of a section holds, and is a table there. -/
structure OneMore (group key : String) (v root root' : Value) : Prop where
  table : ∃ es, root'.entries.lookup group = some (.table es)
  here : slot group key root' = some v
  elsewhere : ∀ name, name ≠ key → slot group name root' = slot group name root
  others : ∀ name, name ≠ group → root'.entries.lookup name = root.entries.lookup name

theorem merge_of_isTable_eq_false {v : Value} (h : v.isTable = false) (old : Value) :
    KeyPath.merge old v = v := by
  cases v with
  | table es => simp [isTable] at h
  | _ => rfl

namespace OneMore

variable {group key : String} {v root root' : Value}

theorem set (hv : v.isTable = false) (root : Value) :
    OneMore group key v root ((ofSection group key).set v root) := by
  have hsection : sectionOf group ((ofSection group key).set v root) =
      .table (putEntry key v (sectionOf group root).entries) := by
    simp [sectionOf_set, ofSection, change, merge_of_isTable_eq_false hv]
  refine ⟨?_, ?_, fun name hname => ?_, fun name hname => ?_⟩
  · rw [lookup_set]
    exact ⟨_, if_pos rfl⟩
  · rw [slot, hsection, entries_table, lookup_putEntry, if_pos rfl]
  · rw [slot, hsection, entries_table, lookup_putEntry, if_neg hname, slot]
  · rw [lookup_set]
    exact if_neg hname

/-- An assignment that spares the key keeps the difference. -/
theorem step (h : OneMore group key v root root') {p : KeyPath} (hp : Spares group key p = true)
    (new : Value) : OneMore group key v (p.set new root) (p.set new root') := by
  obtain ⟨first, rest⟩ := p
  by_cases hfirst : first = group
  · -- another key of the section
    subst hfirst
    obtain hfirst | ⟨name, rest, rfl, hname⟩ := spares_iff.1 hp
    · exact absurd rfl hfirst
    have hslot : ∀ root k, slot first k (KeyPath.set ⟨first, .key name :: rest⟩ new root) =
        if k = name then
          some (change (KeyPath.merge · new) rest ((slot first name root).getD .absent))
        else slot first k root := by
      intro root k
      rw [slot, sectionOf_set, if_pos rfl, change, entries_table, lookup_putEntry]
      rfl
    refine ⟨?_, ?_, fun k hk => ?_, fun k hk => ?_⟩
    · rw [lookup_set]
      exact ⟨_, if_pos rfl⟩
    · rw [hslot, if_neg hname.symm, h.here]
    · rw [hslot, hslot, h.elsewhere name hname, h.elsewhere k hk]
    · rw [lookup_set, lookup_set, if_neg hk, if_neg hk, h.others k hk]
  · -- another section
    have hkept : ∀ root, sectionOf group (KeyPath.set ⟨first, rest⟩ new root) =
        sectionOf group root := by
      intro root
      rw [sectionOf_set, if_neg (Ne.symm hfirst)]
    have hsame : sectionOf first root' = sectionOf first root := by
      rw [sectionOf, h.others first hfirst, sectionOf]
    refine ⟨?_, ?_, fun k hk => ?_, fun k hk => ?_⟩
    · rw [lookup_set, if_neg (Ne.symm hfirst)]
      exact h.table
    · rw [slot, hkept, ← slot, h.here]
    · rw [slot, slot, hkept, hkept, ← slot, ← slot, h.elsewhere k hk]
    · rw [lookup_set, lookup_set, hsame, h.others k hk]

/-- Assignments that spare the key keep the difference. -/
theorem run (h : OneMore group key v root root') {layer : List (KeyPath × Value)}
    (hlayer : ∀ a ∈ layer, Spares group key a.1 = true) :
    OneMore group key v (laid root layer) (laid root' layer) := by
  induction layer generalizing root root' with
  | nil => exact h
  | cons a rest ih =>
    obtain ⟨ha, hrest⟩ := List.forall_mem_cons.1 hlayer
    exact ih (h.step ha a.2) hrest

/-- One more assignment to a key changes that key alone, if what follows spares it. -/
theorem laid (hv : v.isTable = false) (lower : List (KeyPath × Value))
    {upper : List (KeyPath × Value)} (hupper : ∀ a ∈ upper, Spares group key a.1 = true) :
    OneMore group key v (Settings.laid (.table []) (lower ++ upper))
      (Settings.laid (.table []) (lower ++ (ofSection group key, v) :: upper)) := by
  rw [laid_append, laid_append]
  exact (set hv (Settings.laid (.table []) lower)).run hupper

section

variable {es es' : List (String × Value)} (h : OneMore group key v (.table es) (.table es'))

include h

/-- What can be read with one more key has a value there that can be read by itself. -/
theorem exists_alone {t : Settings} (hread : ofValue (.table es') = .ok t) :
    ∃ alone, ofValue (.table [(group, .table [(key, v)])]) = .ok alone := by
  obtain ⟨inner, hinner⟩ := h.table
  have hsection := fieldwise_reader.each_of_read hread _ (mem_of_lookup hinner)
  have hslot := h.here
  rw [slot, sectionOf, hinner] at hslot
  obtain ⟨u, hu⟩ := hsection
  obtain ⟨alone, halone⟩ := ((sectionRead (group_mem_of_put hu)).put_iff standard inner).1 ⟨u, hu⟩
    (key, v) (mem_of_lookup hslot)
  exact ⟨alone, ofValue_single.2 halone⟩

variable (hes' : (Value.table es').Orderly)

include hes'

/-- What can be read can be read with one more key, if its value can be read by itself. -/
theorem readable {s alone : Settings} (hread : ofValue (.table es) = .ok s)
    (halone : ofValue (.table [(group, .table [(key, v)])]) = .ok alone) :
    ∃ t, ofValue (.table es') = .ok t := by
  have hreader := sectionRead (group_mem_of_put (ofValue_single.1 halone))
  have heach := fieldwise_reader.each_of_read hread
  refine fieldwise_reader.read_of_each fun ⟨name, x⟩ hmem => ?_
  have hlookup := lookup_of_mem hes'.distinct_entries hmem
  by_cases hname : name = group
  · -- the section, entry by entry
    subst hname
    obtain ⟨inner, hinner⟩ := h.table
    obtain rfl := Option.some.inj (hlookup.symm.trans hinner)
    refine (hreader.put_iff standard inner).2 fun ⟨k, y⟩ hy => ?_
    have horderly : (Value.table inner).Orderly := hes'.below_entries _ hmem
    have hslot : slot name k (.table es') = some y := by
      rw [slot, sectionOf, hinner]
      exact lookup_of_mem horderly.distinct_entries hy
    by_cases hk : k = key
    · subst hk
      obtain rfl := Option.some.inj (hslot.symm.trans h.here)
      exact ⟨alone, ofValue_single.1 halone⟩
    · rw [h.elsewhere k hk, slot, sectionOf, entries_table] at hslot
      cases hbefore : es.lookup name with
      | none => simp [hbefore, entries] at hslot
      | some z =>
        rw [hbefore, Option.getD_some] at hslot
        cases z with
        | table inner' =>
          exact (hreader.put_iff standard inner').1 (heach _ (mem_of_lookup hbefore)) (k, y)
            (mem_of_lookup hslot)
        | _ => simp [entries] at hslot
  · exact heach (name, x) (mem_of_lookup (by rw [← hlookup]; exact (h.others name hname).symm))

/-- With one more key settings show under it what its value yields by itself. -/
theorem shown_here {t alone : Settings} (hread : ofValue (.table es') = .ok t)
    (halone : ofValue (.table [(group, .table [(key, v)])]) = .ok alone) :
    t.shown group key = alone.shown group key := by
  obtain ⟨inner, hinner⟩ := h.table
  have htable : ∀ x, es'.lookup group = some x → x.isTable = true := by
    intro x hx
    obtain rfl := Option.some.inj (hx.symm.trans hinner)
    rfl
  have hshown := shown_of_ofValue hes' hread htable key
  rw [h.here] at hshown
  obtain ⟨alone', halone', hshown⟩ := hshown
  obtain rfl := Except.ok.inj (halone.symm.trans halone')
  exact hshown

/-- With one more key settings show in other sections what they showed. -/
theorem shown_others {s t : Settings} (hes : (Value.table es).Orderly)
    (hread : ofValue (.table es) = .ok s) (hread' : ofValue (.table es') = .ok t) {name : String}
    (hname : name ≠ group) (k : String) : t.shown name k = s.shown name k := by
  have hsections := fieldwise_reader.of_read hes.distinct_entries hread name
  have hsections' := fieldwise_reader.of_read hes'.distinct_entries hread' name
  have hsame : es'.lookup name = es.lookup name := h.others name hname
  rw [entries_table] at hsections hsections'
  rw [hsame] at hsections'
  rw [shown, shown]
  cases hlookup : es.lookup name with
  | none =>
    rw [hlookup] at hsections hsections'
    rw [hsections, hsections']
  | some x =>
    rw [hlookup] at hsections hsections'
    obtain ⟨u, hu, hview⟩ := hsections
    obtain ⟨u', hu', hview'⟩ := hsections'
    obtain rfl := Except.ok.inj (hu.symm.trans hu')
    rw [hview, hview']

end

end OneMore

/-! ### Texts of variables -/

/-- Whether the text of a variable reads as neither a truth value nor a number. -/
def isPlain (text : String) : Bool :=
  Value.lower text ≠ "true" && Value.lower text ≠ "false" &&
    ((Decimal.int? text.toList).filter Decimal.isSigned).isNone &&
    (Decimal.float? text.toList).isNone

/-- What becomes of the text of a variable where a text is needed. -/
def respelled (text : String) : String :=
  if Value.lower text = "true" then "true"
  else if Value.lower text = "false" then "false"
  else
    match (Decimal.int? text.toList).filter Decimal.isSigned with
    | some n => toString n
    | none => (Decimal.float? text.toList).elim text Decimal.floatText

section

variable {text : String}

theorem isPlain_iff : isPlain text = true ↔ Value.lower text ≠ "true" ∧ Value.lower text ≠ "false" ∧
    (Decimal.int? text.toList).filter Decimal.isSigned = none ∧
      Decimal.float? text.toList = none := by
  simp only [isPlain, Bool.and_eq_true, decide_eq_true_eq, Option.isNone_iff_eq_none, ne_eq,
    and_assoc]

/-- A text that reads as nothing else is kept. -/
theorem respelled_of_isPlain (h : isPlain text = true) : respelled text = text := by
  obtain ⟨htrue, hfalse, hint, hfloat⟩ := isPlain_iff.1 h
  rw [respelled, if_neg htrue, if_neg hfalse, hint, hfloat]
  rfl

theorem variableValue_of_isPlain (h : isPlain text = true) (key : String) :
    variableValue key text =
      if key ∈ listKeys then .list ((Text.splitString ',' text).map .text) else .text text := by
  obtain ⟨htrue, hfalse, hint, hfloat⟩ := isPlain_iff.1 h
  simp only [variableValue, if_neg htrue, if_neg hfalse, hint, hfloat]

/-- A text that reads as something else is taken for no list, and written out again for a text. -/
theorem variableValue_of_not_isPlain (h : isPlain text = false) (key : String) :
    (variableValue key text).isTable = false ∧ (variableValue key text).asTexts? = none ∧
      (variableValue key text).asText? = some (respelled text) := by
  simp only [variableValue, respelled]
  by_cases htrue : Value.lower text = "true"
  · simp only [if_pos htrue]
    exact ⟨rfl, rfl, rfl⟩
  by_cases hfalse : Value.lower text = "false"
  · simp only [if_neg htrue, if_pos hfalse]
    exact ⟨rfl, rfl, rfl⟩
  simp only [if_neg htrue, if_neg hfalse]
  cases hint : (Decimal.int? text.toList).filter Decimal.isSigned with
  | some n => exact ⟨rfl, rfl, rfl⟩
  | none =>
    cases hfloat : Decimal.float? text.toList with
    | some x => exact ⟨rfl, rfl, rfl⟩
    | none =>
      have hplain := isPlain_iff.2 ⟨htrue, hfalse, hint, hfloat⟩
      simp [h] at hplain

theorem isTable_variableValue (key text : String) : (variableValue key text).isTable = false := by
  cases hplain : isPlain text with
  | true =>
    rw [variableValue_of_isPlain hplain]
    split <;> rfl
  | false => exact (variableValue_of_not_isPlain hplain key).1

theorem asText?_variableValue {key : String} (hkey : key ∉ listKeys) (text : String) :
    (variableValue key text).asText? = some (respelled text) := by
  cases hplain : isPlain text with
  | true =>
    rw [variableValue_of_isPlain hplain, if_neg hkey, respelled_of_isPlain hplain]
    rfl
  | false => exact (variableValue_of_not_isPlain hplain key).2.2

theorem asTexts?_map_text (ts : List String) : (Value.list (ts.map .text)).asTexts? = some ts := by
  induction ts with
  | nil => rfl
  | cons t rest ih =>
    rw [asTexts?] at ih ⊢
    rw [List.map_cons, List.mapM_cons, ih]
    rfl

theorem asTexts?_variableValue {key : String} (hkey : key ∈ listKeys) (text : String) :
    (variableValue key text).asTexts? =
      if isPlain text = true then some (Text.splitString ',' text) else none := by
  cases hplain : isPlain text with
  | true => rw [variableValue_of_isPlain hplain, if_pos hkey, if_pos rfl, asTexts?_map_text]
  | false => exact (variableValue_of_not_isPlain hplain key).2.1

end

/-! #### Commas -/

theorem mem_dropWhile {α : Type} {p : α → Bool} {x : α} {xs : List α} (hx : x ∈ xs)
    (hp : p x = false) : x ∈ xs.dropWhile p := by
  rw [← List.takeWhile_append_dropWhile (p := p) (l := xs), List.mem_append] at hx
  refine hx.resolve_left fun htake => ?_
  simp [List.all_eq_true.1 List.all_takeWhile x htake] at hp

section

variable {cs : List Char}

theorem mem_takeSign (h : ',' ∈ cs) : ',' ∈ (Decimal.takeSign cs).2 := by
  rw [Decimal.takeSign.eq_def]
  split <;> simp_all

theorem int?_of_comma (h : ',' ∈ cs) : Decimal.int? cs = none := by
  have hdigits : Decimal.areDigits (Decimal.takeSign cs).2 = false := by
    simp only [Decimal.areDigits, Bool.and_eq_false_iff, List.all_eq_false]
    exact .inr ⟨',', mem_takeSign h, by decide⟩
  simp [Decimal.int?, hdigits]

theorem exponent?_of_comma (h : ',' ∈ cs) : Decimal.exponent? cs = none := by
  cases cs with
  | nil => simp at h
  | cons c rest =>
    rw [Decimal.exponent?]
    split
    · next hc =>
      have hne : ',' ≠ c := by rintro rfl; simp at hc
      exact int?_of_comma ((List.mem_cons.1 h).resolve_left hne)
    · rfl

theorem unsignedFloat?_of_comma (h : ',' ∈ cs) : Decimal.unsignedFloat? cs = none := by
  have hdigit : Char.isDigit ',' = false := by decide
  have hrest : ',' ∈ cs.dropWhile Char.isDigit := mem_dropWhile h hdigit
  rw [Decimal.unsignedFloat?]
  generalize cs.dropWhile Char.isDigit = rest at hrest
  split
  next fraction after hafter =>
  have hcomma : ',' ∈ after := by
    split at hafter
    · next rest' =>
      obtain rfl := (Prod.mk.inj hafter).2
      exact mem_dropWhile ((List.mem_cons.1 hrest).resolve_left (by decide)) hdigit
    · obtain rfl := (Prod.mk.inj hafter).2
      exact hrest
  simp only [exponent?_of_comma hcomma]
  split <;> rfl

theorem floatWord?_of_comma (h : ',' ∈ cs) : Decimal.floatWord? cs = none := by
  have hword : ∀ word : String, ',' ∉ word.toList → String.ofList (cs.map Char.toLower) ≠ word := by
    rintro word hword rfl
    refine hword ?_
    rw [String.toList_ofList]
    exact List.mem_map.2 ⟨',', h, by decide⟩
  rw [Decimal.floatWord?, if_neg, if_neg]
  · exact hword _ (by decide)
  · exact not_or.2 ⟨hword _ (by decide), hword _ (by decide)⟩

theorem float?_of_comma (h : ',' ∈ cs) : Decimal.float? cs = none := by
  have hbody := mem_takeSign h
  simp [Decimal.float?, floatWord?_of_comma hbody, unsignedFloat?_of_comma hbody]

end

/-- A text with a comma reads as neither a truth value nor a number. -/
theorem isPlain_of_comma {text : String} (h : ',' ∈ text.toList) : isPlain text = true := by
  have hlower : ∀ word : String, ',' ∉ word.toList → Value.lower text ≠ word := by
    rintro word hword rfl
    refine hword ?_
    rw [Value.lower, String.toList_ofList]
    exact List.mem_map.2 ⟨',', h, by decide⟩
  refine isPlain_iff.2 ⟨hlower _ (by decide), hlower _ (by decide), ?_, float?_of_comma h⟩
  rw [int?_of_comma h]
  rfl

/-- The items of a list are found between the commas. -/
theorem splitString_intercalate {ts : List String} (hne : ts ≠ [])
    (hts : ∀ t ∈ ts, ',' ∉ t.toList) : Text.splitString ',' (",".intercalate ts) = ts := by
  have hcomma : "," = String.singleton ',' := rfl
  rw [hcomma, Text.splitString_intercalate hne hts]

/-- A list of two or more items has a comma in it. -/
theorem mem_intercalate {ts : List String} (h : 2 ≤ ts.length) :
    ',' ∈ (",".intercalate ts).toList := by
  match ts, h with
  | t :: u :: rest, _ => simp

/-! ### Keys that hold texts -/

/-- A key whose setting is a text and can be set in a variable. -/
inductive TextKey where
  /-- The branch merged into. -/
  | branch
  /-- The program that makes documentation. -/
  | program
  /-- The family to use. -/
  | family
  /-- The pattern of the source files. -/
  | sources

namespace TextKey

/-- The section of the key. -/
def group : TextKey → String
  | branch => "merge"
  | program => "docs"
  | family => "scope"
  | sources => "codeflowers"

/-- The name of the key. -/
def key : TextKey → String
  | branch => "into"
  | program => "command"
  | family => "family"
  | sources => "source_glob"

/-- The key with its section, as variables name it. -/
def path (k : TextKey) : String :=
  k.group ++ "." ++ k.key

/-- The setting of the key. -/
def get? : TextKey → Settings → Option String
  | branch, s => some s.merge.into
  | program, s => some s.docs.command
  | family, s => s.scope.family?
  | sources, s => some s.statistics.sources

theorem topKey_path (k : TextKey) : topKey k.path = ofSection k.group k.key := by
  cases k <;> decide

theorem path_notMem_listKeys (k : TextKey) : k.path ∉ listKeys := by
  cases k <;> decide

theorem shown_eq (k : TextKey) (s : Settings) : s.shown k.group k.key = (k.get? s).map .text := by
  cases k
  · exact shown_merge s.merge "into"
  · exact shown_docs s.docs "command"
  · exact shown_scope s.scope "family"
  · exact shown_statistics s.statistics "source_glob"

/-- A value that is taken for a text can be read under the key, and the setting is the text. -/
theorem exists_alone (k : TextKey) {v : Value} {text : String} (hv : v.asText? = some text) :
    ∃ alone, ofValue (.table [(k.group, .table [(k.key, v)])]) = .ok alone ∧
      k.get? alone = some text := by
  have htaken : ∀ key, taken Value.asText? key v = .ok text := fun key => by rw [taken, hv]
  have hoptional : ∀ key, optional Value.asText? key v = .ok (some text) := by
    intro key
    have hpresent : v ≠ .absent := by
      rintro rfl
      simp [asText?] at hv
    rw [optional, htaken]
    · rfl
    · exact hpresent
  cases k with
  | branch =>
    refine ⟨{ standard with merge := { standard.merge with into := text } }, ?_, rfl⟩
    simp [ofValue_single, reader, Reader.read, mergeReader, group, key, htaken]
  | program =>
    refine ⟨{ standard with docs := { standard.docs with command := text } }, ?_, rfl⟩
    simp [ofValue_single, reader, Reader.read, docsReader, group, key, htaken]
  | family =>
    refine ⟨{ standard with scope := { standard.scope with family? := some text } }, ?_, rfl⟩
    simp [ofValue_single, reader, Reader.read, scopeReader, group, key, hoptional]
  | sources =>
    refine ⟨{ standard with statistics := { standard.statistics with sources := text } }, ?_, rfl⟩
    simp [ofValue_single, reader, Reader.read, statisticsReader, group, key, htaken]

end TextKey

/-- The key that holds the arguments of the program that makes documentation. -/
def argumentsPath : String := "docs.args"

theorem shown_arguments (s : Settings) :
    s.shown "docs" "args" = some (.list (s.docs.arguments.map .text)) :=
  shown_docs s.docs "args"

/-- Arguments can be read from a value exactly if it is taken for a list of texts. -/
theorem arguments_alone_iff {v : Value} {alone : Settings} :
    ofValue (.table [("docs", .table [("args", v)])]) = .ok alone ↔
      ∃ ts, v.asTexts? = some ts ∧
        { standard with docs := { standard.docs with arguments := ts } } = alone := by
  rw [ofValue_single]
  cases hv : v.asTexts? <;>
    simp [reader, Reader.read, docsReader, taken, hv, bind, Except.bind, pure, Except.pure]

theorem arguments_eq_of_shown {t alone : Settings}
    (h : t.shown "docs" "args" = alone.shown "docs" "args") :
    t.docs.arguments = alone.docs.arguments := by
  rw [shown_arguments, shown_arguments, Option.some.injEq, Value.list.injEq] at h
  exact (List.map_inj_right fun _ _ => Value.text.inj).1 h

end Settings

namespace CommandLine.Arguments

open Settings (Layers Source Spares Value OneMore TextKey KeyPath variableKey? variableValue
  variableLayer topKey respelled isPlain)

/-! ### Variables of a run -/

/-- A key that no option gives is spared by the options. -/
theorem spares_overrides {a : Arguments} {group key : String} (h : a.flag? group key = none) :
    ∀ x ∈ a.layers.overrides, Spares group key x.1 = true := by
  rw [layers_eq]
  refine Settings.Flag.forall_foldl (fun f hf v hv => ?_) (List.forall_mem_nil _)
  have hnone := List.findSome?_eq_none_iff.1 h f (List.mem_reverse.2 hf)
  rw [Settings.Flag.gives?, hv] at hnone
  by_cases hgroup : f.group = group
  · refine Settings.spares_iff.2 (.inr ⟨f.key, [], rfl, fun hkey => ?_⟩)
    rw [if_pos ⟨hgroup, hkey⟩] at hnone
    cases hnone
  · exact Settings.spares_iff.2 (.inl hgroup)

section

variable {a : Arguments} {host : Host} {after : List (String × String)}
  {name path group key : String} (hname : variableKey? Settings.variableWord name = some path)
  (hpath : topKey path = .ofSection group key)
  (hafter : ∀ x ∈ variableLayer after, Spares group key x.1 = true)
  (hflag : a.flag? group key = none)

include hname hpath hafter hflag

/-- A variable gives its key a value and changes nothing else, if nothing above it gives the key
one. -/
theorem oneMore_variable (lower : List (List (KeyPath × Value)))
    (before : List (String × String)) (text : String) :
    OneMore group key (variableValue path text)
      (Settings.laid (.table [])
        (lower ++ [variableLayer (before ++ after), a.layers.overrides]).flatten)
      (Settings.laid (.table []) (lower ++
        [variableLayer (before ++ (name, text) :: after), a.layers.overrides]).flatten) := by
  have happend : ∀ after, variableLayer (before ++ after) =
      variableLayer before ++ variableLayer after := by
    intro after
    simp [variableLayer, Settings.variableEntries, Settings.assigned]
  have hcons : variableLayer ((name, text) :: after) =
      (.ofSection group key, variableValue path text) :: variableLayer after := by
    simp [variableLayer, Settings.variableEntries, Settings.assigned, hname, hpath]
  have hupper : ∀ x ∈ variableLayer after ++ a.layers.overrides, Spares group key x.1 = true :=
    List.forall_mem_append.2 ⟨hafter, spares_overrides hflag⟩
  have hone := OneMore.laid (Settings.isTable_variableValue path text)
    (lower.flatten ++ variableLayer before) hupper
  rw [happend, happend, hcons]
  simpa using hone

/-- A run can be told by a variable as well what it can be told without it, if the value can be read
by itself. -/
theorem load_variable {before : List (String × String)} {text : String} {s alone : Settings}
    (hload : a.layers.load { host with environment := before ++ after } = .ok s)
    (halone : Settings.ofValue (.table [(group, .table [(key, variableValue path text)])]) =
      .ok alone) :
    ∃ t, a.layers.load { host with environment := before ++ (name, text) :: after } = .ok t ∧
      t.shown group key = alone.shown group key ∧
      ∀ group', group' ≠ group → ∀ k, t.shown group' k = s.shown group' k := by
  obtain ⟨here, named, hhere, hnamed, hread⟩ := load_iff.1 hload
  have hone := oneMore_variable hname hpath hafter hflag (here :: named) before text
  obtain ⟨es, hes, horderly⟩ := Settings.exists_laid
    (here :: named ++ [variableLayer (before ++ after), a.layers.overrides]).flatten
  obtain ⟨es', hes', horderly'⟩ := Settings.exists_laid
    (here :: named ++ [variableLayer (before ++ (name, text) :: after), a.layers.overrides]).flatten
  rw [hes, hes'] at hone
  rw [hes] at hread
  obtain ⟨t, ht⟩ := hone.readable horderly' hread halone
  refine ⟨t, load_iff.2 ⟨here, named, hhere, hnamed, hes' ▸ ht⟩,
    hone.shown_here horderly' ht halone, fun group' hgroup' k => ?_⟩
  exact hone.shown_others horderly' horderly hread ht hgroup' k

/-- What settings can be loaded with has a value under the key that can be read by itself. -/
theorem exists_alone_of_load {before : List (String × String)} {text : String} {t : Settings}
    (hload : a.layers.load { host with environment := before ++ (name, text) :: after } = .ok t) :
    ∃ alone, Settings.ofValue (.table [(group, .table [(key, variableValue path text)])]) =
      .ok alone := by
  obtain ⟨here, named, -, -, hread⟩ := load_iff.1 hload
  have hone := oneMore_variable hname hpath hafter hflag (here :: named) before text
  obtain ⟨es, hes, -⟩ := Settings.exists_laid
    (here :: named ++ [variableLayer (before ++ after), a.layers.overrides]).flatten
  obtain ⟨es', hes', -⟩ := Settings.exists_laid
    (here :: named ++ [variableLayer (before ++ (name, text) :: after), a.layers.overrides]).flatten
  rw [hes'] at hread
  rw [hes, hes'] at hone
  exact hone.exists_alone hread

end

/-- No option gives the arguments of the program that makes documentation. -/
theorem flag?_arguments (a : Arguments) : a.flag? "docs" "args" = none := by
  have hnames : ∀ f ∈ a.flags, (f.group, f.key) ≠ ("docs", "args") := by
    obtain ⟨global, command?⟩ := a
    rcases command? with - | c
    · simp [flags, GlobalArguments.flags]
    · cases c <;>
        simp [flags, GlobalArguments.flags, Command.flags, ScopeArguments.flags]
  refine List.findSome?_eq_none_iff.2 fun f hf => if_neg ?_
  rintro ⟨hgroup, hkey⟩
  exact hnames f (List.mem_reverse.1 hf) (by rw [hgroup, hkey])

/-- **What variables make of texts and lists.** Where settings can be loaded without a variable they
can be loaded with one for a key that holds a text, if no later variable and no option says anything
about the key. No other section changes, and the key has the text of the variable as it is spelled
after it was read, which is the text itself where that reads as neither a truth value nor a number.
A list of texts without commas, joined by commas, is found item by item, unless it has a single item
that reads as a truth value or a number: then no settings can be loaded. A later variable is one that
is applied later: the environment promises no order, and this is said of every listing of it. -/
theorem variables_respelled {a : Arguments} {host : Host} {before after : List (String × String)}
    {s : Settings} (hload : a.layers.load { host with environment := before ++ after } = .ok s)
    (name text : String) :
    (∀ k : TextKey, variableKey? Settings.variableWord name = some k.path →
      (∀ x ∈ variableLayer after, Spares k.group k.key x.1 = true) →
      a.flag? k.group k.key = none →
      ∃ t, a.layers.load { host with environment := before ++ (name, text) :: after } = .ok t ∧
        (∀ group, group ≠ k.group → ∀ key, t.shown group key = s.shown group key) ∧
        k.get? t = some (respelled text) ∧ (isPlain text = true → k.get? t = some text)) ∧
    (variableKey? Settings.variableWord name = some Settings.argumentsPath →
      (∀ x ∈ variableLayer after, Spares "docs" "args" x.1 = true) →
      ∀ ts, ts ≠ [] → (∀ t ∈ ts, ',' ∉ t.toList) → text = ",".intercalate ts →
        if ts.length = 1 ∧ isPlain text = false then
          ∀ t, a.layers.load { host with environment := before ++ (name, text) :: after } ≠ .ok t
        else
          ∃ t, a.layers.load { host with environment := before ++ (name, text) :: after } = .ok t ∧
            t.docs.arguments = ts) := by
  refine ⟨fun k hname hafter hflag => ?_, fun hname hafter ts hne hts htext => ?_⟩
  · obtain ⟨alone, halone, hget⟩ :=
      k.exists_alone (Settings.asText?_variableValue k.path_notMem_listKeys text)
    obtain ⟨t, ht, hshown, hothers⟩ :=
      load_variable hname k.topKey_path hafter hflag hload halone
    rw [k.shown_eq, k.shown_eq] at hshown
    have hsame : k.get? t = k.get? alone :=
      (Option.map_inj_right fun _ _ => Value.text.inj).1 hshown
    refine ⟨t, ht, hothers, hsame.trans hget, fun hplain => ?_⟩
    rw [hsame, hget, Settings.respelled_of_isPlain hplain]
  · have hpath : topKey Settings.argumentsPath = .ofSection "docs" "args" := by decide
    have hlist := @Settings.asTexts?_variableValue Settings.argumentsPath (by decide) text
    split
    · next hsingle =>
      -- the value is no list
      intro t ht
      obtain ⟨alone, halone⟩ := exists_alone_of_load hname hpath hafter (flag?_arguments a) ht
      obtain ⟨ts', hts', -⟩ := Settings.arguments_alone_iff.1 halone
      rw [hlist, hsingle.2] at hts'
      cases hts'
    · next hother =>
      have hplain : isPlain text = true := by
        rw [not_and, Bool.not_eq_false] at hother
        by_cases hone : ts.length = 1
        · exact hother hone
        · have hpositive := List.length_pos_iff.2 hne
          exact Settings.isPlain_of_comma (htext ▸ Settings.mem_intercalate (by omega))
      rw [hplain, if_pos rfl, htext, Settings.splitString_intercalate hne hts] at hlist
      obtain ⟨t, ht, hshown, -⟩ := load_variable hname hpath hafter (flag?_arguments a) hload
        (Settings.arguments_alone_iff.2 ⟨ts, htext ▸ hlist, rfl⟩)
      exact ⟨t, ht, Settings.arguments_eq_of_shown hshown⟩

theorem variables_respelled_listing :
    let host environment := sampleHost environment []
    ∃ s t u, (listing []).layers.load (host []) = .ok s ∧
      (listing []).flag? "merge" "into" = none ∧
      (listing []).layers.load (host [("CACTUS_MERGE__INTO", "main")]) = .ok t ∧
      t.merge.into = "main" ∧
      (listing []).layers.load (host [("CACTUS_DOCS__ARGS", "5,6")]) = .ok u ∧
      u.docs.arguments = ["5", "6"] := by
  intro host
  have hlocal : (Source.optional Settings.localFile).entries (host []).files = .ok [] :=
    Settings.entries_localFile rfl rfl rfl
  have hload : (listing []).layers.load { host [] with environment := [] ++ [] } =
      .ok { Settings.standard with scope := ⟨.all, true, none⟩ } := by
    rw [layers_eta, Layers.load, Layers.settings, Layers.assignments, List.mapM_cons, hlocal]
    decide +kernel
  obtain ⟨t, ht, -, -, hinto⟩ := (variables_respelled hload "CACTUS_MERGE__INTO" "main").1
    .branch (by decide +kernel) (List.forall_mem_nil _) rfl
  have hlist := (variables_respelled hload "CACTUS_DOCS__ARGS" "5,6").2 (by decide +kernel)
    (List.forall_mem_nil _) ["5", "6"] (by decide) (by decide) (by decide +kernel)
  rw [if_neg (by decide)] at hlist
  obtain ⟨u, hu, harguments⟩ := hlist
  exact ⟨_, t, u, hload, rfl, ht, Option.some.inj (hinto (by decide +kernel)), hu, harguments⟩

/-- A branch with leading zeros loses them, and a single argument in digits is refused. -/
theorem variables_not_kept :
    let host environment := sampleHost environment []
    (∃ s, (listing []).layers.load (host [("CACTUS_MERGE__INTO", "007")]) = .ok s ∧
        s.merge.into = "7") ∧
      ∀ s, (listing []).layers.load (host [("CACTUS_DOCS__ARGS", "5")]) ≠ .ok s := by
  intro host
  have hlocal : ∀ environment, (Source.optional Settings.localFile).entries
      (host environment).files = .ok [] := fun _ => Settings.entries_localFile rfl rfl rfl
  refine ⟨⟨{ Settings.standard with
      scope := ⟨.all, true, none⟩
      merge := { Settings.standard.merge with into := "7" } }, ?_, rfl⟩, fun s hload => ?_⟩
  · rw [layers_eta, Layers.load, Layers.settings, Layers.assignments, List.mapM_cons, hlocal]
    decide +kernel
  · have hunfit : (listing []).layers.settings (host [("CACTUS_DOCS__ARGS", "5")]) =
        .error (.unfit "args") := by
      rw [layers_eta, Layers.settings, Layers.assignments, List.mapM_cons, hlocal]
      decide +kernel
    rw [Layers.load, hunfit] at hload
    cases hload

end CommandLine.Arguments

end Grove
