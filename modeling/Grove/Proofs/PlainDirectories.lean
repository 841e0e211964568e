import Grove.Proofs.FileWrites

/-!
# Directories of files

In a directory that holds nothing but files every proper name leads to an entry of its own, and a
file of that name can be written. So files of different names are different files.

## What is proved

* `IsPlain.leadsTo_iff`, `IsPlain.apart` — where names lead in such a directory.
* `IsPlain.exists_write` — a file can be written there, and nothing else changes.
-/

namespace Grove

namespace Files

open Node

/-- A directory that holds nothing but files. -/
structure IsPlain (fs : Files) (loc : Location) : Prop where
  names : ∀ n ∈ loc, isUsable n = true
  entries : ∃ es, fs.top.get? loc = some (.directory es) ∧
    ∀ name n, es.lookup name = some n → n.isFile = true

variable {fs : Files} {loc l : Location} {name : String}

/-- The path of a file in such a directory leads there. -/
theorem IsPlain.leadsTo_iff (h : fs.IsPlain loc) (hname : isUsable name = true) :
    fs.LeadsTo (pathOf (loc ++ [name])) l ↔ l = loc ++ [name] := by
  obtain ⟨es, hdir, hfiles⟩ := h.entries
  have hlink : ∀ target, es.lookup name ≠ some (.link target) := fun target hlink => by
    have hfile := hfiles _ _ hlink
    simp [Node.isFile] at hfile
  have hplace := place_below_directory hdir h.names (List.forall_mem_singleton.2 hname)
  rw [follow_entry hname hdir hlink, follow] at hplace
  rw [LeadsTo, hplace]
  cases es.lookup name <;> simp [eq_comm]

theorem IsPlain.isDirectory (h : fs.IsPlain loc) : fs.isDirectory (pathOf loc) = true := by
  obtain ⟨es, hdir, -⟩ := h.entries
  have hplace := place_below_directory hdir h.names (List.forall_mem_nil _)
  rw [List.append_nil, follow] at hplace
  exact isDirectory_iff.2 ⟨loc, ⟨true, hplace⟩, kindAt_eq_directory_iff.2 ⟨es, hdir⟩⟩

theorem get?_concat_eq {top : Node} {es : List (String × Node)} {name : String}
    (hdir : top.get? loc = some (.directory es)) : top.get? (loc ++ [name]) = es.lookup name := by
  rw [get?_append, hdir, Option.bind_some, get?]
  cases es.lookup name <;> rfl

/-- A directory that a file is put in has the others that were there. -/
theorem IsPlain.putAt (h : fs.IsPlain loc) (content : ByteArray) (executable : Bool) :
    (fs.putAt (loc ++ [name]) (.file content executable)).IsPlain loc := by
  obtain ⟨es, hdir, hfiles⟩ := h.entries
  obtain ⟨es', hdir', hentry⟩ := exists_directory_of_get?_concat
    (get?_putAt fs (loc ++ [name]) (.file content executable))
  refine ⟨h.names, es', hdir', fun name' n hn => ?_⟩
  by_cases hsame : name' = name
  · subst hsame
    obtain rfl := Option.some.inj (hentry.symm.trans hn)
    rfl
  · have hapart : Node.Apart (loc ++ [name]) (loc ++ [name']) := by
      constructor <;> simp [hsame, Ne.symm hsame, List.prefix_append_right_inj]
    refine hfiles name' n ?_
    rw [← get?_concat_eq hdir, ← get?_put_of_apart hapart, ← hn, ← get?_concat_eq hdir']
    rfl

/-- A file can be written in such a directory, which then still holds nothing but files. -/
theorem IsPlain.exists_write (h : fs.IsPlain loc) (hname : isUsable name = true)
    (content : ByteArray) :
    ∃ fs', fs.write (pathOf (loc ++ [name])) content = .ok fs' ∧ fs'.IsPlain loc ∧
      ∀ l, Node.Apart loc l → fs'.top.get? l = fs.top.get? l := by
  obtain ⟨es, hdir, hfiles⟩ := h.entries
  obtain ⟨executable, hfits⟩ : ∃ executable, Fits fs.top (loc ++ [name]) executable := by
    cases hentry : es.lookup name with
    | none => exact ⟨false, .inr ⟨by rw [get?_concat_eq hdir, hentry], rfl⟩⟩
    | some n =>
      have hfile := hfiles name n hentry
      cases n with
      | file old executable =>
        exact ⟨executable, .inl ⟨old, by rw [get?_concat_eq hdir, hentry]⟩⟩
      | directory es => simp [Node.isFile] at hfile
      | link target => simp [Node.isFile] at hfile
  have hplain : (fs.putAt (loc ++ [name]) (.file content executable)).IsPlain loc :=
    h.putAt content executable
  refine ⟨_, write_eq_ok_iff.2 ⟨_, executable, (h.leadsTo_iff hname).2 rfl, hfits, rfl,
    (hplain.leadsTo_iff hname).2 rfl⟩, hplain, fun l hl => ?_⟩
  refine get?_put_of_apart ⟨fun hstart => hl.1 ?_, fun hstart => ?_⟩ ..
  · exact (List.prefix_append ..).trans hstart
  · rcases List.prefix_concat_iff.1 hstart with rfl | hstart
    · exact hl.1 (List.prefix_append ..)
    · exact hl.2 hstart

/-- Different names in such a directory lead to different places. -/
theorem IsPlain.apart (h : fs.IsPlain loc) {name' : String} (hname : isUsable name = true)
    (hname' : isUsable name' = true) (hne : name ≠ name') :
    fs.Apart (pathOf (loc ++ [name])) (pathOf (loc ++ [name'])) := by
  intro l hl hl'
  rw [h.leadsTo_iff hname] at hl
  rw [h.leadsTo_iff hname', hl] at hl'
  exact hne (by simpa using hl')

end Files

end Grove
