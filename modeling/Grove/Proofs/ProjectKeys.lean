import Grove.Proofs.PendingVersions

/-!
# Projects as keys

Pending changes are kept by project, and what tells two projects apart there is their order: the
path, then the coordinates. The packaging takes no part in it, though projects that differ in their
packaging are different projects. So the order is an order, but a coarser one than equality asks for:
two projects with one file and one name are one key, whatever their packaging, and a change
recorded or taken back for the one is recorded or taken back for the other.

## What is proved

* `Pom.order_eq_eq_iff`, `Pom.same_iff_order` — which projects compare as equal, and what they lack
  to be the same.
* `PendingVersions.get?_after_append` — calls for other keys leave a project's changes as they were.
* `PendingVersions.get?_congr` — projects with one key share their changes.
* `PendingVersions.keys_tell_apart` — the order, and which calls leave which changes as they were.
* `PendingVersions.packaging_not_told` — a change recorded for one of two different projects turns
  up for the other.
-/

namespace Grove

/-! ### The order of projects -/

theorem Coordinates.order_eq_eq_iff {a b : Coordinates} : a.order b = .eq ↔ a = b := by
  obtain ⟨group, artifact, version⟩ := a
  obtain ⟨group', artifact', version'⟩ := b
  simp [order, Ordering.then_eq_eq, and_assoc]

namespace Pom

/-- Projects compare as equal if their paths are alike and they have the same coordinates. -/
theorem order_eq_eq_iff {a b : Pom} :
    a.order b = .eq ↔ a.path.alike b.path = true ∧ a.coordinates = b.coordinates := by
  rw [order, Ordering.then_eq_eq, Path.alike_iff_order, Coordinates.order_eq_eq_iff]

/-- What compares as equal is the same if it has the same packaging. -/
theorem same_iff_order {a b : Pom} :
    a.same b = true ↔ a.order b = .eq ∧ a.packaging = b.packaging := by
  rw [order_eq_eq_iff, same]
  simp

end Pom

namespace PendingVersions

/-! ### Calls and keys -/

/-- The project whose changes a call records or takes back. -/
def Call.pom? : Call → Option Pom
  | .change _ pom _ => some pom
  | .remove _ pom => some pom
  | .hasChanges | .mark | .or _ => Option.none

/-- A call for another key spares the changes of a project. -/
theorem Call.spares_of_pom? {call : Call} {pom : Pom}
    (h : ∀ other, call.pom? = some other → pom.order other ≠ .eq) (owner : VersionOwner) :
    call.Spares owner pom := by
  intro c? hsettles
  cases hsettles with
  | change heq c => exact h _ rfl heq
  | remove heq => exact h _ rfl heq

/-- Calls for other keys leave the changes of a project as they were. -/
theorem get?_after_append {pom : Pom} {later : List Call}
    (h : ∀ call ∈ later, ∀ other, call.pom? = some other → pom.order other ≠ .eq)
    (calls : List Call) (owner : VersionOwner) :
    (after (calls ++ later)).get? owner pom = (after calls).get? owner pom := by
  induction later using List.reverseRecOn with
  | nil => rw [List.append_nil]
  | append_singleton later call ih =>
    obtain ⟨hlater, hcall⟩ := List.forall_mem_append.1 h
    rw [← List.append_assoc, after_concat,
      get?_of_spares (Call.spares_of_pom? (hcall call (by simp)) owner), ih hlater]

/-- Projects with one key share their changes. -/
theorem get?_congr {a b : Pom} (h : a.order b = .eq) (v : PendingVersions) (owner : VersionOwner) :
    v.get? owner a = v.get? owner b :=
  Ordered.get?_congr Pom.order h (v.of owner)

/-- A call spares the changes of another project whatever went before, exactly if it is for another
key. -/
theorem forall_get?_after_concat_iff {a b : Pom} :
    (∀ calls call owner, call.pom? = some a →
      (after (calls ++ [call])).get? owner b = (after calls).get? owner b) ↔ b.order a ≠ .eq := by
  constructor
  · intro h heq
    -- the first change of all that is recorded for `a` turns up for `b`
    let change : Call := .change .project a default
    have hfound : (after [change]).get? .project b = some default :=
      (get?_after [change]).2 ⟨[], change, [], rfl, .change heq _, by simp⟩
    have hnone : (after []).get? .project b = Option.none := rfl
    have hsame := h [] change .project rfl
    rw [List.nil_append, hfound, hnone] at hsame
    cases hsame
  · intro hne calls call owner hcall
    refine get?_after_append (fun call' hcall' other hother => ?_) calls owner
    obtain rfl := List.mem_singleton.1 hcall'
    obtain rfl := Option.some.inj (hcall.symm.trans hother)
    exact hne

/-- **The order tells keys apart, not projects.** The order of projects is total and transitive.
Projects compare as equal exactly if their paths are alike and they have the same coordinates; to be
the same they need the same packaging too. After any run, recording or taking back a change for one
project leaves the changes of another one and of its parent as they were, exactly if the two do not
compare as equal; if they do, they have the same changes. -/
theorem keys_tell_apart (a b : Pom) :
    b.order a = (a.order b).swap ∧
    (a.le b = true ∨ b.le a = true) ∧
    (∀ c, a.le b = true → b.le c = true → a.le c = true) ∧
    (a.order b = .eq ↔ a.path.alike b.path = true ∧ a.coordinates = b.coordinates) ∧
    (a.same b = true ↔ a.order b = .eq ∧ a.packaging = b.packaging) ∧
    ((∀ calls call owner, call.pom? = some a →
      (after (calls ++ [call])).get? owner b = (after calls).get? owner b) ↔ a.order b ≠ .eq) ∧
    (a.order b = .eq →
      ∀ calls owner, (after calls).get? owner a = (after calls).get? owner b) := by
  have hswap : b.order a = (a.order b).swap := Std.OrientedCmp.eq_swap
  refine ⟨hswap, Bool.or_eq_true _ _ ▸ Pom.le_total a b, fun _ => Pom.le_trans,
    Pom.order_eq_eq_iff, Pom.same_iff_order, ?_, fun h calls => get?_congr h (after calls)⟩
  rw [forall_get?_after_concat_iff, ne_eq, ne_eq, hswap, Ordering.swap_eq_eq]

/-- Two versions of one file are two keys: a change taken back for the one stays pending for the
other. -/
theorem keys_tell_apart_by_version :
    let core (version : String) : Pom :=
      ⟨Path.ofString "core/pom.xml", ⟨"org.kivakit", "core", version⟩, "jar"⟩
    let calls := [.change .project (core "1.0.0") ⟨"1.0.0", "1.1.0"⟩,
      .change .project (core "1.1.0") ⟨"1.1.0", "1.2.0"⟩]
    (core "1.0.0").order (core "1.1.0") ≠ .eq ∧
    (after (calls ++ [.remove .project (core "1.0.0")])).get? .project (core "1.1.0") =
      some ⟨"1.1.0", "1.2.0"⟩ := by
  intro core calls
  have hne : (core "1.0.0").order (core "1.1.0") ≠ .eq := by decide +kernel
  obtain ⟨-, -, -, -, -, hspares, -⟩ := keys_tell_apart (core "1.0.0") (core "1.1.0")
  exact ⟨hne, (hspares.2 hne calls _ .project rfl).trans (by decide +kernel)⟩

/-- Two projects that differ in their packaging are different and compare as equal. A change recorded
for the one turns up for the other, and taking it back for the other loses it. -/
theorem packaging_not_told :
    let core (packaging : String) : Pom :=
      ⟨Path.ofString "core/pom.xml", ⟨"org.kivakit", "core", "1.0.0"⟩, packaging⟩
    let change : Call := .change .project (core "jar") ⟨"1.0.0", "1.1.0"⟩
    (core "jar").same (core "pom") = false ∧ (core "jar").order (core "pom") = .eq ∧
    (after []).get? .project (core "pom") = Option.none ∧
    (after [change]).get? .project (core "pom") = some ⟨"1.0.0", "1.1.0"⟩ ∧
    (after [change, .remove .project (core "pom")]).get? .project (core "jar") = Option.none := by
  decide +kernel

end PendingVersions

end Grove
