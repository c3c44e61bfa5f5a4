import Upkeeper.Library.Machine
import Upkeeper.UpkList.Ops
/-!
# Runs of the list macros

A run takes the macros in any order from `UPKLIST_INIT`. A `UPKLIST_FOREACH` pass is the macro `foreachInit`, then
for each iteration the macros of its body and `foreachContinue`; a `break` just stops there. So every sequence of
list operations and passes, whatever stands in the bodies, is a run, and its every intermediate point too.

Next to the list runs the sequence it is meant to be (`intend`): the current node is the one `thisp` points to. The
macros leave the cursor where the next one does not expect it, so a run represents that sequence exactly as long as
every macro finds the cursor in the place it was written for (`Fits`).
-/

namespace Upkeeper.UpkList

variable {α : Type} {L L' : UpkList α} {l : List Addr}

/-- The list macros, with `UPKLIST_FOREACH` taken apart. -/
inductive Macro
  | append
  | prepend
  | head
  | foreachInit
  | foreachContinue
  | appendThis
  | prependThis
  | unlink
  deriving DecidableEq, Repr

/-- Run one macro. -/
def exec [Inhabited α] (L : UpkList α) : Macro → Option (UpkList α)
  | .append => L.append
  | .prepend => L.prepend
  | .head => L.headThis
  | .foreachInit => L.foreachInit
  | .foreachContinue => L.foreachContinue
  | .appendThis => L.appendThis
  | .prependThis => L.prependThis
  | .unlink => L.unlink

/-- What the macro is meant to do to the sequence of nodes: add last, add first, insert after or before the current
node, remove the current node. New nodes are allocated at `fresh`. -/
def intend (L : UpkList α) (m : Macro) (l : List Addr) : List Addr :=
  match m, L.thisp with
  | .append, _ => l ++ [L.fresh]
  | .prepend, _ => L.fresh :: l
  | .appendThis, some a => insertAfter a L.fresh l
  | .prependThis, some a => insertBefore a L.fresh l
  | .unlink, some a => l.erase a
  | _, _ => l

/-- The cursor and the counter are as the macro needs them: `UPKLIST_APPEND` links the new last node to `nextp`,
`UPKLIST_PREPEND` moves `tail` unless there is a `nextp`, and the macros at the current node trust `prevp` and `nextp`
to be its neighbours. -/
def Fits (L : UpkList α) : Macro → Prop
  | .append => L.nextp = none ∧ L.count ≠ 0xffffffff
  | .prepend => (L.head ≠ none → L.nextp ≠ none) ∧ L.count ≠ 0xffffffff
  | .head => True
  | .foreachInit => True
  | .foreachContinue => True
  | .appendThis => L.thisp ≠ none ∧ L.NextOk ∧ L.count ≠ 0xffffffff
  | .prependThis => L.thisp ≠ none ∧ L.PrevOk ∧ L.nextp ≠ none ∧ L.count ≠ 0xffffffff
  | .unlink => L.thisp = none ∨ L.PrevOk ∧ L.NextOk

theorem Inv.split (h : Inv L l) {a : Addr} (hthis : L.thisp = some a) :
    ∃ l₁ l₂, l = l₁ ++ a :: l₂ ∧ a ∉ l₁ := by
  obtain ⟨l₁, l₂, rfl⟩ := List.append_of_mem (h.thisp_mem a hthis)
  exact ⟨l₁, l₂, rfl, (notMem_of_nodup h.nodup).1⟩

/-- An insertion at a `NULL` cursor counts a node that no sequence gains. -/
theorem not_rep_of_count (h : Inv L l) (hcount : L'.count = L.count + 1) : ¬ Rep L' l := by
  intro hrep
  have h' : (L.count + 1).toNat = L.count.toNat := by rw [← hcount, hrep.count, h.count]
  rw [UInt32.toNat_inj] at h'
  simp at h'

variable [Inhabited α] {m : Macro}

/-- **A macro that finds the cursor in its place does what it is meant to do.** -/
theorem exec_inv (h : Inv L l) (hm : L.Fits m) : ∃ L', L.exec m = some L' ∧ Inv L' (L.intend m l) := by
  cases m with
  | append => simpa [exec, intend] using append_inv h hm.1 hm.2
  | prepend => simpa [exec, intend] using prepend_inv h hm.1 hm.2
  | head => simpa [exec, intend, headThis] using foreachInit_inv h
  | foreachInit => simpa [exec, intend] using foreachInit_inv h
  | foreachContinue => simpa [exec, intend] using foreachContinue_inv h
  | appendThis =>
    obtain ⟨hthis, hnext, hcount⟩ := hm
    obtain ⟨a, ha⟩ := Option.ne_none_iff_exists'.mp hthis
    obtain ⟨l₁, l₂, rfl, hl₁⟩ := h.split ha
    obtain ⟨L', hL', hinv⟩ := appendThis_inv h ha ((h.nextOk_iff ha).mp hnext) hcount
    refine ⟨L', hL', ?_⟩
    simpa [intend, ha, insertAfter_append_cons hl₁] using hinv
  | prependThis =>
    obtain ⟨hthis, hprev, hnext, hcount⟩ := hm
    obtain ⟨a, ha⟩ := Option.ne_none_iff_exists'.mp hthis
    obtain ⟨l₁, l₂, rfl, hl₁⟩ := h.split ha
    obtain ⟨L', hL', hinv⟩ := prependThis_inv h ha ((h.prevOk_iff ha).mp hprev) hnext hcount
    refine ⟨L', hL', ?_⟩
    simpa [intend, ha, insertBefore_append_cons hl₁] using hinv
  | unlink =>
    rcases hthis : L.thisp with _ | a
    · exact ⟨L, unlink_eq_self hthis, by simpa [intend, hthis] using h⟩
    · obtain ⟨hprev, hnext⟩ := hm.resolve_left (by simp [hthis])
      obtain ⟨l₁, l₂, rfl, hl₁⟩ := h.split hthis
      obtain ⟨L', hL', hinv⟩ :=
        unlink_inv h hthis ((h.prevOk_iff hthis).mp hprev) ((h.nextOk_iff hthis).mp hnext)
      refine ⟨L', hL', ?_⟩
      simpa [intend, hthis, erase_append_cons hl₁] using hinv

/-- **Only a macro that finds the cursor in its place does what it is meant to do.** -/
theorem exec_needs (h : Inv L l) (hL' : L.exec m = some L') (hrep : Rep L' (L.intend m l)) : L.Fits m := by
  cases m with
  | append => exact append_needs h hL' (by simpa [intend] using hrep)
  | prepend => exact prepend_needs h hL' (by simpa [intend] using hrep)
  | head => trivial
  | foreachInit => trivial
  | foreachContinue => trivial
  | appendThis =>
    rcases hthis : L.thisp with _ | a
    · obtain ⟨_, hL'', hcount⟩ := appendThis_null_count hthis
      obtain rfl := Option.some.inj (hL'.symm.trans hL'')
      exact absurd (by simpa [intend, hthis] using hrep) (not_rep_of_count h hcount)
    · obtain ⟨l₁, l₂, rfl, hl₁⟩ := h.split hthis
      obtain ⟨hnext, hcount⟩ := appendThis_needs h hthis hL'
        (by simpa [intend, hthis, insertAfter_append_cons hl₁] using hrep)
      exact ⟨by simp [hthis], (h.nextOk_iff hthis).mpr hnext, hcount⟩
  | prependThis =>
    rcases hthis : L.thisp with _ | a
    · have hrep' : Rep L' l := by simpa [intend, hthis] using hrep
      rcases hprev : L.prevp with _ | p
      · obtain ⟨_, hL'', hlink, -, -⟩ := prependThis_start_eq hprev
        obtain rfl := Option.some.inj (hL'.symm.trans hL'')
        exact absurd hrep' (not_rep_of_count h hlink.count)
      · obtain ⟨_, hL'', hlink, -, -⟩ := prependThis_after_eq h hprev
        obtain rfl := Option.some.inj (hL'.symm.trans hL'')
        exact absurd hrep' (not_rep_of_count h hlink.count)
    · obtain ⟨l₁, l₂, rfl, hl₁⟩ := h.split hthis
      obtain ⟨hprev, hnext, hcount⟩ := prependThis_needs h hL'
        (by simpa [intend, hthis, insertBefore_append_cons hl₁] using hrep)
      exact ⟨by simp [hthis], (h.prevOk_iff hthis).mpr hprev, hnext, hcount⟩
  | unlink =>
    rcases hthis : L.thisp with _ | a
    · exact Or.inl hthis
    · obtain ⟨l₁, l₂, rfl, hl₁⟩ := h.split hthis
      obtain ⟨hprev, hnext⟩ := unlink_needs h hthis hL'
        (by simpa [intend, hthis, erase_append_cons hl₁] using hrep)
      exact Or.inr ⟨(h.prevOk_iff hthis).mpr hprev, (h.nextOk_iff hthis).mpr hnext⟩

/-- **A run from `UPKLIST_INIT` represents the intended sequence at every point exactly when every macro of it found
the cursor and the counter as it needs them.** -/
theorem run_represents_iff (ms : List Macro) :
    Machine.Tracks exec intend Rep (init : UpkList α) [] ms ↔ Machine.Guarded exec Fits (init : UpkList α) ms :=
  Machine.tracks_iff_guarded (fun _ _ (h : Inv _ _) => h.toRep) (fun _ _ _ _ h => exec_needs h)
    (fun _ _ _ h => exec_inv h) init_inv

/-- The second of two `UPKLIST_PREPEND`s makes the new first node the `tail`. -/
theorem prepend_prepend_not_represents :
    ¬ Machine.Tracks exec intend Rep (init : UpkList Unit) [] [.prepend, .prepend] := by
  rintro ⟨-, L₁, h₁, -, L₂, h₂, hrep⟩
  obtain rfl := Option.some.inj h₁
  obtain rfl := Option.some.inj h₂
  exact absurd hrep.tail (by decide)

end Upkeeper.UpkList
