import Upkeeper.Config.Object
/-!
# Overriding field by field

What one service sets is to replace what another has, field by field (`FieldWise`), in memory that stays live
(`Overrides`). The block of `PipeStderrScript` frees the text of `PipeStdoutScript`, and the fields that are marked `TODO`
are left out; but for these, and for lists that nothing can be appended to, that is what the function does
(`overrides_iff`).
-/

namespace Upkeeper

/-! ### Values -/

/-- Each field has what `high` sets, and what `dest` has where `high` sets nothing; the entries of the two lists of
services are those of `dest`, and then those of `high`. -/
structure FieldWise (dest high d : SvcDesc) : Prop where
  scalar : ∀ f, d.scalar f = if high.Sets f then high.scalar f else dest.scalar f
  provides : d.provides.getD [] = dest.provides.getD [] ++ high.provides.getD []
  prerequisites : d.prerequisites.getD [] = dest.prerequisites.getD [] ++ high.prerequisites.getD []

section Values

variable {dest high d : SvcDesc} {α : Type}

theorem overlayAppend_getD (high dest : Option (List α)) :
    (overlayAppend high dest).getD [] = dest.getD [] ++ high.getD [] := by
  unfold overlayAppend
  split
  next => rfl
  next h =>
    have hnil : high.getD [] = [] := List.length_eq_zero_iff.mp (Nat.eq_zero_of_not_pos h)
    rw [hnil, List.append_nil]

theorem overlayList_getD (high dest : Option (List α)) :
    (overlayList high dest).getD [] = if high.getD [] ≠ [] then high.getD [] else dest.getD [] := by
  have hpos : (high.getD []).length > 0 ↔ high.getD [] ≠ [] := List.length_pos_iff
  rw [overlayList]
  simp only [hpos]
  split <;> rfl

theorem fieldWise_iff (hdest : dest.Live) (hhigh : high.Live) (hd : upkOverlaySvcconfValues dest high = .ok d) :
    FieldWise dest high d ↔ ¬ FreesPipe dest.scripts high.scripts ∧
      ∀ f ∈ ScalarField.todo, high.Sets f → high.scalar f = dest.scalar f := by
  obtain ⟨scripts, hscripts, rfl⟩ := (upkOverlaySvcconfValues_ok hhigh.longDescription).mp hd
  constructor
  · intro h
    refine ⟨fun hpipe => ?_, fun f hf hsets => ?_⟩
    · obtain ⟨scripts', hscripts', hfreed⟩ := overlayScripts_conflict hhigh.scripts hdest.scripts hpipe
      obtain rfl := Except.ok.inj (hscripts.symm.trans hscripts')
      have hnone : (dest.overlaid high scripts).scalar (.script .pipeStdoutScript) = none := congrArg CharPtr.read hfreed
      rw [h.scalar] at hnone
      split at hnone
      · exact hhigh.scalar_ne_none _ hnone
      · exact hdest.scalar_ne_none _ hnone
    · have hscalar := h.scalar f
      rw [overlaid_todo hf, if_pos hsets] at hscalar
      exact hscalar.symm
  · rintro ⟨hpipe, htodo⟩
    obtain rfl := Except.ok.inj ((overlayScripts_ok hhigh.scripts hdest.scripts hpipe).symm.trans hscripts)
    refine ⟨fun f => ?_, overlayAppend_getD _ _, overlayAppend_getD _ _⟩
    by_cases hf : f ∈ ScalarField.todo
    · rw [overlaid_todo hf]
      split
      next hsets => exact (htodo f hf hsets).symm
      next => rfl
    · exact overlaid_scalar hhigh.longDescription hhigh.scripts hf

end Values

/-! ### Memory -/

/-- The function overrides `dest` field by field, with strings of its own, and `high` reads as before. -/
def Overrides (m : Heap) (dest high : SvcObject) : Prop :=
  ∃ m' dest' high', SvcObject.upkOverlaySvcconfValues m dest high = some (m', dest', high') ∧
    high'.desc m' = high.desc m ∧ actionsOf m' high'.customActions = actionsOf m high.customActions ∧
    FieldWise (dest.desc m) (high.desc m) (dest'.desc m') ∧
    (actionsOf m' dest'.customActions).getD [] =
      (if (actionsOf m high.customActions).getD [] ≠ [] then (actionsOf m high.customActions).getD []
        else (actionsOf m dest.customActions).getD []) ∧
    Separate m' dest' high'

section Memory

variable {m : Heap} {dest high : SvcObject}

theorem Separate.live (h : Separate m dest high) : (dest.desc m).Live ∧ (high.desc m).Live := by
  obtain ⟨val, hown⟩ := h.strings
  have hlive (i : StringSlot ⊕ StringSlot) : charPtr m (Sum.elim dest.strings high.strings i) ≠ .freed := by
    rw [charPtr_eq hown i]
    exact CharPtr.ofOption_ne_freed _
  exact ⟨⟨hlive (.inl .longDescription), fun f => hlive (.inl (.script f))⟩,
    ⟨hlive (.inr .longDescription), fun f => hlive (.inr (.script f))⟩⟩

theorem appendable_of_run {m' : Heap} {dest' high' : SvcObject} (h : Separate m dest high)
    (hrun : SvcObject.upkOverlaySvcconfValues m dest high = some (m', dest', high')) (h' : dest'.Sound)
    (hfields : FieldWise (dest.desc m) (high.desc m) (dest'.desc m')) : dest.Appendable high := by
  simp only [SvcObject.upkOverlaySvcconfValues, Option.bind_eq_bind, Option.bind_eq_some_iff] at hrun
  obtain ⟨⟨provides, highProvides⟩, hprovides, ⟨m₁, long⟩, -, ⟨prerequisites, highPrerequisites⟩, hprerequisites,
    ⟨m₂, scripts₂⟩, -, ⟨m₃, acts, highActs⟩, -, ⟨m₄, scripts₄⟩, -, heq⟩ := hrun
  obtain ⟨-, rfl, -⟩ := by simpa only [Option.some.injEq, Prod.mk.injEq] using heq
  exact ⟨overlaySvcids_needs h.lower.provides h.upper.provides hprovides h'.provides hfields.provides,
    overlaySvcids_needs h.lower.prerequisites h.upper.prerequisites hprerequisites h'.prerequisites hfields.prerequisites⟩

theorem Overrides.needs (h : Separate m dest high) (ho : Overrides m dest high) :
    dest.Appendable high ∧ ¬ FreesPipe (dest.desc m).scripts (high.desc m).scripts ∧
      ∀ f ∈ ScalarField.todo, (high.desc m).Sets f → (high.desc m).scalar f = (dest.desc m).scalar f := by
  obtain ⟨m', dest', high', hrun, -, -, hfields, -, hseparate⟩ := ho
  have happ := appendable_of_run h hrun hseparate.lower hfields
  obtain ⟨m'', dest'', high'', hrun', hvalue, -⟩ := SvcObject.upkOverlaySvcconfValues_desc h happ
  obtain ⟨rfl, rfl, rfl⟩ := by simpa only [Option.some.injEq, Prod.mk.injEq] using hrun.symm.trans hrun'
  exact ⟨happ, (fieldWise_iff h.live.1 h.live.2 hvalue).mp hfields⟩

/-- **The function overrides field by field** exactly if it can append to the lists, it frees no `PipeStdoutScript`, and
`high` sets no field marked `TODO` to another value. -/
theorem overrides_iff (m : Heap) (dest high : SvcObject) (h : Separate m dest high) :
    Overrides m dest high ↔ dest.Appendable high ∧ ¬ FreesPipe (dest.desc m).scripts (high.desc m).scripts ∧
      ∀ f ∈ ScalarField.todo, (high.desc m).Sets f → (high.desc m).scalar f = (dest.desc m).scalar f := by
  refine ⟨Overrides.needs h, ?_⟩
  rintro ⟨happ, hcond⟩
  obtain ⟨m', dest', high', hrun, hvalue, hsame, hacts, hactsSame, hseparate⟩ :=
    SvcObject.upkOverlaySvcconfValues_desc h happ
  have hfields := (fieldWise_iff h.live.1 h.live.2 hvalue).mpr hcond
  refine ⟨m', dest', high', hrun, hsame, hactsSame, hfields, ?_, hseparate fun f hfreed => ?_⟩
  · rw [hacts, overlayList_getD]
  · have hnone : (dest'.desc m').scalar (.script f) = none := congrArg CharPtr.read hfreed
    rw [hfields.scalar] at hnone
    split at hnone
    · exact h.live.2.scalar_ne_none _ hnone
    · exact h.live.1.scalar_ne_none _ hnone

/-! ### Two services with a script each -/

/-- Two strings on the heap, at `0` and at `1` -/
def twoTexts : Heap := (Heap.empty.put (cstr "cat")).put (cstr "tee")

/-- A cleared service with one script -/
def oneScript (f : ScriptField) (a : Addr) : SvcObject :=
  { SvcObject.clear with scripts := Function.update (fun _ => none) f (some a) }

theorem slots_null : slots none (fun _ => none) [] = fun _ => none := by
  funext s
  cases s <;> rfl

theorem separate_oneScript (f g : ScriptField) : Separate twoTexts (oneScript f 0) (oneScript g 1) := by
  have hnone {α : Type} : Sound (none : Option (UpkList α)) := fun l hl => nomatch hl
  have hnull : Heap.Owns Heap.empty (fun _ : StringSlot ⊕ StringSlot => none) fun _ => none := .null _
  have hown := (hnull.put (.inl (.script f)) (cstr "cat")).put (.inr (.script g)) (cstr "tee")
  have hstrings : Sum.elim (oneScript f 0).strings (oneScript g 1).strings =
      Function.update (Function.update (fun _ => none) (.inl (.script f)) (some 0)) (.inr (.script g)) (some 1) := by
    have hnullElim : (fun _ => none : StringSlot ⊕ StringSlot → Option Addr) =
        Sum.elim (slots none (fun _ => none) []) (slots none (fun _ => none) []) := by
      rw [slots_null]
      exact (Sum.elim_lam_const_lam_const none).symm
    rw [hnullElim, Sum.update_elim_inl, Sum.update_elim_inr, slots_update_script, slots_update_script]
    rfl
  exact ⟨⟨hnone, hnone, hnone⟩, ⟨hnone, hnone, hnone⟩, _, hstrings ▸ hown⟩

/-- A `PipeStderrScript` overlaid on a `StartScript` -/
theorem overrides_startScript : Overrides twoTexts (oneScript .startScript 0) (oneScript .pipeStderrScript 1) := by
  have hseparate := separate_oneScript .startScript .pipeStderrScript
  refine (overrides_iff _ _ _ hseparate).mpr ⟨⟨fun h hh => ?_, fun h hh => ?_⟩, ?_, fun f hf hsets => ?_⟩
  · exact nomatch hh
  · exact nomatch hh
  · rintro ⟨-, hhas | hne⟩
    · exact hhas
    · exact hne rfl
  · have hclean : ((oneScript .pipeStderrScript 1).desc twoTexts).Clean :=
      ⟨hseparate.live.2.longDescription, hseparate.live.2.scripts, rfl, rfl, rfl⟩
    exact absurd hsets (hclean.not_sets_todo hf)

/-- A `PipeStderrScript` overlaid on a `PipeStdoutScript`, the text of which it frees -/
theorem not_overrides_pipes : ¬ ∀ m dest high, Separate m dest high → Overrides m dest high := by
  intro h
  have hseparate := separate_oneScript .pipeStdoutScript .pipeStderrScript
  obtain ⟨-, hpipe, -⟩ := (h _ _ _ hseparate).needs hseparate
  have hset : (charPtr twoTexts (some 1)).Has := by decide
  exact hpipe ⟨hset, .inr fun hnull => nomatch hnull⟩

end Memory

end Upkeeper
