import Mathlib.Data.Sum.Basic
import Mathlib.Data.List.Nodup
import Mathlib.Data.List.ReduceOption
import Mathlib.Logic.Function.Basic
import Upkeeper.Library.CString
/-!
# Strings on the heap

A heap holds the strings behind the addresses that have been handed out and not been freed; a pointer is an address, or
`none` for `NULL`. To read through a pointer or to free it is `none` unless there is a string behind it. `Owns m ptr val`:
each pointer `ptr i` is `NULL`, or leads to the string `val i`, to which no other of them leads. What is done to the
string of one of them then does not concern the others (`Owns.release`, `Owns.put`).

To free what several pointers lead to is defined exactly if they lead to different strings (`releaseAll_eq_some_iff`).
-/

/-- The strings on the heap. `calloc` hands out `fresh`, and has handed out nothing from there on. -/
structure Heap where
  text : Nat → Option CStr
  fresh : Nat
  unused : ∀ a, fresh ≤ a → text a = none

namespace Heap

/-- `p && strlen(p) > 0` -/
def nonEmpty (m : Heap) : Option Nat → Option Bool
  | none => some false
  | some a => do
    let s ← m.text a
    some (decide (s.chars.length > 0))

/-- The heap without the string at `a` -/
def drop (m : Heap) (a : Nat) : Heap where
  text := Function.update m.text a none
  fresh := m.fresh
  unused b hb := by
    by_cases h : b = a
    · rw [h, Function.update_self]
    · rw [Function.update_of_ne h, m.unused b hb]

/-- `if(p) free(p)` -/
def release (m : Heap) : Option Nat → Option Heap
  | none => some m
  | some a => do
    let _ ← m.text a
    some (m.drop a)

/-- The heap with a new string, at `fresh` -/
def put (m : Heap) (s : CStr) : Heap where
  text := Function.update m.text m.fresh (some s)
  fresh := m.fresh + 1
  unused b hb := by
    rw [Function.update_of_ne (Nat.ne_of_gt hb), m.unused b (Nat.le_of_succ_le hb)]

/-- `q = calloc(1, strlen(p) + 1)` and `strcpy(q, p)` -/
def copy (m : Heap) (p : Option Nat) : Option (Heap × Nat) := do
  let a ← p
  let s ← m.text a
  some (m.put s, m.fresh)

/-- A heap with nothing on it -/
def empty : Heap := ⟨fun _ => none, 0, fun _ _ => rfl⟩

/-- **The pointers lead to strings of their own.** -/
structure Owns {ι : Type} (m : Heap) (ptr : ι → Option Nat) (val : ι → Option CStr) : Prop where
  reads : ∀ i, (ptr i).map m.text = (val i).map some
  apart : ∀ i j a, ptr i = some a → ptr j = some a → i = j

variable {ι κ : Type} {m : Heap} {ptr : ι → Option Nat} {val : ι → Option CStr} {i : ι} {a : Nat} {s : CStr}

theorem put_text (ha : a ≠ m.fresh) : (m.put s).text a = m.text a := Function.update_of_ne ha _ _

theorem put_text_fresh : (m.put s).text m.fresh = some s := Function.update_self _ _ _

theorem drop_text_self : (m.drop a).text a = none := Function.update_self _ _ _

theorem lt_fresh (h : m.text a = some s) : a < m.fresh := by
  by_contra hge
  rw [m.unused a (Nat.le_of_not_lt hge)] at h
  cases h

namespace Owns

theorem cases (h : Owns m ptr val) (i : ι) :
    (ptr i = none ∧ val i = none) ∨ ∃ a s, ptr i = some a ∧ val i = some s ∧ m.text a = some s := by
  have hreads := h.reads i
  cases hp : ptr i with
  | none =>
    rw [hp] at hreads
    exact .inl ⟨rfl, Option.map_eq_none_iff.mp hreads.symm⟩
  | some a =>
    rw [hp] at hreads
    obtain ⟨s, hs, htext⟩ := Option.map_eq_some_iff.mp hreads.symm
    exact .inr ⟨a, s, rfl, hs, htext.symm⟩

theorem text_of_ptr (h : Owns m ptr val) (hp : ptr i = some a) : ∃ s, val i = some s ∧ m.text a = some s := by
  rcases h.cases i with ⟨hnull, -⟩ | ⟨b, s, hb, hs, htext⟩
  · exact absurd (hnull.symm.trans hp) (by simp)
  · obtain rfl : b = a := Option.some.inj (hb.symm.trans hp)
    exact ⟨s, hs, htext⟩

theorem null (m : Heap) : Owns m (fun _ : ι => none) fun _ => none := ⟨fun _ => rfl, fun _ _ _ h => nomatch h⟩

theorem comp (h : Owns m ptr val) {f : κ → ι} (hf : Function.Injective f) : Owns m (ptr ∘ f) (val ∘ f) where
  reads i := h.reads (f i)
  apart i j a hi hj := hf (h.apart (f i) (f j) a hi hj)

theorem nonEmpty_eq (h : Owns m ptr val) (i : ι) : m.nonEmpty (ptr i) = some (decide (∃ s ∈ val i, s.chars ≠ [])) := by
  rcases h.cases i with ⟨hp, hv⟩ | ⟨a, s, hp, hv, htext⟩
  · rw [hp, hv]
    rfl
  · rw [hp, hv]
    simp only [nonEmpty, htext, Option.bind_eq_bind, Option.bind_some, Option.mem_def, Option.some.injEq, exists_eq_left']
    exact decide_eq_decide.mpr List.length_pos_iff

theorem copy_eq (h : Owns m ptr val) (hs : val i = some s) : m.copy (ptr i) = some (m.put s, m.fresh) := by
  rcases h.cases i with ⟨-, hv⟩ | ⟨a, t, hp, hv, htext⟩
  · exact absurd (hv.symm.trans hs) (by simp)
  · obtain rfl : t = s := Option.some.inj (hv.symm.trans hs)
    rw [hp]
    simp only [copy, htext, Option.bind_eq_bind, Option.bind_some]

variable [DecidableEq ι]

theorem erase (h : Owns m ptr val) (i : ι) : Owns m (Function.update ptr i none) (Function.update val i none) where
  reads j := by
    by_cases hj : j = i
    · rw [hj, Function.update_self, Function.update_self]
      rfl
    · rw [Function.update_of_ne hj, Function.update_of_ne hj, h.reads j]
  apart j k a hj hk := by
    have hne (x : ι) (hx : Function.update ptr i none x = some a) : x ≠ i := by
      rintro rfl
      rw [Function.update_self] at hx
      cases hx
    rw [Function.update_of_ne (hne j hj)] at hj
    rw [Function.update_of_ne (hne k hk)] at hk
    exact h.apart j k a hj hk

theorem release (h : Owns m ptr val) (i : ι) :
    ∃ m', m.release (ptr i) = some m' ∧ Owns m' (Function.update ptr i none) (Function.update val i none) ∧
      ∀ a, ptr i = some a → m'.text a = none ∧ a < m'.fresh := by
  rcases h.cases i with ⟨hp, -⟩ | ⟨a, s, hp, -, htext⟩
  · refine ⟨m, by rw [hp]; rfl, h.erase i, fun a ha => ?_⟩
    rw [hp] at ha
    cases ha
  · refine ⟨m.drop a, ?_, ⟨fun j => ?_, (h.erase i).apart⟩, fun b hb => ?_⟩
    · rw [hp]
      simp only [Heap.release, htext, Option.bind_eq_bind, Option.bind_some]
    · rw [← (h.erase i).reads j]
      by_cases hj : j = i
      · rw [hj, Function.update_self]
        rfl
      · rw [Function.update_of_ne hj]
        cases hb : ptr j with
        | none => rfl
        | some b =>
          have hne : b ≠ a := by
            rintro rfl
            exact hj (h.apart j i b hb hp)
          exact congrArg some (Function.update_of_ne hne _ _)
    · obtain rfl : a = b := Option.some.inj (hp.symm.trans hb)
      have hlt : a < m.fresh := lt_fresh htext
      exact ⟨drop_text_self, hlt⟩

theorem put (h : Owns m ptr val) (i : ι) (s : CStr) :
    Owns (m.put s) (Function.update ptr i (some m.fresh)) (Function.update val i (some s)) where
  reads j := by
    by_cases hj : j = i
    · rw [hj, Function.update_self, Function.update_self]
      exact congrArg some put_text_fresh
    · rw [Function.update_of_ne hj, Function.update_of_ne hj, ← h.reads j]
      cases hb : ptr j with
      | none => rfl
      | some b =>
        obtain ⟨t, -, ht⟩ := h.text_of_ptr hb
        exact congrArg some (put_text (Nat.ne_of_lt (lt_fresh ht)))
  apart j k a hj hk := by
    -- nothing is at `fresh` yet
    have hnew (x : ι) (hx : x ≠ i) : Function.update ptr i (some m.fresh) x ≠ some m.fresh := by
      rw [Function.update_of_ne hx]
      intro hfresh
      obtain ⟨t, -, ht⟩ := h.text_of_ptr hfresh
      exact absurd (lt_fresh ht) (lt_irrefl _)
    by_cases hji : j = i
    · by_cases hki : k = i
      · rw [hji, hki]
      · rw [hji, Function.update_self] at hj
        exact absurd (hk.trans hj.symm) (hnew k hki)
    · by_cases hki : k = i
      · rw [hki, Function.update_self] at hk
        exact absurd (hj.trans hk.symm) (hnew j hji)
      · rw [Function.update_of_ne hji] at hj
        rw [Function.update_of_ne hki] at hk
        exact h.apart j k a hj hk

end Owns

/-! ### Freeing what several pointers lead to -/

/-- `if(p) free(p)`, for several pointers one after the other -/
def releaseAll (m : Heap) (ps : List (Option Nat)) : Option Heap := ps.foldlM release m

/-- The heap without the strings at `as` -/
def without (m : Heap) (as : List Nat) : Heap where
  text a := if a ∈ as then none else m.text a
  fresh := m.fresh
  unused a ha := by
    split
    · rfl
    · exact m.unused a ha

/-- The pointers lead to different strings. -/
structure Distinct (m : Heap) (ps : List (Option Nat)) : Prop where
  nodup : ps.reduceOption.Nodup
  live : ∀ a ∈ ps.reduceOption, m.text a ≠ none

theorem without_nil (m : Heap) : m.without [] = m := by
  unfold without
  simp only [List.not_mem_nil, if_false]

theorem without_cons (m : Heap) (a : Nat) (as : List Nat) : (m.drop a).without as = m.without (a :: as) := by
  have htext : ((m.drop a).without as).text = (m.without (a :: as)).text := by
    funext b
    by_cases hb : b = a
    · simp [without, drop, hb]
    · simp [without, drop, hb]
  unfold without drop at htext ⊢
  simp only at htext
  simp only [htext]

theorem releaseAll_append (m : Heap) (ps qs : List (Option Nat)) :
    m.releaseAll (ps ++ qs) = (m.releaseAll ps).bind fun m => m.releaseAll qs := List.foldlM_append

theorem releaseAll_cons (m : Heap) (p : Option Nat) (ps : List (Option Nat)) :
    m.releaseAll (p :: ps) = (m.release p).bind fun m => m.releaseAll ps := List.foldlM_cons

theorem release_some (m : Heap) (a : Nat) : m.release (some a) = if m.text a = none then none else some (m.drop a) := by
  simp only [release]
  cases m.text a <;> rfl

theorem distinct_nil (m : Heap) : m.Distinct [] := ⟨List.nodup_nil, fun _ ha => absurd ha List.not_mem_nil⟩

theorem distinct_none {ps : List (Option Nat)} : m.Distinct (none :: ps) ↔ m.Distinct ps :=
  ⟨fun h => ⟨h.nodup, h.live⟩, fun h => ⟨h.nodup, h.live⟩⟩

theorem distinct_some {ps : List (Option Nat)} :
    m.Distinct (some a :: ps) ↔ m.text a ≠ none ∧ (m.drop a).Distinct ps := by
  constructor
  · rintro ⟨hnodup, hlive⟩
    rw [List.reduceOption_cons_of_some] at hnodup hlive
    obtain ⟨hnot, hnodup⟩ := List.nodup_cons.mp hnodup
    refine ⟨hlive a List.mem_cons_self, hnodup, fun b hb => ?_⟩
    have hne : b ≠ a := ne_of_mem_of_not_mem hb hnot
    show Function.update m.text a none b ≠ none
    rw [Function.update_of_ne hne]
    exact hlive b (List.mem_cons_of_mem a hb)
  · rintro ⟨ha, hnodup, hlive⟩
    have hnot : a ∉ ps.reduceOption := fun hmem => hlive a hmem drop_text_self
    refine ⟨?_, ?_⟩
    · rw [List.reduceOption_cons_of_some]
      exact List.nodup_cons.mpr ⟨hnot, hnodup⟩
    · rw [List.reduceOption_cons_of_some]
      intro b hb
      rcases List.mem_cons.mp hb with rfl | hb
      · exact ha
      · have hne : b ≠ a := ne_of_mem_of_not_mem hb hnot
        have hlive := hlive b hb
        rwa [show (m.drop a).text b = m.text b from Function.update_of_ne hne _ _] at hlive

/-- **Several pointers can be freed exactly if they lead to different strings**, and then those are gone. -/
theorem releaseAll_eq_some_iff {m' : Heap} {ps : List (Option Nat)} :
    m.releaseAll ps = some m' ↔ m.Distinct ps ∧ m' = m.without ps.reduceOption := by
  induction ps generalizing m with
  | nil =>
    rw [List.reduceOption_nil, without_nil]
    exact ⟨fun h => ⟨distinct_nil m, (Option.some.inj h).symm⟩, fun h => congrArg some h.2.symm⟩
  | cons p ps ih =>
    rw [releaseAll_cons]
    cases p with
    | none => exact ih.trans (and_congr_left' distinct_none.symm)
    | some a =>
      rw [release_some, distinct_some, List.reduceOption_cons_of_some, ← without_cons]
      by_cases ha : m.text a = none
      · rw [if_pos ha]
        exact iff_of_false (fun h => nomatch h) fun h => h.1.1 ha
      · rw [if_neg ha, Option.bind_some, ih, and_assoc, and_iff_right ha]

theorem Distinct.perm {ps qs : List (Option Nat)} (h : m.Distinct ps) (hperm : ps.Perm qs) : m.Distinct qs := by
  have hperm' : ps.reduceOption.Perm qs.reduceOption := hperm.filterMap id
  exact ⟨hperm'.nodup_iff.mp h.nodup, fun a ha => h.live a (hperm'.mem_iff.mpr ha)⟩

theorem distinct_append_of_subset {ps qs : List (Option Nat)} (h : qs ⊆ ps) :
    m.Distinct (ps ++ qs) ↔ m.Distinct ps ∧ ∀ q ∈ qs, q = none := by
  constructor
  · rintro ⟨hnodup, hlive⟩
    rw [List.reduceOption_append] at hnodup hlive
    obtain ⟨hps, -, hapart⟩ := List.nodup_append.mp hnodup
    refine ⟨⟨hps, fun a ha => hlive a (List.mem_append_left _ ha)⟩, fun q hq => ?_⟩
    cases q with
    | none => rfl
    | some a =>
      have hmem := List.reduceOption_mem_iff.mpr (h hq)
      exact absurd rfl (hapart a hmem a (List.reduceOption_mem_iff.mpr hq))
  · rintro ⟨hps, hnull⟩
    have hnil : qs.reduceOption = [] := by
      rw [List.reduceOption_eq_nil_iff]
      exact ⟨qs.length, List.eq_replicate_iff.mpr ⟨rfl, hnull⟩⟩
    refine ⟨?_, ?_⟩
    · rw [List.reduceOption_append, hnil, List.append_nil]
      exact hps.nodup
    · rw [List.reduceOption_append, hnil, List.append_nil]
      exact hps.live

theorem Owns.distinct (h : Owns m ptr val) {is : List ι} (his : is.Nodup) : m.Distinct (is.map ptr) where
  nodup := by
    rw [List.reduceOption, List.filterMap_map, Function.id_comp]
    exact List.Nodup.filterMap h.apart his
  live a ha := by
    rw [List.reduceOption_mem_iff] at ha
    obtain ⟨i, -, hi⟩ := List.mem_map.mp ha
    obtain ⟨s, -, hs⟩ := h.text_of_ptr hi
    rw [hs]
    exact Option.some_ne_none s

end Heap
