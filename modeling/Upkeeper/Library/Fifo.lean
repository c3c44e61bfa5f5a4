import Mathlib.Data.List.Basic
/-!
# Bounded queues in a ring of slots

A queue of at most `n` elements that drops its oldest one when it is full (`push`), and how it lies in a ring of `n`
slots. The slots are listed from the one that is written next: first those that are free, then the elements with the
oldest in front, up to the slot that was written last (`Shows`). So writing a slot and stepping to the next one is
`push` (`Shows.push`), whether the slot was free or not.
-/

namespace Fifo

variable {α β : Type*}

/-- Add an element; a full queue drops its oldest. -/
def push (n : Nat) (q : List β) (a : β) : List β := (q ++ [a]).drop (q.length + 1 - n)

/-- The slots hold the queue `q`, where `c` is what a slot holds. -/
structure Shows (c : α → Option β) (slots : List α) (q : List β) : Prop where
  fits : q.length ≤ slots.length
  slots : slots.map c = List.replicate (slots.length - q.length) none ++ q.map some

variable {c : α → Option β} {slots free used : List α} {q : List β} {s x : α} {a : β} {n : Nat}

theorem push_of_lt (h : q.length < n) : push n q a = q ++ [a] := by
  unfold push
  rw [show q.length + 1 - n = 0 by omega, List.drop_zero]

theorem push_cons_of_full {b : β} (h : (b :: q).length = n) : push n (b :: q) a = q ++ [a] := by
  unfold push
  rw [show (b :: q).length + 1 - n = 1 by omega]
  rfl

theorem Shows.empty (h : ∀ x ∈ slots, c x = none) : Shows c slots [] := by
  refine ⟨Nat.zero_le _, ?_⟩
  rw [List.map_nil, List.append_nil, List.length_nil, Nat.sub_zero, List.map_eq_replicate_iff]
  exact h

theorem Shows.of_split (hfree : ∀ x ∈ free, c x = none) (hused : used.map c = q.map some) :
    Shows c (free ++ used) q := by
  have hlen : used.length = q.length := by simpa using congrArg List.length hused
  refine ⟨by rw [List.length_append]; omega, ?_⟩
  rw [List.map_append, hused, List.length_append, hlen, Nat.add_sub_cancel, List.map_eq_replicate_iff.mpr hfree]

theorem Shows.split (h : Shows c slots q) :
    ∃ free used, slots = free ++ used ∧ (∀ x ∈ free, c x = none) ∧ used.map c = q.map some := by
  obtain ⟨free, used, hslots, hfree, hused⟩ := List.map_eq_append_iff.mp h.slots
  exact ⟨free, used, hslots, fun x hx => List.eq_of_mem_replicate (hfree ▸ List.mem_map_of_mem hx), hused⟩

theorem Shows.next (h : Shows c (s :: slots) q) :
    c s = none ∧ q.length ≤ slots.length ∨ ∃ b q', q = b :: q' ∧ c s = some b ∧ q'.length = slots.length := by
  have hfits := h.fits
  rw [List.length_cons] at hfits
  have hslots := h.slots
  rw [List.map_cons, List.length_cons] at hslots
  rcases Nat.lt_or_ge q.length (slots.length + 1) with hlt | hge
  · rw [show slots.length + 1 - q.length = slots.length - q.length + 1 by omega, List.replicate_succ,
      List.cons_append] at hslots
    exact Or.inl ⟨(List.cons.inj hslots).1, by omega⟩
  · rw [show slots.length + 1 - q.length = 0 by omega, List.replicate_zero, List.nil_append] at hslots
    cases q with
    | nil => simp at hslots
    | cons b q =>
      rw [List.map_cons] at hslots
      rw [List.length_cons] at hfits hge
      exact Or.inr ⟨b, q, rfl, (List.cons.inj hslots).1, by omega⟩

theorem Shows.congr {slots' : List α} (h : Shows c slots q) (hmap : slots'.map c = slots.map c) : Shows c slots' q := by
  have hlen : slots'.length = slots.length := by simpa using congrArg List.length hmap
  exact ⟨hlen ▸ h.fits, by rw [hmap, hlen]; exact h.slots⟩

theorem Shows.tail_of_free (h : Shows c (s :: slots) q) (hlen : q.length ≤ slots.length) : Shows c slots q := by
  have hslots := h.slots
  rw [List.map_cons, List.length_cons, show slots.length + 1 - q.length = slots.length - q.length + 1 by omega,
    List.replicate_succ, List.cons_append] at hslots
  exact ⟨hlen, (List.cons.inj hslots).2⟩

theorem Shows.tail_of_full {b : β} (h : Shows c (s :: slots) (b :: q)) (hlen : q.length = slots.length) :
    Shows c slots q := by
  have hslots := h.slots
  rw [List.map_cons, List.length_cons, List.length_cons, hlen, Nat.sub_self, List.replicate_zero, List.nil_append,
    List.map_cons] at hslots
  exact ⟨Nat.le_of_eq hlen, by rw [hlen, Nat.sub_self, List.replicate_zero, List.nil_append]; exact (List.cons.inj hslots).2⟩

theorem Shows.free_append (hfree : ∀ x ∈ free, c x = none) (h : Shows c slots q) : Shows c (free ++ slots) q := by
  obtain ⟨free', used, rfl, hfree', hused⟩ := h.split
  rw [← List.append_assoc]
  refine .of_split (fun x hx => ?_) hused
  rcases List.mem_append.mp hx with hx | hx
  · exact hfree x hx
  · exact hfree' x hx

/-- **Writing a slot and stepping to the next one is `push`.** -/
theorem Shows.push (h : Shows c (s :: slots) q) (hx : c x = some a) :
    Shows c (slots ++ [x]) (push (slots.length + 1) q a) := by
  obtain ⟨free, used, hslots, hfree, hused⟩ := h.split
  have hlen : used.length = q.length := by simpa using congrArg List.length hused
  have hx' : [x].map c = [a].map some := congrArg (fun o => [o]) hx
  cases free with
  | nil =>
    -- the ring is full, so its first slot is the oldest element
    obtain rfl : s :: slots = used := hslots
    cases q with
    | nil => simp at hlen
    | cons b q =>
      rw [List.length_cons, List.length_cons] at hlen
      rw [push_cons_of_full (by rw [List.length_cons]; omega), ← List.nil_append (slots ++ [x])]
      refine .of_split (by simp) ?_
      rw [List.map_append, List.map_append, hx', (List.cons.inj hused).2]
  | cons y free =>
    have hrest : slots = free ++ used := (List.cons.inj hslots).2
    subst hrest
    rw [push_of_lt (by rw [List.length_append]; omega), List.append_assoc]
    refine .of_split (fun z hz => hfree z (List.mem_cons_of_mem _ hz)) ?_
    rw [List.map_append, List.map_append, hx', hused]

theorem Shows.countP (h : Shows c slots q) : slots.countP (fun x => (c x).isSome) = q.length := by
  have hcount : (slots.map c).countP Option.isSome = q.length := by
    rw [h.slots, List.countP_append, List.countP_replicate, List.countP_map]
    simp
  rw [← hcount, List.countP_map]
  rfl

end Fifo
