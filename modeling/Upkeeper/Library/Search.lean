import Mathlib.Data.List.Infix
/-!
# The first occurrence of a text in a text

`Occurs t s i` says that `t` stands in `s` behind the first `i` elements, and `FirstAt t s i` that it does so nowhere
before. The search that tries one position after another finds the first occurrence, or that there is none.
-/

namespace Search

variable {α : Type} {s t a b : List α} {i j : Nat}

/-- `t` stands in `s` at `i`. -/
def Occurs (t s : List α) (i : Nat) : Prop := ∃ a b, s = a ++ t ++ b ∧ a.length = i

/-- `t` stands in `s` at `i`, and not before. -/
structure FirstAt (t s : List α) (i : Nat) : Prop where
  occurs : Occurs t s i
  first : ∀ j < i, ¬ Occurs t s j

theorem occurs_iff : Occurs t s i ↔ i ≤ s.length ∧ t <+: s.drop i := by
  constructor
  · rintro ⟨a, b, rfl, rfl⟩
    refine ⟨by simp, ?_⟩
    rw [List.append_assoc, List.drop_left]
    exact List.prefix_append t b
  · rintro ⟨hi, b, hb⟩
    refine ⟨s.take i, b, ?_, List.length_take_of_le hi⟩
    rw [List.append_assoc, hb, List.take_append_drop]

theorem exists_occurs_iff : (∃ i, Occurs t s i) ↔ t <:+: s := by
  constructor
  · rintro ⟨i, a, b, h, -⟩
    exact ⟨a, b, h.symm⟩
  · rintro ⟨a, b, h⟩
    exact ⟨a.length, a, b, h.symm, rfl⟩

theorem Occurs.split (h : Occurs t s i) : s = s.take i ++ t ++ s.drop (i + t.length) := by
  obtain ⟨a, b, rfl, rfl⟩ := h
  have htake : (a ++ t ++ b).take a.length = a := by rw [List.append_assoc, List.take_left]
  have hdrop : (a ++ t ++ b).drop (a.length + t.length) = b := by rw [← List.length_append, List.drop_left]
  rw [htake, hdrop]

theorem Occurs.length_le (h : Occurs t s i) : i + t.length ≤ s.length := by
  obtain ⟨a, b, rfl, rfl⟩ := h
  simp

theorem FirstAt.unique (h : FirstAt t s i) (h' : FirstAt t s j) : i = j := by
  rcases Nat.lt_trichotomy i j with hlt | heq | hgt
  · exact absurd h.occurs (h'.first i hlt)
  · exact heq
  · exact absurd h'.occurs (h.first j hgt)

/-! ### A separator of two equal elements -/

/-- A separator `cc` between two texts is the first one if the text in front of it has none, and does not end in `c`. -/
theorem firstAt_separator {c : α} (hsep : ¬ [c, c] <:+: a) (hlast : a.getLast? ≠ some c) :
    FirstAt [c, c] (a ++ [c, c] ++ b) a.length := by
  refine ⟨⟨a, b, rfl, rfl⟩, fun j hj ⟨x, y, hxy, hx⟩ => ?_⟩
  subst hx
  -- `x` is shorter than `a`, so the first `c` behind it is in `a`, and the second is too unless it starts the separator
  rw [List.append_assoc, List.append_assoc] at hxy
  obtain ⟨u, rfl⟩ : x <+: a := List.prefix_of_prefix_length_le ⟨_, rfl⟩ ⟨_, hxy⟩ hj.le
  rw [List.append_assoc, List.append_cancel_left_eq] at hxy
  cases u with
  | nil => simp at hj
  | cons d u =>
    obtain ⟨rfl, hxy⟩ := List.cons.inj hxy
    cases u with
    | nil => exact hlast (by simp)
    | cons e u =>
      obtain ⟨rfl, -⟩ := List.cons.inj hxy
      exact hsep ⟨x, u, by simp⟩

/-! ### A separator whose first element stands in it only once -/

/-- Such a separator cannot start in the text in front of it and end in itself. -/
theorem firstAt_of_not_infix {c : α} (hc : c ∉ t) (ha : ¬ (c :: t) <:+: a) :
    FirstAt (c :: t) (a ++ (c :: t) ++ b) a.length := by
  refine ⟨⟨a, b, rfl, rfl⟩, fun j hj ⟨x, y, hxy, hx⟩ => ?_⟩
  subst hx
  rw [List.append_assoc, List.append_assoc] at hxy
  obtain ⟨u, rfl⟩ : x <+: a := List.prefix_of_prefix_length_le ⟨_, rfl⟩ ⟨_, hxy⟩ hj.le
  rw [List.append_assoc, List.append_cancel_left_eq] at hxy
  -- the rest `u` of the text starts with `c`, so the separator at `x` would have a second `c` where `u` ends
  cases u with
  | nil => simp at hj
  | cons d u =>
    obtain ⟨rfl, hxy⟩ := List.cons.inj hxy
    rcases List.append_eq_append_iff.mp hxy with ⟨v, rfl, hv⟩ | ⟨v, rfl, -⟩
    · cases v with
      | nil => exact ha ⟨x, [], by simp⟩
      | cons e v =>
        obtain ⟨rfl, -⟩ := List.cons.inj hv
        exact hc (by simp)
    · exact ha ⟨x, v, by simp⟩

/-! ### Trying one position after another -/

variable [BEq α] [LawfulBEq α]

/-- Whether `t` stands at `i` -/
def standsAt (t s : List α) (i : Nat) : Bool := t.isPrefixOf (s.drop i)

theorem standsAt_iff (hi : i ≤ s.length) : standsAt t s i = true ↔ Occurs t s i := by
  rw [occurs_iff, standsAt, List.isPrefixOf_iff_prefix]
  exact ⟨fun h => ⟨hi, h⟩, fun h => h.2⟩

theorem find?_eq_some_iff : (List.range (s.length + 1)).find? (standsAt t s) = some i ↔ FirstAt t s i := by
  rw [List.find?_range_eq_some]
  constructor
  · rintro ⟨h, hmem, hfirst⟩
    have hi : i ≤ s.length := Nat.lt_succ_iff.mp (List.mem_range.mp hmem)
    refine ⟨(standsAt_iff hi).mp h, fun j hj hocc => ?_⟩
    have hne := hfirst j hj
    rw [(standsAt_iff (hj.le.trans hi)).mpr hocc] at hne
    cases hne
  · intro h
    have hi : i ≤ s.length := (occurs_iff.mp h.occurs).1
    refine ⟨(standsAt_iff hi).mpr h.occurs, List.mem_range.mpr (Nat.lt_succ_of_le hi), fun j hj => ?_⟩
    rw [Bool.not_eq_true', Bool.eq_false_iff, Ne, standsAt_iff (hj.le.trans hi)]
    exact h.first j hj

theorem find?_eq_none_iff : (List.range (s.length + 1)).find? (standsAt t s) = none ↔ ¬ t <:+: s := by
  rw [← exists_occurs_iff, List.find?_eq_none]
  constructor
  · rintro h ⟨i, hocc⟩
    have hi : i ≤ s.length := (occurs_iff.mp hocc).1
    exact h i (List.mem_range.mpr (Nat.lt_succ_of_le hi)) ((standsAt_iff hi).mpr hocc)
  · intro h i hmem hstands
    exact h ⟨i, (standsAt_iff (Nat.lt_succ_iff.mp (List.mem_range.mp hmem))).mp hstands⟩

end Search
