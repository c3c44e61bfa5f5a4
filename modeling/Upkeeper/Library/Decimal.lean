import Mathlib.Data.Nat.Digits.Lemmas
/-!
# Decimal numbers

`digits n` is what `printf` writes of a number with `%u`, and `signed i` what it writes with `%d`. Each number is written
in its own way (`signed_inj`).
-/

namespace Decimal

/-- The digits of a number, the most significant first -/
def digits (n : Nat) : List UInt8 := if n = 0 then [48] else (Nat.digits 10 n).reverse.map fun k => .ofNat (48 + k)

/-- `'-'` -/
def minus : UInt8 := 45

/-- The digits, behind a minus if the number is negative -/
def signed (i : Int) : List UInt8 := if i < 0 then minus :: digits i.natAbs else digits i.natAbs

/-- `isdigit` -/
def IsDigit (c : UInt8) : Prop := 48 ≤ c ∧ c ≤ 57

instance (c : UInt8) : Decidable (IsDigit c) := inferInstanceAs (Decidable (_ ∧ _))

theorem digits_ne_nil (n : Nat) : digits n ≠ [] := by
  unfold digits
  split
  · simp
  · next h => simpa using Nat.digits_ne_nil_iff_ne_zero.mpr h

theorem isDigit_ofNat {k : Nat} (h : k < 10) : IsDigit (.ofNat (48 + k)) := by
  revert k
  decide

theorem isDigit_of_mem {n : Nat} : ∀ c ∈ digits n, IsDigit c := by
  unfold digits
  split
  · exact List.forall_mem_singleton.mpr (by decide)
  · intro c hc
    obtain ⟨k, hk, rfl⟩ := List.mem_map.mp hc
    exact isDigit_ofNat (Nat.digits_lt_base (by decide) (List.mem_reverse.mp hk))

theorem ofDigits_digits (n : Nat) : Nat.ofDigits 10 ((digits n).map fun c => c.toNat - 48).reverse = n := by
  unfold digits
  split
  · next h =>
    rw [h]
    rfl
  · have hback : (Nat.digits 10 n).map (fun k => (UInt8.ofNat (48 + k)).toNat - 48) = Nat.digits 10 n := by
      conv_rhs => rw [← List.map_id (Nat.digits 10 n)]
      refine List.map_congr_left fun k hk => ?_
      have hlt : k < 10 := Nat.digits_lt_base (by decide) hk
      rw [UInt8.toNat_ofNat', id]
      omega
    rw [List.map_map, ← List.map_reverse, List.reverse_reverse]
    exact (congrArg (Nat.ofDigits 10) hback).trans (Nat.ofDigits_digits 10 n)

theorem digits_inj {m n : Nat} (h : digits m = digits n) : m = n := by
  rw [← ofDigits_digits m, h, ofDigits_digits]

theorem digits_ne_minus {n : Nat} {cs : List UInt8} : digits n ≠ minus :: cs := by
  intro h
  have hdigit : IsDigit minus := isDigit_of_mem (n := n) minus (by rw [h]; exact List.mem_cons_self)
  exact absurd hdigit (by decide)

theorem signed_mem {i : Int} : ∀ c ∈ signed i, c = minus ∨ IsDigit c := by
  intro c hc
  unfold signed at hc
  split at hc
  · rcases List.mem_cons.mp hc with h | h
    · exact .inl h
    · exact .inr (isDigit_of_mem c h)
  · exact .inr (isDigit_of_mem c hc)

theorem signed_ne_nil (i : Int) : signed i ≠ [] := by
  unfold signed
  split
  · simp
  · exact digits_ne_nil _

theorem signed_inj {i j : Int} (h : signed i = signed j) : i = j := by
  unfold signed at h
  split at h <;> split at h
  · have habs := digits_inj (List.cons.inj h).2
    omega
  · exact absurd h.symm digits_ne_minus
  · exact absurd h digits_ne_minus
  · have habs := digits_inj h
    omega

end Decimal
