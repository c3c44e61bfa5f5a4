import Mathlib.Tactic.Ring
import Upkeeper.Library.CString
/-!
# Hexadecimal digits

`digits w n` is what `printf("%0wX", n)` writes of a number below `16 ^ w`, and `strtoul` is `strtoul(s, NULL, 16)` of a
text that begins with a digit.
-/

namespace Hex

/-- A digit of `%X` -/
def digit (d : Nat) : UInt8 := if d < 10 then .ofNat (48 + d) else .ofNat (55 + d)

/-- `w` digits, the most significant first -/
def digits : Nat → Nat → List UInt8
  | 0, _ => []
  | w + 1, n => digit (n / 16 ^ w % 16) :: digits w n

/-- `c_isxdigit` -/
def isXdigit (c : UInt8) : Bool := 48 ≤ c ∧ c ≤ 57 ∨ 65 ≤ c ∧ c ≤ 70 ∨ 97 ≤ c ∧ c ≤ 102

/-- The value of a digit -/
def value (c : UInt8) : Nat := if c ≤ 57 then c.toNat - 48 else if c ≤ 70 then c.toNat - 55 else c.toNat - 87

/-- `strtoul(s, NULL, 16)` -/
def strtoul (s : List UInt8) : Nat := (s.takeWhile isXdigit).foldl (fun n c => n * 16 + value c) 0

theorem digit_spec : ∀ d < 16, isXdigit (digit d) = true ∧ value (digit d) = d ∧ digit d ≠ 0 := by decide

variable {w n : Nat} {rest : List UInt8}

@[simp] theorem digits_length (w n : Nat) : (digits w n).length = w := by
  induction w with
  | zero => rfl
  | succ w ih => simp [digits, ih]

theorem isXdigit_of_mem {c : UInt8} (h : c ∈ digits w n) : isXdigit c = true ∧ c ≠ 0 := by
  induction w with
  | zero => cases h
  | succ w ih =>
    rcases List.mem_cons.mp h with rfl | h
    · have hspec := digit_spec (n / 16 ^ w % 16) (Nat.mod_lt _ (by decide))
      exact ⟨hspec.1, hspec.2.2⟩
    · exact ih h

theorem foldl_digits (w n a : Nat) :
    (digits w n).foldl (fun n c => n * 16 + value c) a = a * 16 ^ w + n % 16 ^ w := by
  induction w generalizing a with
  | zero => simp [digits, Nat.mod_one]
  | succ w ih =>
    have hvalue := (digit_spec (n / 16 ^ w % 16) (Nat.mod_lt _ (by decide))).2.1
    have hsplit : n % 16 ^ (w + 1) = n % 16 ^ w + 16 ^ w * (n / 16 ^ w % 16) := by rw [pow_succ, Nat.mod_mul]
    rw [digits, List.foldl_cons, ih, hvalue, hsplit]
    ring

theorem takeWhile_digits {ds : List UInt8} (hds : ∀ c ∈ ds, isXdigit c = true)
    (hrest : ∀ c ∈ rest.head?, isXdigit c = false) : (ds ++ rest).takeWhile isXdigit = ds := by
  rw [List.takeWhile_append_of_pos hds]
  cases rest with
  | nil => simp
  | cons c rest => rw [List.takeWhile_cons_of_neg (by simp [hrest c rfl]), List.append_nil]

theorem strtoul_digits (hn : n < 16 ^ w) (hrest : ∀ c ∈ rest.head?, isXdigit c = false) :
    strtoul (digits w n ++ rest) = n := by
  have hds : ∀ c ∈ digits w n, isXdigit c = true := fun c hc => (isXdigit_of_mem hc).1
  rw [strtoul, takeWhile_digits hds hrest, foldl_digits, Nat.zero_mul, Nat.zero_add, Nat.mod_eq_of_lt hn]

/-! ### Digits that are read -/

theorem digit_value : ∀ c, isXdigit c = true → value c < 16 ∧ digit (value c) = toupper c := forall_byte (by decide +kernel)

theorem digits_mul_add (w q n : Nat) : digits w (16 ^ w * q + n) = digits w n := by
  induction w generalizing q with
  | zero => rfl
  | succ w ih =>
    have hshift : 16 ^ (w + 1) * q + n = 16 ^ w * (16 * q) + n := by rw [pow_succ, Nat.mul_assoc]
    rw [digits, digits, hshift, ih, Nat.mul_add_div (Nat.pow_pos (by decide)), Nat.mul_add_mod]

variable {ds : List UInt8}

theorem foldl_value (hds : ∀ c ∈ ds, isXdigit c = true) (a : Nat) : ∃ n < 16 ^ ds.length,
    ds.foldl (fun n c => n * 16 + value c) a = 16 ^ ds.length * a + n ∧ digits ds.length n = ds.map toupper := by
  induction ds generalizing a with
  | nil => exact ⟨0, Nat.one_pos, by simp, rfl⟩
  | cons c ds ih =>
    obtain ⟨hc, hds⟩ := List.forall_mem_cons.mp hds
    obtain ⟨hlt, hdigit⟩ := digit_value c hc
    obtain ⟨n, hn, hfold, hdigits⟩ := ih hds (a * 16 + value c)
    have hpow : 0 < 16 ^ ds.length := Nat.pow_pos (by decide)
    refine ⟨16 ^ ds.length * value c + n, ?_, ?_, ?_⟩
    · calc 16 ^ ds.length * value c + n < 16 ^ ds.length * value c + 16 ^ ds.length := Nat.add_lt_add_left hn _
        _ = 16 ^ ds.length * (value c + 1) := rfl
        _ ≤ 16 ^ ds.length * 16 := Nat.mul_le_mul_left _ hlt
        _ = 16 ^ (c :: ds).length := rfl
    · rw [List.foldl_cons, hfold, List.length_cons]
      ring
    · rw [List.length_cons, digits, digits_mul_add, hdigits, Nat.mul_add_div hpow, Nat.div_eq_of_lt hn, Nat.add_zero,
        Nat.mod_eq_of_lt hlt, hdigit]
      rfl

/-- **Digits that are read are written back in upper case**, up to the next character that is not one. -/
theorem digits_strtoul (hds : ∀ c ∈ ds, isXdigit c = true) (hrest : ∀ c ∈ rest.head?, isXdigit c = false) :
    strtoul (ds ++ rest) < 16 ^ ds.length ∧ digits ds.length (strtoul (ds ++ rest)) = ds.map toupper := by
  obtain ⟨n, hn, hfold, hdigits⟩ := foldl_value hds 0
  rw [Nat.mul_zero, Nat.zero_add] at hfold
  rw [strtoul, takeWhile_digits hds hrest, hfold]
  exact ⟨hn, hdigits⟩

end Hex
