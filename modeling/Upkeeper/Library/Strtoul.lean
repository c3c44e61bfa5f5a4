import Mathlib.Data.List.Basic
import Mathlib.Data.Nat.Digits.Defs
import Upkeeper.Library.Hex
/-!
# Reading numbers (`stdlib.h`: `strtoul`)

`strtoul` skips blanks, and reads a sign, `0x` if the base is 16, and digits. `read` takes a text apart in this way, so
that nothing is lost (`Numeral.text_read`), and `strtoul` is the value of what is read (`strtoul_eq`). Of hexadecimal
digits it is the number that `Hex.strtoul` computes (`strtoul_hex`).
-/

/-- `isspace`, in the C locale -/
def isspace (c : UInt8) : Bool := c = 32 ∨ 9 ≤ c ∧ c ≤ 13

/-- The value of a digit of `strtoul`, or 36 -/
def strtoulDigit (c : UInt8) : Nat :=
  if 48 ≤ c ∧ c ≤ 57 then c.toNat - 48
  else if 97 ≤ tolower c ∧ tolower c ≤ 122 then (tolower c).toNat - 87
  else 36

/-- `strtoul`: the value with whether it is out of range, or `none` if there is no digit -/
def strtoul (base : Nat) (s : List UInt8) : Option (UInt64 × Bool) :=
  let s := s.dropWhile isspace
  let negative := s.head? = some 45
  let s := if s.head? = some 45 ∨ s.head? = some 43 then s.drop 1 else s
  let hex := base = 16 ∧ (s.take 2).map tolower = [48, 120] ∧ ∃ c ∈ s.drop 2 |>.head?, strtoulDigit c < 16
  let s := if hex then s.drop 2 else s
  let digits := s.takeWhile fun c => strtoulDigit c < base
  let n := digits.foldl (fun n c => n * base + strtoulDigit c) 0
  if digits = [] then none
  else if 2 ^ 64 ≤ n then some (.ofNat (2 ^ 64 - 1), true)
  else some (if negative then -(.ofNat n) else .ofNat n, false)

/-- The number that digits stand for -/
def digitsValue (base : Nat) (ds : List UInt8) : Nat := Nat.ofDigits base (ds.map strtoulDigit).reverse

/-- A text that `strtoul` has taken apart -/
structure Numeral where
  blanks : List UInt8
  sign : List UInt8
  pre : List UInt8
  digits : List UInt8
  rest : List UInt8

namespace Numeral

/-- What `strtoul` skips in front of the digits, the digits, and what is behind them -/
def read (base : Nat) (s : List UInt8) : Numeral :=
  let t := s.dropWhile isspace
  let signed := if t.head? = some 45 ∨ t.head? = some 43 then 1 else 0
  let u := t.drop signed
  let hex := base = 16 ∧ (u.take 2).map tolower = [48, 120] ∧ ∃ c ∈ u.drop 2 |>.head?, strtoulDigit c < 16
  let pre := if hex then 2 else 0
  let v := u.drop pre
  { blanks := s.takeWhile isspace
    sign := t.take signed
    pre := u.take pre
    digits := v.takeWhile fun c => strtoulDigit c < base
    rest := v.dropWhile fun c => strtoulDigit c < base }

/-- The whole text again -/
def text (n : Numeral) : List UInt8 := n.blanks ++ (n.sign ++ (n.pre ++ (n.digits ++ n.rest)))

/-- Nothing but `0x` is skipped, and nothing is left. -/
def Whole (n : Numeral) : Prop := n.blanks = [] ∧ n.sign = [] ∧ n.rest = []

/-- The digits behind a minus stand for a number modulo `2 ^ 64`, and too large numbers for the largest one. -/
def value (base : Nat) (n : Numeral) : UInt64 :=
  if 2 ^ 64 ≤ digitsValue base n.digits then .ofNat (2 ^ 64 - 1)
  else if n.sign = [45] then -(.ofNat (digitsValue base n.digits)) else .ofNat (digitsValue base n.digits)

variable {base : Nat} {s ds : List UInt8}

theorem text_read : (read base s).text = s := by
  simp only [text, read, List.takeWhile_append_dropWhile, List.take_append_drop]

theorem foldl_digits (base : Nat) (ds : List UInt8) :
    ds.foldl (fun n c => n * base + strtoulDigit c) 0 = digitsValue base ds := by
  rw [digitsValue, Nat.ofDigits_eq_foldr, List.foldr_reverse, List.foldl_map]
  refine congrArg (fun f => List.foldl f 0 ds) (funext₂ fun n c => ?_)
  rw [Nat.cast_id, Nat.mul_comm, Nat.add_comm]

theorem digitsValue_zero : digitsValue base (48 :: ds) = digitsValue base ds := by
  rw [← foldl_digits, ← foldl_digits, List.foldl_cons, Nat.zero_mul]
  rfl

theorem sign_read : (read base s).sign = [45] ↔ (s.dropWhile isspace).head? = some 45 := by
  simp only [read]
  cases s.dropWhile isspace with
  | nil => simp
  | cons c t => by_cases hc : c = 45 <;> by_cases hc' : c = 43 <;> simp [hc, hc']

theorem strtoul_eq : strtoul base s =
    if (read base s).digits = [] then none
    else some ((read base s).value base, decide (2 ^ 64 ≤ digitsValue base (read base s).digits)) := by
  have hdrop (p : Prop) [Decidable p] (k : Nat) (t : List UInt8) :
      (if p then t.drop k else t) = t.drop (if p then k else 0) := by
    split <;> rfl
  simp only [strtoul, foldl_digits, hdrop, value, sign_read]
  by_cases hdigits : (read base s).digits = []
  · rw [if_pos hdigits]
    exact if_pos hdigits
  · rw [if_neg hdigits]
    refine (if_neg hdigits).trans ?_
    by_cases hlarge : 2 ^ 64 ≤ digitsValue base (read base s).digits
    · rw [if_pos hlarge, decide_eq_true hlarge]
      exact if_pos hlarge
    · rw [if_neg hlarge, decide_eq_false hlarge]
      exact if_neg hlarge

/-! ### What is read -/

theorem digits_read : ∀ c ∈ (read base s).digits, strtoulDigit c < base := by
  intro c hc
  have hdigit : decide (strtoulDigit c < base) = true :=
    List.mem_takeWhile_imp (p := fun c => decide (strtoulDigit c < base)) hc
  exact of_decide_eq_true hdigit

theorem Whole.text_eq (h : (read base s).Whole) : (read base s).pre ++ (read base s).digits = s := by
  obtain ⟨hblanks, hsign, hrest⟩ := h
  have htext := @text_read base s
  rwa [text, hblanks, hsign, hrest, List.nil_append, List.nil_append, List.append_nil] at htext

theorem pre_read (hbase : base ≠ 16) : (read base s).pre = [] := by
  simp only [read, hbase, false_and, if_false, List.take_zero]

theorem not_skipped : ∀ c, strtoulDigit c < 36 → isspace c = false ∧ c ≠ 45 ∧ c ≠ 43 :=
  forall_byte (by decide +kernel)

variable {c : UInt8}

theorem read_cons (hbase : base ≠ 16) (hc : strtoulDigit c < 36) : read base (c :: s) =
    ⟨[], [], [], (c :: s).takeWhile fun c => strtoulDigit c < base,
      (c :: s).dropWhile fun c => strtoulDigit c < base⟩ := by
  obtain ⟨hblank, hminus, hplus⟩ := not_skipped c hc
  have hblanks : (c :: s).takeWhile isspace = [] := List.takeWhile_cons_of_neg (by simp [hblank])
  have hskip : (c :: s).dropWhile isspace = c :: s := List.dropWhile_cons_of_neg (by simp [hblank])
  simp only [read, hblanks, hskip, List.head?_cons, Option.some.injEq, hminus, hplus, or_self, if_false,
    List.drop_zero, List.take_zero, hbase, false_and]

/-- `0x` is skipped if a digit follows. -/
theorem read_zeroX : read 16 (48 :: 120 :: s) =
    if ∃ c ∈ s.head?, strtoulDigit c < 16 then
      ⟨[], [], [48, 120], s.takeWhile fun c => strtoulDigit c < 16, s.dropWhile fun c => strtoulDigit c < 16⟩
    else ⟨[], [], [], [48], 120 :: s⟩ := by
  have hsign : ¬ ((48 : UInt8) = 45 ∨ (48 : UInt8) = 43) := by decide
  have hlower : ([48, 120] : List UInt8).map tolower = [48, 120] := rfl
  have hblanks : (48 :: 120 :: s : List UInt8).takeWhile isspace = [] := rfl
  have hskip : (48 :: 120 :: s : List UInt8).dropWhile isspace = 48 :: 120 :: s := rfl
  simp only [read, hblanks, hskip, List.head?_cons, Option.some.injEq, hsign, if_false, List.drop_zero, List.take_zero,
    List.take_succ_cons, List.drop_succ_cons, hlower, true_and]
  split_ifs
  · rfl
  · rfl

theorem takeWhile_digits (hds : ∀ c ∈ ds, strtoulDigit c < base) :
    ds.takeWhile (fun c => strtoulDigit c < base) = ds ∧ ds.dropWhile (fun c => strtoulDigit c < base) = [] := by
  have hall : ∀ c ∈ ds, decide (strtoulDigit c < base) = true := fun c hc => decide_eq_true (hds c hc)
  exact ⟨List.takeWhile_eq_self_iff.mpr hall, List.dropWhile_eq_nil_iff.mpr hall⟩

theorem read_digits (hbase : base < 16) (hds : ∀ c ∈ ds, strtoulDigit c < base) (hne : ds ≠ []) :
    read base ds = ⟨[], [], [], ds, []⟩ := by
  obtain ⟨hdigits, hrest⟩ := takeWhile_digits hds
  obtain ⟨c, ds, rfl⟩ := List.exists_cons_of_ne_nil hne
  have hc : strtoulDigit c < base := hds c List.mem_cons_self
  rw [read_cons (by omega) (by omega), hdigits, hrest]

theorem read_hexadecimal (hds : ∀ c ∈ ds, strtoulDigit c < 16) (hne : ds ≠ []) :
    read 16 (48 :: 120 :: ds) = ⟨[], [], [48, 120], ds, []⟩ := by
  obtain ⟨hdigits, hrest⟩ := takeWhile_digits hds
  obtain ⟨c, ds, rfl⟩ := List.exists_cons_of_ne_nil hne
  rw [read_zeroX, if_pos ⟨c, rfl, hds c List.mem_cons_self⟩, hdigits, hrest]

end Numeral

/-! ### Hexadecimal digits -/

theorem Hex.isXdigit_eq : ∀ c, Hex.isXdigit c = decide (strtoulDigit c < 16) := forall_byte (by decide +kernel)

theorem Hex.value_eq : ∀ c, Hex.isXdigit c = true → Hex.value c = strtoulDigit c ∧ tolower c ≠ 120 :=
  forall_byte (by decide +kernel)

theorem strtoul_hex {ds rest : List UInt8} (hds : ∀ c ∈ ds, Hex.isXdigit c = true)
    (hlen : 2 ≤ ds.length ∧ ds.length ≤ 16) (hrest : ∀ c ∈ rest.head?, Hex.isXdigit c = false) :
    strtoul 16 (ds ++ rest) = some (.ofNat (Hex.strtoul (ds ++ rest)), false) := by
  have hlt : Hex.strtoul (ds ++ rest) < 2 ^ 64 :=
    (Hex.digits_strtoul hds hrest).1.trans_le (Nat.pow_le_pow_right (by decide) hlen.2)
  have hfold : ds.foldl (fun n c => n * 16 + strtoulDigit c) 0 = Hex.strtoul (ds ++ rest) := by
    rw [Hex.strtoul, Hex.takeWhile_digits hds hrest]
    exact List.foldl_ext _ _ _ fun n c hc => by rw [(Hex.value_eq c (hds c hc)).1]
  have htake : (ds ++ rest).takeWhile (fun c => decide (strtoulDigit c < 16)) = ds := by
    rw [← funext Hex.isXdigit_eq]
    exact Hex.takeWhile_digits hds hrest
  obtain ⟨c, d, ds, rfl⟩ : ∃ c d ds', ds = c :: d :: ds' := by
    obtain ⟨c, ds, rfl⟩ := List.exists_cons_of_length_pos (Nat.lt_of_lt_of_le Nat.two_pos hlen.1)
    obtain ⟨d, ds, rfl⟩ := List.exists_cons_of_length_pos (Nat.lt_of_succ_lt_succ hlen.1)
    exact ⟨c, d, ds, rfl⟩
  have hc := hds c List.mem_cons_self
  have hd := Hex.value_eq d (hds d (List.mem_cons_of_mem _ List.mem_cons_self))
  rw [Hex.isXdigit_eq, decide_eq_true_iff] at hc
  obtain ⟨hblank, hminus, hplus⟩ := Numeral.not_skipped c (by omega)
  have hskip : (c :: d :: ds ++ rest).dropWhile isspace = c :: d :: ds ++ rest :=
    List.dropWhile_cons_of_neg (by simp [hblank])
  have hsign (b : UInt8) (hb : c ≠ b) : (c :: d :: ds ++ rest).head? ≠ some b := by simpa using hb
  have hhex : ((c :: d :: ds ++ rest).take 2).map tolower ≠ [48, 120] := by simp [hd.2]
  rw [strtoul, hskip]
  simp only [hsign 45 hminus, hsign 43 hplus, or_self, if_false, hhex, false_and, and_false, htake, hfold,
    if_neg (List.cons_ne_nil c (d :: ds)), if_neg (Nat.not_le.mpr hlt)]
