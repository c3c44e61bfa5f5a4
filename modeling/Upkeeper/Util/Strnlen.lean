import Mathlib.Data.UInt
import Upkeeper.Library.Block
/-!
# The replacements of `strnlen` (`compat/strnlen.c`, `upk_compat.c`)

Neither is `strnlen`, on any string and with any limit (`strnlen_wrong`). The first one counts the terminator, and looks
at one byte more than the limit allows. The second one never looks at the string: it compares its address with zero.
-/

namespace Upkeeper

open Wire (Fault)

/-! ### `compat/strnlen.c` -/

/-- The loop: what is in the memory from `s + n` on, the counter, and the indices of the bytes that have been read -/
def Compat.strnlenLoop (maxlen : UInt64) : List UInt8 → UInt64 → List Nat → Except Fault (UInt64 × List Nat)
  | [], n, reads => if n ≤ maxlen then .error .overRead else .ok (n, reads)
  | c :: s, n, reads =>
    if n ≤ maxlen then
      if c ≠ 0 then strnlenLoop maxlen s (n + 1) (reads ++ [n.toNat]) else .ok (n + 1, reads ++ [n.toNat])
    else .ok (n, reads)

/-- `strnlen` of `compat/strnlen.c`, with the indices of the bytes that it reads -/
def Compat.strnlen (s : List UInt8) (maxlen : UInt64) : Except Fault (UInt64 × List Nat) :=
  Compat.strnlenLoop maxlen s 0 []

/-! ### `upk_compat.c` -/

/-- The loop, which looks at the address `string + n` -/
def UpkCompat.strnlenLoop (string maxlen n : UInt64) : UInt64 :=
  if string + n ≠ 0 then
    if n < maxlen then strnlenLoop string maxlen (n + 1) else n + 1
  else n
termination_by maxlen.toNat - n.toNat
decreasing_by
  have hlt : n.toNat < maxlen.toNat := UInt64.lt_iff_toNat_lt.mp ‹n < maxlen›
  have hmax := maxlen.toNat_lt
  rw [UInt64.toNat_add]
  simp only [UInt64.reduceToNat]
  omega

/-- `strnlen` of `upk_compat.c` -/
def UpkCompat.strnlen (string maxlen : UInt64) : UInt64 := UpkCompat.strnlenLoop string maxlen 0

/-- What POSIX says of `strnlen`: its result, and the bytes that it may read -/
def PosixStrnlen (s : CStr) (maxlen n : UInt64) (reads : List Nat) : Prop :=
  n.toNat = s.strnlen maxlen.toNat ∧ ∀ i ∈ reads, i < maxlen.toNat

variable {b : List UInt8} {s : CStr} {string maxlen n : UInt64}

theorem size_succ {n : UInt64} (h : n.toNat + 1 < 2 ^ 64) : (n + 1).toNat = n.toNat + 1 := by
  rw [UInt64.toNat_add]
  simp only [UInt64.reduceToNat]
  omega

theorem Compat.strnlenLoop_stop {reads : List Nat} (h : ¬ n ≤ maxlen) (s : List UInt8) :
    Compat.strnlenLoop maxlen s n reads = .ok (n, reads) := by
  cases s with
  | nil => exact if_neg h
  | cons c s => exact if_neg h

/-- The terminator, or the byte at the limit, is read and counted too. -/
theorem Compat.strnlenLoop_eq {chars rest : List UInt8} {reads : List Nat} (hchars : ∀ c ∈ chars, c ≠ 0)
    (hn : n ≤ maxlen) (hspace : n.toNat + chars.length + 1 < 2 ^ 64) :
    ∃ m, Compat.strnlenLoop maxlen (chars ++ 0 :: rest) n reads =
        .ok (m, reads ++ List.range' n.toNat (m.toNat - n.toNat)) ∧
      m.toNat = min (n.toNat + chars.length) maxlen.toNat + 1 := by
  have hle := UInt64.le_iff_toNat_le.mp hn
  have hsucc : (n + 1).toNat = n.toNat + 1 := size_succ (by omega)
  induction chars generalizing n reads with
  | nil =>
    refine ⟨n + 1, ?_, ?_⟩
    · rw [hsucc, Nat.add_sub_cancel_left]
      exact if_pos hn
    · rw [hsucc, List.length_nil, Nat.add_zero]
      omega
  | cons c chars ih =>
    obtain ⟨hc, hchars⟩ := List.forall_mem_cons.mp hchars
    have hstep : Compat.strnlenLoop maxlen (c :: chars ++ 0 :: rest) n reads =
        Compat.strnlenLoop maxlen (chars ++ 0 :: rest) (n + 1) (reads ++ [n.toNat]) := by
      rw [List.cons_append, Compat.strnlenLoop, if_pos hn, if_pos hc]
    rw [List.length_cons] at hspace ⊢
    by_cases hnext : n + 1 ≤ maxlen
    · have hle' := UInt64.le_iff_toNat_le.mp hnext
      obtain ⟨m, hm, hvalue⟩ := ih hchars hnext (by omega) hle' (size_succ (by omega))
      refine ⟨m, ?_, by omega⟩
      have hcount : m.toNat - n.toNat = m.toNat - (n + 1).toNat + 1 := by omega
      rw [hstep, hm, List.append_assoc, hcount, List.range'_succ, hsucc]
      rfl
    · have hlimit : maxlen.toNat = n.toNat := by
        rw [UInt64.le_iff_toNat_le, hsucc] at hnext
        omega
      refine ⟨n + 1, ?_, by omega⟩
      rw [hstep, Compat.strnlenLoop_stop hnext, hsucc, Nat.add_sub_cancel_left]
      rfl

theorem UpkCompat.strnlenLoop_eq (hstring : string ≠ 0) (hn : n ≤ maxlen) (hspace : string.toNat + n.toNat ≤ 2 ^ 64) :
    (UpkCompat.strnlenLoop string maxlen n).toNat = min (maxlen.toNat + 1) (2 ^ 64 - string.toNat) := by
  have hpos : 0 < string.toNat := Nat.pos_of_ne_zero fun h => hstring (UInt64.toNat_inj.mp h)
  have haddr {n : UInt64} (hspace : string.toNat + n.toNat ≤ 2 ^ 64) :
      string + n = 0 ↔ string.toNat + n.toNat = 2 ^ 64 := by
    rw [← UInt64.toNat_inj, UInt64.toNat_add]
    simp only [UInt64.reduceToNat]
    omega
  fun_induction UpkCompat.strnlenLoop string maxlen n with
  | case1 n hne hlt ih =>
    have hlt' := UInt64.lt_iff_toNat_lt.mp hlt
    have hsucc : (n + 1).toNat = n.toNat + 1 := size_succ (by have := maxlen.toNat_lt; omega)
    rw [Ne, haddr hspace] at hne
    exact ih (UInt64.le_iff_toNat_le.mpr (by omega)) (by omega)
  | case2 n hne hlt =>
    have hle := UInt64.le_iff_toNat_le.mp hn
    rw [UInt64.lt_iff_toNat_lt] at hlt
    rw [Ne, haddr hspace] at hne
    rw [size_succ (by omega)]
    omega
  | case3 n heq =>
    have hle := UInt64.le_iff_toNat_le.mp hn
    rw [not_not, haddr hspace] at heq
    omega

theorem compat_strnlen_eq (hb : Block.Holds b s) (hspace : s.chars.length + 1 < 2 ^ 64) :
    ∃ m, Compat.strnlen b maxlen = .ok (m, List.range m.toNat) ∧ m.toNat = s.strnlen maxlen.toNat + 1 := by
  obtain ⟨rest, rfl⟩ := hb
  have hzero : (0 : UInt64) ≤ maxlen := UInt64.le_iff_toNat_le.mpr (Nat.zero_le _)
  have hlen : (0 : UInt64).toNat + s.chars.length = s.chars.length := Nat.zero_add _
  obtain ⟨m, hm, hvalue⟩ := @Compat.strnlenLoop_eq maxlen 0 s.chars rest [] s.noNul hzero (hlen.symm ▸ hspace)
  rw [hlen] at hvalue
  refine ⟨m, hm.trans ?_, hvalue⟩
  rw [List.range_eq_range']
  rfl

theorem upkCompat_strnlen_eq (hstring : string ≠ 0) :
    (UpkCompat.strnlen string maxlen).toNat = min (maxlen.toNat + 1) (2 ^ 64 - string.toNat) :=
  UpkCompat.strnlenLoop_eq hstring (UInt64.le_iff_toNat_le.mpr (Nat.zero_le _)) (Nat.le_of_lt string.toNat_lt)

/-- **Neither function is `strnlen`**, on any string and with any limit. -/
theorem strnlen_wrong (hb : Block.Holds b s) (hstring : string ≠ 0) (hspace : string.toNat + s.chars.length < 2 ^ 64) :
    (∃ m reads, Compat.strnlen b maxlen = .ok (m, reads) ∧ ¬ PosixStrnlen s maxlen m reads) ∧
      ¬ PosixStrnlen s maxlen (UpkCompat.strnlen string maxlen) [] := by
  have hpos : 0 < string.toNat := Nat.pos_of_ne_zero fun h => hstring (UInt64.toNat_inj.mp h)
  constructor
  · obtain ⟨m, hm, hvalue⟩ := @compat_strnlen_eq b s maxlen hb (by omega)
    refine ⟨m, _, hm, fun hposix => ?_⟩
    have hresult := hposix.1
    omega
  · intro hposix
    have hresult := hposix.1
    rw [upkCompat_strnlen_eq hstring, CStr.strnlen] at hresult
    omega

/-- The length of the client's name in a preamble -/
theorem strnlen_wrong_upk :
    (∃ m reads, Compat.strnlen [117, 112, 107, 0] 2048 = .ok (m, reads) ∧ ¬ PosixStrnlen (cstr "upk") 2048 m reads) ∧
      ¬ PosixStrnlen (cstr "upk") 2048 (UpkCompat.strnlen 4096 2048) [] :=
  strnlen_wrong ⟨[], rfl⟩ (by decide) (by decide)

/-- With the limit 2, the first function reads the third byte, and both count it. -/
theorem strnlen_limit : Compat.strnlen [117, 112, 107, 0] 2 = .ok (3, [0, 1, 2]) ∧ UpkCompat.strnlen 4096 2 = 3 ∧
    ¬ PosixStrnlen (cstr "upk") 2 3 [0, 1, 2] ∧ ¬ PosixStrnlen (cstr "upk") 2 3 [] := by
  refine ⟨rfl, ?_, fun h => absurd h.1 (by decide), fun h => absurd h.1 (by decide)⟩
  rw [← UInt64.toNat_inj, upkCompat_strnlen_eq (by decide)]
  rfl

end Upkeeper
