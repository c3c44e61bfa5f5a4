import Mathlib.Data.List.TakeWhile
/-!
# C strings and character arrays

`CStr` is the text behind a `char *`: the bytes before its terminator, none of which is zero. `CharArr n` is a
`char[n]`: exactly `n` bytes, of which the text is what stands before the first zero, if there is one. A buffer is
such an array too: `store` puts bytes into the middle of it. `CharBuf n` is a `char[n]` that only `strncpy` with `n - 1`
and `memset` write to: it always holds a terminator, and zeroes behind it.
-/

/-- The text of a NUL-terminated string. -/
structure CStr where
  chars : List UInt8
  noNul : ∀ c ∈ chars, c ≠ 0
  deriving DecidableEq

/-- `strnlen(s, max)` -/
def CStr.strnlen (s : CStr) (max : Nat) : Nat := min s.chars.length max

theorem CStr.ext {s t : CStr} (h : s.chars = t.chars) : s = t := by
  cases s
  cases t
  congr

/-- A string literal. There is no NUL in it to leave out. -/
def cstr (s : String) : CStr where
  chars := (s.toList.map fun c => c.toNat.toUInt8).filter (· ≠ 0)
  noNul := fun c hc => by simpa using (List.mem_filter.mp hc).2

/-! ### Comparing (`string.h`, `strings.h`) -/

/-- The text in an array that is read up to `n` bytes -/
def textUpTo (n : Nat) (bs : List UInt8) : List UInt8 := (bs.take n).takeWhile (· ≠ 0)

theorem CStr.textUpTo_eq (text : CStr) (n : Nat) : textUpTo n text.chars = text.chars.take n := by
  refine List.takeWhile_eq_self_iff.mpr fun c hc => ?_
  simpa using text.noNul c (List.mem_of_mem_take hc)

/-- `strncmp(a, b, n) == 0` -/
def strncmpEq (n : Nat) (a b : List UInt8) : Bool := textUpTo n a == textUpTo n b

/-- `tolower`, in the C locale -/
def tolower (c : UInt8) : UInt8 := if 65 ≤ c ∧ c ≤ 90 then c + 32 else c

/-- `toupper`, in the C locale -/
def toupper (c : UInt8) : UInt8 := if 97 ≤ c ∧ c ≤ 122 then c - 32 else c

theorem forall_byte {p : UInt8 → Prop} (h : ∀ n < 256, p (.ofNat n)) (c : UInt8) : p c := by
  have hc := h c.toNat c.toNat_lt
  rwa [UInt8.ofNat_toNat] at hc

/-- `strncasecmp(a, b, n) == 0` -/
def strncasecmpEq (n : Nat) (a b : List UInt8) : Bool := (textUpTo n a).map tolower == (textUpTo n b).map tolower

/-- `strcasecmp(s, t) == 0` -/
def CStr.strcasecmpEq (s t : CStr) : Bool := s.chars.map tolower == t.chars.map tolower

/-- `strncpy(dst, s, n)` of a text that may be too long: its first `n` bytes -/
def CStr.take (s : CStr) (n : Nat) : CStr := ⟨s.chars.take n, fun c hc => s.noNul c (List.mem_of_mem_take hc)⟩

/-- The text behind the first `n` bytes -/
def CStr.drop (s : CStr) (n : Nat) : CStr := ⟨s.chars.drop n, fun c hc => s.noNul c (List.mem_of_mem_drop hc)⟩

/-- `strcat` -/
def CStr.append (s t : CStr) : CStr :=
  ⟨s.chars ++ t.chars, fun c hc => (List.mem_append.mp hc).elim (s.noNul c) (t.noNul c)⟩

/-- The empty string -/
def CStr.empty : CStr := ⟨[], by simp⟩

/-- The texts, one behind the other -/
def CStr.concat (ss : List CStr) : CStr := ss.foldr CStr.append .empty

/-- A text out of bytes none of which is zero -/
def CStr.ofChars (chars : List UInt8) : CStr where
  chars := chars.filter (· ≠ 0)
  noNul := fun c hc => by simpa using (List.mem_filter.mp hc).2

@[simp] theorem CStr.concat_chars (ss : List CStr) : (CStr.concat ss).chars = ss.flatMap CStr.chars := by
  induction ss with
  | nil => rfl
  | cons s ss ih =>
    rw [List.flatMap_cons, ← ih]
    rfl

theorem CStr.ofChars_chars {chars : List UInt8} (h : 0 ∉ chars) : (CStr.ofChars chars).chars = chars := by
  refine List.filter_eq_self.mpr fun c hc => ?_
  simpa using fun heq : c = 0 => h (heq ▸ hc)

/-- A `char[n]` with a terminator, and zeroes behind it -/
structure CharBuf (n : Nat) extends CStr where
  fits : chars.length < n
  deriving DecidableEq

namespace CharBuf

variable {n : Nat}

theorem ext {a b : CharBuf n} (h : a.chars = b.chars) : a = b := by
  obtain ⟨s, hs⟩ := a
  obtain ⟨t, ht⟩ := b
  obtain rfl : s = t := CStr.ext h
  rfl

/-- A zeroed array -/
def zero (h : 0 < n := by decide) : CharBuf n := ⟨.empty, h⟩

/-- `strncpy(dst, s, k)` into an array that holds no more than `k` bytes of text -/
def strncpy (s : CStr) (k : Nat) (h : k < n) : CharBuf n :=
  ⟨s.take k, (List.length_take_le k s.chars).trans_lt h⟩

theorem strncpy_eq {s : CStr} {k : Nat} {h : k < n} (hlen : s.chars.length ≤ k) :
    (strncpy s k h).toCStr = s :=
  CStr.ext (List.take_of_length_le hlen)

end CharBuf

/-- `char[n]` -/
structure CharArr (n : Nat) where
  bytes : List UInt8
  size : bytes.length = n
  deriving DecidableEq

namespace CharArr

variable {n : Nat} {a : CharArr n} {bs : List UInt8}

/-- The text in front of the first zero byte. -/
def chars (a : CharArr n) : List UInt8 := a.bytes.takeWhile (· ≠ 0)

/-- `strnlen(a, n)` -/
def strnlen (a : CharArr n) : Nat := a.chars.length

/-- The array holds a terminator. -/
def Terminated (a : CharArr n) : Prop := 0 ∈ a.bytes

instance (a : CharArr n) : Decidable a.Terminated := inferInstanceAs (Decidable (_ ∈ _))

/-- A zeroed array into which the bytes have been copied, as far as they fit. -/
def ofBytes (n : Nat) (bs : List UInt8) : CharArr n :=
  ⟨bs.take n ++ List.replicate (n - bs.length) 0, by simp; omega⟩

/-- Two arrays hold the same text, and terminate it. -/
def Same (a b : CharArr n) : Prop := a.chars = b.chars ∧ a.Terminated ∧ b.Terminated

theorem chars_ne_zero : ∀ c ∈ a.chars, c ≠ 0 := by
  intro c hc
  simpa using List.mem_takeWhile_imp hc

theorem chars_prefix : a.chars <+: a.bytes := List.takeWhile_prefix _

theorem strnlen_le : a.strnlen ≤ n := chars_prefix.length_le.trans a.size.le

theorem take_strnlen : a.bytes.take a.strnlen = a.chars :=
  (List.prefix_iff_eq_take.mp chars_prefix).symm

theorem terminated_iff : a.Terminated ↔ a.strnlen < n := by
  unfold Terminated strnlen
  constructor
  · intro h
    by_contra hlen
    have heq : a.chars = a.bytes := chars_prefix.eq_of_length_le (by have := a.size; omega)
    exact chars_ne_zero 0 (heq ▸ h) rfl
  · intro h
    by_contra hmem
    have heq : a.chars = a.bytes := by
      unfold chars
      rw [List.takeWhile_eq_self_iff]
      intro c hc
      simpa using ne_of_mem_of_not_mem hc hmem
    rw [heq, a.size] at h
    omega

theorem takeWhile_append_zero (h : ∀ c ∈ bs, c ≠ 0) (rest : List UInt8) :
    (bs ++ 0 :: rest).takeWhile (· ≠ 0) = bs := by
  rw [List.takeWhile_append_of_pos (by simpa using h)]
  simp

theorem ofBytes_bytes (hlen : bs.length < n) : ∃ rest, (ofBytes n bs).bytes = bs ++ 0 :: rest := by
  obtain ⟨k, hk⟩ : ∃ k, n - bs.length = k + 1 := ⟨n - bs.length - 1, by omega⟩
  refine ⟨List.replicate k 0, ?_⟩
  show bs.take n ++ List.replicate (n - bs.length) 0 = _
  rw [List.take_of_length_le (by omega), hk, List.replicate_succ]

theorem ofBytes_chars (h : ∀ c ∈ bs, c ≠ 0) (hlen : bs.length < n) : (ofBytes n bs).chars = bs := by
  obtain ⟨rest, hrest⟩ := ofBytes_bytes hlen
  rw [chars, hrest, takeWhile_append_zero h]

theorem ofBytes_terminated (hlen : bs.length < n) : (ofBytes n bs).Terminated := by
  obtain ⟨rest, hrest⟩ := ofBytes_bytes hlen
  rw [Terminated, hrest]
  simp

/-- Copying a string with its terminator is copying its text into a zeroed array. -/
theorem ofBytes_append_zero (hlen : bs.length < n) : ofBytes n (bs ++ [0]) = ofBytes n bs := by
  have h₁ : (bs ++ [0]).take n = bs ++ [0] := List.take_of_length_le (by simp; omega)
  have h₂ : bs.take n = bs := List.take_of_length_le (by omega)
  obtain ⟨k, hk⟩ : ∃ k, n - bs.length = k + 1 := ⟨n - bs.length - 1, by omega⟩
  have hk' : n - (bs ++ [0]).length = k := by simp; omega
  simp only [ofBytes, h₁, h₂, hk, hk', List.replicate_succ, List.append_assoc, List.singleton_append]

/-! ### Buffers -/

/-- A zeroed array -/
def zero (n : Nat) : CharArr n := ⟨List.replicate n 0, List.length_replicate⟩

/-- Copy `bs` to `a + off`. -/
def store (a : CharArr n) (off : Nat) (bs : List UInt8) (h : off + bs.length ≤ n) : CharArr n :=
  ⟨a.bytes.take off ++ bs ++ a.bytes.drop (off + bs.length), by simp [a.size]; omega⟩

/-- `strncpy(dest, src, k)`: the text of the source, and zeros up to the byte `k` -/
def strncpy {m : Nat} (dest : CharArr n) (src : CharArr m) (k : Nat) (h : k ≤ n) : CharArr n :=
  let text := textUpTo k src.bytes
  dest.store 0 (text ++ List.replicate (k - text.length) 0) <| by
    have htext : text.length ≤ k := (List.takeWhile_prefix _).length_le.trans (List.length_take_le k src.bytes)
    rw [List.length_append, List.length_replicate]
    omega

theorem take_store_end {off : Nat} {h : off + bs.length ≤ n} :
    (a.store off bs h).bytes.take (off + bs.length) = a.bytes.take off ++ bs := by
  have hoff : off ≤ a.bytes.length := by rw [a.size]; omega
  refine List.take_left' ?_
  rw [List.length_append, List.length_take, Nat.min_eq_left hoff]

end CharArr
