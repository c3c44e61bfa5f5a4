import Mathlib.Data.List.Basic
import Upkeeper.Library.CString
import Upkeeper.Library.Wire
/-!
# Blocks on the heap

A block is what `malloc` returned: its bytes, each of which can be loaded and stored. `Holds b s` says that the block
starts with the string `s` and its terminator; what is behind it is not known. An access outside the block is a
`Fault`.
-/

namespace Block

open Wire (Fault)

variable {b b' : List UInt8} {s t : CStr} {i n : Nat} {c : UInt8} {junk : Nat → UInt8}

/-- `b[i]` -/
def load (b : List UInt8) (i : Nat) : Except Fault UInt8 :=
  match b[i]? with
  | some c => .ok c
  | none => .error .overRead

/-- `b[i] = c` -/
def store (b : List UInt8) (i : Nat) (c : UInt8) : Except Fault (List UInt8) :=
  if i < b.length then .ok (b.set i c) else .error .overWrite

/-- `memcpy(b + i, src, n)` of the `n` bytes `src` -/
def memcpy (b : List UInt8) (i : Nat) (src : List UInt8) : Except Fault (List UInt8) :=
  if i + src.length ≤ b.length then .ok (b.take i ++ src ++ b.drop (i + src.length)) else .error .overWrite

/-- `calloc(1, n)` -/
def calloc (n : Nat) : List UInt8 := List.replicate n 0

/-- `realloc(b, n)`; the bytes that the block grows by are `junk`. -/
def realloc (junk : Nat → UInt8) (b : List UInt8) (n : Nat) : List UInt8 :=
  (List.range n).map fun i => b[i]?.getD (junk i)

/-- `strlen(b)` -/
def strlen (b : List UInt8) : Except Fault Nat :=
  match b.idxOf? 0 with
  | some n => .ok n
  | none => .error .overRead

/-- The string that a block holds, up to its terminator -/
def text (b : List UInt8) : CStr where
  chars := b.takeWhile (· ≠ 0)
  noNul c hc := by simpa using List.mem_takeWhile_imp hc

/-- `strcat(b, t)` -/
def strcat (b : List UInt8) (t : CStr) : Except Fault (List UInt8) := do
  let len ← strlen b
  memcpy b len (t.chars ++ [0])

/-- `strncat(b, t, n)` -/
def strncat (b : List UInt8) (t : CStr) (n : Nat) : Except Fault (List UInt8) := strcat b (t.take n)

/-- The block holds the string `s`. -/
def Holds (b : List UInt8) (s : CStr) : Prop := ∃ rest, b = s.chars ++ 0 :: rest

/-! ### Single bytes -/

theorem load_eq (h : b[i]? = some c) : load b i = .ok c := by
  unfold load
  rw [h]

theorem store_eq (h : i < b.length) : store b i c = .ok (b.set i c) := if_pos h

theorem memcpy_eq {src : List UInt8} (h : i + src.length ≤ b.length) :
    memcpy b i src = .ok (b.take i ++ src ++ b.drop (i + src.length)) := if_pos h

@[simp] theorem calloc_length (n : Nat) : (calloc n).length = n := List.length_replicate

@[simp] theorem realloc_length (junk : Nat → UInt8) (b : List UInt8) (n : Nat) : (realloc junk b n).length = n := by
  rw [realloc, List.length_map, List.length_range]

theorem getElem?_realloc (hb : i < b.length) (hn : i < n) : (realloc junk b n)[i]? = b[i]? := by
  rw [realloc, List.getElem?_map, List.getElem?_range hn, Option.map_some, List.getElem?_eq_getElem hb,
    Option.getD_some]

theorem take_realloc (hb : i ≤ b.length) (hn : i ≤ n) : (realloc junk b n).take i = b.take i := by
  apply List.ext_getElem?
  intro j
  by_cases hj : j < i
  · rw [List.getElem?_take_of_lt hj, List.getElem?_take_of_lt hj, getElem?_realloc (by omega) (by omega)]
  · rw [List.getElem?_take_eq_none (by omega), List.getElem?_take_eq_none (by omega)]

/-! ### Strings -/

theorem Holds.length_lt (h : Holds b s) : s.chars.length < b.length := by
  obtain ⟨rest, rfl⟩ := h
  simp

theorem Holds.text_eq (h : Holds b s) : text b = s := by
  obtain ⟨rest, rfl⟩ := h
  apply CStr.ext
  exact CharArr.takeWhile_append_zero s.noNul rest

theorem Holds.strlen_eq (h : Holds b s) : strlen b = .ok s.chars.length := by
  obtain ⟨rest, rfl⟩ := h
  have hnot : (0 : UInt8) ∉ s.chars := fun hmem => s.noNul 0 hmem rfl
  have hidx : (s.chars ++ 0 :: rest).idxOf? 0 = some s.chars.length := by
    rw [List.idxOf?, List.findIdx?_append, List.findIdx?_eq_none_iff.mpr]
    · simp [List.findIdx?_cons]
    · intro c hc
      simpa using s.noNul c hc
  unfold strlen
  rw [hidx]

theorem holds_calloc (h : 0 < n) : Holds (calloc n) .empty := by
  obtain ⟨k, rfl⟩ := Nat.exists_eq_add_of_lt h
  exact ⟨List.replicate k 0, by rw [calloc, Nat.zero_add, List.replicate_succ]; rfl⟩

theorem holds_iff_take : Holds b s ↔ b.take (s.chars.length + 1) = s.chars ++ [0] := by
  constructor
  · rintro ⟨rest, rfl⟩
    rw [show s.chars ++ 0 :: rest = (s.chars ++ [0]) ++ rest by simp]
    exact List.take_left' (by simp)
  · intro h
    refine ⟨b.drop (s.chars.length + 1), ?_⟩
    rw [← List.take_append_drop (s.chars.length + 1) b, h]
    simp

theorem Holds.realloc (h : Holds b s) (hn : s.chars.length < n) : Holds (realloc junk b n) s := by
  rw [holds_iff_take] at h ⊢
  have hlen := (holds_iff_take.mpr h).length_lt
  rw [take_realloc (by omega) (by omega), h]

theorem Holds.strcat (h : Holds b s) (hroom : s.chars.length + t.chars.length < b.length) :
    ∃ b', strcat b t = .ok b' ∧ Holds b' (s.append t) ∧ b'.length = b.length := by
  have hfits : s.chars.length + (t.chars ++ [0]).length ≤ b.length := by
    rw [List.length_append, List.length_singleton]
    omega
  refine ⟨b.take s.chars.length ++ (t.chars ++ [0]) ++ b.drop (s.chars.length + (t.chars ++ [0]).length), ?_, ?_, ?_⟩
  · rw [Block.strcat, h.strlen_eq, Wire.ok_bind, memcpy_eq hfits]
  · refine ⟨b.drop (s.chars.length + (t.chars ++ [0]).length), ?_⟩
    obtain ⟨rest, rfl⟩ := h
    rw [List.take_left]
    simp [CStr.append]
  · simp only [List.length_append, List.length_take, List.length_drop] at hfits ⊢
    omega

theorem Holds.strcat_overrun (h : Holds b s) (hroom : b.length ≤ s.chars.length + t.chars.length) :
    Block.strcat b t = .error .overWrite := by
  have hover : ¬ s.chars.length + (t.chars ++ [0]).length ≤ b.length := by
    rw [List.length_append, List.length_singleton]
    omega
  rw [Block.strcat, h.strlen_eq, Wire.ok_bind]
  exact if_neg hover

end Block
