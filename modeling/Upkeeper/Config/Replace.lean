import Upkeeper.Config.SvcIds
import Upkeeper.Library.Block
/-!
# Replacing in a script (`upk_replace_string`)

The block of the script grows or shrinks by the difference of the lengths, what stands behind the occurrence is moved,
and the replacement is copied over it. The size is compared with the length of the text, which has no terminator: a
replacement that is one byte shorter than the needle is taken for one that needs no move (`replacesFirst_iff`).
-/

namespace Upkeeper

open Wire (Fault)
open Block (Holds)

/-! ### The function -/

/-- `for(; seek != stop - 1; seek--) *(seek + rlen - nlen) = *seek`, where `k` is `seek + 1` -/
def shiftUp (nlen rlen stop : Nat) : Nat → List UInt8 → Except Fault (List UInt8)
  | 0, b => if 0 = stop then .ok b else .error .overRead
  | seek + 1, b =>
    if seek + 1 = stop then .ok b
    else do
      let c ← Block.load b seek
      let b ← Block.store b (seek + rlen - nlen) c
      shiftUp nlen rlen stop seek b

/-- `for(; seek + nlen - rlen != len; seek++) *seek = *(seek + nlen - rlen)`, which leaves the block before the fuel is
used up, and then `*seek = '\0'` -/
def shiftDown (nlen rlen len : Nat) : Nat → Nat → List UInt8 → Except Fault (List UInt8)
  | 0, _, _ => .error .overRead
  | fuel + 1, seek, b =>
    if seek + nlen - rlen = len then Block.store b seek 0
    else do
      let c ← Block.load b (seek + nlen - rlen)
      let b ← Block.store b seek c
      shiftDown nlen rlen len fuel (seek + 1) b

/-- The two branches of `upk_replace_string` that move the text behind the occurrence -/
def makeRoom (junk : Nat → UInt8) (haystack : List UInt8) (len nlen rlen offset : Nat) : Except Fault (List UInt8) :=
  let newsize := len + rlen - nlen + 1
  if newsize > len then shiftUp nlen rlen (offset + nlen) (len + 1) (Block.realloc junk haystack newsize)
  else if newsize < len then do
    let haystack ← shiftDown nlen rlen len (haystack.length + 1) (offset + rlen) haystack
    .ok (Block.realloc junk haystack newsize)
  else .ok haystack

/-- `upk_replace_string` -/
def upkReplaceString (junk : Nat → UInt8) (haystack : List UInt8) (needle repl : CStr) :
    Except Fault (List UInt8) := do
  let len ← Block.strlen haystack
  match strstr (Block.text haystack) needle with
  | none => .ok haystack
  | some offset => do
    let haystack ← makeRoom junk haystack len needle.chars.length repl.chars.length offset
    Block.memcpy haystack offset repl.chars

/-- The text `r` is `s` with the first occurrence of the needle replaced, and `s` itself if there is none. -/
def ReplacesFirst (needle repl s r : CStr) : Prop :=
  (∀ i, Search.FirstAt needle.chars s.chars i →
    r.chars = s.chars.take i ++ repl.chars ++ s.chars.drop (i + needle.chars.length)) ∧
  (¬ needle.chars <:+: s.chars → r = s)

/-! ### The loops -/

section Loops

variable {b : List UInt8} {d k stop seek len : Nat}

/-- The bytes from `stop` to `k` have moved up by `d`. -/
structure MovedUp (b b' : List UInt8) (stop k d : Nat) : Prop where
  length : b'.length = b.length
  front : ∀ i < stop + d, b'[i]? = b[i]?
  moved : ∀ i, stop ≤ i → i < k → b'[i + d]? = b[i]?
  behind : ∀ i, k + d ≤ i → b'[i]? = b[i]?

theorem shiftUp_spec (nlen : Nat) (hstop : stop ≤ k) (hroom : k + d ≤ b.length) :
    ∃ b', shiftUp nlen (nlen + d) stop k b = .ok b' ∧ MovedUp b b' stop k d := by
  induction k generalizing b with
  | zero =>
    obtain rfl : stop = 0 := Nat.le_zero.mp hstop
    exact ⟨b, rfl, rfl, fun _ _ => rfl, fun i _ hi => absurd hi (Nat.not_lt_zero i), fun _ _ => rfl⟩
  | succ seek ih =>
    unfold shiftUp
    by_cases hk : seek + 1 = stop
    · rw [if_pos hk]
      exact ⟨b, rfl, rfl, fun _ _ => rfl, fun i h₁ h₂ => by omega, fun _ _ => rfl⟩
    · have hget : b[seek]? = some b[seek] := List.getElem?_eq_getElem (by omega)
      have hdest : seek + (nlen + d) - nlen = seek + d := by omega
      rw [if_neg hk, Block.load_eq hget, Wire.ok_bind, hdest, Block.store_eq (by omega), Wire.ok_bind]
      -- only the byte at `seek + d` is written, above all that is still to be moved
      have hkeep (i : Nat) (hi : i ≠ seek + d) : (b.set (seek + d) b[seek])[i]? = b[i]? :=
        List.getElem?_set_ne (Ne.symm hi)
      obtain ⟨b', hb', hmoved⟩ := ih (b := b.set (seek + d) b[seek]) (by omega) (by rw [List.length_set]; omega)
      refine ⟨b', hb', hmoved.length.trans List.length_set, ?_, ?_, ?_⟩
      · intro i hi
        rw [hmoved.front i hi, hkeep i (by omega)]
      · intro i h₁ h₂
        rcases Nat.lt_or_ge i seek with hlt | hge
        · rw [hmoved.moved i h₁ hlt, hkeep i (by omega)]
        · obtain rfl : i = seek := by omega
          rw [hmoved.behind _ le_rfl, List.getElem?_set_self (by omega), hget]
      · intro i hi
        rw [hmoved.behind i (by omega), hkeep i (by omega)]

/-- The bytes from `seek + d` to `len` have moved down by `d`, and a terminator stands behind them. -/
structure MovedDown (b b' : List UInt8) (seek len d : Nat) : Prop where
  length : b'.length = b.length
  front : ∀ i < seek, b'[i]? = b[i]?
  moved : ∀ i, seek ≤ i → i + d < len → b'[i]? = b[i + d]?
  ended : b'[len - d]? = some 0

theorem shiftDown_spec (rlen fuel : Nat) (hd : 0 < d) (hseek : seek + d ≤ len) (hlen : len < b.length)
    (hfuel : len < seek + d + fuel) :
    ∃ b', shiftDown (rlen + d) rlen len fuel seek b = .ok b' ∧ MovedDown b b' seek len d := by
  induction fuel generalizing b seek with
  | zero => omega
  | succ fuel ih =>
    have hsrc : seek + (rlen + d) - rlen = seek + d := by omega
    unfold shiftDown
    rw [hsrc]
    by_cases hend : seek + d = len
    · rw [if_pos hend, Block.store_eq (by omega)]
      refine ⟨_, rfl, List.length_set, ?_, ?_, ?_⟩
      · intro i hi
        exact List.getElem?_set_ne (by omega)
      · intro i h₁ h₂
        omega
      · rw [show len - d = seek by omega]
        exact List.getElem?_set_self (by omega)
    · have hget : b[seek + d]? = some b[seek + d] := List.getElem?_eq_getElem (by omega)
      rw [if_neg hend, Block.load_eq hget, Wire.ok_bind, Block.store_eq (by omega), Wire.ok_bind]
      -- only the byte at `seek` is written, below all that is still to be moved
      have hkeep (i : Nat) (hi : i ≠ seek) : (b.set seek b[seek + d])[i]? = b[i]? :=
        List.getElem?_set_ne (Ne.symm hi)
      have hnext : seek + 1 + d ≤ len := by omega
      obtain ⟨b', hb', hmoved⟩ := ih (b := b.set seek b[seek + d]) hnext (by rw [List.length_set]; omega) (by omega)
      refine ⟨b', hb', hmoved.length.trans List.length_set, ?_, ?_, hmoved.ended⟩
      · intro i hi
        rw [hmoved.front i (by omega), hkeep i (by omega)]
      · intro i h₁ h₂
        rcases Nat.lt_or_ge seek i with hlt | hge
        · rw [hmoved.moved i hlt h₂, hkeep (i + d) (by omega)]
        · obtain rfl : i = seek := by omega
          rw [hmoved.front i (by omega), List.getElem?_set_self (by omega), hget]

end Loops

/-! ### The replacement -/

section Replacement

variable {b : List UInt8} {s needle repl tail : CStr} {i d : Nat} {rest : List UInt8}

theorem memcpy_holds (hfront : b.take i = s.chars.take i)
    (hback : b.drop (i + repl.chars.length) = tail.chars ++ 0 :: rest) :
    ∃ b', Block.memcpy b i repl.chars = .ok b' ∧ Holds b' (((s.take i).append repl).append tail) := by
  have hlen := congrArg List.length hback
  simp only [List.length_drop, List.length_append, List.length_cons] at hlen
  refine ⟨_, Block.memcpy_eq (by omega), rest, ?_⟩
  rw [hfront, hback]
  simp [CStr.append, CStr.take]

theorem getElem?_block {j : Nat} (hj : j ≤ s.chars.length) : (s.chars ++ 0 :: rest)[j]? = (s.chars ++ [0])[j]? := by
  rw [show s.chars ++ 0 :: rest = s.chars ++ [0] ++ rest by simp]
  exact List.getElem?_append_left (by simp; omega)

theorem drop_block (hi : i ≤ s.chars.length) : (s.chars ++ [0]).drop i = (s.drop i).chars ++ 0 :: [] :=
  List.drop_append_of_le_length hi

theorem take_block (hi : i ≤ s.chars.length) (hb : ∀ j < i, b[j]? = (s.chars ++ [0])[j]?) :
    b.take i = s.chars.take i := by
  apply List.ext_getElem?
  intro j
  rcases Nat.lt_or_ge j i with hj | hj
  · rw [List.getElem?_take_of_lt hj, List.getElem?_take_of_lt hj, hb j hj, List.getElem?_append_left (by omega)]
  · rw [List.getElem?_take_eq_none hj, List.getElem?_take_eq_none hj]

theorem drop_moved {j : Nat} (hi : i ≤ s.chars.length) (hlen : b.length + i = j + s.chars.length + 1)
    (hb : ∀ k, i ≤ k → k ≤ s.chars.length → b[j + (k - i)]? = (s.chars ++ [0])[k]?) :
    b.drop j = (s.drop i).chars ++ 0 :: [] := by
  rw [← drop_block hi]
  apply List.ext_getElem?
  intro k
  rw [List.getElem?_drop, List.getElem?_drop]
  rcases Nat.lt_or_ge s.chars.length (i + k) with hk | hk
  · rw [List.getElem?_eq_none (by omega), List.getElem?_eq_none (by simp; omega)]
  · rw [← hb (i + k) (by omega) hk, Nat.add_sub_cancel_left]

variable {junk : Nat → UInt8}

theorem upkReplaceString_eq (h : Search.FirstAt needle.chars s.chars i) :
    upkReplaceString junk (s.chars ++ 0 :: rest) needle repl =
      makeRoom junk (s.chars ++ 0 :: rest) s.chars.length needle.chars.length repl.chars.length i >>=
        fun b => Block.memcpy b i repl.chars := by
  have hholds : Holds (s.chars ++ 0 :: rest) s := ⟨rest, rfl⟩
  unfold upkReplaceString
  rw [hholds.strlen_eq, Wire.ok_bind, hholds.text_eq, strstr_eq_some.mpr h]

theorem makeRoom_grow (h : i + needle.chars.length ≤ s.chars.length)
    (hd : repl.chars.length = needle.chars.length + d) :
    ∃ b, makeRoom junk (s.chars ++ 0 :: rest) s.chars.length needle.chars.length repl.chars.length i = .ok b ∧
      b.take i = s.chars.take i ∧
      b.drop (i + repl.chars.length) = (s.drop (i + needle.chars.length)).chars ++ 0 :: [] := by
  have hsize : s.chars.length + (needle.chars.length + d) - needle.chars.length + 1 = s.chars.length + d + 1 := by omega
  unfold makeRoom
  dsimp only
  rw [hd, hsize, if_pos (by omega)]
  have hblock (j : Nat) (hj : j ≤ s.chars.length) :
      (Block.realloc junk (s.chars ++ 0 :: rest) (s.chars.length + d + 1))[j]? = (s.chars ++ [0])[j]? := by
    rw [Block.getElem?_realloc (by simp; omega) (by omega), getElem?_block hj]
  obtain ⟨b, hb, hmoved⟩ := shiftUp_spec (b := Block.realloc junk (s.chars ++ 0 :: rest) (s.chars.length + d + 1))
    (d := d) needle.chars.length (Nat.le_succ_of_le h) (by rw [Block.realloc_length]; omega)
  refine ⟨b, hb, take_block (by omega) ?_, drop_moved h ?_ ?_⟩
  · intro j hj
    rw [hmoved.front j (by omega), hblock j (by omega)]
  · rw [hmoved.length, Block.realloc_length]
    omega
  · intro k h₁ h₂
    rw [show i + (needle.chars.length + d) + (k - (i + needle.chars.length)) = k + d by omega,
      hmoved.moved k h₁ (by omega), hblock k h₂]

theorem makeRoom_shrink (h : i + needle.chars.length ≤ s.chars.length)
    (hd : needle.chars.length = repl.chars.length + d) (hd' : 1 < d) :
    ∃ b, makeRoom junk (s.chars ++ 0 :: rest) s.chars.length needle.chars.length repl.chars.length i = .ok b ∧
      b.take i = s.chars.take i ∧
      b.drop (i + repl.chars.length) = (s.drop (i + needle.chars.length)).chars ++ 0 :: [] := by
  have hsize : s.chars.length + repl.chars.length - (repl.chars.length + d) + 1 = s.chars.length - d + 1 := by omega
  unfold makeRoom
  dsimp only
  rw [hd] at h ⊢
  rw [hsize, if_neg (by omega), if_pos (by omega)]
  have hlen : s.chars.length < (s.chars ++ 0 :: rest).length := by simp
  have hseek : i + repl.chars.length + d ≤ s.chars.length := by omega
  obtain ⟨b, hb, hmoved⟩ := shiftDown_spec repl.chars.length ((s.chars ++ 0 :: rest).length + 1) (by omega) hseek hlen
    (by omega)
  rw [hb]
  refine ⟨_, rfl, take_block (by omega) ?_, drop_moved h ?_ ?_⟩
  · intro j hj
    rw [Block.getElem?_realloc (by rw [hmoved.length]; omega) (by omega), hmoved.front j (by omega),
      getElem?_block (by omega)]
  · rw [Block.realloc_length]
    omega
  · intro k h₁ h₂
    rw [Block.getElem?_realloc (by rw [hmoved.length]; omega) (by omega)]
    rcases Nat.lt_or_ge k s.chars.length with hlt | hge
    · rw [hmoved.moved _ (by omega) (by omega), getElem?_block (by omega)]
      congr 1
      omega
    · obtain rfl : k = s.chars.length := by omega
      rw [show i + repl.chars.length + (s.chars.length - (i + (repl.chars.length + d))) = s.chars.length - d by omega,
        hmoved.ended]
      simp

/-- A replacement that is one byte shorter than the needle: nothing is moved. -/
theorem makeRoom_none (hd : repl.chars.length + 1 = needle.chars.length)
    (h : i + needle.chars.length ≤ s.chars.length) :
    makeRoom junk (s.chars ++ 0 :: rest) s.chars.length needle.chars.length repl.chars.length i =
      .ok (s.chars ++ 0 :: rest) := by
  unfold makeRoom
  dsimp only
  rw [if_neg (by omega), if_neg (by omega)]

/-- The text with `n` bytes at `i` replaced -/
def replacedAt (s repl : CStr) (i n : Nat) : CStr := ((s.take i).append repl).append (s.drop (i + n))

theorem replacedAt_length (s repl : CStr) {n : Nat} (h : i + n ≤ s.chars.length) :
    (replacedAt s repl i n).chars.length + n = s.chars.length + repl.chars.length := by
  simp only [replacedAt, CStr.append, CStr.take, CStr.drop, List.length_append, List.length_take, List.length_drop]
  omega

theorem upkReplaceString_moved (junk : Nat → UInt8) (rest : List UInt8) (h : Search.FirstAt needle.chars s.chars i)
    (hd : repl.chars.length + 1 ≠ needle.chars.length) :
    ∃ b, upkReplaceString junk (s.chars ++ 0 :: rest) needle repl = .ok b ∧
      Holds b (replacedAt s repl i needle.chars.length) := by
  have hle := h.occurs.length_le
  obtain ⟨b, hb, hfront, hback⟩ : ∃ b, makeRoom junk (s.chars ++ 0 :: rest) s.chars.length needle.chars.length
      repl.chars.length i = .ok b ∧ b.take i = s.chars.take i ∧
        b.drop (i + repl.chars.length) = (s.drop (i + needle.chars.length)).chars ++ 0 :: [] := by
    rcases Nat.lt_or_ge repl.chars.length needle.chars.length with hlt | hge
    · obtain ⟨d, hlen⟩ := Nat.exists_eq_add_of_le hlt.le
      exact makeRoom_shrink hle hlen (by omega)
    · obtain ⟨d, hlen⟩ := Nat.exists_eq_add_of_le hge
      exact makeRoom_grow hle hlen
  obtain ⟨b', hb', hholds⟩ := memcpy_holds hfront hback
  refine ⟨b', ?_, hholds⟩
  rw [upkReplaceString_eq h, hb, Wire.ok_bind, hb']

/-- The last byte of the needle stays, if no room has been made. -/
theorem upkReplaceString_kept (junk : Nat → UInt8) (rest : List UInt8) (h : Search.FirstAt needle.chars s.chars i)
    (hd : repl.chars.length + 1 = needle.chars.length) :
    ∃ b, upkReplaceString junk (s.chars ++ 0 :: rest) needle repl = .ok b ∧
      Holds b (replacedAt s repl i repl.chars.length) := by
  have hle := h.occurs.length_le
  have hfront : (s.chars ++ 0 :: rest).take i = s.chars.take i := List.take_append_of_le_length (by omega)
  have hback : (s.chars ++ 0 :: rest).drop (i + repl.chars.length) =
      (s.drop (i + repl.chars.length)).chars ++ 0 :: rest := List.drop_append_of_le_length (by omega)
  obtain ⟨b, hb, hholds⟩ := memcpy_holds hfront hback
  refine ⟨b, ?_, hholds⟩
  rw [upkReplaceString_eq h, makeRoom_none hd hle, Wire.ok_bind, hb]

theorem upkReplaceString_absent (h : ¬ needle.chars <:+: s.chars) :
    upkReplaceString junk (s.chars ++ 0 :: rest) needle repl = .ok (s.chars ++ 0 :: rest) := by
  have hholds : Holds (s.chars ++ 0 :: rest) s := ⟨rest, rfl⟩
  unfold upkReplaceString
  rw [hholds.strlen_eq, Wire.ok_bind, hholds.text_eq, strstr_eq_none.mpr h]

theorem exists_firstAt (h : needle.chars <:+: s.chars) : ∃ i, Search.FirstAt needle.chars s.chars i := by
  cases hfind : strstr s needle with
  | none => exact absurd h (strstr_eq_none.mp hfind)
  | some i => exact ⟨i, strstr_eq_some.mp hfind⟩

/-- Where room has not been made, the text that comes out is longer than the one that should. -/
theorem length_ne_of_replaces (hocc : needle.chars <:+: s.chars)
    (h : ∃ b r, upkReplaceString junk (s.chars ++ 0 :: rest) needle repl = .ok b ∧ Holds b r ∧
      ReplacesFirst needle repl s r) : repl.chars.length + 1 ≠ needle.chars.length := by
  intro hd
  obtain ⟨b, r, hb, hr, hreplaced, -⟩ := h
  obtain ⟨i, hi⟩ := exists_firstAt hocc
  have hle := hi.occurs.length_le
  obtain ⟨b', hb', hkept⟩ := upkReplaceString_kept junk rest hi hd
  obtain rfl : b = b' := Except.ok.inj (hb.symm.trans hb')
  have heq : r = replacedAt s repl i repl.chars.length := hr.text_eq.symm.trans hkept.text_eq
  have hwant : r.chars = (replacedAt s repl i needle.chars.length).chars := hreplaced i hi
  have hlong := replacedAt_length s repl (i := i) (n := repl.chars.length) (by omega)
  have hshort := replacedAt_length s repl (i := i) (n := needle.chars.length) (by omega)
  rw [← heq, hwant] at hlong
  omega

/-- **The first occurrence is replaced exactly if there is none, or the replacement is not one byte shorter than the
needle.** -/
theorem replacesFirst_iff (junk : Nat → UInt8) (s : CStr) (rest : List UInt8) (needle repl : CStr) :
    (∃ b r, upkReplaceString junk (s.chars ++ 0 :: rest) needle repl = .ok b ∧ Holds b r ∧
      ReplacesFirst needle repl s r) ↔
      (needle.chars <:+: s.chars → repl.chars.length + 1 ≠ needle.chars.length) := by
  constructor
  · intro h hocc
    exact length_ne_of_replaces hocc h
  · intro hd
    by_cases hocc : needle.chars <:+: s.chars
    · obtain ⟨i, hi⟩ := exists_firstAt hocc
      obtain ⟨b, hb, hholds⟩ := upkReplaceString_moved junk rest hi (hd hocc)
      refine ⟨b, replacedAt s repl i needle.chars.length, hb, hholds, fun j hj => ?_, fun hno => absurd hocc hno⟩
      obtain rfl := hi.unique hj
      rfl
    · refine ⟨_, s, upkReplaceString_absent hocc, ⟨rest, rfl⟩, fun i hi => ?_, fun _ => rfl⟩
      exact absurd (Search.exists_occurs_iff.mp ⟨i, hi.occurs⟩) hocc

/-- `x` for `bc` in `abc` makes `axc`. -/
theorem not_replacesFirst_shorter :
    ¬ ∃ b r, upkReplaceString (fun _ => 0) ((cstr "abc").chars ++ [0]) (cstr "bc") (cstr "x") = .ok b ∧ Holds b r ∧
      ReplacesFirst (cstr "bc") (cstr "x") (cstr "abc") r := by
  intro h
  exact length_ne_of_replaces (by decide) h (by decide)

end Replacement

end Upkeeper
