import Mathlib.Logic.Function.Iterate
/-!
# Cyclic redundancy checks

The register is a `BitVec w`, shifted towards its lowest bit; the generator `p` is added where a one is shifted out. A
byte is added to the low end of the register and shifted through. All of this is linear, and it can be undone if the
generator has its highest bit. So the register tells apart two blocks that differ only in as many consecutive bytes as
it holds.
-/

namespace Crc

variable {w : Nat} (p : BitVec w)

/-- One bit -/
def shift (c : BitVec w) : BitVec w := (c >>> 1) ^^^ if c.getLsbD 0 then p else 0#w

/-- One byte -/
def feed (c : BitVec w) (b : UInt8) : BitVec w := (shift p)^[8] (c ^^^ b.toBitVec.setWidth w)

/-- The bytes of a register, the lowest first -/
def word : List UInt8 → BitVec w
  | [] => 0#w
  | b :: bs => b.toBitVec.setWidth w ^^^ (word bs <<< 8)

variable {p} {a b c : BitVec w} {n : Nat}

/-! ### Linearity -/

theorem shift_xor : shift p (a ^^^ b) = shift p a ^^^ shift p b := by
  unfold shift
  rw [BitVec.ushiftRight_xor_distrib, BitVec.getLsbD_xor]
  cases a.getLsbD 0 <;> cases b.getLsbD 0
  · simp
  · simp [BitVec.xor_assoc]
  · simp only [Bool.xor_false, if_true, Bool.false_eq_true, if_false, BitVec.xor_zero]
    rw [BitVec.xor_assoc, BitVec.xor_assoc, BitVec.xor_comm (b >>> 1)]
  · -- the generator is added twice
    have hcancel : ∀ x y : BitVec w, x ^^^ p ^^^ (y ^^^ p) = x ^^^ y := by
      intro x y
      rw [BitVec.xor_comm y p, BitVec.xor_assoc, ← BitVec.xor_assoc p p y, BitVec.xor_self, BitVec.zero_xor]
    simp [hcancel]

theorem iterate_shift_xor (n : Nat) : (shift p)^[n] (a ^^^ b) = (shift p)^[n] a ^^^ (shift p)^[n] b := by
  induction n generalizing a b with
  | zero => rfl
  | succ n ih => rw [Function.iterate_succ_apply, shift_xor, ih, ← Function.iterate_succ_apply,
      ← Function.iterate_succ_apply]

theorem iterate_shift_of_low (h : ∀ i < n, c.getLsbD i = false) : (shift p)^[n] c = c >>> n := by
  induction n generalizing c with
  | zero => simp
  | succ n ih =>
    have hlow : shift p c = c >>> 1 := by
      rw [shift, if_neg (by simp [h 0 (by omega)]), BitVec.xor_zero]
    rw [Function.iterate_succ_apply, hlow, ih, ← BitVec.shiftRight_add, Nat.add_comm]
    intro i hi
    rw [BitVec.getLsbD_ushiftRight]
    exact h (1 + i) (by omega)

/-! ### Nothing gets lost -/

/-- The highest bit says whether the generator has been added. -/
theorem shift_injective (hp : p.getLsbD (w - 1) = true) : Function.Injective (shift p) := by
  intro a b h
  have hw : 0 < w := by
    by_contra hzero
    rw [BitVec.getLsbD_of_ge p (w - 1) (by omega)] at hp
    exact Bool.noConfusion hp
  have hbit : ∀ c : BitVec w, (shift p c).getLsbD (w - 1) = c.getLsbD 0 := by
    intro c
    rw [shift, BitVec.getLsbD_xor, BitVec.getLsbD_ushiftRight, BitVec.getLsbD_of_ge c (1 + (w - 1)) (by omega),
      Bool.false_xor]
    split
    next hc => rw [hp, hc]
    next hc => simpa using hc
  have hlow : a.getLsbD 0 = b.getLsbD 0 := by rw [← hbit a, h, hbit b]
  have hrest : a >>> 1 = b >>> 1 := by
    unfold shift at h
    rw [hlow] at h
    exact (BitVec.xor_left_inj _).mp h
  apply BitVec.eq_of_getLsbD_eq
  intro i hi
  cases i with
  | zero => exact hlow
  | succ i =>
    have hi' := congrArg (BitVec.getLsbD · i) hrest
    simpa only [BitVec.getLsbD_ushiftRight, Nat.add_comm 1 i] using hi'

theorem feed_injective (hp : p.getLsbD (w - 1) = true) (b : UInt8) : Function.Injective (feed p · b) := by
  intro x y h
  exact (BitVec.xor_left_inj _).mp ((shift_injective hp).iterate 8 h)

theorem foldl_feed_injective (hp : p.getLsbD (w - 1) = true) (bs : List UInt8) :
    Function.Injective fun c => bs.foldl (feed p) c := by
  induction bs with
  | nil => exact Function.injective_id
  | cons b bs ih => exact ih.comp (feed_injective hp b)

/-! ### Bytes in a register -/

theorem word_high {bs : List UInt8} {i : Nat} (h : 8 * bs.length ≤ i) : (word bs : BitVec w).getLsbD i = false := by
  induction bs generalizing i with
  | nil => simp [word]
  | cons b bs ih =>
    rw [List.length_cons] at h
    have hb : b.toBitVec.getLsbD i = false := BitVec.getLsbD_of_ge _ _ (by omega)
    rw [word, BitVec.getLsbD_xor, BitVec.getLsbD_setWidth, hb, BitVec.getLsbD_shiftLeft, ih (by omega)]
    simp

theorem word_shiftLeft {bs : List UInt8} (h : 8 * (bs.length + 1) ≤ w) :
    (shift p)^[8] ((word bs : BitVec w) <<< 8) = word bs := by
  rw [iterate_shift_of_low]
  · apply BitVec.eq_of_getLsbD_eq
    intro i hi
    rw [BitVec.getLsbD_ushiftRight, BitVec.getLsbD_shiftLeft]
    by_cases hlt : 8 + i < w
    · simp [hlt]
    · rw [word_high (by omega : 8 * bs.length ≤ i)]
      simp [hlt]
  · intro i hi
    simp [BitVec.getLsbD_shiftLeft, hi]

theorem foldl_feed {bs : List UInt8} (h : 8 * bs.length ≤ w) (c : BitVec w) :
    bs.foldl (feed p) c = (shift p)^[8 * bs.length] (c ^^^ word bs) := by
  induction bs generalizing c with
  | nil => simp [word]
  | cons b bs ih =>
    rw [List.length_cons] at h
    have hword : feed p c b ^^^ word bs = (shift p)^[8] (c ^^^ word (b :: bs)) := by
      calc feed p c b ^^^ word bs
          = (shift p)^[8] (c ^^^ b.toBitVec.setWidth w) ^^^ (shift p)^[8] (word bs <<< 8) := by
            rw [word_shiftLeft h, feed]
        _ = (shift p)^[8] (c ^^^ word (b :: bs)) := by
            rw [← iterate_shift_xor, BitVec.xor_assoc, word]
    rw [List.foldl_cons, ih (by omega), hword, ← Function.iterate_add_apply, List.length_cons, Nat.mul_succ]

theorem word_injective {bs bs' : List UInt8} (hlen : bs.length = bs'.length) (h : 8 * bs.length ≤ w)
    (heq : (word bs : BitVec w) = word bs') : bs = bs' := by
  induction bs generalizing bs' with
  | nil => exact (List.length_eq_zero_iff.mp hlen.symm).symm
  | cons b bs ih =>
    cases bs' with
    | nil => simp at hlen
    | cons b' bs' =>
      rw [List.length_cons] at h
      have hbit : ∀ (c : UInt8) (cs : List UInt8) i, i < 8 →
          (word (c :: cs) : BitVec w).getLsbD i = c.toBitVec.getLsbD i := by
        intro c cs i hi
        have hlt : i < w := by omega
        simp [word, hi, hlt]
      have hrest : ∀ (c : UInt8) (cs : List UInt8) i, 8 + i < w →
          (word (c :: cs) : BitVec w).getLsbD (8 + i) = (word cs : BitVec w).getLsbD i := by
        intro c cs i hi
        have hc : c.toBitVec.getLsbD (8 + i) = false := BitVec.getLsbD_of_ge _ _ (by omega)
        rw [word, BitVec.getLsbD_xor, BitVec.getLsbD_setWidth, hc, BitVec.getLsbD_shiftLeft]
        simp [hi]
      have hb : b = b' := by
        apply UInt8.toBitVec_inj.mp
        apply BitVec.eq_of_getLsbD_eq
        intro i hi
        rw [← hbit b bs i hi, heq, hbit b' bs' i hi]
      have hlen' : bs.length = bs'.length := Nat.succ.inj hlen
      have hbs : bs = bs' := by
        refine ih hlen' (by omega) (BitVec.eq_of_getLsbD_eq fun i hi => ?_)
        by_cases hlt : 8 + i < w
        · rw [← hrest b bs i hlt, heq, hrest b' bs' i hlt]
        · rw [word_high (by omega), word_high (by omega)]
      rw [hb, hbs]

/-! ### Bursts -/

/-- **The register tells apart two blocks** that differ only within as many consecutive bytes as it holds. -/
theorem foldl_feed_ne {as bs : List UInt8} {i k : Nat} (hp : p.getLsbD (w - 1) = true) (hlen : as.length = bs.length)
    (hne : as ≠ bs) (hk : 8 * k ≤ w) (h : ∀ j, j < i ∨ i + k ≤ j → as[j]? = bs[j]?) (c : BitVec w) :
    as.foldl (feed p) c ≠ bs.foldl (feed p) c := by
  intro heq
  have hbefore : as.take i = bs.take i := by
    apply List.ext_getElem?
    intro j
    by_cases hj : j < i
    · simp only [List.getElem?_take, hj, if_true, h j (.inl hj)]
    · simp only [List.getElem?_take, hj, if_false]
  have hafter : (as.drop i).drop k = (bs.drop i).drop k := by
    apply List.ext_getElem?
    intro j
    simp only [List.getElem?_drop]
    exact h _ (.inr (by omega))
  rw [← List.take_append_drop i as, ← List.take_append_drop i bs, ← List.take_append_drop k (as.drop i),
    ← List.take_append_drop k (bs.drop i), hbefore, hafter] at heq
  simp only [List.foldl_append] at heq
  have hwindow := foldl_feed_injective hp _ heq
  have hlength : ((as.drop i).take k).length = ((bs.drop i).take k).length := by simp [hlen]
  have hfits : 8 * ((as.drop i).take k).length ≤ w := by
    have := List.length_take_le k (as.drop i)
    omega
  have hfits' : 8 * ((bs.drop i).take k).length ≤ w := hlength ▸ hfits
  rw [foldl_feed hfits, foldl_feed hfits', hlength] at hwindow
  have hword := (BitVec.xor_right_inj _).mp ((shift_injective hp).iterate _ hwindow)
  have hsame := word_injective hlength hfits hword
  apply hne
  rw [← List.take_append_drop i as, ← List.take_append_drop i bs, ← List.take_append_drop k (as.drop i),
    ← List.take_append_drop k (bs.drop i), hbefore, hafter, hsame]

end Crc
