import Mathlib.Algebra.Order.Group.Nat
import Mathlib.Algebra.Ring.Nat
import Upkeeper.Library.Crc
import Upkeeper.Protocol.Crc32
/-!
# What the checksum is (`upk_crc32.c`)

`upk_crc32` takes its table literally. It is the one that `upk_create_crc32_table` computes, so a byte goes through the
register as eight bits do, and the checksum finds every error within four consecutive bytes.
-/

namespace Upkeeper

/-- `magic`, the polynomial -/
def crcMagic : UInt32 := 0xedb88320

/-- A turn of the inner loop of `upk_create_crc32_table` -/
def crcBit (crc : UInt32) : UInt32 := if crc &&& 1 ≠ 0 then (crc >>> 1) ^^^ crcMagic else crc >>> 1

/-- The inner loop of `upk_create_crc32_table` -/
def crcByte (crc : UInt32) : UInt32 := crcBit^[8] crc

/-- `upk_create_crc32_table` -/
def upkCreateCrc32Table : List UInt32 := (List.range 256).map fun i => crcByte (.ofNat i)

/-- The checksum, a bit at a time -/
def bitwiseCrc32 (block : List UInt8) : UInt32 :=
  block.foldl (fun crc byte => crcByte (crc ^^^ byte.toUInt32)) 0 ^^^ 0xffffffff

/-! ### A byte is eight bits -/

theorem crcTable_eq : crcTable = upkCreateCrc32Table := by decide +kernel

theorem crcBit_toBitVec (crc : UInt32) : (crcBit crc).toBitVec = Crc.shift crcMagic.toBitVec crc.toBitVec := by
  have hbit : (crc &&& 1).toBitVec = BitVec.setWidth 32 (BitVec.ofBool (crc.toBitVec.getLsbD 0)) := by
    rw [UInt32.toBitVec_and]
    exact BitVec.and_one_eq_setWidth_ofBool_getLsbD
  unfold crcBit Crc.shift
  cases h : crc.toBitVec.getLsbD 0 with
  | false =>
    rw [h] at hbit
    have hzero : crc &&& 1 = 0 := UInt32.toBitVec_inj.mp hbit
    rw [if_neg (not_not.mpr hzero)]
    simp
  | true =>
    rw [h] at hbit
    have hone : crc &&& 1 ≠ 0 := by
      intro hzero
      rw [hzero] at hbit
      exact absurd hbit (by decide)
    rw [if_pos hone]
    simp

theorem crcByte_toBitVec (crc : UInt32) :
    (crcByte crc).toBitVec = (Crc.shift crcMagic.toBitVec)^[8] crc.toBitVec := by
  have h : Function.Semiconj UInt32.toBitVec crcBit (Crc.shift crcMagic.toBitVec) := crcBit_toBitVec
  exact (h.iterate_right 8).eq crc

theorem crcTable_getD (x : UInt32) : crcTable.getD (x &&& 0xff).toNat 0 = crcByte (x &&& 0xff) := by
  have hlt : (x &&& 0xff).toNat < 256 := by
    rw [UInt32.toNat_and]
    exact Nat.lt_of_le_of_lt Nat.and_le_right (by decide)
  rw [crcTable_eq, upkCreateCrc32Table, List.getD_eq_getElem?_getD, List.getElem?_map, List.getElem?_range hlt]
  simp only [Option.map_some, Option.getD_some, UInt32.ofNat_toNat]

theorem byte_high (byte : UInt8) {i : Nat} (h : 8 ≤ i) : byte.toUInt32.toBitVec.getLsbD i = false := by
  rw [UInt8.toBitVec_toUInt32, BitVec.getLsbD_setWidth, BitVec.getLsbD_of_ge byte.toBitVec i h, Bool.and_false]

theorem low_mask {k : Nat} (hk : k ≤ 32) (i : Nat) : (BitVec.ofNat 32 (2 ^ k - 1)).getLsbD i = decide (i < k) := by
  rw [BitVec.getLsbD_ofNat, Nat.testBit_two_pow_sub_one]
  by_cases h : i < k
  · simp [h, Nat.lt_of_lt_of_le h hk]
  · simp [h]

/-- **The table does what eight bits do.** -/
theorem crcStep_eq (crc : UInt32) (byte : UInt8) : crcStep crc byte = crcByte (crc ^^^ byte.toUInt32) := by
  have hmask : ∀ i, (0xff#32).getLsbD i = decide (i < 8) := low_mask (k := 8) (by decide)
  have hmask' : ∀ i, (0x00ffffff#32).getLsbD i = decide (i < 24) := low_mask (k := 24) (by decide)
  generalize hx : crc ^^^ byte.toUInt32 = x
  have hxbit : ∀ i, 8 ≤ i → x.toBitVec.getLsbD i = crc.toBitVec.getLsbD i := by
    intro i hi
    rw [← hx, UInt32.toBitVec_xor, BitVec.getLsbD_xor, byte_high byte hi, Bool.xor_false]
  -- the high part of the register is shifted only
  have hsplit : x.toBitVec = (x.toBitVec &&& ~~~0xff#32) ^^^ (x.toBitVec &&& 0xff#32) := by
    apply BitVec.eq_of_getLsbD_eq
    intro i hi
    simp only [BitVec.getLsbD_xor, BitVec.getLsbD_and, BitVec.getLsbD_not, hmask, hi]
    cases x.toBitVec.getLsbD i <;> simp
  have hhigh : (Crc.shift crcMagic.toBitVec)^[8] (x.toBitVec &&& ~~~0xff#32) =
      (crc.toBitVec >>> 8) &&& 0x00ffffff#32 := by
    rw [Crc.iterate_shift_of_low]
    · apply BitVec.eq_of_getLsbD_eq
      intro i hi
      simp only [BitVec.getLsbD_ushiftRight, BitVec.getLsbD_and, BitVec.getLsbD_not, hmask, hmask',
        hxbit (8 + i) (by omega)]
      by_cases h : i < 24
      · simp [h]
        omega
      · rw [BitVec.getLsbD_of_ge crc.toBitVec (8 + i) (by omega)]
        simp
    · intro i hi
      rw [BitVec.getLsbD_and, BitVec.getLsbD_not, hmask, decide_eq_true hi]
      simp
  apply UInt32.toBitVec_inj.mp
  rw [crcByte_toBitVec, hsplit, Crc.iterate_shift_xor, hhigh, crcStep, hx, crcTable_getD, UInt32.toBitVec_xor,
    crcByte_toBitVec]
  rfl

/-- **The checksum is the bitwise one**, and its table the one that is generated for it. -/
theorem upkCrc32_eq_bitwise : crcTable = upkCreateCrc32Table ∧ ∀ block, upkCrc32 block = bitwiseCrc32 block := by
  refine ⟨crcTable_eq, fun block => ?_⟩
  rw [upkCrc32, bitwiseCrc32, funext₂ crcStep_eq]

/-! ### Bursts -/

theorem foldl_crcStep (block : List UInt8) (crc : UInt32) :
    (block.foldl crcStep crc).toBitVec = block.foldl (Crc.feed crcMagic.toBitVec) crc.toBitVec := by
  induction block generalizing crc with
  | nil => rfl
  | cons byte block ih =>
    rw [List.foldl_cons, ih, crcStep_eq, crcByte_toBitVec, UInt32.toBitVec_xor, UInt8.toBitVec_toUInt32]
    rfl

/-- The blocks differ, and only within four consecutive bytes. -/
structure Burst (as bs : List UInt8) : Prop where
  length : as.length = bs.length
  ne : as ≠ bs
  within : ∃ i, ∀ j, j < i ∨ i + 4 ≤ j → as[j]? = bs[j]?

/-- **A burst changes the checksum**, so a payload that it has corrupted is rejected. -/
theorem upkCrc32_ne_of_burst (as bs : List UInt8) (h : Burst as bs) :
    upkCrc32 as ≠ upkCrc32 bs ∧ upkVerifyCrc32 bs (upkCrc32 as) = false := by
  have hne : upkCrc32 as ≠ upkCrc32 bs := by
    obtain ⟨i, hwithin⟩ := h.within
    intro heq
    have hregister : as.foldl crcStep 0 = bs.foldl crcStep 0 := by
      apply UInt32.toBitVec_inj.mp
      have hxor := congrArg UInt32.toBitVec heq
      rw [upkCrc32, upkCrc32, UInt32.toBitVec_xor, UInt32.toBitVec_xor] at hxor
      exact (BitVec.xor_left_inj _).mp hxor
    refine Crc.foldl_feed_ne (p := crcMagic.toBitVec) (by decide) h.length h.ne (by decide : 8 * 4 ≤ 32) hwithin
      (0 : UInt32).toBitVec ?_
    rw [← foldl_crcStep, ← foldl_crcStep, hregister]
  exact ⟨hne, beq_false_of_ne hne.symm⟩

/-- Four bytes of five -/
theorem upkCrc32_ne_of_burst_fourBytes :
    upkCrc32 [1, 2, 3, 4, 5] ≠ upkCrc32 [9, 2, 7, 8, 5] ∧
      upkVerifyCrc32 [9, 2, 7, 8, 5] (upkCrc32 [1, 2, 3, 4, 5]) = false := by
  refine upkCrc32_ne_of_burst _ _ ⟨rfl, by decide, 0, fun j hj => ?_⟩
  match j with
  | 0 | 1 | 2 | 3 => omega
  | 4 => rfl
  | j + 5 => rfl

end Upkeeper
