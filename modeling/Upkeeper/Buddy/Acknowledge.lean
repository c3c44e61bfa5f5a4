import Upkeeper.Buddy.Flush
/-!
# When a flush clears a slot (`buddy_flush_ringbuffer`)

The test of a flush looks at variables that outlive its calls: the counts of `write_ctrl` and of `read_ctrl`, which stay
as they are when `select` says no, and `ack`. `Misleads` lists, given these variables, the results of the calls that
pass the test although no whole record was written or no whole acknowledgement was read. A flush clears a slot without
an acknowledgement exactly when the first record that the controller does not acknowledge is one of these
(`sound_iff_flushesTruly`).
-/

namespace Upkeeper

/-! ### The results of the calls for a record -/

/-- How many bytes a `write` took -/
def WriteResult.wrote : WriteResult → Nat
  | .taken n => n
  | .fail _ => 0

/-- The bytes that a `read` got -/
def ReadResult.bytes : ReadResult → List UInt8
  | .data bs => bs
  | .fail _ => []

/-- The bytes of `UPK_CTRL_ACK` -/
def ackBytes : List UInt8 := [1, 0, 0, 0]

/-- What the test for a record looks at besides the results of the calls: whether the sets hold `buddy_ctrlfd`, the
static counts of `write_ctrl` and `read_ctrl`, and the static `ack` -/
structure Statics where
  connected : Bool
  writeCount : UInt64
  readCount : UInt64
  ack : UInt32
  deriving DecidableEq

/-- What a whole record that was written and a whole acknowledgement that was read leave behind -/
def Statics.acknowledged : Statics := ⟨true, 208, 4, upkCtrlAck⟩

def Buddy.statics (b : Buddy) : Statics := ⟨decide (0 < b.ctrlfd), b.writeCount, b.readCount, b.ack⟩

/-- The call gets past its `select`. -/
def Statics.Reaches (v : Statics) (s : SelectResult) : Prop := v.connected = true ∧ s ≠ .timeout

instance (v : Statics) (s : SelectResult) : Decidable (v.Reaches s) := inferInstanceAs (Decidable (_ ∧ _))

namespace Exchange

variable (v : Statics) (x : Exchange)

/-- Nothing is written, and the count is that of an earlier `write`. -/
def WriteStale : Prop := ¬ v.Reaches x.writeSelect ∧ 0 < toInt32 v.writeCount

/-- A part of the record is written. -/
def WriteShort : Prop := v.Reaches x.writeSelect ∧ 0 < x.write.wrote ∧ x.write.wrote < sizeofBuddyInfo

/-- The whole record is written. -/
def WriteWhole : Prop := v.Reaches x.writeSelect ∧ sizeofBuddyInfo ≤ x.write.wrote

/-- Nothing is read, the count is that of an earlier `read`, and `ack` is an earlier acknowledgement. -/
def ReadStale : Prop := ¬ v.Reaches x.readSelect ∧ 0 < toInt32 v.readCount ∧ v.ack = upkCtrlAck

/-- Too few bytes are read, and over what `ack` was they make an acknowledgement. -/
def ReadShort : Prop :=
  v.Reaches x.readSelect ∧ 0 < x.read.bytes.length ∧ x.read.bytes.length < sizeofBuddyCmnd ∧
    readInto x.read.bytes v.ack = upkCtrlAck

/-- A whole acknowledgement is read. -/
def ReadWhole : Prop := v.Reaches x.readSelect ∧ x.read.bytes.take sizeofBuddyCmnd = ackBytes

/-- The record is written whole, and an acknowledgement is read whole. -/
def Genuine : Prop := x.WriteWhole v ∧ x.ReadWhole v

/-- The test is passed without a whole record or without a whole acknowledgement. -/
def Misleads : Prop :=
  (x.WriteStale v ∨ x.WriteShort v) ∧ (x.ReadStale v ∨ x.ReadShort v ∨ x.ReadWhole v) ∨
    x.WriteWhole v ∧ (x.ReadStale v ∨ x.ReadShort v)

instance : Decidable (x.WriteStale v) := inferInstanceAs (Decidable (_ ∧ _))

instance : Decidable (x.WriteShort v) := inferInstanceAs (Decidable (_ ∧ _ ∧ _))

instance : Decidable (x.WriteWhole v) := inferInstanceAs (Decidable (_ ∧ _))

instance : Decidable (x.ReadStale v) := inferInstanceAs (Decidable (_ ∧ _ ∧ _))

instance : Decidable (x.ReadShort v) := inferInstanceAs (Decidable (_ ∧ _ ∧ _ ∧ _))

instance : Decidable (x.ReadWhole v) := inferInstanceAs (Decidable (_ ∧ _))

instance : Decidable (x.Genuine v) := inferInstanceAs (Decidable (_ ∧ _))

instance : Decidable (x.Misleads v) := inferInstanceAs (Decidable (_ ∨ _))

variable {v x}

theorem ReadWhole.length (h : x.ReadWhole v) : sizeofBuddyCmnd ≤ x.read.bytes.length := by
  have hlen := congrArg List.length h.2
  rw [List.length_take, show ackBytes.length = sizeofBuddyCmnd from rfl] at hlen
  omega

theorem Genuine.not_misleads (h : x.Genuine v) : ¬ x.Misleads v := by
  obtain ⟨hwrite, hread⟩ := h
  have hlen := hread.length
  rintro (⟨⟨hstale, -⟩ | ⟨-, -, hshort⟩, -⟩ | ⟨-, ⟨hstale, -⟩ | ⟨-, -, hshort, -⟩⟩)
  · exact hstale hwrite.1
  · exact absurd hwrite.2 (by omega)
  · exact hstale hread.1
  · omega

theorem genuine_congr {v' : Statics} (h : v.connected = v'.connected) : x.Genuine v ↔ x.Genuine v' := by
  simp only [Genuine, WriteWhole, ReadWhole, Statics.Reaches, h]

end Exchange

/-- The slots that a flush clears had their records written and acknowledged. -/
def Flushed.Sound {ω : Type*} (f : Flushed ω) : Prop :=
  ∀ e ∈ f.offers, e.cleared = true → e.exchange.Genuine e.before.statics

instance {ω : Type*} (f : Flushed ω) : Decidable f.Sound := inferInstanceAs (Decidable (∀ e ∈ f.offers, _))

/-! ### When a flush is sound -/

namespace Buddy

/-- The records that a flush has to offer, each with its `remaining` -/
def offered : Nat → List BuddyInfo → List BuddyInfo
  | _, [] => []
  | pending, cur :: rest =>
    if cur.populated then
      { cur with remaining := UInt64.ofNat pending - 1 } :: offered (pendingAfterZero cur pending) rest
    else offered pending rest

theorem offered_of_full {cur : BuddyInfo} (b : Buddy) (rest : List BuddyInfo) (hpop : cur.populated = true) :
    offered b.ringbufferPending (cur :: rest) =
      b.withRemaining cur :: offered (pendingAfterZero cur b.ringbufferPending) rest := if_pos hpop

theorem offered_of_free {cur : BuddyInfo} (pending : Nat) (rest : List BuddyInfo) (hpop : cur.populated = false) :
    offered pending (cur :: rest) = offered pending rest := if_neg (Bool.not_eq_true _ ▸ hpop)

variable {ω : Type*} (o : Outside ω)

/-- The exchanges for the records, up to the first one that is not genuine, do not mislead the test. -/
def NeverMisled : List BuddyInfo → Statics → ω → Prop
  | [], _, _ => True
  | info :: infos, v, w =>
    let answer := o.exchange v.connected info w
    ¬ answer.1.Misleads v ∧ (answer.1.Genuine v → NeverMisled infos .acknowledged answer.2)

theorem neverMisled_cons {o : Outside ω} {info : BuddyInfo} {infos : List BuddyInfo} {v : Statics} {x : Exchange}
    {w w' : ω} (hx : o.exchange v.connected info w = (x, w')) :
    NeverMisled o (info :: infos) v w ↔ ¬ x.Misleads v ∧ (x.Genuine v → NeverMisled o infos .acknowledged w') := by
  rw [NeverMisled, hx]

/-- Buddy and what surrounds it when a flush comes to the test of `buddy_ctrlfd`: signals may have been handled and a
connection made. -/
def beforeLoop (cfg : BuddyConfig) (b : Buddy) (w : ω) : Buddy × ω :=
  let s := o.interrupt { b with ack := b.thisCommand } w
  phoneHomeIfAppropriate o cfg s.1 s.2

/-- The results of the calls of a flush do not mislead it, given the variables with which its loop begins. -/
def FlushesTruly (cfg : BuddyConfig) (b : Buddy) (w : ω) : Prop :=
  let s := beforeLoop o cfg b w
  0 ≤ s.1.ctrlfd → NeverMisled o (offered s.1.ringbufferPending s.1.ring) s.1.statics s.2

end Buddy

namespace Flushed

variable {ω : Type*} {f : Flushed ω} {e : Offer}

theorem sound_cons :
    ({ f with offers := e :: f.offers } : Flushed ω).Sound ↔
      (e.cleared = true → e.exchange.Genuine e.before.statics) ∧ f.Sound := List.forall_mem_cons

end Flushed

/-! ### What passes the test -/

theorem toInt32_ofNat {n : Nat} (h : n < 0x80000000) : toInt32 (UInt64.ofNat n) = n := by
  have hsmall : (UInt64.ofNat n).toBitVec.setWidth 32 = BitVec.ofNat 32 n := by
    apply BitVec.eq_of_toNat_eq
    simp only [UInt64.toBitVec_ofNat', BitVec.toNat_setWidth, BitVec.toNat_ofNat]
    omega
  rw [toInt32, hsmall, BitVec.toInt_ofNat']
  rw [Int.bmod_eq_of_le] <;> omega

theorem toInt32_sizeMax_le : toInt32 sizeMax ≤ 0 := by decide

theorem cmndOfBytes_inj {a b : List UInt8} (hlen : a.length = b.length) (h : cmndOfBytes a = cmndOfBytes b) : a = b := by
  induction a generalizing b with
  | nil => rw [List.eq_nil_of_length_eq_zero hlen.symm]
  | cons c a ih =>
    cases b with
    | nil => simp at hlen
    | cons d b =>
      unfold cmndOfBytes at h
      have hc := c.toNat_lt
      have hd := d.toNat_lt
      have hcd : c = d := UInt8.toNat_inj.mp (by omega)
      rw [hcd, ih (by simpa using hlen) (by omega)]

theorem cmndOfBytes_lt (bs : List UInt8) (h : bs.length = sizeofBuddyCmnd) : cmndOfBytes bs < 0x100000000 := by
  obtain ⟨a, b, c, d, rfl⟩ := List.length_eq_four.mp h
  have ha := a.toNat_lt
  have hb := b.toNat_lt
  have hc := c.toNat_lt
  have hd := d.toNat_lt
  simp only [cmndOfBytes]
  omega

theorem readInto_eq_ack_iff {bs : List UInt8} (h : sizeofBuddyCmnd ≤ bs.length) (v : UInt32) :
    readInto bs v = upkCtrlAck ↔ bs.take sizeofBuddyCmnd = ackBytes := by
  have htake : (bs.take sizeofBuddyCmnd).length = sizeofBuddyCmnd := List.length_take_of_le h
  have hdrop : (cmndBytes v).drop bs.length = [] := List.drop_eq_nil_of_le h
  rw [readInto, hdrop, List.append_nil]
  constructor
  · intro hack
    have hnat := congrArg UInt32.toNat hack
    rw [UInt32.toNat_ofNat', Nat.mod_eq_of_lt (cmndOfBytes_lt _ htake)] at hnat
    exact cmndOfBytes_inj htake hnat
  · intro hack
    rw [hack]
    decide

namespace Buddy

variable {b : Buddy} {x : Exchange}

theorem ctrlReady_iff {s : SelectResult} : b.ctrlReady s = true ↔ b.statics.Reaches s := by
  simp only [ctrlReady, statics, Statics.Reaches, Bool.and_eq_true, bne_iff_ne]
  exact and_comm

theorem writeCtrl_cases (x : Exchange) (b : Buddy) :
    (¬ b.statics.Reaches x.writeSelect ∧ b.writeCtrl x.writeSelect x.write = b) ∨
    (b.statics.Reaches x.writeSelect ∧ 0 < x.write.wrote ∧ b.writeCtrl x.writeSelect x.write =
      { b with writeCount := UInt64.ofNat (min x.write.wrote sizeofBuddyInfo), errno := .zero }) ∨
    (b.statics.Reaches x.writeSelect ∧ x.write.wrote = 0 ∧
      toInt32 (b.writeCtrl x.writeSelect x.write).writeCount ≤ 0) := by
  rw [← ctrlReady_iff]
  by_cases hready : b.ctrlReady x.writeSelect = true
  · have hcall : b.writeCtrl x.writeSelect x.write = (b.writeOnce x.write).2 := if_pos hready
    obtain ⟨n, e, fd, hcount, hn⟩ := writeCtrl_eq x.writeSelect x.write b
    have hn := hn hready
    have hle (hfail : toInt32 (x.write.count sizeofBuddyInfo) ≤ 0) :
        toInt32 (b.writeCtrl x.writeSelect x.write).writeCount ≤ 0 := by rwa [hcount, hn]
    cases hwrite : x.write with
    | fail e' => exact Or.inr (Or.inr ⟨hready, rfl, hwrite ▸ hle (by rw [hwrite]; exact toInt32_sizeMax_le)⟩)
    | taken k =>
      by_cases hk : k = 0
      · exact Or.inr (Or.inr ⟨hready, hk, hwrite ▸ hle (by rw [hwrite, hk]; decide)⟩)
      · refine Or.inr (Or.inl ⟨hready, Nat.pos_of_ne_zero hk, ?_⟩)
        have hge : ¬ UInt64.ofNat (min k sizeofBuddyInfo) < 1 := by
          rw [UInt64.lt_iff_toNat_lt, UInt64.toNat_ofNat', show (1 : UInt64).toNat = 1 from rfl]
          unfold sizeofBuddyInfo
          omega
        rw [← hwrite, hcall, hwrite, writeOnce]
        exact congrArg Prod.snd (buddyDisconnect_of_not_lt _ hge)
  · exact Or.inl ⟨hready, if_neg hready⟩

theorem readCtrl_cases (x : Exchange) (v : UInt32) (b : Buddy) :
    (¬ b.statics.Reaches x.readSelect ∧ b.readCtrl x.readSelect x.read v = (v, b)) ∨
    (b.statics.Reaches x.readSelect ∧ 0 < x.read.bytes.length ∧ b.readCtrl x.readSelect x.read v =
      (readInto x.read.bytes v,
        { b with readCount := UInt64.ofNat (min x.read.bytes.length sizeofBuddyCmnd), errno := .zero })) ∨
    (b.statics.Reaches x.readSelect ∧ x.read.bytes.length = 0 ∧
      toInt32 (b.readCtrl x.readSelect x.read v).2.readCount ≤ 0) := by
  rw [← ctrlReady_iff]
  by_cases hready : b.ctrlReady x.readSelect = true
  · obtain ⟨n, e, fd, hcount, hn⟩ := readCtrl_eq x.readSelect x.read v b
    have hn := hn hready
    have hle (hfail : toInt32 (x.read.count sizeofBuddyCmnd) ≤ 0) :
        toInt32 (b.readCtrl x.readSelect x.read v).2.readCount ≤ 0 := by rwa [hcount, hn]
    cases hread : x.read with
    | fail e' => exact Or.inr (Or.inr ⟨hready, rfl, hread ▸ hle (by rw [hread]; exact toInt32_sizeMax_le)⟩)
    | data bs =>
      cases bs with
      | nil => exact Or.inr (Or.inr ⟨hready, rfl, hread ▸ hle (by rw [hread]; decide)⟩)
      | cons c bs =>
        refine Or.inr (Or.inl ⟨hready, Nat.succ_pos _, ?_⟩)
        have hge : ¬ UInt64.ofNat (min (c :: bs).length sizeofBuddyCmnd) < 1 := by
          rw [UInt64.lt_iff_toNat_lt, UInt64.toNat_ofNat', show (1 : UInt64).toNat = 1 from rfl, List.length_cons]
          unfold sizeofBuddyCmnd
          omega
        rw [readCtrl, if_pos hready, readOnce]
        exact congrArg (Prod.mk _) (congrArg Prod.snd (buddyDisconnect_of_not_lt _ hge))
  · exact Or.inl ⟨hready, if_neg hready⟩

theorem writeCtrl_passes (x : Exchange) (b : Buddy) :
    0 < toInt32 (b.writeCtrl x.writeSelect x.write).writeCount ↔
      x.WriteStale b.statics ∨ x.WriteShort b.statics ∨ x.WriteWhole b.statics := by
  unfold Exchange.WriteStale Exchange.WriteShort Exchange.WriteWhole
  rcases writeCtrl_cases x b with ⟨hready, hcall⟩ | ⟨hready, hwrote, hcall⟩ | ⟨hready, hwrote, hfail⟩
  · have hcount : b.statics.writeCount = b.writeCount := rfl
    simp [hcall, hready, hcount]
  · have hint := @toInt32_ofNat (min x.write.wrote sizeofBuddyInfo) (by unfold sizeofBuddyInfo; omega)
    simp only [hcall, hready, hint, not_true, true_and, false_and, false_or]
    unfold sizeofBuddyInfo
    omega
  · simp [hready, hwrote, sizeofBuddyInfo, hfail]

theorem readCtrl_passes (x : Exchange) (b : Buddy) :
    (0 < toInt32 (b.readCtrl x.readSelect x.read b.ack).2.readCount ∧
      (b.readCtrl x.readSelect x.read b.ack).1 = upkCtrlAck) ↔
      x.ReadStale b.statics ∨ x.ReadShort b.statics ∨ x.ReadWhole b.statics := by
  have hack : b.statics.ack = b.ack := rfl
  unfold Exchange.ReadStale Exchange.ReadShort Exchange.ReadWhole
  rcases readCtrl_cases x b.ack b with ⟨hready, hcall⟩ | ⟨hready, hlen, hcall⟩ | ⟨hready, hlen, hfail⟩
  · have hcount : b.statics.readCount = b.readCount := rfl
    simp [hcall, hready, hcount, hack]
  · have hint := @toInt32_ofNat (min x.read.bytes.length sizeofBuddyCmnd) (by unfold sizeofBuddyCmnd; omega)
    have hpos : (0 : ℤ) < ((min x.read.bytes.length sizeofBuddyCmnd : ℕ) : ℤ) := by
      unfold sizeofBuddyCmnd
      omega
    simp only [hcall, hready, hint, hack, hpos, hlen, not_true, true_and, false_and, false_or]
    by_cases hshort : x.read.bytes.length < sizeofBuddyCmnd
    · have hne : x.read.bytes.take sizeofBuddyCmnd ≠ ackBytes := fun hwhole =>
        absurd (Exchange.ReadWhole.length (v := b.statics) ⟨hready, hwhole⟩) (by omega)
      simp [hshort, hne]
    · rw [readInto_eq_ack_iff (by omega)]
      simp [hshort]
  · have hnil := List.eq_nil_of_length_eq_zero hlen
    simp [hready, hnil, hfail.not_gt, ackBytes]

theorem writeCtrl_statics (h : 0 < toInt32 (b.writeCtrl x.writeSelect x.write).writeCount) :
    (b.writeCtrl x.writeSelect x.write).statics =
      { b.statics with writeCount := (b.writeCtrl x.writeSelect x.write).writeCount } ∧
    (b.writeCtrl x.writeSelect x.write).ack = b.ack := by
  rcases writeCtrl_cases x b with ⟨-, hcall⟩ | ⟨-, -, hcall⟩ | ⟨-, -, hfail⟩
  · rw [hcall]
    exact ⟨rfl, rfl⟩
  · rw [hcall]
    exact ⟨rfl, rfl⟩
  · omega

/-- **What passes the test:** a genuine exchange, or one that misleads. -/
theorem exchange_fst (x : Exchange) (b : Buddy) :
    (b.exchange x).1 = true ↔ x.Genuine b.statics ∨ x.Misleads b.statics := by
  have hsplit : x.Genuine b.statics ∨ x.Misleads b.statics ↔
      (x.WriteStale b.statics ∨ x.WriteShort b.statics ∨ x.WriteWhole b.statics) ∧
        (x.ReadStale b.statics ∨ x.ReadShort b.statics ∨ x.ReadWhole b.statics) := by
    unfold Exchange.Genuine Exchange.Misleads
    tauto
  rw [hsplit, ← writeCtrl_passes]
  unfold exchange
  dsimp only
  by_cases hwrite : 0 < toInt32 (b.writeCtrl x.writeSelect x.write).writeCount
  · obtain ⟨hstatics, -⟩ := writeCtrl_statics hwrite
    have hread := readCtrl_passes x (b.writeCtrl x.writeSelect x.write)
    rw [hstatics] at hread
    rw [if_pos hwrite, decide_eq_true_iff, and_iff_right hwrite]
    exact hread
  · rw [if_neg hwrite]
    simp [hwrite]

theorem statics_of_genuine (h : x.Genuine b.statics) : (b.exchange x).2.statics = .acknowledged := by
  obtain ⟨hwrite, hread⟩ := h
  have hlen := hread.length
  have hwrote : b.writeCtrl x.writeSelect x.write = { b with writeCount := 208, errno := .zero } := by
    rcases writeCtrl_cases x b with ⟨hready, -⟩ | ⟨-, -, hcall⟩ | ⟨-, hwrote, -⟩
    · exact absurd hwrite.1 hready
    · rw [hcall, Nat.min_eq_right hwrite.2]
      rfl
    · exact absurd hwrite.2 (by rw [hwrote]; decide)
  have hgot : ({ b with writeCount := 208, errno := .zero }).readCtrl x.readSelect x.read b.ack =
      (upkCtrlAck, { b with writeCount := 208, readCount := 4, errno := .zero }) := by
    rcases readCtrl_cases x b.ack { b with writeCount := 208, errno := .zero } with
      ⟨hready, -⟩ | ⟨-, -, hcall⟩ | ⟨-, hnone, -⟩
    · exact absurd hread.1 hready
    · rw [hcall, Nat.min_eq_right hlen, (readInto_eq_ack_iff hlen b.ack).mpr hread.2]
      rfl
    · rw [hnone] at hlen
      exact absurd hlen (by decide)
  have hpos : 0 < toInt32 208 := by decide
  have hconnected : decide (0 < b.ctrlfd) = true := hwrite.1.1
  unfold exchange
  rw [hwrote]
  dsimp only
  rw [if_pos hpos, hgot]
  simp only [statics, hconnected, Statics.acknowledged]

theorem offering_statics (b : Buddy) : b.offering.statics = b.statics := by
  obtain ⟨ring, h⟩ := offering_eq b
  rw [h]
  rfl

theorem next_statics (b : Buddy) : b.buddyZeroInfo.advance.statics = b.statics := by
  obtain ⟨ring, pending, hzero⟩ := buddyZeroInfo_eq b
  obtain ⟨ring', hadvance⟩ := advance_eq b.buddyZeroInfo
  rw [hadvance, hzero]
  rfl

/-! ### The loop of a flush -/

variable {ω : Type*} {o : Outside ω} {w : ω} {left : Nat}

theorem passed_ring {cur : BuddyInfo} {rest : List BuddyInfo} (x : Exchange) (hring : b.ring = cur :: rest) :
    (b.offering.exchange x).2.buddyZeroInfo.advance.ring = rest ++ [.zero] ∧
      (b.offering.exchange x).2.buddyZeroInfo.advance.ringbufferPending =
        pendingAfterZero cur b.ringbufferPending := by
  obtain ⟨ring, hoffering⟩ := offering_eq b
  have hpending : (b.offering.exchange x).2.ringbufferPending = b.ringbufferPending := by
    rw [(exchange_ring x b.offering).2, hoffering]
  have hoffered := offered_ring x hring
  generalize (b.offering.exchange x).2 = b' at hpending hoffered
  simp only [buddyZeroInfo, hoffered, advance, hpending, true_and]
  rfl

/-- **Induction over the loop of a flush:** it passes over free slots, clears those whose exchange is genuine or
misleads, and stops at the first other one. -/
theorem flushLoop_induct {P : Nat → Buddy → ω → Flushed ω → Prop} (stop : ∀ b w, P 0 b w ⟨[], b, w⟩)
    (free : ∀ left b w f cur rest, left ≤ rest.length → b.ring = cur :: rest → cur.populated = false →
      P left b.advance w f → P (left + 1) b w f)
    (pass : ∀ left b w f cur rest x w', left ≤ rest.length → b.ring = cur :: rest → cur.populated = true →
      o.exchange b.statics.connected (b.withRemaining cur) w = (x, w') → x.Genuine b.statics ∨ x.Misleads b.statics →
      P left (b.offering.exchange x).2.buddyZeroInfo.advance w' f →
      P (left + 1) b w { f with offers := ⟨b.offering, b.withRemaining cur, x, true⟩ :: f.offers })
    (fail : ∀ left b w cur rest x w', left ≤ rest.length → b.ring = cur :: rest → cur.populated = true →
      o.exchange b.statics.connected (b.withRemaining cur) w = (x, w') → ¬ x.Genuine b.statics →
      ¬ x.Misleads b.statics →
      P (left + 1) b w ⟨[⟨b.offering, b.withRemaining cur, x, false⟩],
        { (b.offering.exchange x).2 with ring := (b.offering.exchange x).2.ring.rotate (left + 1) }, w'⟩)
    (hleft : left ≤ b.ring.length) : P left b w (flushLoop o left b w) := by
  induction left generalizing b w with
  | zero => exact stop b w
  | succ left ih =>
    obtain ⟨cur, rest, hring⟩ := List.exists_cons_of_length_pos (Nat.lt_of_lt_of_le (Nat.succ_pos left) hleft)
    rw [hring, List.length_cons] at hleft
    have hleft := Nat.le_of_succ_le_succ hleft
    cases hpop : cur.populated
    · rw [flushLoop_of_free hring hpop]
      refine free left b w _ cur rest hleft hring hpop (ih ?_)
      rw [length_advance, hring, List.length_cons]
      exact Nat.le_succ_of_le hleft
    · obtain ⟨x, w', hx⟩ : ∃ x w', o.exchange b.statics.connected (b.withRemaining cur) w = (x, w') := ⟨_, _, rfl⟩
      have hfst := exchange_fst x b.offering
      rw [offering_statics] at hfst
      by_cases hpass : x.Genuine b.statics ∨ x.Misleads b.statics
      · rw [flushLoop_of_pass hring hpop hx (hfst.mpr hpass)]
        refine pass left b w _ cur rest x w' hleft hring hpop hx hpass (ih ?_)
        rw [(passed_ring x hring).1, List.length_append]
        exact Nat.le_add_right_of_le hleft
      · have hfail : (b.offering.exchange x).1 = false := by rwa [← Bool.not_eq_true, hfst]
        rw [flushLoop_of_fail hring hpop hx hfail]
        exact fail left b w cur rest x w' hleft hring hpop hx (fun h => hpass (.inl h)) fun h => hpass (.inr h)

/-- **The loop of a flush is sound** exactly if its exchanges do not mislead it. -/
theorem flushLoop_sound_iff (hleft : left ≤ b.ring.length) :
    (flushLoop o left b w).Sound ↔
      NeverMisled o (offered b.ringbufferPending (b.ring.take left)) b.statics w := by
  refine flushLoop_induct (P := fun left b w f =>
    f.Sound ↔ NeverMisled o (offered b.ringbufferPending (b.ring.take left)) b.statics w) ?_ ?_ ?_ ?_ hleft
  · intro b w
    exact iff_of_true (fun e he => absurd he List.not_mem_nil) trivial
  · intro left b w f cur rest hleft hring hpop ih
    have hadvance : b.advance = { b with ring := rest ++ [cur] } := by simp only [advance, hring]
    have hstatics : b.advance.statics = b.statics := by rw [hadvance]; rfl
    rw [ih, hstatics, hadvance, hring, List.take_succ_cons, offered_of_free _ _ hpop]
    dsimp only
    rw [List.take_append_of_le_length hleft]
  · intro left b w f cur rest x w' hleft hring hpop hx hpass ih
    obtain ⟨hring', hpending'⟩ := passed_ring x hring
    rw [Flushed.sound_cons, ih, hring', hpending', List.take_append_of_le_length hleft, next_statics, hring,
      List.take_succ_cons, offered_of_full _ _ hpop, neverMisled_cons hx, offering_statics]
    constructor
    · rintro ⟨hgen, hrest⟩
      have hgen := hgen rfl
      refine ⟨hgen.not_misleads, fun _ => ?_⟩
      rwa [statics_of_genuine ((offering_statics b).symm ▸ hgen)] at hrest
    · rintro ⟨htrue, hrest⟩
      have hgen := hpass.resolve_right htrue
      rw [statics_of_genuine ((offering_statics b).symm ▸ hgen)]
      exact ⟨fun _ => hgen, hrest hgen⟩
  · intro left b w cur rest x w' hleft hring hpop hx hgen htrue
    rw [hring, List.take_succ_cons, offered_of_full _ _ hpop, neverMisled_cons hx]
    refine iff_of_true (fun e he => ?_) ⟨htrue, fun h => absurd h hgen⟩
    rw [List.mem_singleton.mp he]
    exact fun h => absurd h Bool.false_ne_true

theorem buddyFlushRingbuffer_eq (o : Outside ω) (cfg : BuddyConfig) (b : Buddy) (w : ω) :
    b.buddyFlushRingbuffer o cfg w =
      if 0 ≤ (beforeLoop o cfg b w).1.ctrlfd then
        flushConnected o (beforeLoop o cfg b w).1 (beforeLoop o cfg b w).2
      else ⟨[], (beforeLoop o cfg b w).1, (beforeLoop o cfg b w).2⟩ := rfl

/-- **A flush is sound** exactly if the results of its calls do not mislead it. -/
theorem sound_iff_flushesTruly (o : Outside ω) (cfg : BuddyConfig) (b : Buddy) (w : ω) :
    (b.buddyFlushRingbuffer o cfg w).Sound ↔ FlushesTruly o cfg b w := by
  unfold FlushesTruly
  rw [buddyFlushRingbuffer_eq]
  dsimp only
  generalize beforeLoop o cfg b w = s
  by_cases hctrl : 0 ≤ s.1.ctrlfd
  · have hloop := flushLoop_sound_iff (o := o) (w := s.2) (b := { s.1 with mask := s.1.mask ∪ Finset.univ }) le_rfl
    rw [List.take_length] at hloop
    rw [if_pos hctrl, flushConnected_eq, forall_prop_of_true hctrl]
    exact hloop
  · rw [if_neg hctrl]
    exact iff_of_true (fun e he => absurd he List.not_mem_nil) fun h => absurd h hctrl

end Buddy

end Upkeeper
