import Upkeeper.Buddy.Ring
import Mathlib.Data.List.Rotate
/-!
# Flushing (`read_ctrl`, `write_ctrl`, `buddy_disconnect`, `phone_home_if_appropriate`, `buddy_flush_ringbuffer`)

A flush offers the records of the ring to the controller, one after another, and clears the slot of a record when the
test `write_ctrl(..) > 0 && read_ctrl(&ack) > 0 && ack == UPK_CTRL_ACK` lets it. What surrounds buddy is a parameter: it
has a state of any type, answers the system calls and interrupts buddy where no signal is blocked.
-/

namespace Upkeeper

/-! ### `read_ctrl` and `write_ctrl` -/

/-- What an `int32_t` function returns for a `size_t` -/
def toInt32 (ncount : UInt64) : Int := (ncount.toBitVec.setWidth 32).toInt

/-- The bytes of a `buddy_cmnd_t`, which is little-endian -/
def cmndBytes (v : UInt32) : List UInt8 :=
  [UInt8.ofNat v.toNat, UInt8.ofNat (v.toNat / 0x100), UInt8.ofNat (v.toNat / 0x10000),
    UInt8.ofNat (v.toNat / 0x1000000)]

/-- The `buddy_cmnd_t` of some bytes -/
def cmndOfBytes : List UInt8 → Nat
  | [] => 0
  | c :: cs => c.toNat + 0x100 * cmndOfBytes cs

/-- A `buddy_cmnd_t` after a `read` into it -/
def readInto (bs : List UInt8) (v : UInt32) : UInt32 :=
  UInt32.ofNat (cmndOfBytes (bs.take sizeofBuddyCmnd ++ (cmndBytes v).drop bs.length))

namespace Buddy

/-- `buddy_disconnect`, and whether it disconnects -/
def buddyDisconnect (count : UInt64) (b : Buddy) : Bool × Buddy :=
  if count < 1 ∧ b.errno.retry = false then (true, { b with ctrlfd := -1 }) else (false, b)

/-- `select(..) && FD_ISSET(buddy_ctrlfd, ..)`: the set holds `buddy_ctrlfd` if that is positive. -/
def ctrlReady (s : SelectResult) (b : Buddy) : Bool := s != .timeout && decide (0 < b.ctrlfd)

/-- The body of the loop of `write_ctrl`, and whether it breaks out of the loop -/
def writeOnce (r : WriteResult) (b : Buddy) : Bool × Buddy :=
  let b := { b with writeCount := r.count sizeofBuddyInfo, errno := r.errno }
  b.buddyDisconnect b.writeCount

/-- The body of the loop of `read_ctrl`, and whether it breaks out of the loop -/
def readOnce (r : ReadResult) (b : Buddy) : Bool × Buddy :=
  let b := { b with readCount := r.count sizeofBuddyCmnd, errno := r.errno }
  b.buddyDisconnect b.readCount

theorem buddyDisconnect_snd (count : UInt64) (b : Buddy) :
    ∃ fd, (b.buddyDisconnect count).2 = { b with ctrlfd := fd } := by
  unfold buddyDisconnect
  split
  · exact ⟨-1, rfl⟩
  · exact ⟨b.ctrlfd, rfl⟩

theorem buddyDisconnect_of_not_lt {count : UInt64} (b : Buddy) (h : ¬ count < 1) : b.buddyDisconnect count = (false, b) :=
  if_neg fun hlt => h hlt.1

theorem sizeMax_not_lt_one : ¬ sizeMax < 1 := by decide

/-- The loop of `write_ctrl` ends after one turn: `errno` was zero, so a zero count disconnects. -/
theorem writeOnce_ends (r : WriteResult) (b : Buddy) :
    (b.writeOnce r).1 = true ∨ ¬ (b.writeOnce r).2.writeCount < 1 := by
  unfold writeOnce
  by_cases hlt : r.count sizeofBuddyInfo < 1
  · cases r with
    | taken n => exact Or.inl (congrArg Prod.fst (if_pos ⟨hlt, rfl⟩))
    | fail e => exact absurd hlt sizeMax_not_lt_one
  · rw [buddyDisconnect_of_not_lt _ hlt]
    exact Or.inr hlt

theorem readOnce_ends (r : ReadResult) (b : Buddy) :
    (b.readOnce r).1 = true ∨ ¬ (b.readOnce r).2.readCount < 1 := by
  unfold readOnce
  by_cases hlt : r.count sizeofBuddyCmnd < 1
  · cases r with
    | data bs => exact Or.inl (congrArg Prod.fst (if_pos ⟨hlt, rfl⟩))
    | fail e => exact absurd hlt sizeMax_not_lt_one
  · rw [buddyDisconnect_of_not_lt _ hlt]
    exact Or.inr hlt

/-- `write_ctrl`. It returns `toInt32` of the count that it leaves in `writeCount`. -/
def writeCtrl (s : SelectResult) (r : WriteResult) (b : Buddy) : Buddy :=
  if b.ctrlReady s then (b.writeOnce r).2 else b

/-- `read_ctrl(&buf)`. It returns `toInt32` of the count that it leaves in `readCount`. -/
def readCtrl (s : SelectResult) (r : ReadResult) (buf : UInt32) (b : Buddy) : UInt32 × Buddy :=
  if b.ctrlReady s then
    (match r with
      | .data bs => readInto bs buf
      | .fail _ => buf,
     (b.readOnce r).2)
  else (buf, b)

end Buddy

/-! ### Flushing -/

/-- The outcomes of the system calls for one record: of the `select` and the `write` of `write_ctrl`, then of those of
`read_ctrl` -/
structure Exchange where
  writeSelect : SelectResult
  write : WriteResult
  readSelect : SelectResult
  read : ReadResult
  deriving DecidableEq, Repr

/-- A record that a flush offers: buddy before `write_ctrl`, the slot that is sent, the outcomes of the calls, and
whether the slot is cleared -/
structure Offer where
  before : Buddy
  info : BuddyInfo
  exchange : Exchange
  cleared : Bool

/-- What surrounds buddy in a flush: the signals that arrive, the descriptor of `socket` and whether `connect` succeeds,
and the outcomes of the calls for a record, by whether buddy has its descriptor in the set -/
structure Outside (ω : Type*) where
  interrupt : Buddy → ω → Buddy × ω
  connect : ω → (Int × Bool) × ω
  exchange : Bool → BuddyInfo → ω → Exchange × ω

/-- Surroundings without signals and without a controller to connect to, where the outcomes are listed -/
def scripted : Outside (List Exchange) where
  interrupt b xs := (b, xs)
  connect xs := ((-1, false), xs)
  exchange _ _ xs := (xs.headD ⟨.timeout, .fail .other, .timeout, .fail .other⟩, xs.tail)

/-- The result of a flush -/
structure Flushed (ω : Type*) where
  offers : List Offer
  buddy : Buddy
  world : ω

namespace Buddy

/-- `write_ctrl(info_ringbuffer) > 0 && (read_ctrl(&ack)) > 0 && ack == UPK_CTRL_ACK` -/
def exchange (x : Exchange) (b : Buddy) : Bool × Buddy :=
  let b := b.writeCtrl x.writeSelect x.write
  if 0 < toInt32 b.writeCount then
    let answer := b.readCtrl x.readSelect x.read b.ack
    let b := { answer.2 with ack := answer.1 }
    (decide (0 < toInt32 b.readCount ∧ b.ack = upkCtrlAck), b)
  else (false, b)

/-- `info_ringbuffer->remaining = ringbuffer_pending - 1` -/
def withRemaining (b : Buddy) (info : BuddyInfo) : BuddyInfo :=
  { info with remaining := UInt64.ofNat b.ringbufferPending - 1 }

/-- Buddy when it offers the current slot -/
def offering (b : Buddy) : Buddy := b.setCurrent b.withRemaining

variable {ω : Type*} (o : Outside ω)

/-- The loop of `buddy_flush_ringbuffer`, with as many nodes left before `thisp` comes again -/
def flushLoop : Nat → Buddy → ω → Flushed ω
  | 0, b, w => ⟨[], b, w⟩
  | left + 1, b, w =>
    match b.ring with
    | [] => ⟨[], b, w⟩
    | cur :: _ =>
      if cur.populated then
        let answer := o.exchange (decide (0 < b.ctrlfd)) (b.withRemaining cur) w
        let tested := b.offering.exchange answer.1
        if tested.1 then
          let rest := flushLoop left tested.2.buddyZeroInfo.advance answer.2
          { rest with offers := ⟨b.offering, b.withRemaining cur, answer.1, true⟩ :: rest.offers }
        else
          -- `info_ringbuffer = thisp`, which is as many nodes ahead as are left
          ⟨[⟨b.offering, b.withRemaining cur, answer.1, false⟩],
            { tested.2 with ring := tested.2.ring.rotate (left + 1) }, answer.2⟩
      else flushLoop left b.advance w

/-- The loop of `phone_home_if_appropriate` with `buddy_phone_home`, with as many tries left -/
def phoneHomeLoop : Nat → Buddy → ω → Buddy × ω
  | 0, b, w => (b, w)
  | left + 1, b, w =>
    let s := o.interrupt b w
    if s.1.buddyShutdown ≠ 0 ∨ s.1.ring.length - s.1.ring.length / 4 ≤ s.1.ringbufferPending then
      let answer := o.connect s.2
      let b := { s.1 with ctrlfd := answer.1.1 }
      if answer.1.2 then (b, answer.2) else phoneHomeLoop left b answer.2
    else s

/-- `phone_home_if_appropriate` -/
def phoneHomeIfAppropriate (cfg : BuddyConfig) (b : Buddy) (w : ω) : Buddy × ω :=
  if b.ctrlfd < 0 ∧ 0 < b.ringbufferPending then phoneHomeLoop o cfg.reconnectRetries b w else (b, w)

/-- The part of `buddy_flush_ringbuffer` in which all signals are blocked -/
def flushConnected (b : Buddy) (w : ω) : Flushed ω :=
  let oldset := b.mask
  let flushed := flushLoop o b.ring.length { b with mask := b.mask ∪ Finset.univ } w
  let b := { flushed.buddy with errno := .zero }
  { flushed with buddy := { (b.buddyDisconnect 0).2 with mask := oldset } }

/-- `buddy_flush_ringbuffer` -/
def buddyFlushRingbuffer (cfg : BuddyConfig) (b : Buddy) (w : ω) : Flushed ω :=
  let s := o.interrupt { b with ack := b.thisCommand } w
  let s := phoneHomeIfAppropriate o cfg s.1 s.2
  if 0 ≤ s.1.ctrlfd then flushConnected o s.1 s.2 else ⟨[], s.1, s.2⟩

end Buddy

/-! ### What an exchange leaves alone -/

namespace Buddy

variable {b : Buddy} {x : Exchange}

theorem writeCtrl_eq (s : SelectResult) (r : WriteResult) (b : Buddy) :
    ∃ n e fd, b.writeCtrl s r = { b with writeCount := n, errno := e, ctrlfd := fd } ∧
      (b.ctrlReady s = true → n = r.count sizeofBuddyInfo) := by
  unfold writeCtrl
  split
  · obtain ⟨fd, hfd⟩ := buddyDisconnect_snd (r.count sizeofBuddyInfo)
      { b with writeCount := r.count sizeofBuddyInfo, errno := r.errno }
    exact ⟨_, _, fd, hfd, fun _ => rfl⟩
  · next h => exact ⟨b.writeCount, b.errno, b.ctrlfd, rfl, fun hready => absurd hready h⟩

theorem readCtrl_eq (s : SelectResult) (r : ReadResult) (v : UInt32) (b : Buddy) :
    ∃ n e fd, (b.readCtrl s r v).2 = { b with readCount := n, errno := e, ctrlfd := fd } ∧
      (b.ctrlReady s = true → n = r.count sizeofBuddyCmnd) := by
  unfold readCtrl
  split
  · obtain ⟨fd, hfd⟩ := buddyDisconnect_snd (r.count sizeofBuddyCmnd)
      { b with readCount := r.count sizeofBuddyCmnd, errno := r.errno }
    exact ⟨_, _, fd, hfd, fun _ => rfl⟩
  · next h => exact ⟨b.readCount, b.errno, b.ctrlfd, rfl, fun hready => absurd hready h⟩

theorem exchange_snd (x : Exchange) (b : Buddy) :
    ∃ n m v e fd, (b.exchange x).2 =
      { b with writeCount := n, readCount := m, ack := v, errno := e, ctrlfd := fd } := by
  obtain ⟨n, e, fd, hwrite, -⟩ := writeCtrl_eq x.writeSelect x.write b
  unfold exchange
  rw [hwrite]
  dsimp only
  split
  · obtain ⟨m, e', fd', hread, -⟩ := readCtrl_eq x.readSelect x.read b.ack
      { b with writeCount := n, errno := e, ctrlfd := fd }
    simp only [hread]
    exact ⟨n, m, _, e', fd', rfl⟩
  · exact ⟨n, b.readCount, b.ack, e, fd, rfl⟩

theorem offering_eq (b : Buddy) : ∃ ring, b.offering = { b with ring := ring } := by
  unfold offering setCurrent
  split
  · exact ⟨b.ring, rfl⟩
  · exact ⟨_, rfl⟩

theorem offering_ctrlfd (b : Buddy) : b.offering.ctrlfd = b.ctrlfd := by
  obtain ⟨ring, h⟩ := offering_eq b
  rw [h]

theorem exchange_ring (x : Exchange) (b : Buddy) :
    (b.exchange x).2.ring = b.ring ∧ (b.exchange x).2.ringbufferPending = b.ringbufferPending := by
  obtain ⟨n, m, v, e, fd, h⟩ := exchange_snd x b
  rw [h]
  exact ⟨rfl, rfl⟩

theorem offered_ring {cur : BuddyInfo} {rest : List BuddyInfo} (x : Exchange) (hring : b.ring = cur :: rest) :
    (b.offering.exchange x).2.ring = b.withRemaining cur :: rest := by
  rw [(exchange_ring x b.offering).1]
  simp only [offering, setCurrent, hring]

/-! ### The loops -/

variable {ω : Type*} {o : Outside ω} {w : ω} {left : Nat} {cur : BuddyInfo} {rest : List BuddyInfo}

theorem flushLoop_of_free (hring : b.ring = cur :: rest) (hfree : cur.populated = false) :
    flushLoop o (left + 1) b w = flushLoop o left b.advance w := by
  rw [flushLoop, hring]
  dsimp only
  rw [hfree, if_neg Bool.false_ne_true]

theorem flushLoop_of_pass {x : Exchange} {w' : ω} (hring : b.ring = cur :: rest) (hpop : cur.populated = true)
    (hx : o.exchange (decide (0 < b.ctrlfd)) (b.withRemaining cur) w = (x, w')) (hpass : (b.offering.exchange x).1 = true) :
    flushLoop o (left + 1) b w =
      { flushLoop o left (b.offering.exchange x).2.buddyZeroInfo.advance w' with
        offers := ⟨b.offering, b.withRemaining cur, x, true⟩ ::
          (flushLoop o left (b.offering.exchange x).2.buddyZeroInfo.advance w').offers } := by
  rw [flushLoop, hring]
  dsimp only
  rw [if_pos hpop, hx, if_pos hpass]

theorem flushLoop_of_fail {x : Exchange} {w' : ω} (hring : b.ring = cur :: rest) (hpop : cur.populated = true)
    (hx : o.exchange (decide (0 < b.ctrlfd)) (b.withRemaining cur) w = (x, w'))
    (hfail : (b.offering.exchange x).1 = false) :
    flushLoop o (left + 1) b w =
      ⟨[⟨b.offering, b.withRemaining cur, x, false⟩],
        { (b.offering.exchange x).2 with ring := (b.offering.exchange x).2.ring.rotate (left + 1) }, w'⟩ := by
  rw [flushLoop, hring]
  dsimp only
  rw [if_pos hpop, hx, hfail, if_neg Bool.false_ne_true]

theorem length_offered (x : Exchange) (b : Buddy) : (b.offering.exchange x).2.ring.length = b.ring.length := by
  cases hring : b.ring with
  | nil => rw [(exchange_ring x b.offering).1, offering, setCurrent, hring]; exact congrArg List.length hring
  | cons cur rest => rw [offered_ring x hring, List.length_cons, List.length_cons]

theorem flushLoop_length (o : Outside ω) (left : Nat) (b : Buddy) (w : ω) :
    (flushLoop o left b w).buddy.ring.length = b.ring.length := by
  induction left generalizing b w with
  | zero => rfl
  | succ left ih =>
    cases hring : b.ring with
    | nil => rw [flushLoop, hring]; exact congrArg List.length hring
    | cons cur rest =>
      rw [← hring]
      by_cases hpop : cur.populated
      · obtain ⟨x, w', hx⟩ : ∃ x w', o.exchange (decide (0 < b.ctrlfd)) (b.withRemaining cur) w = (x, w') := ⟨_, _, rfl⟩
        by_cases hpass : (b.offering.exchange x).1
        · rw [flushLoop_of_pass hring hpop hx hpass]
          dsimp only
          rw [ih, length_advance, length_buddyZeroInfo, length_offered]
        · rw [flushLoop_of_fail hring hpop hx (Bool.eq_false_iff.mpr hpass)]
          dsimp only
          rw [List.length_rotate, length_offered]
      · rw [flushLoop_of_free hring (Bool.eq_false_iff.mpr hpop), ih, length_advance]

theorem flushConnected_eq (o : Outside ω) (b : Buddy) (w : ω) :
    flushConnected o b w =
      { flushLoop o b.ring.length { b with mask := b.mask ∪ Finset.univ } w with
        buddy := { (flushLoop o b.ring.length { b with mask := b.mask ∪ Finset.univ } w).buddy with
          errno := .zero, ctrlfd := -1, mask := b.mask } } := by
  have hzero (b : Buddy) :
      ({ b with errno := .zero }).buddyDisconnect 0 = (true, { b with errno := .zero, ctrlfd := -1 }) :=
    if_pos ⟨by decide, rfl⟩
  simp only [flushConnected, hzero]

theorem phoneHome_keeps {P : Buddy → ω → Prop} (hinterrupt : ∀ b w, P b w → P (o.interrupt b w).1 (o.interrupt b w).2)
    (hconnect : ∀ b w, P b w → P { b with ctrlfd := (o.connect w).1.1 } (o.connect w).2) (cfg : BuddyConfig)
    (h : P b w) : P (phoneHomeIfAppropriate o cfg b w).1 (phoneHomeIfAppropriate o cfg b w).2 := by
  have hloop : ∀ left b w, P b w → P (phoneHomeLoop o left b w).1 (phoneHomeLoop o left b w).2 := by
    intro left
    induction left with
    | zero => exact fun b w h => h
    | succ left ih =>
      intro b w h
      have hint := hinterrupt b w h
      unfold phoneHomeLoop
      dsimp only
      split
      · split
        · exact hconnect _ _ hint
        · exact ih _ _ (hconnect _ _ hint)
      · exact hint
  unfold phoneHomeIfAppropriate
  split
  · exact hloop _ _ _ h
  · exact h

end Buddy

end Upkeeper
