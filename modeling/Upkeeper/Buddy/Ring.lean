import Upkeeper.Buddy.Types
import Upkeeper.Library.Fifo
/-!
# Recording (`buddy_zero_info`, `buddy_record_state`, `sa_sigaction_func`)

`Queues b q`: the ring holds the records `q` that wait to be sent, oldest first, as a bounded queue lies in a ring, and
`ringbuffer_pending` counts them. Every recording is a `Fifo.push`.
-/

namespace Upkeeper

open Fifo (Shows push)

namespace Buddy

/-! ### The functions -/

/-- Assign to fields of the current slot. -/
def setCurrent (f : BuddyInfo → BuddyInfo) (b : Buddy) : Buddy :=
  match b.ring with
  | [] => b
  | cur :: rest => { b with ring := f cur :: rest }

/-- `info_ringbuffer = info_ringbuffer->next` -/
def advance (b : Buddy) : Buddy :=
  match b.ring with
  | [] => b
  | cur :: rest => { b with ring := rest ++ [cur] }

/-- What `buddy_zero_info` does to `ringbuffer_pending` -/
def pendingAfterZero (cur : BuddyInfo) (pending : Nat) : Nat :=
  if cur.populated then if pending ≤ 1 then 0 else pending - 1 else pending

/-- `buddy_zero_info` -/
def buddyZeroInfo (b : Buddy) : Buddy :=
  match b.ring with
  | [] => b
  | cur :: rest => { b with ring := .zero :: rest, ringbufferPending := pendingAfterZero cur b.ringbufferPending }

/-- `buddy_record_state`, at the time `now` -/
def buddyRecordState (now : Int) (b : Buddy) : Buddy :=
  let b := b.buddyZeroInfo
  let b := { b with
    ringbufferPending := if b.ring.length ≤ b.ringbufferPending then b.ring.length else b.ringbufferPending + 1 }
  b.setCurrent fun info =>
    { info with
      uuid := b.uuid, servicePid := b.procPid, command := b.lastCommand, desiredState := b.desiredState, timestamp := now
      populated := true }

end Buddy

/-- A child that `waitpid` returns, and the time at which it does -/
structure Reaped where
  pid : Int
  status : Int
  now : Int
  deriving DecidableEq, Repr

namespace Buddy

/-- What the handler notes of the monitored process -/
def noteTerminated (z : Reaped) (b : Buddy) : Buddy :=
  if z.pid = b.procPid then { b with chldTerminated := true, procPid := 0 } else b

/-- The body of the loop of `sa_sigaction_func` -/
def reap (si : Siginfo) (z : Reaped) (b : Buddy) : Buddy :=
  let b := (b.noteTerminated z).buddyRecordState z.now
  let b := b.setCurrent fun info => { info with siginfo := si, waitPid := z.pid, waitStatus := z.status }
  b.advance

/-- The recording in `buddy_start_proc` -/
def recordStart (now : Int) (b : Buddy) : Buddy := (b.buddyRecordState now).advance

/-! ### What a recording leaves alone -/

theorem buddyZeroInfo_eq (b : Buddy) :
    ∃ ring pending, b.buddyZeroInfo = { b with ring := ring, ringbufferPending := pending } := by
  unfold buddyZeroInfo
  split
  · exact ⟨b.ring, b.ringbufferPending, rfl⟩
  · exact ⟨_, _, rfl⟩

theorem setCurrent_eq (f : BuddyInfo → BuddyInfo) (b : Buddy) : ∃ ring, b.setCurrent f = { b with ring := ring } := by
  unfold setCurrent
  split
  · exact ⟨b.ring, rfl⟩
  · exact ⟨_, rfl⟩

theorem buddyRecordState_eq (now : Int) (b : Buddy) :
    ∃ ring pending, b.buddyRecordState now = { b with ring := ring, ringbufferPending := pending } := by
  unfold buddyRecordState
  dsimp only
  obtain ⟨ring, pending, hzero⟩ := buddyZeroInfo_eq b
  rw [hzero]
  obtain ⟨ring', hset⟩ := setCurrent_eq
    (fun info =>
      { info with
        uuid := b.uuid, servicePid := b.procPid, command := b.lastCommand, desiredState := b.desiredState, timestamp := now
        populated := true })
    { b with ring := ring, ringbufferPending := if ring.length ≤ pending then ring.length else pending + 1 }
  exact ⟨ring', _, hset⟩

theorem advance_eq (b : Buddy) : ∃ ring, b.advance = { b with ring := ring } := by
  unfold advance
  split
  · exact ⟨b.ring, rfl⟩
  · exact ⟨_, rfl⟩

theorem reap_eq (si : Siginfo) (z : Reaped) (b : Buddy) :
    ∃ ring pending, b.reap si z = { b.noteTerminated z with ring := ring, ringbufferPending := pending } := by
  unfold reap
  dsimp only
  obtain ⟨ring, pending, hrecord⟩ := buddyRecordState_eq z.now (b.noteTerminated z)
  rw [hrecord]
  obtain ⟨ring', hset⟩ := setCurrent_eq
    (fun info => { info with siginfo := si, waitPid := z.pid, waitStatus := z.status })
    { b.noteTerminated z with ring := ring, ringbufferPending := pending }
  rw [hset]
  obtain ⟨ring'', hadvance⟩ := advance_eq { b.noteTerminated z with ring := ring', ringbufferPending := pending }
  exact ⟨ring'', pending, hadvance⟩

theorem recordStart_eq (now : Int) (b : Buddy) :
    ∃ ring pending, b.recordStart now = { b with ring := ring, ringbufferPending := pending } := by
  unfold recordStart
  obtain ⟨ring, pending, hrecord⟩ := buddyRecordState_eq now b
  rw [hrecord]
  obtain ⟨ring', hadvance⟩ := advance_eq { b with ring := ring, ringbufferPending := pending }
  exact ⟨ring', pending, hadvance⟩

/-! ### The length of the ring -/

theorem length_advance (b : Buddy) : b.advance.ring.length = b.ring.length := by
  unfold advance
  split
  · rfl
  · next hring =>
    rw [hring]
    exact List.length_append

theorem length_buddyZeroInfo (b : Buddy) : b.buddyZeroInfo.ring.length = b.ring.length := by
  unfold buddyZeroInfo
  split
  · rfl
  · next hring => rw [hring, List.length_cons, List.length_cons]

theorem length_setCurrent (f : BuddyInfo → BuddyInfo) (b : Buddy) : (b.setCurrent f).ring.length = b.ring.length := by
  unfold setCurrent
  split
  · rfl
  · next hring => rw [hring, List.length_cons, List.length_cons]

theorem length_buddyRecordState (now : Int) (b : Buddy) : (b.buddyRecordState now).ring.length = b.ring.length :=
  (length_setCurrent _ _).trans (length_buddyZeroInfo b)

theorem noteTerminated_ring (z : Reaped) (b : Buddy) : (b.noteTerminated z).ring = b.ring := by
  unfold noteTerminated
  split <;> rfl

theorem length_reap (si : Siginfo) (z : Reaped) (b : Buddy) : (b.reap si z).ring.length = b.ring.length := by
  unfold reap
  dsimp only
  rw [length_advance, length_setCurrent, length_buddyRecordState, noteTerminated_ring]

theorem length_recordStart (now : Int) (b : Buddy) : (b.recordStart now).ring.length = b.ring.length :=
  (length_advance _).trans (length_buddyRecordState now b)

/-! ### What is recorded -/

/-- The record of a reaped child -/
def reapRecord (si : Siginfo) (z : Reaped) (b : Buddy) : Record where
  servicePid := if z.pid = b.procPid then 0 else b.procPid
  waitPid := z.pid
  command := b.lastCommand
  desiredState := b.desiredState
  siginfo := si
  waitStatus := z.status
  timestamp := z.now
  uuid := b.uuid

/-- The record of a start -/
def startRecord (now : Int) (b : Buddy) : Record :=
  { BuddyInfo.zero.toRecord with
    servicePid := b.procPid, command := b.lastCommand, desiredState := b.desiredState, timestamp := now, uuid := b.uuid }

/-- The ring holds the records `q`, and `ringbuffer_pending` counts them. -/
structure Queues (b : Buddy) (q : List Record) : Prop where
  shows : Shows BuddyInfo.held b.ring q
  pending : b.ringbufferPending = q.length

theorem init_queues (n : Nat) (uuid : List UInt8) : Queues (init n uuid) [] :=
  ⟨.empty fun x hx => by rw [List.eq_of_mem_replicate hx, BuddyInfo.held_zero], rfl⟩

variable {b : Buddy} {q : List Record} {cur : BuddyInfo} {rest : List BuddyInfo}

theorem Queues.pending_record (h : Queues b q) (hring : b.ring = cur :: rest) (r : Record) :
    (if rest.length + 1 ≤ pendingAfterZero cur b.ringbufferPending then rest.length + 1
      else pendingAfterZero cur b.ringbufferPending + 1) = (push (rest.length + 1) q r).length := by
  have hshows := h.shows
  rw [hring] at hshows
  unfold pendingAfterZero
  rw [h.pending]
  rcases hshows.next with ⟨hfree, hlen⟩ | ⟨r', q', rfl, hheld, hlen⟩
  · have hpop : cur.populated = false := by
      by_contra hpop
      simp [BuddyInfo.held, hpop] at hfree
    rw [hpop, if_neg Bool.false_ne_true, if_neg (by omega), Fifo.push_of_lt (by omega), List.length_append,
      List.length_singleton]
  · have hpop : cur.populated = true := by
      by_contra hpop
      simp [BuddyInfo.held, hpop] at hheld
    rw [hpop, if_pos rfl, Fifo.push_cons_of_full (by rw [List.length_cons]; omega), List.length_cons,
      List.length_append, List.length_singleton]
    -- the overwritten record leaves the counter, and the new one enters it
    by_cases hone : q'.length + 1 ≤ 1
    · rw [if_pos hone, if_neg (by omega)]
      omega
    · rw [if_neg hone, if_neg (by omega)]
      omega

/-- **A recording is a push:** the current slot gets the record `r`, and the ring moves on. -/
theorem Queues.record {b' : Buddy} {info : BuddyInfo} {r : Record} (h : Queues b q) (hring : b.ring = cur :: rest)
    (hring' : b'.ring = rest ++ [info]) (hinfo : info.held = some r)
    (hpending : b'.ringbufferPending = if rest.length + 1 ≤ pendingAfterZero cur b.ringbufferPending then rest.length + 1
      else pendingAfterZero cur b.ringbufferPending + 1) :
    Queues b' (push b.ring.length q r) := by
  have hshows := h.shows
  rw [hring] at hshows
  rw [hring, List.length_cons]
  exact ⟨hring' ▸ hshows.push hinfo, hpending.trans (h.pending_record hring r)⟩

theorem buddyRecordState_of_cons (now : Int) (hring : b.ring = cur :: rest) :
    b.buddyRecordState now =
      { b with
        ring := { BuddyInfo.zero with
          uuid := b.uuid, servicePid := b.procPid, command := b.lastCommand, desiredState := b.desiredState
          timestamp := now, populated := true } :: rest
        ringbufferPending := if rest.length + 1 ≤ pendingAfterZero cur b.ringbufferPending then rest.length + 1
          else pendingAfterZero cur b.ringbufferPending + 1 } := by
  simp only [buddyRecordState, buddyZeroInfo, setCurrent, hring, List.length_cons]

theorem Queues.recordStart (h : Queues b q) (hne : b.ring ≠ []) (now : Int) :
    Queues (b.recordStart now) (push b.ring.length q (b.startRecord now)) := by
  obtain ⟨cur, rest, hring⟩ := List.exists_cons_of_ne_nil hne
  have hstate : b.recordStart now = (b.buddyRecordState now).advance := rfl
  rw [buddyRecordState_of_cons now hring] at hstate
  exact h.record hring (congrArg Buddy.ring hstate) rfl (congrArg Buddy.ringbufferPending hstate)

theorem reap_of_cons (si : Siginfo) (z : Reaped) (hring : b.ring = cur :: rest) :
    b.reap si z =
      { b.noteTerminated z with
        ring := rest ++ [{ b.reapRecord si z with populated := true, remaining := 0 }]
        ringbufferPending := if rest.length + 1 ≤ pendingAfterZero cur b.ringbufferPending then rest.length + 1
          else pendingAfterZero cur b.ringbufferPending + 1 } := by
  have hring' : (b.noteTerminated z).ring = cur :: rest := by
    unfold noteTerminated
    split <;> exact hring
  have hrecorded := buddyRecordState_of_cons z.now hring'
  unfold reap reapRecord
  by_cases hpid : z.pid = b.procPid
  · rw [noteTerminated, if_pos hpid] at hrecorded ⊢
    rw [hrecorded, if_pos hpid]
    rfl
  · rw [noteTerminated, if_neg hpid] at hrecorded ⊢
    rw [hrecorded, if_neg hpid]
    rfl

theorem Queues.reap (h : Queues b q) (hne : b.ring ≠ []) (si : Siginfo) (z : Reaped) :
    Queues (b.reap si z) (push b.ring.length q (b.reapRecord si z)) := by
  obtain ⟨cur, rest, hring⟩ := List.exists_cons_of_ne_nil hne
  rw [reap_of_cons si z hring]
  exact h.record hring rfl rfl rfl

end Buddy

end Upkeeper
