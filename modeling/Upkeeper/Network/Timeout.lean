import Mathlib.Algebra.Ring.Int.Defs
import Upkeeper.Network.Types
/-!
# Blocking for a message (`upk_net_block_until_msg`)

The loop dispatches events until a message has come, the connection is closed, or the time is up. What the dispatcher
does to the connection and to the rest of the program is a parameter, and so are the readings of the clock.

Seconds and microseconds are compared on their own, so that the wait only ends at a reading in the later part of a
second, and never if the microseconds of the start and of the timeout add up to a second (`timesOut_iff`).
-/

namespace Upkeeper

/-! ### The function -/

/-- `struct timeval` -/
structure Timeval where
  sec : Int64
  usec : Int64
  deriving DecidableEq, Repr

/-- What a call of `upk_net_block_until_msg` has come to after some rounds of its loop -/
inductive Waited
  | waiting
  | returned (v : Int)
  | overflowed
  deriving DecidableEq, Repr

/-- The sum of two signed integers does not overflow. -/
def NoOverflow (a b : Int64) : Prop := -2 ^ 63 ≤ a.toInt + b.toInt ∧ a.toInt + b.toInt < 2 ^ 63

instance (a b : Int64) : Decidable (NoOverflow a b) := inferInstanceAs (Decidable (_ ∧ _))

/-- The sum of two signed integers, which is undefined if it overflows -/
def addSigned (a b : Int64) : Option Int64 := if NoOverflow a b then some (a + b) else none

/-- The two comparisons with the clock, if there is a timeout -/
def timeIsUp (start : Timeval) (timeout : Option Timeval) (cur : Timeval) : Option Bool :=
  match timeout with
  | none => some false
  | some timeout => do
    let sec ← addSigned start.sec timeout.sec
    if cur.sec ≥ sec then
      let usec ← addSigned start.usec timeout.usec
      some (decide (cur.usec ≥ usec))
    else some false

section Loop

variable {κ σ : Type}

/-- `handle->last_pkt_data.type` -/
def Session.lastPktType (s : Session κ) : UInt32 := (s.lastPktData.map Payload.msgtype).getD 0

variable (dispatcher : Session κ × σ → Session κ × σ) (clock : Nat → Timeval) (start : Timeval)
  (timeout : Option Timeval)

/-- The loop, from its `n`th reading of the clock on. The number of rounds is bounded by `fuel`. -/
def blockLoop : Nat → Nat → Session κ × σ → Waited
  | 0, _, _ => .waiting
  | fuel + 1, n, x =>
    if x.1.fd < 0 then .returned x.1.fd
    else
      let x := dispatcher x
      if x.1.lastPktType ≠ 0 then .returned x.1.lastPktType.toNat
      else
        match timeIsUp start timeout (clock n) with
        | none => .overflowed
        | some true => .returned (-1)
        | some false => blockLoop fuel (n + 1) x

/-- The last message is forgotten. -/
def forgetLast (x : Session κ × σ) : Session κ × σ := ({ x.1 with lastPktData := none }, x.2)

/-- `upk_net_block_until_msg`, started at `start` -/
def upkNetBlockUntilMsg (fuel : Nat) (x : Session κ × σ) : Waited :=
  blockLoop dispatcher clock start timeout fuel 0 (forgetLast x)

/-- No message arrives, and the connection stays open. -/
def NothingArrives (x : Session κ × σ) : Prop :=
  ∀ n, 0 ≤ (dispatcher^[n] x).1.fd ∧ (dispatcher^[n + 1] x).1.lastPktType = 0

end Loop

/-! ### Time -/

namespace Timeval

/-- The microseconds are below a second. -/
def Valid (t : Timeval) : Prop := 0 ≤ t.usec.toInt ∧ t.usec.toInt < 1000000

instance (t : Timeval) : Decidable t.Valid := inferInstanceAs (Decidable (_ ∧ _))

/-- In microseconds -/
def micros (t : Timeval) : Int := t.sec.toInt * 1000000 + t.usec.toInt

/-- At this reading of the clock at least the timeout has passed since the start. -/
def Elapsed (start timeout cur : Timeval) : Prop := start.micros + timeout.micros ≤ cur.micros

instance (start timeout cur : Timeval) : Decidable (Elapsed start timeout cur) := inferInstanceAs (Decidable (_ ≤ _))

end Timeval

open Timeval (Elapsed)

section Time

variable {start timeout cur : Timeval} {a b : Int64}

theorem toInt_add (h : NoOverflow a b) : (a + b).toInt = a.toInt + b.toInt := by
  obtain ⟨hlow, hhigh⟩ := h
  rw [Int64.toInt_add]
  exact Int.bmod_eq_of_le (by omega) (by omega)

/-- The code takes the time to be up at this reading: the timeout has passed, and the microseconds are as late as those
of the start and of the timeout together. -/
def Late (start timeout cur : Timeval) : Prop :=
  Elapsed start timeout cur ∧ start.usec.toInt + timeout.usec.toInt ≤ cur.usec.toInt

instance (start timeout cur : Timeval) : Decidable (Late start timeout cur) := inferInstanceAs (Decidable (_ ∧ _))

/-- With the microseconds that late, the seconds are as late too when the timeout has passed. -/
theorem late_iff (hstart : start.Valid) (ht : timeout.Valid) (hcur : cur.Valid) : Late start timeout cur ↔
    start.sec.toInt + timeout.sec.toInt ≤ cur.sec.toInt ∧ start.usec.toInt + timeout.usec.toInt ≤ cur.usec.toInt := by
  obtain ⟨hs, -⟩ := hstart
  obtain ⟨ht, -⟩ := ht
  obtain ⟨-, hc⟩ := hcur
  unfold Late Timeval.Elapsed Timeval.micros
  omega

theorem timeIsUp_eq (hstart : start.Valid) (ht : timeout.Valid) (hcur : cur.Valid)
    (h : NoOverflow start.sec timeout.sec) :
    timeIsUp start (some timeout) cur = some (decide (Late start timeout cur)) := by
  obtain ⟨hs₁, hs₂⟩ := id hstart
  obtain ⟨ht₁, ht₂⟩ := id ht
  have husec : NoOverflow start.usec timeout.usec := ⟨by omega, by omega⟩
  simp only [timeIsUp, addSigned, if_pos h, if_pos husec, Option.bind_eq_bind, Option.bind_some, ge_iff_le,
    Int64.le_iff_toInt_le, toInt_add h, toInt_add husec, late_iff hstart ht hcur]
  by_cases hsec : start.sec.toInt + timeout.sec.toInt ≤ cur.sec.toInt
  · rw [if_pos hsec]
    simp only [hsec, true_and]
  · rw [if_neg hsec]
    simp only [hsec, false_and, decide_false]

theorem timeIsUp_overflow (h : ¬ NoOverflow start.sec timeout.sec) : timeIsUp start (some timeout) cur = none := by
  simp only [timeIsUp, addSigned, if_neg h, Option.bind_eq_bind, Option.bind_none]

end Time

/-! ### The wait -/

section Wait

variable {κ σ : Type} (dispatcher : Session κ × σ → Session κ × σ) (clock : Nat → Timeval) (start timeout : Timeval)

/-- The wait ends with -1 at the first reading at which the timeout has passed, and goes on before it. -/
def TimesOut (x : Session κ × σ) : Prop :=
  ∀ rounds, upkNetBlockUntilMsg dispatcher clock start (some timeout) rounds x =
    if ∃ n < rounds, Elapsed start timeout (clock n) then .returned (-1) else .waiting

/-- The first reading at which the timeout has passed -/
def FirstElapsed (n : Nat) : Prop :=
  Elapsed start timeout (clock n) ∧ ∀ m < n, ¬ Elapsed start timeout (clock m)

variable {dispatcher clock start timeout} {x : Session κ × σ}

theorem blockLoop_succ (hquiet : NothingArrives dispatcher x) (fuel n : Nat) {up : Bool}
    (hup : timeIsUp start (some timeout) (clock n) = some up) :
    blockLoop dispatcher clock start (some timeout) (fuel + 1) n (dispatcher^[n] x) =
      if up then .returned (-1)
      else blockLoop dispatcher clock start (some timeout) fuel (n + 1) (dispatcher^[n + 1] x) := by
  obtain ⟨hfd, htype⟩ := hquiet n
  rw [Function.iterate_succ_apply'] at htype ⊢
  rw [blockLoop, if_neg (Int.not_lt.mpr hfd)]
  dsimp only
  rw [if_neg (not_not.mpr htype), hup]
  cases up <;> rfl

theorem blockLoop_eq (hstart : start.Valid) (ht : timeout.Valid) (hclock : ∀ n, (clock n).Valid)
    (h : NoOverflow start.sec timeout.sec) (hquiet : NothingArrives dispatcher x) (fuel n : Nat) :
    blockLoop dispatcher clock start (some timeout) fuel n (dispatcher^[n] x) =
      if ∃ k < fuel, Late start timeout (clock (n + k)) then .returned (-1) else .waiting := by
  induction fuel generalizing n with
  | zero => simp [blockLoop]
  | succ fuel ih =>
    rw [blockLoop_succ hquiet fuel n (timeIsUp_eq hstart ht (hclock n) h), ih (n + 1)]
    simp only [decide_eq_true_eq]
    by_cases hlate : Late start timeout (clock n)
    · rw [if_pos hlate, if_pos ⟨0, Nat.succ_pos fuel, hlate⟩]
    · rw [if_neg hlate]
      -- the reading `k` of the rest of the loop is the reading `k + 1` from here
      have hshift : (∃ k < fuel, Late start timeout (clock (n + 1 + k))) ↔
          ∃ k < fuel + 1, Late start timeout (clock (n + k)) := by
        constructor
        · rintro ⟨k, hk, hl⟩
          exact ⟨k + 1, Nat.succ_lt_succ hk, by rwa [show n + (k + 1) = n + 1 + k by omega]⟩
        · rintro ⟨k, hk, hl⟩
          cases k with
          | zero => exact absurd hl hlate
          | succ k => exact ⟨k, Nat.lt_of_succ_lt_succ hk, by rwa [show n + 1 + k = n + (k + 1) by omega]⟩
      simp only [hshift]

theorem upkNetBlockUntilMsg_eq (hstart : start.Valid) (ht : timeout.Valid) (hclock : ∀ n, (clock n).Valid)
    (h : NoOverflow start.sec timeout.sec) (hquiet : NothingArrives dispatcher (forgetLast x)) (rounds : Nat) :
    upkNetBlockUntilMsg dispatcher clock start (some timeout) rounds x =
      if ∃ n < rounds, Late start timeout (clock n) then .returned (-1) else .waiting := by
  have hloop := blockLoop_eq hstart ht hclock h hquiet rounds 0
  simp only [Nat.zero_add] at hloop
  exact hloop

theorem upkNetBlockUntilMsg_overflow (h : ¬ NoOverflow start.sec timeout.sec)
    (hquiet : NothingArrives dispatcher (forgetLast x)) (rounds : Nat) :
    upkNetBlockUntilMsg dispatcher clock start (some timeout) (rounds + 1) x = .overflowed := by
  obtain ⟨hfd, htype⟩ := hquiet 0
  rw [Function.iterate_zero_apply] at hfd
  rw [Function.iterate_one] at htype
  rw [upkNetBlockUntilMsg, blockLoop, if_neg (Int.not_lt.mpr hfd)]
  dsimp only
  rw [if_neg (not_not.mpr htype), timeIsUp_overflow h]

/-- **The wait times out as it should exactly if the first reading at which the timeout has passed, if there is one, has
as many microseconds as the start and the timeout together.** -/
theorem timesOut_iff (dispatcher : Session κ × σ → Session κ × σ) (clock : Nat → Timeval) (start timeout : Timeval)
    (x : Session κ × σ) (hstart : start.Valid) (ht : timeout.Valid) (hclock : ∀ n, (clock n).Valid)
    (hquiet : NothingArrives dispatcher (forgetLast x)) :
    TimesOut dispatcher clock start timeout x ↔ NoOverflow start.sec timeout.sec ∧
      ∀ n, FirstElapsed clock start timeout n → start.usec.toInt + timeout.usec.toInt ≤ (clock n).usec.toInt := by
  by_cases hover : NoOverflow start.sec timeout.sec
  · have hrun := upkNetBlockUntilMsg_eq hstart ht hclock hover hquiet
    simp only [hover, true_and]
    constructor
    · intro h n ⟨helapsed, hfirst⟩
      have hreturned := h (n + 1)
      rw [if_pos ⟨n, Nat.lt_succ_self n, helapsed⟩, hrun] at hreturned
      obtain ⟨k, hk, hlate⟩ : ∃ k < n + 1, Late start timeout (clock k) := by
        by_contra hno
        rw [if_neg hno] at hreturned
        cases hreturned
      -- no reading before the `n`th is late, as the timeout has not passed there
      rcases Nat.lt_or_ge k n with hlt | hge
      · exact absurd hlate.1 (hfirst k hlt)
      · obtain rfl : k = n := by omega
        exact hlate.2
    · intro h rounds
      rw [hrun]
      have hsame : (∃ n < rounds, Late start timeout (clock n)) ↔ ∃ n < rounds, Elapsed start timeout (clock n) := by
        constructor
        · rintro ⟨n, hn, hlate⟩
          exact ⟨n, hn, hlate.1⟩
        · rintro ⟨n, hn, helapsed⟩
          have hex : ∃ k, Elapsed start timeout (clock k) := ⟨n, helapsed⟩
          refine ⟨Nat.find hex, (Nat.find_min' hex helapsed).trans_lt hn, Nat.find_spec hex, ?_⟩
          exact h (Nat.find hex) ⟨Nat.find_spec hex, fun m hm => Nat.find_min hex hm⟩
      simp only [hsame]
  · simp only [hover, false_and, iff_false]
    intro h
    have hone := h 1
    rw [upkNetBlockUntilMsg_overflow hover hquiet] at hone
    split at hone <;> cases hone

/-- A connection on which nothing happens -/
def idleConnection : Session Unit × Unit := ({ fd := 3, lastPktData := none, state := none }, ())

theorem idle_nothingArrives : NothingArrives id (forgetLast idleConnection) := by
  intro n
  rw [Function.iterate_id, Function.iterate_id]
  decide

/-- A clock that is read at every full second, from the second `n` on -/
def everySecond (n : Nat) : Nat → Timeval := fun k => ⟨.ofNat (n + k), 0⟩

theorem everySecond_valid (n k : Nat) : (everySecond n k).Valid := by
  show 0 ≤ (0 : Int64).toInt ∧ (0 : Int64).toInt < 1000000
  decide

theorem timesOut_iff_serial : TimesOut id (everySecond 0) ⟨0, 0⟩ ⟨30, 0⟩ idleConnection ↔ NoOverflow 0 30 ∧
    ∀ n, FirstElapsed (everySecond 0) ⟨0, 0⟩ ⟨30, 0⟩ n →
      (0 : Int64).toInt + (0 : Int64).toInt ≤ (everySecond 0 n).usec.toInt :=
  timesOut_iff id (everySecond 0) ⟨0, 0⟩ ⟨30, 0⟩ idleConnection (by decide) (by decide) (everySecond_valid 0)
    idle_nothingArrives

/-- A wait of 0.2 seconds from 0.9 seconds past a second on is not over at the full second after the next. -/
theorem not_timesOut_carry : ¬ TimesOut id (everySecond 2) ⟨0, 900000⟩ ⟨0, 200000⟩ idleConnection := by
  intro h
  have hreturned := h 1
  have hwaiting :
      upkNetBlockUntilMsg id (everySecond 2) ⟨0, 900000⟩ (some ⟨0, 200000⟩) 1 idleConnection = .waiting := by decide
  rw [hwaiting, if_pos ⟨0, by decide, by decide⟩] at hreturned
  cases hreturned

end Wait

end Upkeeper
