import Upkeeper.Buddy.Surroundings
import Upkeeper.Library.Machine
/-!
# The ring is a bounded queue

A recording pushes a record onto a queue that drops its oldest element when it is full. When a flush begins its loop,
the outcomes of the calls are a list, of which the first `k` write a whole record and read a whole acknowledgement: the
flush takes `k` records from the front of the queue, and sends these and one more, with `remaining` counting down to
zero. The ring follows this queue through a run of flushes that are not misled by the results of their calls
(`ring_refines_queue`).
-/

namespace Upkeeper

open Fifo (Shows push)

/-- What a flush sends of a queue: the oldest record first, each with the number of those behind it -/
def countdown : List Record → List (Record × UInt64)
  | [] => []
  | r :: q => (r, UInt64.ofNat q.length) :: countdown q

/-- What an offer sends -/
def Offer.sent (e : Offer) : Record × UInt64 := (e.info.toRecord, e.info.remaining)

/-- The outcomes of the calls are a list; when it is over, every call times out. -/
def outcomes : FarEnd (List Exchange) := ⟨id, scripted.exchange⟩

/-- How many records the controller acknowledges before it fails -/
def acknowledgedBy (v : Statics) (xs : List Exchange) : Nat := (xs.takeWhile (·.Genuine v)).length

section Acknowledged

variable {v : Statics} {x : Exchange} {xs : List Exchange}

theorem acknowledgedBy_of_genuine (h : x.Genuine v) :
    acknowledgedBy v (x :: xs) = acknowledgedBy .acknowledged xs + 1 := by
  have hsame : (fun x : Exchange => decide (x.Genuine v)) = fun x => decide (x.Genuine .acknowledged) :=
    funext fun x => decide_eq_decide.mpr (Exchange.genuine_congr h.1.1.1)
  unfold acknowledgedBy
  rw [List.takeWhile_cons, decide_eq_true h, if_pos rfl, List.length_cons, hsame]

theorem acknowledgedBy_of_not_genuine (h : ¬ x.Genuine v) : acknowledgedBy v (x :: xs) = 0 := by
  unfold acknowledgedBy
  rw [List.takeWhile_cons, decide_eq_false h, if_neg Bool.false_ne_true, List.length_nil]

theorem acknowledgedBy_of_not_connected (h : v.connected = false) : acknowledgedBy v xs = 0 := by
  cases xs with
  | nil => rfl
  | cons x xs => exact acknowledgedBy_of_not_genuine fun hgen => Bool.false_ne_true (h.symm.trans hgen.1.1.1)

end Acknowledged

/-- A flush takes `k` records from the front of the queue `q`, and it sends `n` of its records in their order. -/
structure Flushed.Dequeues {ω : Type*} (f : Flushed ω) (q : List Record) (k n : Nat) : Prop where
  queues : Buddy.Queues f.buddy (q.drop k)
  sends : f.offers.map Offer.sent = (countdown q).take n

namespace Buddy

variable {b : Buddy} {q : List Record} {left : Nat}

/-- What the loop of a flush keeps: the records `q` lie in the nodes that are left. -/
structure Looping (b : Buddy) (left : Nat) (q : List Record) : Prop where
  ring : ∃ todo passed, b.ring = todo ++ passed ∧ todo.length = left ∧ (∀ x ∈ passed, x.held = none) ∧
    Shows BuddyInfo.held todo q
  pending : b.ringbufferPending = q.length

theorem Queues.looping (h : Queues b q) : Looping b b.ring.length q :=
  ⟨⟨b.ring, [], (List.append_nil _).symm, rfl, by simp, h.shows⟩, h.pending⟩

theorem Looping.free {cur : BuddyInfo} {todo passed : List BuddyInfo} (hring : b.ring = cur :: todo ++ passed)
    (hpassed : ∀ x ∈ passed, x.held = none) (hheld : cur.held = none) (hshows : Shows BuddyInfo.held (cur :: todo) q)
    (hlen : q.length ≤ todo.length) (hpending : b.ringbufferPending = q.length) :
    Looping b.advance todo.length q := by
  have hadvance : b.advance = { b with ring := todo ++ passed ++ [cur] } := by
    unfold advance
    rw [hring]
    rfl
  rw [hadvance]
  refine ⟨⟨todo, passed ++ [cur], List.append_assoc _ _ _, rfl, fun x hx => ?_, hshows.tail_of_free hlen⟩, hpending⟩
  rcases List.mem_append.mp hx with hx | hx
  · exact hpassed x hx
  · rw [List.mem_singleton.mp hx, hheld]

theorem Looping.pass {cur : BuddyInfo} {todo passed : List BuddyInfo} {r : Record} {x : Exchange}
    (hring : b.ring = cur :: todo ++ passed) (hpassed : ∀ x ∈ passed, x.held = none) (hheld : cur.held = some r)
    (hshows : Shows BuddyInfo.held (cur :: todo) (r :: q)) (hlen : q.length = todo.length)
    (hpending : b.ringbufferPending = (r :: q).length) :
    Looping (b.offering.exchange x).2.buddyZeroInfo.advance todo.length q := by
  have hoffered : (b.offering.exchange x).2.ring = b.withRemaining cur :: (todo ++ passed) := offered_ring x hring
  have hpending' : (b.offering.exchange x).2.ringbufferPending = (r :: q).length := by
    obtain ⟨ring, hoffering⟩ := offering_eq b
    rw [(exchange_ring x b.offering).2, hoffering]
    exact hpending
  generalize (b.offering.exchange x).2 = b' at hoffered hpending'
  have hpop : (b.withRemaining cur).populated = true := by
    by_contra hpop
    have hpop : cur.populated = false := Bool.eq_false_iff.mpr hpop
    simp [BuddyInfo.held, hpop] at hheld
  have hdown : pendingAfterZero (b.withRemaining cur) (q.length + 1) = q.length := by
    unfold pendingAfterZero
    rw [if_pos hpop]
    split <;> omega
  have hzero : b'.buddyZeroInfo.advance = { b' with ring := todo ++ passed ++ [.zero], ringbufferPending := q.length } := by
    rw [List.length_cons] at hpending'
    simp only [buddyZeroInfo, advance, hoffered, hpending', hdown]
  rw [hzero]
  refine ⟨⟨todo, passed ++ [.zero], List.append_assoc _ _ _, rfl, fun x hx => ?_, hshows.tail_of_full hlen⟩, rfl⟩
  rcases List.mem_append.mp hx with hx | hx
  · exact hpassed x hx
  · rw [List.mem_singleton.mp hx, BuddyInfo.held_zero]

theorem Looping.fail {cur : BuddyInfo} {todo passed : List BuddyInfo} {x : Exchange} (hring : b.ring = cur :: todo ++ passed)
    (hpassed : ∀ x ∈ passed, x.held = none) (hshows : Shows BuddyInfo.held (cur :: todo) q)
    (hpending : b.ringbufferPending = q.length) :
    Queues { (b.offering.exchange x).2 with ring := (b.offering.exchange x).2.ring.rotate (todo.length + 1) } q := by
  have hoffered : (b.offering.exchange x).2.ring = (b.withRemaining cur :: todo) ++ passed := offered_ring x hring
  have hrotate : (b.offering.exchange x).2.ring.rotate (todo.length + 1) = passed ++ b.withRemaining cur :: todo := by
    rw [hoffered]
    exact List.rotate_append_length_eq (b.withRemaining cur :: todo) passed
  have hpending' : (b.offering.exchange x).2.ringbufferPending = q.length := by
    obtain ⟨ring, hoffering⟩ := offering_eq b
    rw [(exchange_ring x b.offering).2, hoffering]
    exact hpending
  refine ⟨?_, hpending'⟩
  dsimp only
  rw [hrotate]
  exact .free_append hpassed (hshows.congr rfl)

theorem sent_withRemaining {cur : BuddyInfo} {r : Record} (hheld : cur.held = some r)
    (hpending : b.ringbufferPending = (r :: q).length) :
    ((b.withRemaining cur).toRecord, (b.withRemaining cur).remaining) = (r, UInt64.ofNat q.length) := by
  have hrecord : cur.toRecord = r := by
    unfold BuddyInfo.held at hheld
    split at hheld
    · exact Option.some.inj hheld
    · cases hheld
  have hremaining : UInt64.ofNat (r :: q).length - 1 = UInt64.ofNat q.length := by
    rw [List.length_cons, UInt64.ofNat_add]
    exact UInt64.add_sub_cancel _ _
  unfold withRemaining
  rw [hpending, hremaining, ← hrecord]

theorem Looping.cons {cur : BuddyInfo} {rest : List BuddyInfo} (h : Looping b (left + 1) q) (hring : b.ring = cur :: rest) :
    ∃ todo passed, rest = todo ++ passed ∧ todo.length = left ∧ (∀ x ∈ passed, x.held = none) ∧
      Shows BuddyInfo.held (cur :: todo) q := by
  obtain ⟨⟨todo, passed, hsplit, hlen, hpassed, hshows⟩, -⟩ := h
  rw [hring] at hsplit
  cases todo with
  | nil => exact absurd hlen (by simp)
  | cons c todo =>
    obtain ⟨rfl, rfl⟩ := List.cons.inj hsplit
    exact ⟨todo, passed, rfl, by simpa using hlen, hpassed, hshows⟩

theorem held_of_populated {cur : BuddyInfo} (hpop : cur.populated = true) : cur.held = some cur.toRecord := if_pos hpop

theorem held_of_free {cur : BuddyInfo} (hpop : cur.populated = false) : cur.held = none :=
  if_neg (by rw [hpop]; decide)

/-- **The loop of a flush dequeues**, if it is sound. -/
theorem flushLoop_dequeues {s : Surroundings (List Exchange)} (hleft : left ≤ b.ring.length)
    (hlooping : Looping b left q) (hsound : (flushLoop (Surroundings.outside outcomes) left b s).Sound) :
    (flushLoop (Surroundings.outside outcomes) left b s).Dequeues q (acknowledgedBy b.statics s.far)
      (acknowledgedBy b.statics s.far + 1) := by
  refine flushLoop_induct (o := Surroundings.outside outcomes)
    (P := fun left b (s : Surroundings (List Exchange)) f => ∀ q, Looping b left q → f.Sound →
      f.Dequeues q (acknowledgedBy b.statics s.far) (acknowledgedBy b.statics s.far + 1))
    ?_ ?_ ?_ ?_ hleft q hlooping hsound
  · intro b s q hlooping _
    obtain ⟨⟨todo, passed, hring, hlen, hpassed, hshows⟩, hpending⟩ := hlooping
    obtain rfl := List.eq_nil_of_length_eq_zero hlen
    obtain rfl : q = [] := List.eq_nil_of_length_eq_zero (Nat.le_zero.mp hshows.fits)
    refine ⟨⟨?_, by rw [hpending, List.drop_nil]⟩, by simp [countdown]⟩
    rw [List.drop_nil, hring]
    exact .empty hpassed
  · intro left b s f cur rest _ hring hpop ih q hlooping hsound
    obtain ⟨todo, passed, rfl, rfl, hpassed, hshows⟩ := hlooping.cons hring
    have hadvance : b.advance.statics = b.statics := by
      obtain ⟨ring, hadvance⟩ := advance_eq b
      rw [hadvance]
      rfl
    rw [← hadvance]
    refine ih q (.free hring hpassed (held_of_free hpop) hshows ?_ hlooping.pending) hsound
    rcases hshows.next with ⟨-, hfits⟩ | ⟨r, q', -, hheld, -⟩
    · exact hfits
    · rw [held_of_free hpop] at hheld
      cases hheld
  · intro left b s f cur rest x s' _ hring hpop hx _ ih q hlooping hsound
    obtain ⟨todo, passed, rfl, rfl, hpassed, hshows⟩ := hlooping.cons hring
    obtain ⟨hgen, hsound⟩ := Flushed.sound_cons.mp hsound
    have hgen : x.Genuine b.statics := offering_statics b ▸ hgen rfl
    rcases hshows.next with ⟨hheld, -⟩ | ⟨r, q, rfl, hheld, hfits⟩
    · rw [held_of_populated hpop] at hheld
      cases hheld
    · have hrest := ih q (.pass hring hpassed hheld hshows hfits hlooping.pending) hsound
      rw [next_statics, statics_of_genuine ((offering_statics b).symm ▸ hgen)] at hrest
      obtain ⟨hfirst, hlater⟩ : s.far.headD ⟨.timeout, .fail .other, .timeout, .fail .other⟩ = x ∧ s.far.tail = s'.far :=
        ⟨congrArg Prod.fst hx, congrArg (fun a => a.2.far) hx⟩
      have hcount : acknowledgedBy b.statics s.far = acknowledgedBy .acknowledged s'.far + 1 := by
        rw [← hlater]
        cases hfar : s.far with
        | nil =>
          rw [hfar] at hfirst
          exact absurd hgen.1.1.2 (by rw [← hfirst]; simp)
        | cons y ys =>
          obtain rfl : y = x := by rwa [hfar] at hfirst
          exact acknowledgedBy_of_genuine hgen
      rw [hcount]
      refine ⟨hrest.queues, ?_⟩
      rw [List.map_cons, countdown, List.take_succ_cons, hrest.sends]
      exact congrArg (· :: _) (sent_withRemaining hheld hlooping.pending)
  · intro left b s cur rest x s' _ hring hpop hx hgen _ q hlooping _
    obtain ⟨todo, passed, rfl, rfl, hpassed, hshows⟩ := hlooping.cons hring
    have hfirst : s.far.headD ⟨.timeout, .fail .other, .timeout, .fail .other⟩ = x := congrArg Prod.fst hx
    have hcount : acknowledgedBy b.statics s.far = 0 := by
      cases hfar : s.far with
      | nil => rfl
      | cons y ys =>
        obtain rfl : y = x := by rwa [hfar] at hfirst
        exact acknowledgedBy_of_not_genuine hgen
    rw [hcount]
    refine ⟨Looping.fail hring hpassed hshows hlooping.pending, ?_⟩
    rcases hshows.next with ⟨hheld, -⟩ | ⟨r, q, rfl, hheld, -⟩
    · rw [held_of_populated hpop] at hheld
      cases hheld
    · exact congrArg (fun s => [s]) (sent_withRemaining hheld hlooping.pending)

end Buddy

/-! ### Runs -/

/-- What happens to the ring: a child is reaped, a start is recorded, buddy changes anything but its ring, or it
flushes. -/
inductive RingEvent
  | reap (si : Siginfo) (z : Reaped)
  | start (now : Int)
  | other (f : Buddy → Buddy)
  | flush (signals : List (List (Siginfo × Reaped))) (homes : List (Int × Bool)) (exchanges : List Exchange)

namespace RingEvent

/-- What surrounds the flush of an event -/
def flushing (signals : List (List (Siginfo × Reaped))) (homes : List (Int × Bool)) (exchanges : List Exchange) :
    Surroundings (List Exchange) :=
  ⟨signals, homes, exchanges, [], []⟩

/-- The flush of an event -/
def flushed (cfg : BuddyConfig) (b : Buddy) (s : Surroundings (List Exchange)) : Flushed (Surroundings (List Exchange)) :=
  b.buddyFlushRingbuffer (Surroundings.outside outcomes) cfg s

def step (cfg : BuddyConfig) (b : Buddy) : RingEvent → Option Buddy
  | reap si z => some (b.reap si z)
  | start now => some (b.recordStart now)
  | other f => some { f b with ring := b.ring, ringbufferPending := b.ringbufferPending }
  | flush signals homes exchanges => some (flushed cfg b (flushing signals homes exchanges)).buddy

/-- The queue, the number of records that the controller acknowledges, and the number of those that are sent if there
are enough, when a flush comes to its loop: the signal handler may have recorded children before. -/
structure Begun where
  queue : List Record
  taken : Nat
  sent : Nat

/-- How a flush begins with a queue of at most `size` records -/
def begun (cfg : BuddyConfig) (size : Nat) (b : Buddy) (s : Surroundings (List Exchange)) (q : List Record) : Begun :=
  let t := b.beforeLoop (Surroundings.outside outcomes) cfg s
  let taken := acknowledgedBy t.1.statics t.2.far
  ⟨t.2.recorded.foldl (push size) q, taken, if 0 ≤ t.1.ctrlfd then taken + 1 else 0⟩

/-- What an event does to the queue: recordings push, and a flush drops what the controller acknowledges. -/
def abs (cfg : BuddyConfig) (b : Buddy) (e : RingEvent) (q : List Record) : List Record :=
  match e with
  | reap si z => push b.ring.length q (b.reapRecord si z)
  | start now => push b.ring.length q (b.startRecord now)
  | other _ => q
  | flush signals homes exchanges =>
    let s := begun cfg b.ring.length b (flushing signals homes exchanges) q
    s.queue.drop s.taken

/-- The results of the calls of a flush do not mislead it. -/
def NotMisled (cfg : BuddyConfig) (b : Buddy) : RingEvent → Prop
  | flush signals homes exchanges =>
    b.FlushesTruly (Surroundings.outside outcomes) cfg (flushing signals homes exchanges)
  | _ => True

/-- A flush sends the records of the queue in their order, up to the first one that is not acknowledged. -/
def InOrder (cfg : BuddyConfig) (b : Buddy) : RingEvent → Prop
  | flush signals homes exchanges =>
    ∀ q, Buddy.Queues b q →
      let s := begun cfg b.ring.length b (flushing signals homes exchanges) q
      (flushed cfg b (flushing signals homes exchanges)).offers.map Offer.sent = (countdown s.queue).take s.sent
  | _ => True

end RingEvent

/-- The ring holds the queue, and `ringbuffer_pending` is the number of its populated slots. -/
structure Refines (b : Buddy) (q : List Record) : Prop where
  queues : Buddy.Queues b q
  populated : b.ringbufferPending = b.ring.countP (·.populated)

theorem Buddy.Queues.refines {b : Buddy} {q : List Record} (h : b.Queues q) : Refines b q := by
  refine ⟨h, h.pending.trans ?_⟩
  rw [← h.shows.countP]
  refine List.countP_congr fun info _ => ?_
  unfold BuddyInfo.held
  split <;> simp_all

namespace RingEvent

open Buddy

variable {b : Buddy} {q : List Record} {n : Nat} {cfg : BuddyConfig} {s : Surroundings (List Exchange)}

/-- What a run keeps -/
structure Holds (n : Nat) (b : Buddy) (q : List Record) : Prop where
  queues : Queues b q
  length : b.ring.length = n + 1

theorem Holds.ne_nil (h : Holds n b q) : b.ring ≠ [] := by
  intro hnil
  have hlen := h.length
  rw [hnil, List.length_nil] at hlen
  omega

theorem Holds.reap (h : Holds n b q) (si : Siginfo) (z : Reaped) :
    Holds n (b.reap si z) (push (n + 1) q (b.reapRecord si z)) :=
  ⟨h.length ▸ h.queues.reap h.ne_nil si z, (length_reap si z b).trans h.length⟩

theorem Holds.recordStart (h : Holds n b q) (now : Int) :
    Holds n (b.recordStart now) (push (n + 1) q (b.startRecord now)) :=
  ⟨h.length ▸ h.queues.recordStart h.ne_nil now, (length_recordStart now b).trans h.length⟩

theorem Holds.beforeLoop (h : Holds n b q) (cfg : BuddyConfig) (hnew : s.recorded = []) :
    Holds n (b.beforeLoop (Surroundings.outside outcomes) cfg s).1
      ((b.beforeLoop (Surroundings.outside outcomes) cfg s).2.recorded.foldl (push (n + 1)) q) :=
  Surroundings.beforeLoop_keeps (e := outcomes) (P := fun b s => Holds n b (s.recorded.foldl (push (n + 1)) q))
    (fun b s signals h => h)
    (fun b s si z h => by
      show Holds n _ ((s.recorded ++ [b.reapRecord si z]).foldl (push (n + 1)) q)
      rw [List.foldl_append]
      exact h.reap si z)
    (fun b s ack h => ⟨⟨h.queues.shows, h.queues.pending⟩, h.length⟩)
    (fun b s fd homes far h _ => ⟨⟨h.queues.shows, h.queues.pending⟩, h.length⟩) cfg (by rwa [hnew])

/-- **A flush takes the acknowledged records from the front of the queue.** -/
theorem Holds.flush (h : Holds n b q) (hnew : s.recorded = [])
    (hok : b.FlushesTruly (Surroundings.outside outcomes) cfg s) :
    Holds n (flushed cfg b s).buddy ((begun cfg b.ring.length b s q).queue.drop (begun cfg b.ring.length b s q).taken) ∧
      (flushed cfg b s).offers.map Offer.sent =
        (countdown (begun cfg b.ring.length b s q).queue).take (begun cfg b.ring.length b s q).sent := by
  have hhome := h.beforeLoop cfg hnew
  have hsound := (sound_iff_flushesTruly (Surroundings.outside outcomes) cfg b s).mpr hok
  unfold flushed begun
  rw [buddyFlushRingbuffer_eq] at hsound ⊢
  rw [h.length]
  dsimp only
  generalize b.beforeLoop _ cfg s = t at hhome hsound ⊢
  by_cases hctrl : 0 ≤ t.1.ctrlfd
  · rw [if_pos hctrl, flushConnected_eq] at hsound ⊢
    rw [if_pos hctrl]
    have hmasked : Queues { t.1 with mask := t.1.mask ∪ Finset.univ } (t.2.recorded.foldl (push (n + 1)) q) :=
      ⟨hhome.queues.shows, hhome.queues.pending⟩
    obtain ⟨hqueues, hsends⟩ := flushLoop_dequeues (s := t.2) le_rfl hmasked.looping hsound
    exact ⟨⟨⟨hqueues.shows, hqueues.pending⟩, (flushLoop_length _ _ _ _).trans hhome.length⟩, hsends⟩
  · have hnone : acknowledgedBy t.1.statics t.2.far = 0 :=
      acknowledgedBy_of_not_connected (decide_eq_false fun hpos => hctrl (Int.le_of_lt hpos))
    rw [if_neg hctrl, if_neg hctrl, hnone]
    exact ⟨hhome, rfl⟩

/-- **One step:** the ring follows the queue. -/
theorem Holds.step (h : Holds n b q) (e : RingEvent) (hok : NotMisled cfg b e) :
    ∃ b', step cfg b e = some b' ∧ Holds n b' (abs cfg b e q) := by
  cases e with
  | reap si z => exact ⟨_, rfl, by rw [abs, h.length]; exact h.reap si z⟩
  | start now => exact ⟨_, rfl, by rw [abs, h.length]; exact h.recordStart now⟩
  | other f => exact ⟨_, rfl, ⟨h.queues.shows, h.queues.pending⟩, h.length⟩
  | flush signals homes exchanges => exact ⟨_, rfl, (h.flush rfl hok).1⟩

end RingEvent

/-- **The ring is a bounded queue.** In a run whose flushes are not misled the ring follows the queue, and every flush
sends the records of the queue in their order. -/
theorem ring_refines_queue (cfg : BuddyConfig) (n : Nat) (uuid : List UInt8) (es : List RingEvent)
    (hok : Machine.Guarded (RingEvent.step cfg) (RingEvent.NotMisled cfg) (Buddy.init (n + 1) uuid) es) :
    Machine.Tracks (RingEvent.step cfg) (RingEvent.abs cfg) Refines (Buddy.init (n + 1) uuid) [] es ∧
      Machine.Guarded (RingEvent.step cfg) (RingEvent.InOrder cfg) (Buddy.init (n + 1) uuid) es := by
  have hinit : RingEvent.Holds n (Buddy.init (n + 1) uuid) [] :=
    ⟨Buddy.init_queues (n + 1) uuid, List.length_replicate⟩
  constructor
  · exact (Machine.tracks_of_guarded (fun b q e h hG => h.step e hG) hinit hok).mono fun b q h => h.queues.refines
  · refine Machine.Guarded.mono (J := fun b => ∃ q, RingEvent.Holds n b q) ?_ ?_ ⟨[], hinit⟩ hok
    · rintro b e b' ⟨q, h⟩ hG hs
      obtain ⟨b'', hs', h'⟩ := h.step e hG
      obtain rfl : b' = b'' := Option.some.inj (hs.symm.trans hs')
      exact ⟨_, h'⟩
    · rintro b e ⟨q, h⟩ hG
      cases e with
      | flush signals homes exchanges =>
        intro q' hq'
        exact (RingEvent.Holds.flush ⟨hq', h.length⟩ rfl hG).2
      | _ => trivial

/-- A start is recorded, and the controller acknowledges it. -/
theorem ring_refines_queue_start :
    Machine.Tracks (RingEvent.step exampleConfig) (RingEvent.abs exampleConfig) Refines (Buddy.init 2 []) []
      [.start 7, .other fun b => { b with ctrlfd := 5 }, .flush [] [] [⟨.ready, .taken 208, .ready, .data ackBytes⟩]] := by
  refine (ring_refines_queue exampleConfig 1 [] _ ?_).1
  refine ⟨trivial, fun b hb => ⟨trivial, fun b' hb' => ⟨?_, fun _ _ => trivial⟩⟩⟩
  rw [← Option.some.inj hb', ← Option.some.inj hb]
  exact (Buddy.sound_iff_flushesTruly _ _ _ _).mp (show Flushed.Sound _ by decide)

/-- The controller acknowledges one of two records and then fails, and the ring is empty. -/
theorem ring_not_refines_queue :
    ¬ Machine.Tracks (RingEvent.step exampleConfig) (RingEvent.abs exampleConfig) Refines (Buddy.init 2 []) []
      [.start 7, .start 8, .other fun b => { b with ctrlfd := 5 },
        .flush [] [] [⟨.ready, .taken 208, .ready, .data ackBytes⟩]] := by
  rintro ⟨-, b₁, h₁, -, b₂, h₂, -, b₃, h₃, -, b₄, h₄, hlast⟩
  rw [← Option.some.inj h₄, ← Option.some.inj h₃, ← Option.some.inj h₂, ← Option.some.inj h₁] at hlast
  exact absurd hlast.queues.pending (by decide)

end Upkeeper
