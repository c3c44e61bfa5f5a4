import Upkeeper.Buddy.Surroundings
import Upkeeper.Library.Machine
/-!
# What the controller learns (`buddy_flush_ringbuffer` against `buddy_readstate`)

The controller at the far end of the connection runs `buddy_readstate`: it gets the bytes that buddy writes, and buddy
reads the bytes of its acknowledgements. A run in which no flush is misled by the results of its calls loses no record:
each one that was recorded has been overwritten, waits in the ring, or was received.
-/

namespace Upkeeper

/-! ### The controller's end (`buddy_readstate`) -/

/-- One byte of a record on the wire -/
structure Octet where
  info : BuddyInfo
  offset : Nat
  deriving DecidableEq

/-- The bytes of a record -/
def BuddyInfo.image (info : BuddyInfo) : List Octet := (List.range sizeofBuddyInfo).map (Octet.mk info)

/-- The record whose bytes these are, if they are those of one record -/
def wholeRecord (os : List Octet) : Option BuddyInfo :=
  match os with
  | [] => none
  | o :: _ => if os = o.info.image then some o.info else none

theorem wholeRecord_image (info : BuddyInfo) : wholeRecord info.image = some info := by
  have hcons : ∃ os, info.image = ⟨info, 0⟩ :: os := by
    unfold BuddyInfo.image sizeofBuddyInfo
    rw [List.range_succ_eq_map, List.map_cons]
    exact ⟨_, rfl⟩
  obtain ⟨os, hos⟩ := hcons
  unfold wholeRecord
  rw [hos]
  dsimp only
  rw [if_pos hos.symm]

/-- A buffer of `sizeof(buddy_info_t)` bytes -/
structure InfoBuf where
  octets : List Octet
  length_octets : octets.length = sizeofBuddyInfo

theorem BuddyInfo.length_image (info : BuddyInfo) : info.image.length = sizeofBuddyInfo := by
  rw [BuddyInfo.image, List.length_map, List.length_range]

namespace InfoBuf

/-- The buffer that holds a record -/
def ofInfo (info : BuddyInfo) : InfoBuf := ⟨info.image, info.length_image⟩

/-- `read` into the buffer when the bytes `os` are there -/
def fill (os : List Octet) (buf : InfoBuf) : InfoBuf where
  octets := os.take sizeofBuddyInfo ++ buf.octets.drop (os.take sizeofBuddyInfo).length
  length_octets := by
    rw [List.length_append, List.length_drop, buf.length_octets, List.length_take]
    omega

theorem fill_image (info : BuddyInfo) (buf : InfoBuf) : buf.fill info.image = ofInfo info := by
  have htake : info.image.take sizeofBuddyInfo = info.image := List.take_of_length_le info.length_image.le
  have hdrop : buf.octets.drop info.image.length = [] :=
    List.drop_eq_nil_of_le (by rw [buf.length_octets, info.length_image])
  simp only [fill, ofInfo, htake, hdrop, List.append_nil]

end InfoBuf

/-- What happens in a turn of the loop of `buddy_readstate`: the results of its two `select`s, how many bytes of its
acknowledgement are written, and whether a buffer with parts of several records shows no `remaining` ones -/
structure Round where
  readable : SelectResult
  writable : SelectResult
  wrote : Nat
  tornLast : Bool

/-- The controller: the bytes it has not read, those it wrote and buddy has not read, the buffer of `buddy_readstate`,
whether that is in its loop, and what it received -/
structure Peer where
  inbox : List Octet
  outbox : List UInt8
  buf : InfoBuf
  reading : Bool
  received : List Record

/-- The controller calls `buddy_readstate`, or that takes a turn of its loop. -/
inductive PeerStep
  | call
  | round (e : Round)

namespace Peer

/-- A turn of the loop of `buddy_readstate` -/
def round (e : Round) (p : Peer) : Peer :=
  if p.reading = false then p
  else if e.readable = .timeout ∨ p.inbox = [] then { p with reading := false }
  else
    let buf := p.buf.fill p.inbox
    let last := match wholeRecord buf.octets with
      | some info => info.remaining == 0
      | none => e.tornLast
    { inbox := p.inbox.drop sizeofBuddyInfo
      outbox := if e.writable = .timeout then p.outbox else p.outbox ++ ackBytes.take e.wrote
      buf := buf
      -- after a `select` that timed out the set is empty, and the next turn ends the loop
      reading := e.writable != .timeout && !last
      received := p.received ++ ((wholeRecord buf.octets).map (·.toRecord)).toList }

def step (p : Peer) : PeerStep → Peer
  | .call => { p with buf := .ofInfo .zero, reading := true }
  | .round e => p.round e

end Peer

/-! ### The system -/

/-- What happens in a flush for one record: the outcomes in buddy, and what the controller does between the `write`
and the `read`. A `read` gets as many bytes as it asks for and as there are, or fails. -/
structure Turn where
  writeSelect : SelectResult
  write : WriteResult
  peer : List PeerStep
  readSelect : SelectResult
  read : Option Errno

/-- What the `write` of a turn puts on the wire -/
def Turn.sent (connected : Bool) (info : BuddyInfo) (t : Turn) : List Octet :=
  match t.write with
  | .taken n => if connected && t.writeSelect != .timeout then info.image.take n else []
  | .fail _ => []

/-- The controller between the `write` and the `read` of a turn -/
def Turn.meanwhile (connected : Bool) (info : BuddyInfo) (t : Turn) (p : Peer) : Peer :=
  t.peer.foldl Peer.step { p with inbox := p.inbox ++ t.sent connected info }

/-- The outcomes of a turn -/
def Turn.exchange (connected : Bool) (info : BuddyInfo) (t : Turn) (p : Peer) : Exchange × Peer :=
  let p := t.meanwhile connected info p
  match t.read with
  | some e => (⟨t.writeSelect, t.write, t.readSelect, .fail e⟩, p)
  | none =>
    (⟨t.writeSelect, t.write, t.readSelect, .data (p.outbox.take sizeofBuddyCmnd)⟩,
      { p with outbox := p.outbox.drop sizeofBuddyCmnd })

/-- The controller, and the turns that are still to come -/
structure Line where
  turns : List Turn
  peer : Peer

/-- A connection is new, so nothing is on its way. -/
def Line.renew (l : Line) : Line := { l with peer := { l.peer with inbox := [], outbox := [] } }

/-- The calls for a record -/
def Line.exchange (connected : Bool) (info : BuddyInfo) (l : Line) : Exchange × Line :=
  match l.turns with
  | [] => (⟨.timeout, .fail .other, .timeout, .fail .other⟩, l)
  | t :: turns => ((t.exchange connected info l.peer).1, ⟨turns, (t.exchange connected info l.peer).2⟩)

/-- The controller as a far end -/
def controller : FarEnd Line := ⟨Line.renew, Line.exchange⟩

/-- What surrounds buddy, with the controller's books and the log of the ring -/
abbrev Ledger := Surroundings Line

/-- The records in the ring -/
def Buddy.records (b : Buddy) : List Record := b.ring.filterMap BuddyInfo.held

/-- What happens to buddy and the controller: a child is reaped, a start is recorded, buddy changes anything but its
ring, it flushes on a new connection, or the controller goes on by itself. -/
inductive Happening
  | reap (si : Siginfo) (z : Reaped)
  | start (now : Int)
  | other (f : Buddy → Buddy)
  | flush (signals : List (List (Siginfo × Reaped))) (homes : List (Int × Bool)) (turns : List Turn)
  | peer (e : PeerStep)

/-- Buddy and its surroundings -/
structure Audit where
  buddy : Buddy
  ledger : Ledger

namespace Audit

/-- What surrounds the flush of a happening -/
def flushing (signals : List (List (Siginfo × Reaped))) (homes : List (Int × Bool)) (turns : List Turn) (l : Ledger) :
    Ledger :=
  { l with signals := signals, homes := homes, far := Line.renew ⟨turns, l.far.peer⟩ }

def step (cfg : BuddyConfig) (a : Audit) : Happening → Option Audit
  | .reap si z => some ⟨a.buddy.reap si z, a.ledger.note a.buddy (a.buddy.reapRecord si z)⟩
  | .start now => some ⟨a.buddy.recordStart now, a.ledger.note a.buddy (a.buddy.startRecord now)⟩
  | .other f =>
    some { a with buddy := { f a.buddy with ring := a.buddy.ring, ringbufferPending := a.buddy.ringbufferPending } }
  | .flush signals homes turns =>
    let flushed := a.buddy.buddyFlushRingbuffer (Surroundings.outside controller) cfg
      (flushing signals homes turns a.ledger)
    some ⟨flushed.buddy, flushed.world⟩
  | .peer e =>
    some { a with ledger := { a.ledger with far := ⟨a.ledger.far.turns, a.ledger.far.peer.step e⟩ } }

/-- The results of the calls of a flush do not mislead it. -/
def NotMisled (cfg : BuddyConfig) (a : Audit) : Happening → Prop
  | .flush signals homes turns =>
    a.buddy.FlushesTruly (Surroundings.outside controller) cfg (flushing signals homes turns a.ledger)
  | _ => True

/-- Each record that was made has been overwritten, waits in the ring, or was received. -/
def Accounted (b : Buddy) (l : Ledger) : Prop :=
  ∀ r, l.recorded.count r ≤ l.overwritten.count r + b.records.count r + l.far.peer.received.count r

end Audit

/-! ### The controller gets what it acknowledges -/

/-- What is on its way between the `write` of a whole record and the `read` of an answer -/
def Peer.Answers (info : BuddyInfo) (received : List Record) (p : Peer) : Prop :=
  p.inbox = info.image ∧ p.outbox = [] ∧ p.received = received ∨
    p.inbox = [] ∧ (∃ n, p.outbox = ackBytes.take n) ∧ p.received = received ++ [info.toRecord]

theorem Peer.Answers.step {info : BuddyInfo} {received : List Record} {p : Peer} (h : p.Answers info received)
    (e : PeerStep) : (p.step e).Answers info received := by
  cases e with
  | call => exact h
  | round e =>
    unfold Peer.step Peer.round
    dsimp only
    split
    · exact h
    · split
      · exact h
      · next hread =>
        rcases h with ⟨hinbox, houtbox, hreceived⟩ | ⟨hinbox, -, -⟩
        · -- the controller reads the whole record
          have hdrop : p.inbox.drop sizeofBuddyInfo = [] := by
            rw [hinbox, ← info.length_image, List.drop_length]
          refine Or.inr ⟨hdrop, ?_, ?_⟩
          · dsimp only
            rw [houtbox]
            split
            · exact ⟨0, rfl⟩
            · exact ⟨e.wrote, rfl⟩
          · dsimp only
            rw [hinbox, InfoBuf.fill_image, InfoBuf.ofInfo, wholeRecord_image, hreceived]
            rfl
        · exact absurd (Or.inr hinbox) hread

theorem Peer.Answers.steps {info : BuddyInfo} {received : List Record} {p : Peer} (h : p.Answers info received)
    (es : List PeerStep) : (es.foldl Peer.step p).Answers info received := by
  induction es generalizing p with
  | nil => exact h
  | cons e es ih => exact ih (h.step e)

theorem Peer.received_prefix_step (p : Peer) (e : PeerStep) : p.received <+: (p.step e).received := by
  cases e with
  | call => exact List.prefix_rfl
  | round e =>
    unfold Peer.step Peer.round
    dsimp only
    split
    · exact List.prefix_rfl
    · split
      · exact List.prefix_rfl
      · exact List.prefix_append _ _

theorem Peer.received_prefix_steps (p : Peer) (es : List PeerStep) : p.received <+: (es.foldl Peer.step p).received := by
  induction es generalizing p with
  | nil => exact List.prefix_rfl
  | cons e es ih => exact (p.received_prefix_step e).trans (ih _)

/-! ### Exchanges -/

theorem Turn.received_prefix (connected : Bool) (info : BuddyInfo) (t : Turn) (p : Peer) :
    p.received <+: (t.exchange connected info p).2.received := by
  have hprefix : p.received <+: (t.meanwhile connected info p).received :=
    Peer.received_prefix_steps { p with inbox := p.inbox ++ t.sent connected info } t.peer
  unfold Turn.exchange
  dsimp only
  split <;> exact hprefix

theorem Turn.exchange_fst (connected : Bool) (info : BuddyInfo) (t : Turn) (p : Peer) :
    (t.exchange connected info p).1.writeSelect = t.writeSelect ∧ (t.exchange connected info p).1.write = t.write := by
  unfold Turn.exchange
  dsimp only
  split <;> exact ⟨rfl, rfl⟩

theorem Turn.exchange_of_data {connected : Bool} {info : BuddyInfo} {t : Turn} {p : Peer} {bs : List UInt8}
    (h : (t.exchange connected info p).1.read = .data bs) :
    bs = (t.meanwhile connected info p).outbox.take sizeofBuddyCmnd ∧
      (t.exchange connected info p).2 =
        { t.meanwhile connected info p with
          outbox := (t.meanwhile connected info p).outbox.drop sizeofBuddyCmnd } := by
  unfold Turn.exchange at h ⊢
  dsimp only at h ⊢
  split at h
  · cases h
  · exact ⟨(ReadResult.data.inj h).symm, rfl⟩

/-- **A genuine exchange delivers the record**, and leaves nothing on its way. -/
theorem Turn.exchange_of_genuine {v : Statics} {info : BuddyInfo} {t : Turn} {p : Peer} (hin : p.inbox = [])
    (hout : p.outbox = []) (hgen : (t.exchange v.connected info p).1.Genuine v) :
    (t.exchange v.connected info p).2.inbox = [] ∧ (t.exchange v.connected info p).2.outbox = [] ∧
      (t.exchange v.connected info p).2.received = p.received ++ [info.toRecord] := by
  obtain ⟨⟨⟨hconnected, hselect⟩, hwrote⟩, -, hack⟩ := hgen
  obtain ⟨hselect', hwrite'⟩ := t.exchange_fst v.connected info p
  rw [hselect'] at hselect
  rw [hwrite'] at hwrote
  have hsent : t.sent v.connected info = info.image := by
    cases hwrite : t.write with
    | fail e =>
      rw [hwrite] at hwrote
      exact absurd hwrote (show ¬ sizeofBuddyInfo ≤ 0 by decide)
    | taken n =>
      rw [hwrite] at hwrote
      simp only [Turn.sent, hwrite, hconnected, bne_iff_ne.mpr hselect, Bool.and_self, if_true]
      exact List.take_of_length_le (info.length_image.le.trans hwrote)
  have hanswers : (t.meanwhile v.connected info p).Answers info p.received := by
    have hstart : Peer.Answers info p.received { p with inbox := p.inbox ++ t.sent v.connected info } :=
      Or.inl ⟨by rw [hin, hsent, List.nil_append], hout, rfl⟩
    exact hstart.steps t.peer
  obtain ⟨bs, hread⟩ : ∃ bs, (t.exchange v.connected info p).1.read = .data bs := by
    cases hread : (t.exchange v.connected info p).1.read with
    | data bs => exact ⟨bs, rfl⟩
    | fail e =>
      rw [hread] at hack
      exact absurd hack (show ¬ ([] : List UInt8).take sizeofBuddyCmnd = ackBytes by decide)
  obtain ⟨rfl, hafter⟩ := Turn.exchange_of_data hread
  rw [hread, ReadResult.bytes, List.take_take, Nat.min_self] at hack
  rw [hafter]
  rcases hanswers with ⟨-, houtbox, -⟩ | ⟨hinbox, ⟨k, hk⟩, hreceived⟩
  · rw [houtbox] at hack
    exact absurd hack (by decide)
  · refine ⟨hinbox, ?_, hreceived⟩
    dsimp only
    rw [hk]
    exact List.drop_eq_nil_of_le (List.length_take_le' k ackBytes)

theorem Line.received_prefix (connected : Bool) (info : BuddyInfo) (l : Line) :
    l.peer.received <+: (l.exchange connected info).2.peer.received := by
  unfold Line.exchange
  split
  · exact List.prefix_rfl
  · next t turns _ => exact t.received_prefix connected info l.peer

theorem Line.exchange_of_genuine {v : Statics} {info : BuddyInfo} {l : Line} (hin : l.peer.inbox = [])
    (hout : l.peer.outbox = []) (hgen : (l.exchange v.connected info).1.Genuine v) :
    (l.exchange v.connected info).2.peer.inbox = [] ∧ (l.exchange v.connected info).2.peer.outbox = [] ∧
      (l.exchange v.connected info).2.peer.received = l.peer.received ++ [info.toRecord] := by
  obtain ⟨turns, p⟩ := l
  cases turns with
  | nil => exact absurd hgen.1.2 (show ¬ sizeofBuddyInfo ≤ 0 by decide)
  | cons t turns => exact Turn.exchange_of_genuine hin hout hgen

/-! ### The records of the ring -/

namespace Buddy

variable {b b' : Buddy} {cur : BuddyInfo} {rest : List BuddyInfo}

theorem records_of_cons (hring : b.ring = cur :: rest) : b.records = cur.held.toList ++ rest.filterMap BuddyInfo.held := by
  rw [records, hring, List.filterMap_cons]
  cases cur.held <;> rfl

theorem count_records_advance (r : Record) (b : Buddy) : b.advance.records.count r = b.records.count r := by
  cases hring : b.ring with
  | nil => simp only [advance, records, hring]
  | cons cur rest =>
    have hadvance : b.advance.ring = rest ++ [cur] := by simp only [advance, hring]
    rw [records_of_cons hring, records, hadvance, List.filterMap_append, List.count_append, List.count_append,
      Nat.add_comm]
    cases hheld : cur.held <;> simp [hheld]

theorem held_withRemaining (b : Buddy) (info : BuddyInfo) : (b.withRemaining info).held = info.held := rfl

theorem records_offering (b : Buddy) : b.offering.records = b.records := by
  unfold offering setCurrent
  split
  · rfl
  · next cur rest hring => rw [records_of_cons hring, records_of_cons rfl, held_withRemaining]

theorem records_of_ring (h : b'.ring = b.ring) : b'.records = b.records := congrArg (List.filterMap BuddyInfo.held) h

end Buddy

/-! ### Flushes -/

namespace Audit

open Buddy

variable {b : Buddy} {l : Ledger}

/-- Nothing is on its way between buddy and the controller. -/
def Idle (l : Ledger) : Prop := l.far.peer.inbox = [] ∧ l.far.peer.outbox = []

/-- No record that is in the ring or with the controller before is lost. -/
structure Conserves (b : Buddy) (l : Ledger) (b' : Buddy) (l' : Ledger) : Prop where
  ring : b'.ring.length = b.ring.length
  recorded : l'.recorded = l.recorded
  overwritten : l'.overwritten = l.overwritten
  received : ∀ r, b.records.count r + l.far.peer.received.count r ≤
    b'.records.count r + l'.far.peer.received.count r

theorem Conserves.accounted {b' : Buddy} {l' : Ledger} (h : Conserves b l b' l') (hacc : Accounted b l) :
    Accounted b' l' := by
  intro r
  have hr := h.received r
  have ha := hacc r
  rw [h.recorded, h.overwritten]
  omega

theorem Conserves.refl : Conserves b l b l := ⟨rfl, rfl, rfl, fun _ => le_rfl⟩

theorem Conserves.trans {b₁ b₂ b₃ : Buddy} {l₁ l₂ l₃ : Ledger} (h : Conserves b₁ l₁ b₂ l₂) (h' : Conserves b₂ l₂ b₃ l₃) :
    Conserves b₁ l₁ b₃ l₃ :=
  ⟨h'.ring.trans h.ring, h'.recorded.trans h.recorded, h'.overwritten.trans h.overwritten,
    fun r => (h.received r).trans (h'.received r)⟩

theorem Conserves.of_turn {b' : Buddy} (hlen : b'.ring.length = b.ring.length)
    (hcount : ∀ r, b'.records.count r = b.records.count r) : Conserves b l b' l :=
  ⟨hlen, rfl, rfl, fun r => by rw [hcount r]⟩

theorem conserves_exchange (connected : Bool) (info : BuddyInfo) :
    Conserves b l b (l.exchange controller connected info).2 :=
  ⟨rfl, rfl, rfl, fun r => Nat.add_le_add_left ((l.far.received_prefix connected info).sublist.count_le r) _⟩

/-- **A record leaves the ring when the controller has it.** -/
theorem conserves_pass {cur : BuddyInfo} {rest : List BuddyInfo} {x : Exchange} {l' : Ledger}
    (hring : b.ring = cur :: rest) (hpop : cur.populated = true) (hidle : Idle l)
    (hx : l.exchange controller b.statics.connected (b.withRemaining cur) = (x, l')) (hgen : x.Genuine b.statics) :
    Idle l' ∧ Conserves b l (b.offering.exchange x).2.buddyZeroInfo.advance l' := by
  obtain ⟨rfl, rfl⟩ := Prod.mk.inj hx
  obtain ⟨hin, hout, hreceived⟩ := Line.exchange_of_genuine hidle.1 hidle.2 hgen
  refine ⟨⟨hin, hout⟩, ?_, rfl, rfl, fun r => ?_⟩
  · rw [(passed_ring _ hring).1, hring, List.length_append]
    rfl
  · have hrest : rest.filterMap BuddyInfo.held = (rest ++ [BuddyInfo.zero]).filterMap BuddyInfo.held := by simp
    show _ ≤ _ + List.count r (l.far.exchange _ _).2.peer.received
    rw [hreceived, List.count_append, records_of_cons hring, records, (passed_ring _ hring).1, ← hrest,
      List.count_append, show cur.held = some cur.toRecord from if_pos hpop, Option.toList_some,
      show (b.withRemaining cur).toRecord = cur.toRecord from rfl]
    omega

/-- **The loop of a flush loses no record**, if it is sound. -/
theorem flushLoop_conserves {left : Nat} (hleft : left ≤ b.ring.length) (hidle : Idle l)
    (hsound : (flushLoop (Surroundings.outside controller) left b l).Sound) :
    Conserves b l (flushLoop (Surroundings.outside controller) left b l).buddy
      (flushLoop (Surroundings.outside controller) left b l).world := by
  revert hidle hsound
  refine flushLoop_induct (P := fun _ b l f => Idle l → f.Sound → Conserves b l f.buddy f.world) ?_ ?_ ?_ ?_ hleft
  · intro b l _ _
    exact .refl
  · intro left b l f cur rest _ hring _ ih hidle hsound
    exact (Conserves.of_turn (length_advance b) fun r => count_records_advance r b).trans (ih hidle hsound)
  · intro left b l f cur rest x l' _ hring hpop hx _ ih hidle hsound
    obtain ⟨hgen, hsound⟩ := Flushed.sound_cons.mp hsound
    have hgen := hgen rfl
    rw [offering_statics] at hgen
    obtain ⟨hidle', hpass⟩ := conserves_pass hring hpop hidle hx hgen
    exact hpass.trans (ih hidle' hsound)
  · intro left b l cur rest x l' _ hring hpop hx _ _ hidle _
    have hsame := conserves_exchange (b := b) (l := l) b.statics.connected (b.withRemaining cur)
    rw [show l.exchange controller b.statics.connected (b.withRemaining cur) = (x, l') from hx] at hsame
    refine hsame.trans (.of_turn ?_ fun r => ?_)
    · rw [List.length_rotate, offered_ring x hring, hring]
      rfl
    · have hperm := (List.rotate_perm (b.offering.exchange x).2.ring (left + 1)).filterMap BuddyInfo.held
      rw [← records_offering b, ← records_of_ring (exchange_ring x b.offering).1]
      exact hperm.count_eq r

/-! ### Runs -/

/-- What a run keeps -/
structure Kept (b : Buddy) (l : Ledger) : Prop where
  ring : b.ring ≠ []
  accounted : Accounted b l

theorem Kept.of_conserves {b' : Buddy} {l' : Ledger} (hkept : Kept b l) (h : Conserves b l b' l') : Kept b' l' := by
  refine ⟨fun hnil => hkept.ring ?_, h.accounted hkept.accounted⟩
  rw [← List.length_eq_zero_iff, ← h.ring, hnil, List.length_nil]

/-- **A recording is accounted for**, and so is the record that it overwrites. -/
theorem Kept.note {b' : Buddy} {cur info : BuddyInfo} {rest : List BuddyInfo} {r : Record} (hkept : Kept b l)
    (hring : b.ring = cur :: rest) (hring' : b'.ring = rest ++ [info]) (hinfo : info.held = some r) :
    Kept b' (l.note b r) := by
  refine ⟨by rw [hring']; exact List.append_ne_nil_of_right_ne_nil _ (List.cons_ne_nil _ _), fun r' => ?_⟩
  have hacc := hkept.accounted r'
  have hrecords : b'.records = rest.filterMap BuddyInfo.held ++ [r] := by
    rw [records, hring', List.filterMap_append, List.filterMap_cons_some hinfo, List.filterMap_nil]
  rw [records_of_cons hring, List.count_append] at hacc
  unfold Surroundings.note
  dsimp only
  rw [hrecords, hring, List.count_append, List.count_append, List.count_append, List.head?_cons, Option.bind_some]
  omega

theorem Kept.reap (hkept : Kept b l) (si : Siginfo) (z : Reaped) :
    Kept (b.reap si z) (l.note b (b.reapRecord si z)) := by
  obtain ⟨cur, rest, hring⟩ := List.exists_cons_of_ne_nil hkept.ring
  have hreap := reap_of_cons si z hring
  exact hkept.note hring (congrArg Buddy.ring hreap) rfl

theorem Kept.recordStart (hkept : Kept b l) (now : Int) : Kept (b.recordStart now) (l.note b (b.startRecord now)) := by
  obtain ⟨cur, rest, hring⟩ := List.exists_cons_of_ne_nil hkept.ring
  have hstate : b.recordStart now = (b.buddyRecordState now).advance := rfl
  rw [buddyRecordState_of_cons now hring] at hstate
  exact hkept.note hring (congrArg Buddy.ring hstate) rfl

theorem Kept.flush {cfg : BuddyConfig} (h : Kept b l) (hidle : Idle l)
    (hsound : (b.buddyFlushRingbuffer (Surroundings.outside controller) cfg l).Sound) :
    Kept (b.buddyFlushRingbuffer (Surroundings.outside controller) cfg l).buddy
      (b.buddyFlushRingbuffer (Surroundings.outside controller) cfg l).world := by
  have hhome := Surroundings.beforeLoop_keeps (e := controller) (P := fun b l => Kept b l ∧ Idle l)
    (fun b l signals h => ⟨⟨h.1.ring, h.1.accounted⟩, h.2⟩) (fun b l si z h => ⟨h.1.reap si z, h.2⟩)
    (fun b l ack h => ⟨⟨h.1.ring, h.1.accounted⟩, h.2⟩)
    (fun b l fd homes far h hfar => by
      rcases hfar with rfl | rfl
      · exact ⟨⟨h.1.ring, h.1.accounted⟩, h.2⟩
      · exact ⟨⟨h.1.ring, h.1.accounted⟩, rfl, rfl⟩) cfg ⟨h, hidle⟩
  rw [buddyFlushRingbuffer_eq] at hsound ⊢
  generalize beforeLoop _ cfg b l = s at hsound hhome ⊢
  by_cases hctrl : 0 ≤ s.1.ctrlfd
  · rw [if_pos hctrl, flushConnected_eq] at hsound ⊢
    have hmask : Conserves s.1 s.2 { s.1 with mask := s.1.mask ∪ Finset.univ } s.2 := .of_turn rfl fun r => rfl
    have hloop := flushLoop_conserves (b := { s.1 with mask := s.1.mask ∪ Finset.univ }) le_rfl hhome.2 hsound
    exact hhome.1.of_conserves ((hmask.trans hloop).trans (.of_turn rfl fun r => rfl))
  · rw [if_neg hctrl]
    exact hhome.1

/-- **One step:** if the calls of a flush do not mislead it, every record stays accounted for. -/
theorem Kept.step {cfg : BuddyConfig} {a a' : Audit} {e : Happening} (hkept : Kept a.buddy a.ledger)
    (hok : NotMisled cfg a e) (hstep : a.step cfg e = some a') : Kept a'.buddy a'.ledger := by
  cases e with
  | reap si z => exact Option.some.inj hstep ▸ hkept.reap si z
  | start now => exact Option.some.inj hstep ▸ hkept.recordStart now
  | other f => exact Option.some.inj hstep ▸ ⟨hkept.ring, hkept.accounted⟩
  | flush signals homes turns =>
    rw [← Option.some.inj hstep]
    exact Kept.flush ⟨hkept.ring, hkept.accounted⟩ ⟨rfl, rfl⟩ ((sound_iff_flushesTruly _ cfg a.buddy _).mpr hok)
  | peer e =>
    rw [← Option.some.inj hstep]
    refine ⟨hkept.ring, fun r => (hkept.accounted r).trans (Nat.add_le_add_left ?_ _)⟩
    exact (a.ledger.far.peer.received_prefix_step e).sublist.count_le r

end Audit

/-- Buddy when it enters its event loop, before a controller that has received nothing -/
def Audit.init (n : Nat) (uuid : List UInt8) : Audit where
  buddy := Buddy.init (n + 1) uuid
  ledger :=
    { signals := [], homes := [], recorded := [], overwritten := []
      far := ⟨[], { inbox := [], outbox := [], buf := .ofInfo .zero, reading := false, received := [] }⟩ }

/-- A flush clears no slot without an acknowledgement exactly when the results of its calls do not mislead it; and in a
run of such flushes each record has been overwritten, waits in the ring, or was received. -/
theorem flush_audit {ω : Type*} (o : Outside ω) (cfg : BuddyConfig) (b : Buddy) (w : ω) (n : Nat) (uuid : List UInt8)
    (es : List Happening) :
    ((b.buddyFlushRingbuffer o cfg w).Sound ↔ b.FlushesTruly o cfg w) ∧
      (Machine.Guarded (Audit.step cfg) (Audit.NotMisled cfg) (Audit.init n uuid) es →
        Machine.Always (Audit.step cfg) (fun a => Audit.Accounted a.buddy a.ledger) (Audit.init n uuid) es) := by
  refine ⟨Buddy.sound_iff_flushesTruly o cfg b w, fun hok => ?_⟩
  have hinit : Audit.Kept (Audit.init n uuid).buddy (Audit.init n uuid).ledger :=
    ⟨List.cons_ne_nil _ _, fun r => Nat.zero_le _⟩
  exact Machine.always_of_guarded (fun a (h : Audit.Kept a.buddy a.ledger) => h.accounted)
    (fun a e a' h hG hs => h.step hG hs) hinit hok

/-- A start is recorded, and a controller takes its record. -/
theorem flush_audit_start :
    Machine.Always (Audit.step exampleConfig) (fun a => Audit.Accounted a.buddy a.ledger) (Audit.init 1 [])
      [.start 7, .other fun b => { b with ctrlfd := 5 },
        .flush [] [] [⟨.ready, .taken 208, [.call, .round ⟨.ready, .ready, 4, false⟩], .ready, none⟩]] := by
  refine (flush_audit scripted exampleConfig (.init 1 []) [] 1 [] _).2 ?_
  refine ⟨trivial, fun a ha => ⟨trivial, fun a' ha' => ⟨?_, fun _ _ => trivial⟩⟩⟩
  rw [← Option.some.inj ha', ← Option.some.inj ha]
  exact (Buddy.sound_iff_flushesTruly _ _ _ _).mp (show Flushed.Sound _ by decide)

/-- After one genuine exchange the calls for the second record time out, and its slot is cleared all the same. -/
theorem flush_not_sound :
    ¬ (({ ((Buddy.init 2 []).recordStart 7).recordStart 8 with ctrlfd := 5 }).buddyFlushRingbuffer scripted exampleConfig
      [⟨.ready, .taken 208, .ready, .data ackBytes⟩, ⟨.timeout, .fail .other, .timeout, .fail .other⟩]).Sound := by
  decide

end Upkeeper
