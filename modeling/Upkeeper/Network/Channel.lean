import Upkeeper.Network.Fragment
import Upkeeper.Network.Write
/-!
# A connection as a queue of messages

What `upk_write_packets` writes at one end of a connection is in flight until `upk_read_packets` reads it at the other
end. All that lies between the two ends is bytes; `Link` says which packets they are: those that have been queued and
not been delivered. `upk_queue_packet` puts a packet behind them, a `write`, and a `read` inside a packet, leave them
as they are, and the `read` that completes a packet takes it from the front (`Link.queue`, `Link.write`, `Link.read`).
So the two ends may take turns as they like: the messages are delivered in the order in which they were queued, and
none is lost, doubled or made up (`channel_conveys`).
-/

namespace Upkeeper

variable {κ σ κ' σ' : Type}

/-! ### What the calls leave alone -/

/-- The side of a connection that reads is as it was. -/
structure Unread (net net' : Net κ σ) : Prop where
  readbuf : net'.readbuf = net.readbuf
  nHdrBytesRead : net'.nHdrBytesRead = net.nHdrBytesRead
  nRemainingRead : net'.nRemainingRead = net.nRemainingRead
  calls : net'.calls = net.calls

/-- The side of a connection that writes is as it was. -/
structure Unwritten (net net' : Net κ σ) : Prop where
  writeq : net'.writeq = net.writeq
  sent : net'.sent = net.sent

variable {cb : Callbacks κ σ} {net net' net₁ : Net κ σ} {pkt : Packet} {payload : Payload} {k : Option κ}
  {r : WriteResult} {rs rs' : List ReadResult} {io : List (List UInt8)} {n : Nat} {t : List UInt8}

theorem Unread.refl (net : Net κ σ) : Unread net net := ⟨rfl, rfl, rfl, rfl⟩

theorem Unwritten.refl (net : Net κ σ) : Unwritten net net := ⟨rfl, rfl⟩

theorem Unwritten.trans (h : Unwritten net net₁) (h' : Unwritten net₁ net') : Unwritten net net' :=
  ⟨h'.writeq.trans h.writeq, h'.sent.trans h.sent⟩

theorem Holds.congr (h : Holds net n t) (hr : Unread net net') : Holds net' n t := by
  obtain ⟨hbuf, hheader, hbody⟩ := h
  rw [← hr.readbuf] at hbuf
  rw [← hr.nHdrBytesRead, ← hr.nRemainingRead] at hheader hbody
  exact ⟨hbuf, hheader, hbody⟩

theorem queuePacket_frame (h : upkQueuePacket pkt k net = .ok net') :
    net' = { net with pendingWriteq := net.pendingWriteq + 1, writeq := net'.writeq } := by
  obtain ⟨q₁, -, h⟩ := Wire.bind_eq_ok.mp h
  obtain ⟨q₂, -, h⟩ := Wire.bind_eq_ok.mp h
  obtain ⟨⟨pkt', bufp⟩, -, h⟩ := Wire.bind_eq_ok.mp h
  obtain ⟨m, -, h⟩ := Wire.bind_eq_ok.mp h
  obtain ⟨m', -, h⟩ := Wire.bind_eq_ok.mp h
  obtain ⟨q₃, -, h⟩ := Wire.bind_eq_ok.mp h
  obtain rfl := Except.ok.inj h
  rfl

/-- The message at the cursor of the queue -/
def Net.current (net : Net κ σ) : Option (NetMsg κ) := net.writeq.thisp >>= net.writeq.val?

/-- Its callback, if there is a message there -/
abbrev Net.callback (net : Net κ σ) : Option (Option κ) := net.current.map NetMsg.afterWriteCallback

theorem sysWrite_taken {m : NetMsg κ} {off len : Nat} {nWrite : UInt64}
    (h : sysWrite m off len (.taken n) net = .ok (net', nWrite)) :
    n ≤ upkMaxPacketSize ∧ net' = { net with sent := net.sent ++ (m.msg.bytes.drop off).take n } ∧
      nWrite = .ofNat n := by
  unfold sysWrite at h
  dsimp only at h
  split at h
  · cases h
  · split at h
    · cases h
    · obtain ⟨rfl, rfl⟩ := Prod.mk.inj (Except.ok.inj h)
      exact ⟨by omega, rfl, rfl⟩

theorem not_ofNat_lt_one (hpos : 0 < n) (hn : n ≤ upkMaxPacketSize) : ¬UInt64.ofNat n < 1 := by
  have hmax : upkMaxPacketSize = 65536 := rfl
  rw [UInt64.lt_iff_toNat_lt, UInt64.toNat_ofNat', UInt64.toNat_one]
  omega

/-- What a `write` does to the rest of a connection: nothing, or it completes a message, which leaves the queue, and the
callback of the message is called. -/
structure Wrote (cb : Callbacks κ σ) (net net' : Net κ σ) : Prop where
  unread : Unread net net'
  app : net'.app = net.app ∧ net'.callback = net.callback ∨
    ∃ m, net.current = some m ∧ net'.app = (m.callAfterWrite cb net).app ∧
      ∀ a m, One net.writeq a m → net'.writeq.Inv []

theorem writePackets_frame (hpos : 0 < n) (h : upkWritePackets cb (.taken n) net = .ok net') : Wrote cb net net' := by
  have hidle : (.ok net : Except Halt (Net κ σ)) = .ok net' → Wrote cb net net' := by
    intro heq
    obtain rfl := Except.ok.inj heq
    exact ⟨⟨rfl, rfl, rfl, rfl⟩, Or.inl ⟨rfl, rfl⟩⟩
  unfold upkWritePackets at h
  by_cases hclosed : net.Closed
  · rw [if_pos hclosed] at h
    exact hidle h
  rw [if_neg hclosed] at h
  by_cases hcount : net.writeq.count < 1
  · rw [if_pos hcount] at h
    exact hidle h
  rw [if_neg hcount] at h
  cases hthis : net.writeq.thisp with
  | none =>
    rw [hthis] at h
    exact hidle h
  | some a =>
    rw [hthis] at h
    dsimp only at h
    cases hval : net.writeq.val? a with
    | none =>
      rw [hval] at h
      cases h
    | some m =>
      rw [hval] at h
      dsimp only at h
      have hcurrent : net.current = some m := by
        unfold Net.current
        rw [hthis]
        exact hval
      by_cases hleft : 0 < m.msgLen - m.nBytesWritten
      · rw [if_pos hleft] at h
        obtain ⟨⟨net₁, nWrite⟩, hwrite, h⟩ := Wire.bind_eq_ok.mp h
        obtain ⟨hn, rfl, rfl⟩ := sysWrite_taken hwrite
        dsimp only at h
        rw [if_neg fun hlt => not_ofNat_lt_one hpos hn hlt.1] at h
        obtain ⟨q, hq, h⟩ := Wire.bind_eq_ok.mp h
        replace hq := orNull_eq_ok (Wire.mapError_eq_ok hq)
        split at h
        · obtain ⟨q', hq', rfl⟩ := doneWriting_eq_ok.mp (Wire.mapError_eq_ok h)
          have hempty : ∀ b m, One net.writeq b m → q'.Inv [] := by
            intro b m' hone
            obtain rfl : a = b := Option.some.inj (hthis.symm.trans hone.thisp)
            obtain ⟨q₁, hq₁, hone₁⟩ := hone.modify fun _ => { m with nBytesWritten := m.nBytesWritten + .ofNat n }
            obtain rfl : q₁ = q := Option.some.inj (hq₁.symm.trans hq)
            obtain ⟨q₂, hq₂, hinv⟩ := hone₁.unlink
            obtain rfl : q₂ = q' := Option.some.inj (hq₂.symm.trans hq')
            exact hinv
          unfold NetMsg.callAfterWrite
          cases hk : m.afterWriteCallback <;>
            exact ⟨⟨rfl, rfl, rfl, rfl⟩, Or.inr ⟨m, hcurrent, by rw [NetMsg.callAfterWrite, hk]; rfl, hempty⟩⟩
        · obtain rfl := Except.ok.inj h
          refine ⟨⟨rfl, rfl, rfl, rfl⟩, Or.inl ⟨rfl, ?_⟩⟩
          obtain ⟨q', hq', hmod, -⟩ := UpkList.exists_modifyVal hval
            fun _ => { m with nBytesWritten := m.nBytesWritten + .ofNat n }
          obtain rfl : q' = q := Option.some.inj (hq'.symm.trans hq)
          rw [Net.callback, Net.callback, hcurrent]
          unfold Net.current
          rw [hmod.thisp, hthis, Option.bind_eq_bind, Option.bind_some, hmod.val, hval]
          rfl
      · rw [if_neg hleft] at h
        exact hidle h

/-- A stage of `upk_read_packets` does not touch the queue. -/
def ReadsOnly (f : Net κ σ → ReadM (Net κ σ)) : Prop :=
  ∀ ⦃net rs net' rs'⦄, f net rs = .ok (net', rs') → Unwritten net net'

theorem ReadsOnly.ifOpen {f : Net κ σ → ReadM (Net κ σ)} (hf : ReadsOnly f) : ReadsOnly (Upkeeper.ifOpen f) := by
  intro net rs net' rs' h
  by_cases hopen : net.Closed
  · rw [ifOpen_closed hopen] at h
    obtain ⟨rfl, -⟩ := Prod.mk.inj (Except.ok.inj h)
    exact .refl net
  · rw [ifOpen_open hopen] at h
    exact hf h

theorem ReadsOnly.bind {f g : Net κ σ → ReadM (Net κ σ)} (hf : ReadsOnly f) (hg : ReadsOnly g) :
    ReadsOnly fun net => f net >>= g := by
  intro net rs net' rs' h
  obtain ⟨⟨net₁, rs₁⟩, h₁, h₂⟩ := Wire.bind_eq_ok.mp h
  exact (hf h₁).trans (hg h₂)

theorem sysRead_unwritten {off len : Nat} {nRead : UInt64} (h : sysRead off len net rs = .ok ((net', nRead), rs')) :
    Unwritten net net' := by
  unfold sysRead at h
  split at h
  · split at h
    · cases h
    · split at h
      · obtain ⟨hnet, -⟩ := Prod.mk.inj (Except.ok.inj h)
        obtain ⟨rfl, -⟩ := Prod.mk.inj hnet
        exact ⟨rfl, rfl⟩
      · cases h
  · obtain ⟨hnet, -⟩ := Prod.mk.inj (Except.ok.inj h)
    obtain ⟨rfl, -⟩ := Prod.mk.inj hnet
    exact ⟨rfl, rfl⟩
  · cases h

theorem readsOnly_readHeader : ReadsOnly (readHeader : Net κ σ → ReadM (Net κ σ)) := by
  intro net rs net' rs' h
  unfold readHeader at h
  split at h
  · obtain ⟨⟨⟨net₁, nRead⟩, rs₁⟩, h₁, h⟩ := Wire.bind_eq_ok.mp h
    have hread : Unwritten net net₁ := ⟨(sysRead_unwritten h₁).writeq, (sysRead_unwritten h₁).sent⟩
    dsimp only at h
    split at h
    · obtain ⟨rfl, -⟩ := Prod.mk.inj (Except.ok.inj h)
      exact hread.trans ⟨rfl, rfl⟩
    · obtain ⟨rfl, -⟩ := Prod.mk.inj (Except.ok.inj h)
      exact hread.trans ⟨rfl, rfl⟩
  · obtain ⟨rfl, -⟩ := Prod.mk.inj (Except.ok.inj h)
    exact .refl _

theorem readsOnly_verifyHeader : ReadsOnly (verifyHeader : Net κ σ → ReadM (Net κ σ)) := by
  intro net rs net' rs' h
  unfold verifyHeader at h
  dsimp only at h
  split at h
  · split at h
    · obtain ⟨rfl, -⟩ := Prod.mk.inj (Except.ok.inj h)
      exact ⟨rfl, rfl⟩
    · split at h
      · obtain ⟨rfl, -⟩ := Prod.mk.inj (Except.ok.inj h)
        exact ⟨rfl, rfl⟩
      · obtain ⟨rfl, -⟩ := Prod.mk.inj (Except.ok.inj h)
        exact ⟨rfl, rfl⟩
  · obtain ⟨rfl, -⟩ := Prod.mk.inj (Except.ok.inj h)
    exact .refl _

theorem callReceivedPacketCallbacks_unwritten (h : upkCallReceivedPacketCallbacks cb pkt net = .ok net') :
    Unwritten net net' := by
  unfold upkCallReceivedPacketCallbacks at h
  split at h
  · obtain ⟨k, -, h⟩ := Wire.bind_eq_ok.mp h
    cases k with
    | none =>
      obtain rfl := Except.ok.inj h
      exact ⟨rfl, rfl⟩
    | some k =>
      obtain rfl := Except.ok.inj h
      exact ⟨rfl, rfl⟩
  · cases h

theorem ReadM.lift_bind_eq_ok {α β : Type} {x : Except Wire.Fault α} {f : α → ReadM β} {b : β}
    (h : (Halt.lift x >>= f) rs = .ok (b, rs')) : ∃ a, x = .ok a ∧ f a rs = .ok (b, rs') := by
  cases x with
  | error e =>
    rw [ReadM.lift_error rfl] at h
    cases h
  | ok a => exact ⟨a, rfl, h⟩

theorem readsOnly_readBody (cb : Callbacks κ σ) : ReadsOnly (readBody cb) := by
  intro net rs net' rs' h
  unfold readBody at h
  split at h
  · obtain ⟨⟨⟨net₁, nRead⟩, rs₁⟩, h₁, h⟩ := Wire.bind_eq_ok.mp h
    have hread := sysRead_unwritten h₁
    dsimp only at h
    split at h
    · obtain ⟨rfl, -⟩ := Prod.mk.inj (Except.ok.inj h)
      exact hread.trans ⟨rfl, rfl⟩
    split at h
    · obtain ⟨d, -, h⟩ := ReadM.lift_bind_eq_ok h
      cases d with
      | freed => cases h
      | packet pkt =>
        obtain ⟨net₂, h₂, h⟩ := ReadM.lift_bind_eq_ok h
        obtain ⟨rfl, -⟩ := Prod.mk.inj (Except.ok.inj h)
        have hcall := callReceivedPacketCallbacks_unwritten h₂
        exact hread.trans ⟨hcall.writeq, hcall.sent⟩
    · obtain ⟨rfl, -⟩ := Prod.mk.inj (Except.ok.inj h)
      exact hread.trans ⟨rfl, rfl⟩
  · obtain ⟨rfl, -⟩ := Prod.mk.inj (Except.ok.inj h)
    exact .refl _

theorem readStep_unwritten (h : readStep cb net io = some net') : Unwritten net net' := by
  unfold readStep at h
  split at h
  · rename_i net₁ rs₁ hread
    split at h
    · obtain rfl := Option.some.inj h
      exact (readsOnly_readHeader.ifOpen.bind (readsOnly_verifyHeader.ifOpen.bind (readsOnly_readBody cb).ifOpen)) hread
    · cases h
  · cases h

/-! ### What waits to be written -/

/-- The bytes `unsent` have been queued and not been written. -/
def Unsent (snd : Net κ σ) (unsent : List UInt8) : Prop := Outbox snd (snd.sent ++ unsent)

variable {snd snd' : Net κ σ} {unsent : List UInt8}

theorem Unsent.congr (h : Unsent snd unsent) (hw : Unwritten snd snd') (hopen : snd'.Closed → snd.Closed) :
    Unsent snd' unsent := by
  unfold Unsent
  rw [hw.sent]
  rcases h with ⟨hinv, hsent⟩ | ⟨a, m, pre, bs, hs, hall⟩
  · exact Or.inl ⟨hw.writeq ▸ hinv, hw.sent.trans hsent⟩
  · exact Or.inr ⟨a, m, pre, bs, ⟨hw.writeq ▸ hs.one, fun hc => hs.opened (hopen hc), hs.msg, hs.msgLen, hs.fits,
      hs.unsent, hw.sent.trans hs.sent⟩, hall⟩

theorem Unsent.eq_nil_iff (h : Unsent snd unsent) : unsent = [] ↔ snd.writeq.count = 0 := by
  rcases h with ⟨hinv, hsent⟩ | ⟨a, m, pre, bs, hs, hall⟩
  · rw [hinv.count_eq_zero]
    exact iff_of_true (List.self_eq_append_right.mp hsent) rfl
  · rw [hs.one.inv.count_eq_zero]
    refine iff_of_false ?_ (List.cons_ne_nil a [])
    rintro rfl
    -- the message is longer than what has been written of it
    have hlen := congrArg List.length hall
    have hlt := hs.unsent
    rw [List.append_nil, hs.sent, List.length_append, List.length_append, List.length_take] at hlen
    omega

theorem Unsent.idle (h : Unsent snd unsent) (hcount : snd.writeq.count = 0) : snd.writeq.Inv [] := by
  rcases h with ⟨hinv, -⟩ | ⟨a, m, pre, bs, hs, -⟩
  · exact hinv
  · exact absurd (hs.one.inv.count_eq_zero.mp hcount) (List.cons_ne_nil a [])

theorem NetMsg.fill_afterWriteCallback {m m' : NetMsg κ} {buf : List UInt8} {len : Nat} (h : m.fill buf len = .ok m') :
    m'.afterWriteCallback = m.afterWriteCallback := by
  unfold NetMsg.fill at h
  split at h
  · cases h
  · split at h
    · obtain rfl := Except.ok.inj h
      rfl
    · cases h

theorem One.current {a : Addr} {m : NetMsg κ} (h : One net.writeq a m) : net.current = some m := by
  unfold Net.current
  rw [h.thisp]
  exact h.val

theorem queuePacket_callback (hinv : net.writeq.Inv []) (h : upkQueuePacket pkt k net = .ok net') :
    net'.callback = some k := by
  obtain ⟨q₁, a, hq₁, hone₁⟩ := One.append hinv
  obtain ⟨q₂, hq₂, hone₂⟩ := hone₁.modify fun m => { m with afterWriteCallback := k, msgLen := pkt.msgLen }
  unfold upkQueuePacket at h
  rw [orNull_bind hq₁] at h
  dsimp only at h
  rw [hone₁.thisp, orNull_bind hq₂] at h
  obtain ⟨⟨pkt', bufp⟩, -, h⟩ := Wire.bind_eq_ok.mp h
  dsimp only at h
  rw [Option.bind_eq_bind, Option.bind_some, orNull_bind hone₂.val] at h
  obtain ⟨m, hfill, h⟩ := Wire.bind_eq_ok.mp h
  obtain ⟨q₃, hq₃, h⟩ := Wire.bind_eq_ok.mp h
  obtain ⟨q, hq, hone₃⟩ := hone₂.modify fun _ => m
  obtain rfl : q = q₃ := Option.some.inj (hq.symm.trans (orNull_eq_ok hq₃))
  obtain rfl := Except.ok.inj h
  rw [Net.callback, hone₃.current]
  exact congrArg some (NetMsg.fill_afterWriteCallback hfill)

theorem Unsent.queue (h : Unsent snd unsent) (hpkt : pkt.Sendable) (hopen : ¬snd.Closed) (hcount : snd.writeq.count = 0)
    (k : Option κ) : ∃ snd', upkQueuePacket pkt k snd = .ok snd' ∧ snd'.sent = snd.sent ∧ Unsent snd' pkt.serialized ∧
      snd'.callback = some k := by
  obtain ⟨snd', a, m, hrun, hs⟩ := queuePacket_eq (h.idle hcount) hopen hpkt k
  have hframe := queuePacket_frame hrun
  have hsent : snd'.sent = snd.sent := by rw [hframe]
  exact ⟨snd', hrun, hsent, Or.inr ⟨a, m, snd.sent, pkt.serialized, hs, by rw [hsent]⟩,
    queuePacket_callback (h.idle hcount) hrun⟩

theorem Unsent.write (h : Unsent snd unsent) (hoff : Offered cb snd (.write r)) :
    ∃ snd' bs rest, upkWritePackets cb r snd = .ok snd' ∧ snd'.sent = snd.sent ++ bs ∧ unsent = bs ++ rest ∧
      Unsent snd' rest := by
  obtain ⟨n, rfl, hpos, hres⟩ := hoff
  rcases h with ⟨hinv, hsent⟩ | ⟨a, m, pre, bs, hs, hall⟩
  · obtain rfl := List.self_eq_append_right.mp hsent
    exact ⟨snd, [], [], writePackets_idle hinv, (List.append_nil _).symm, rfl, Or.inl ⟨hinv, hsent⟩⟩
  · have hn : m.nBytesWritten.toNat + n ≤ bs.length := by
      by_contra hlt
      exact hres (hs.noResult (by omega))
    obtain ⟨snd', hrun, hsent', hout⟩ := hs.write cb hpos hn
    have hbs : unsent = bs.drop m.nBytesWritten.toNat := by
      rw [hs.sent, List.append_assoc] at hall
      have hsplit := (List.append_cancel_left hall).trans (List.take_append_drop m.nBytesWritten.toNat bs).symm
      exact List.append_cancel_left hsplit
    refine ⟨snd', (bs.drop m.nBytesWritten.toNat).take n, bs.drop (m.nBytesWritten.toNat + n), hrun, ?_, ?_, ?_⟩
    · rw [hsent', hs.sent, List.append_assoc, ← List.take_add]
    · rw [hbs, ← List.drop_drop, List.take_append_drop]
    · unfold Unsent
      rw [hsent', List.append_assoc, List.take_append_drop]
      exact hout

/-! ### Packets under way -/

/-- The packets `ps` have been queued at the one end and not been delivered at the other. Of their bytes the first,
`part`, have been read, the next, `wire`, are in flight, and the last, `unsent`, wait to be written. -/
structure Underway (snd : Net κ σ) (wire : List UInt8) (rcv : Net κ' σ') (ps : List WirePacket)
    (part unsent : List UInt8) : Prop where
  queued : Unsent snd unsent
  read : Holds rcv (nextLength ps) part
  bytes : part ++ (wire ++ unsent) = stream ps
  short : ∀ p ∈ ps.head?, part.length < p.bytes.length

/-- The packets `ps` are under way. -/
def Link (snd : Net κ σ) (wire : List UInt8) (rcv : Net κ' σ') (ps : List WirePacket) : Prop :=
  ∃ part unsent, Underway snd wire rcv ps part unsent

variable {cb' : Callbacks κ' σ'} {wire : List UInt8} {rcv rcv' : Net κ' σ'} {ps : List WirePacket}

theorem Link.congr (h : Link snd wire rcv ps) (hw : Unwritten snd snd') (hopen : snd'.Closed → snd.Closed)
    (hr : Unread rcv rcv') : Link snd' wire rcv' ps := by
  obtain ⟨part, unsent, hu, hp, hbytes, hshort⟩ := h
  exact ⟨part, unsent, hu.congr hw hopen, hp.congr hr, hbytes, hshort⟩

theorem Link.eq_nil (h : Link snd wire rcv ps) (hcount : snd.writeq.count = 0) (hwire : wire = []) : ps = [] := by
  obtain ⟨part, unsent, hu, -, hbytes, hshort⟩ := h
  obtain rfl := hu.eq_nil_iff.mpr hcount
  subst hwire
  cases ps with
  | nil => rfl
  | cons p ps =>
    -- the first packet has been read, but then it would have been delivered
    have hlt := hshort p rfl
    have hlen := congrArg List.length hbytes
    rw [List.append_nil, List.append_nil, stream_cons, List.length_append] at hlen
    omega

theorem Link.idle (h : Link snd wire rcv []) : snd.writeq.count = 0 ∧ wire = [] := by
  obtain ⟨part, unsent, hu, -, hbytes, -⟩ := h
  obtain ⟨-, hrest⟩ := List.append_eq_nil_iff.mp hbytes
  obtain ⟨hwire, hunsent⟩ := List.append_eq_nil_iff.mp hrest
  exact ⟨hu.eq_nil_iff.mp hunsent, hwire⟩

theorem Link.congr_idle (h : Link snd wire rcv []) (hw : Unwritten snd snd') : Link snd' wire rcv [] := by
  obtain ⟨hcount, hwire⟩ := h.idle
  obtain ⟨part, unsent, hu, hread, hbytes, hshort⟩ := h
  obtain rfl := hu.eq_nil_iff.mpr hcount
  exact ⟨part, [], Or.inl ⟨hw.writeq ▸ hu.idle hcount, (List.append_nil _).symm⟩, hread, hbytes, hshort⟩

theorem Created.carried (h : Created pkt payload) :
    pkt.Sendable ∧ ∃ p : WirePacket, p.bytes = pkt.serialized ∧ p.payload = payload.canon := by
  obtain ⟨hsend, hserial⟩ := h.sendable
  obtain ⟨p, hframe, hpayload⟩ := h.onWire
  exact ⟨hsend, p, hframe.trans hserial.symm, hpayload⟩

/-- Between two packets, and when nothing waits to be written, the packets that are under way are in flight. -/
theorem Link.in_flight (h : Link snd wire rcv ps) (hcount : snd.writeq.count = 0)
    (hread : rcv.nRemainingRead = 0 ∧ rcv.nHdrBytesRead = 0) : wire = stream ps ∧ Holds rcv 0 [] := by
  obtain ⟨part, unsent, hu, hp, hbytes, hshort⟩ := h
  obtain rfl := hu.eq_nil_iff.mpr hcount
  have hpart : part = [] := by
    rcases Nat.lt_or_ge part.length 16 with hlt | hge
    · have hlen := (hp.header hlt).2
      rw [hread.2] at hlen
      exact List.length_eq_zero_iff.mp hlen.symm
    · have hlen := (hp.body hge).2
      rw [hread.1, UInt64.toNat_zero] at hlen
      cases ps with
      | nil =>
        have : nextLength [] = 0 := rfl
        omega
      | cons p ps =>
        have hlt := hshort p rfl
        have : nextLength (p :: ps) = p.bytes.length := rfl
        omega
  subst hpart
  rw [List.nil_append, List.append_nil] at hbytes
  exact ⟨hbytes, hp.nil⟩

/-- **A packet that is queued goes behind the others.** -/
theorem Link.queue {p : WirePacket} (h : Link snd wire rcv ps) (hsend : pkt.Sendable) (hp : p.bytes = pkt.serialized)
    (hready : Ready snd (.queue pkt k)) :
    ∃ snd', upkQueuePacket pkt k snd = .ok snd' ∧ Link snd' wire rcv (ps ++ [p]) ∧
      snd'.callback = some k := by
  obtain ⟨hopen, hcount⟩ := hready
  obtain ⟨part, unsent, hu, hread, hbytes, hshort⟩ := h
  obtain ⟨snd', hrun, -, hu', hcallback⟩ := hu.queue hsend hopen hcount k
  obtain rfl := hu.eq_nil_iff.mpr hcount
  rw [List.append_nil] at hbytes
  refine ⟨snd', hrun, ⟨part, p.bytes, by rwa [hp], ?_, ?_, ?_⟩, hcallback⟩
  · cases ps with
    | nil =>
      obtain ⟨rfl, -⟩ := List.append_eq_nil_iff.mp hbytes
      exact hread.nil
    | cons q ps => exact hread
  · rw [stream_append, ← hbytes, List.append_assoc]
    simp [stream]
  · cases ps with
    | nil =>
      obtain ⟨rfl, -⟩ := List.append_eq_nil_iff.mp hbytes
      exact fun q _ => bytes_pos
    | cons q ps => exact hshort

/-- **A `write` changes nothing about the packets that are under way.** -/
theorem Link.write (h : Link snd wire rcv ps) (hoff : Offered cb snd (.write r)) :
    ∃ snd' bs, upkWritePackets cb r snd = .ok snd' ∧ snd'.sent = snd.sent ++ bs ∧ Link snd' (wire ++ bs) rcv ps := by
  obtain ⟨part, unsent, hu, hp, hbytes, hshort⟩ := h
  obtain ⟨snd', bs, rest, hrun, hsent, rfl, hu'⟩ := hu.write hoff
  exact ⟨snd', bs, hrun, hsent, part, rest, hu', hp, by rwa [List.append_assoc], hshort⟩

theorem Unsent.wrote (h : Unsent snd unsent) (hoff : Offered cb snd (.write r))
    (hrun : upkWritePackets cb r snd = .ok snd') :
    Unread snd snd' ∧ (snd'.app = snd.app ∧ snd'.callback = snd.callback ∨
      ∃ m, snd.current = some m ∧ snd'.app = (m.callAfterWrite cb snd).app ∧ snd'.writeq.count = 0) := by
  obtain ⟨n, rfl, hpos, -⟩ := hoff
  obtain ⟨hunread, hsame | ⟨m, hm, happ, hempty⟩⟩ := writePackets_frame hpos hrun
  · exact ⟨hunread, Or.inl hsame⟩
  · refine ⟨hunread, Or.inr ⟨m, hm, happ, ?_⟩⟩
    rcases h with ⟨hinv, -⟩ | ⟨a, m', pre, bs, hs, -⟩
    · rw [Net.current, hinv.cursor_nil.2.1] at hm
      cases hm
    · exact (hempty a m' hs.one).count_eq_zero.mpr rfl

theorem Unsent.offered (cb : Callbacks κ σ) (h : Unsent snd unsent) (hcount : snd.writeq.count ≠ 0) :
    ∃ n, Offered cb snd (.write (.taken n)) ∧
      ∀ snd', upkWritePackets cb (.taken n) snd = .ok snd' → snd'.writeq.count = 0 := by
  rcases h with ⟨hinv, -⟩ | ⟨a, m, pre, bs, hs, -⟩
  · exact absurd (hinv.count_eq_zero.mpr rfl) hcount
  · have hlt := hs.unsent
    have hall : m.nBytesWritten.toNat + (bs.length - m.nBytesWritten.toNat) = bs.length := by omega
    obtain ⟨snd', hrun, hsent, hout⟩ := hs.write cb (show 0 < bs.length - m.nBytesWritten.toNat by omega) hall.le
    rw [hall, List.take_length] at hsent
    refine ⟨bs.length - m.nBytesWritten.toNat, ⟨_, rfl, by omega, by rw [hrun]; nofun⟩, fun snd'' hrun' => ?_⟩
    obtain rfl := Except.ok.inj (hrun.symm.trans hrun')
    have hu : Unsent snd' [] := by
      unfold Unsent
      rwa [hsent, List.append_nil]
    exact hu.eq_nil_iff.mp rfl

theorem Unsent.callback_eq_none_iff (h : Unsent snd unsent) : snd.callback = none ↔ snd.writeq.count = 0 := by
  rcases h with ⟨hinv, -⟩ | ⟨a, m, pre, bs, hs, -⟩
  · rw [hinv.count_eq_zero, Net.callback, Net.current, hinv.cursor_nil.2.1]
    exact iff_of_true rfl rfl
  · rw [hs.one.inv.count_eq_zero, Net.callback, hs.one.current]
    exact iff_of_false nofun (List.cons_ne_nil a [])

/-- **A `read` inside a packet changes nothing about the packets that are under way; the one that completes a packet
delivers it.** -/
theorem Link.read (h : Link snd wire rcv ps) (hopen : ¬rcv.Closed) (hfed : Fed cb' (rcv, wire) io)
    (hplace : InPlace rcv io) :
    ∃ rcv', readStep cb' rcv io = some rcv' ∧
      (rcv'.app = rcv.app ∧ Link snd (wire.drop io.flatten.length) rcv' ps ∨
        ∃ p ps', ps = p :: ps' ∧ rcv'.app = deliver cb' rcv.app p ∧
          Link snd (wire.drop io.flatten.length) rcv' ps') := by
  obtain ⟨part, unsent, hu, hp, hbytes, hshort⟩ := h
  obtain ⟨⟨more, hmore⟩, htakes⟩ := hfed
  have hdrop : wire.drop io.flatten.length = more := by
    rw [← show io.flatten ++ more = wire from hmore, List.drop_left]
  rw [hdrop]
  have hall : part ++ io.flatten ++ (more ++ unsent) = stream ps := by
    rw [← hbytes, ← show io.flatten ++ more = wire from hmore]
    simp only [List.append_assoc]
  cases ps with
  | nil =>
    -- an open connection would read, but all has been read
    obtain ⟨hnil, -⟩ := List.append_eq_nil_iff.mp hall
    obtain ⟨rfl, hflat⟩ := List.append_eq_nil_iff.mp hnil
    obtain ⟨c, io', rfl, -⟩ := (htakes.2.resolve_left hopen).head_header hopen hp (by simp)
    have hc := htakes.1 c List.mem_cons_self
    simp [hc] at hflat
  | cons p ps =>
    have hlt := hshort p rfl
    have hpart : part <+: p.bytes :=
      prefix_packet ⟨wire ++ unsent, by rw [hbytes, stream_cons]⟩ hlt.le
    obtain ⟨rcv', hstep, hpre', hprog⟩ := call_progress hopen hp hpart hlt htakes hplace
      (⟨more ++ unsent, by rw [hall, stream_cons]⟩ : _ <+: p.bytes ++ stream ps)
    refine ⟨rcv', hstep, ?_⟩
    unfold Progress at hprog
    by_cases hend : (part ++ io.flatten).length < p.bytes.length
    · rw [if_pos hend] at hprog
      exact Or.inl ⟨hprog.1, part ++ io.flatten, unsent, hu, hprog.2, hall, by simpa using hend⟩
    · rw [if_neg hend] at hprog
      have heq : part ++ io.flatten = p.bytes := hpre'.eq_of_length_le (by omega)
      rw [heq, stream_cons] at hall
      exact Or.inr ⟨p, ps, rfl, hprog.1, [], unsent, hu, hprog.2.nil, List.append_cancel_left hall,
        fun q _ => bytes_pos⟩

/-! ### Runs -/

/-- Two ends of a connection, and what is in flight from the one to the other -/
structure Channel (κ σ κ' σ' : Type) where
  sender : Net κ σ
  wire : List UInt8
  receiver : Net κ' σ'

/-- What happens at the two ends -/
inductive Transfer (κ : Type)
  | queue (pkt : Packet) (afterWriteCallback : Option κ)
  | write (r : WriteResult)
  | read (io : List (List UInt8))

/-- One call at one end. What a `write` takes is in flight, and what a `read` returns is not any more. -/
def Channel.step (cb : Callbacks κ σ) (cb' : Callbacks κ' σ') (c : Channel κ σ κ' σ') :
    Transfer κ → Option (Channel κ σ κ' σ')
  | .queue pkt k => (upkQueuePacket pkt k c.sender).toOption.map fun snd => { c with sender := snd }
  | .write r => (upkWritePackets cb r c.sender).toOption.map fun snd =>
    { c with sender := snd, wire := c.wire ++ snd.sent.drop c.sender.sent.length }
  | .read io => (feedStep cb' (c.receiver, c.wire) io).map fun x => { c with receiver := x.1, wire := x.2 }

/-- A packet comes from a constructor and is queued on an open connection on which nothing waits, a `write` takes
something, and the chunks of a `read` have been sent and are in place; on a closed connection no `read` is made. -/
def Channel.Orderly (cb : Callbacks κ σ) (cb' : Callbacks κ' σ') (c : Channel κ σ κ' σ') : Transfer κ → Prop
  | .queue pkt k => (∃ payload, Created pkt payload) ∧ Ready c.sender (.queue pkt k)
  | .write r => Offered cb c.sender (.write r)
  | .read io => (c.receiver.Closed → io = []) ∧ Fed cb' (c.receiver, c.wire) io ∧ InPlace c.receiver io

/-- The messages that have been queued -/
def messages (_ : Channel κ σ κ' σ') (o : Transfer κ) (t : List Payload) : List Payload :=
  match o with
  | .queue pkt _ => t ++ (pkt.payload.map Payload.canon).toList
  | _ => t

/-- **The messages that have been delivered are the first of those that have been queued, each once and in order, and
all of them when nothing waits or is in flight.** -/
def Conveys (cb' : Callbacks κ' σ') (app : App κ' σ') (c : Channel κ σ κ' σ') (t : List Payload) : Prop :=
  ∃ ps : List WirePacket, c.receiver.app = deliverAll cb' app ps ∧ ps.map WirePacket.payload <+: t ∧
    (c.sender.writeq.count = 0 → c.wire = [] → ps.map WirePacket.payload = t)

/-- The invariant of a run: the other packets are under way. -/
def Conveying (cb' : Callbacks κ' σ') (app : App κ' σ') (c : Channel κ σ κ' σ') (t : List Payload) : Prop :=
  ∃ pre post : List WirePacket, c.receiver.app = deliverAll cb' app pre ∧ (pre ++ post).map WirePacket.payload = t ∧
    Link c.sender c.wire c.receiver post

theorem Conveying.conveys {app : App κ' σ'} {c : Channel κ σ κ' σ'} {t : List Payload} (h : Conveying cb' app c t) :
    Conveys cb' app c t := by
  obtain ⟨pre, post, happ, rfl, hlink⟩ := h
  rw [List.map_append]
  refine ⟨pre, happ, List.prefix_append _ _, fun hcount hwire => ?_⟩
  obtain rfl := hlink.eq_nil hcount hwire
  rw [List.map_nil, List.append_nil]

/-- **What one call does to a run.** -/
theorem Conveying.step {app : App κ' σ'} {c : Channel κ σ κ' σ'} {t : List Payload} {o : Transfer κ}
    (h : Conveying cb' app c t) (ho : c.Orderly cb cb' o) :
    ∃ c', c.step cb cb' o = some c' ∧ Conveying cb' app c' (messages c o t) := by
  obtain ⟨pre, post, happ, rfl, hlink⟩ := h
  cases o with
  | queue pkt k =>
    obtain ⟨⟨payload, hpkt⟩, hready⟩ := ho
    obtain ⟨hsend, p, hp, hpayload⟩ := hpkt.carried
    obtain ⟨snd', hrun, hlink', -⟩ := hlink.queue hsend hp hready
    refine ⟨{ c with sender := snd' }, by rw [Channel.step, hrun]; rfl, pre, post ++ [p], happ, ?_, hlink'⟩
    rw [messages, hpkt.eq, ← List.append_assoc, @List.map_append _ _ _ _ [p], List.map_singleton, hpayload]
    rfl
  | write r =>
    obtain ⟨snd', bs, hrun, hsent, hlink'⟩ := hlink.write ho
    refine ⟨{ c with sender := snd', wire := c.wire ++ bs }, ?_, pre, post, happ, rfl, hlink'⟩
    rw [Channel.step, hrun]
    show some { c with sender := snd', wire := c.wire ++ snd'.sent.drop c.sender.sent.length } = _
    rw [hsent, List.drop_left]
  | read io =>
    obtain ⟨hnone, hfed, hplace⟩ := ho
    by_cases hopen : c.receiver.Closed
    · obtain rfl := hnone hopen
      refine ⟨c, ?_, pre, post, happ, rfl, hlink⟩
      rw [Channel.step, feedStep, if_pos hfed.1, readStep_closed hopen]
      rfl
    · obtain ⟨rcv', hrun, hout⟩ := hlink.read hopen hfed hplace
      refine ⟨{ c with receiver := rcv', wire := c.wire.drop io.flatten.length }, ?_, ?_⟩
      · rw [Channel.step, feedStep, if_pos hfed.1, hrun]
        rfl
      rcases hout with ⟨happ', hlink'⟩ | ⟨p, post, rfl, happ', hlink'⟩
      · exact ⟨pre, post, happ'.trans happ, rfl, hlink'⟩
      · refine ⟨pre ++ [p], post, ?_, by rw [List.append_assoc]; rfl, hlink'⟩
        rw [deliverAll, List.foldl_append]
        exact happ'.trans (congrArg (deliver cb' · p) happ)

/-- **A connection is a queue of messages.** In whatever order the two ends queue, write and read, what is delivered at
the one end is at every point the first of the messages that were queued at the other, each once and in order, and all
of them when nothing waits or is in flight. -/
theorem channel_conveys (cb : Callbacks κ σ) (cb' : Callbacks κ' σ') (c : Channel κ σ κ' σ') (os : List (Transfer κ))
    (hsender : c.sender.writeq = .init) (hwire : c.wire = [])
    (hreceiver : c.receiver.nRemainingRead = 0 ∧ c.receiver.nHdrBytesRead = 0)
    (horderly : Machine.Guarded (Channel.step cb cb') (Channel.Orderly cb cb') c os) :
    Machine.Tracks (Channel.step cb cb') messages (Conveys cb' c.receiver.app) c [] os := by
  have hidle : Holds c.receiver 0 [] :=
    ⟨rfl, fun _ => ⟨hreceiver.1, by rw [hreceiver.2]; rfl⟩, fun hle => absurd hle (by simp)⟩
  have hunsent : Unsent c.sender [] := Or.inl ⟨hsender ▸ UpkList.init_inv, (List.append_nil _).symm⟩
  have hstart : Conveying cb' c.receiver.app c [] :=
    ⟨[], [], rfl, rfl, [], [], hunsent, hidle, by rw [hwire]; rfl, by simp⟩
  refine (Machine.tracks_of_guarded (fun c t o h ho => h.step ho) hstart horderly).mono ?_
  exact fun c t h => h.conveys

/-- A connection on which nothing has happened -/
def newChannel : Channel Unit Unit Unit Unit := ⟨.new 5 [] (), [], newNet⟩

/-- A listing request is written in two pieces and read as it was sent. -/
def oneTransfer : List (Transfer Unit) :=
  [.queue reqList none, .write (.taken 10), .write (.taken 14), .read reqListPacket.unsplit]

theorem reqList_created : Created reqList (.reqList ⟨upkReqList⟩) := ⟨rfl, rfl, trivial, by decide⟩

theorem channel_conveys_oneTransfer :
    Machine.Tracks (Channel.step ignore ignore) messages (Conveys ignore newChannel.receiver.app) newChannel []
      oneTransfer := by
  refine channel_conveys ignore ignore newChannel oneTransfer rfl rfl ⟨rfl, rfl⟩ ?_
  have hidle : Holds newNet 0 [] := ⟨rfl, fun _ => ⟨rfl, rfl⟩, fun hle => absurd hle (by simp)⟩
  obtain ⟨htakes, hplace, -⟩ := readStep_unsplit ignore reqListPacket (Or.inr hidle)
  refine ⟨⟨⟨_, reqList_created⟩, by decide, rfl⟩, fun s₁ h₁ => ?_⟩
  obtain rfl := Option.some.inj h₁
  refine ⟨⟨10, rfl, by decide, nofun⟩, fun s₂ h₂ => ?_⟩
  obtain rfl := Option.some.inj h₂
  refine ⟨⟨14, rfl, by decide, nofun⟩, fun s₃ h₃ => ?_⟩
  obtain rfl := Option.some.inj h₃
  exact ⟨⟨fun hclosed => absurd hclosed (by decide), ⟨by decide, htakes⟩, hplace⟩, fun _ _ => trivial⟩

end Upkeeper
