import Upkeeper.Library.Machine
import Upkeeper.Network.Types
import Upkeeper.Protocol.RoundTrip
import Upkeeper.UpkList.Ops
/-!
# Writing packets (`upk_queue_packet`, `upk_write_packets`)

`upk_queue_packet` appends a message to the write queue and leaves the cursor of the queue on it; `upk_write_packets`
writes the message at the cursor, and unlinks it when it is complete. So the queue is a queue of one: when a packet is
queued while another one waits, the cursor leaves the old one for good. With an empty queue at every
`upk_queue_packet` (`Ready`) the messages leave in order, whole and once (`outbox_inOrder`).
-/

namespace Upkeeper

open Wire (Fault)

variable {κ σ : Type}

/-! ### The functions -/

/-- `UPK_PACKET_HEADER_LEN + pkt->payload_len + UPK_PACKET_FOOTER_LEN` -/
def Packet.msgLen (pkt : Packet) : UInt64 :=
  (.ofNat upkPacketHeaderLen + pkt.payloadLen + .ofNat upkPacketFooterLen : UInt32).toUInt64

/-- `memcpy(msgp->msg, bufp, len)` -/
def NetMsg.fill (m : NetMsg κ) (buf : List UInt8) (len : Nat) : Except Fault (NetMsg κ) :=
  if buf.length < len then .error .overRead
  else if h : 0 + (buf.take len).length ≤ upkMaxPacketSize then
    .ok { m with msg := m.msg.store 0 (buf.take len) h }
  else .error .overWrite

/-- A pointer that must not be `NULL` or dangling -/
def orNull {α : Type} : Option α → Except Fault α
  | some a => .ok a
  | none => .error .nullDeref

/-- `upk_queue_packet` -/
def upkQueuePacket (pkt : Packet) (afterWriteCallback : Option κ) (net : Net κ σ) : Except Fault (Net κ σ) := do
  let q ← orNull net.writeq.append
  let net := { net with pendingWriteq := net.pendingWriteq + 1 }
  let msgp := q.thisp
  let q ← orNull (q.modifyVal msgp fun m => { m with afterWriteCallback, msgLen := pkt.msgLen })
  let (_, bufp) ← upkSerializePacket pkt
  let m ← orNull (msgp >>= q.val?)
  let m ← m.fill bufp pkt.msgLen.toNat
  let q ← orNull (q.modifyVal msgp fun _ => m)
  return { net with writeq := q }

/-- `write(handle->fd, msgp->msg + off, n)`, and the `size_t` that its result is assigned to -/
def sysWrite (m : NetMsg κ) (off n : Nat) (r : WriteResult) (net : Net κ σ) : Except Halt (Net κ σ × UInt64) :=
  match r with
  | .taken k =>
    if n < k then .error .noResult
    else if upkMaxPacketSize < off + k then .error (.fault .overRead)
    else .ok ({ net with sent := net.sent ++ (m.msg.bytes.drop off).take k }, .ofNat k)
  | .fail e => .ok ({ net with errno := e }, sizeMax)

/-- The message at the cursor has been written: the callback, and the message leaves the queue. -/
def doneWriting (cb : Callbacks κ σ) (m : NetMsg κ) (net : Net κ σ) : Except Fault (Net κ σ) := do
  let net := match m.afterWriteCallback with
    | none => net
    | some k => net.call cb k none
  let q ← orNull net.writeq.unlink
  return { net with writeq := q, pendingWriteq := net.pendingWriteq - 1 }

/-- `upk_write_packets` on the current handle, with the result of its `write`; `n_write < 0` is never true of a
`size_t`. -/
def upkWritePackets (cb : Callbacks κ σ) (r : WriteResult) (net : Net κ σ) : Except Halt (Net κ σ) :=
  if net.Closed then .ok net
  else if net.writeq.count < 1 then .ok net
  else
    match net.writeq.thisp with
    | none => .ok net
    | some msgp =>
      match net.writeq.val? msgp with
      | none => .error (.fault .nullDeref)
      | some m =>
        if 0 < m.msgLen - m.nBytesWritten then do
          let (net, nWrite) ← sysWrite m m.nBytesWritten.toNat (m.msgLen - m.nBytesWritten).toNat r net
          if nWrite < 1 ∧ !net.errno.retry then return net.disconnect
          let m := { m with nBytesWritten := m.nBytesWritten + nWrite }
          let q ← (orNull (net.writeq.modifyVal (some msgp) fun _ => m)).mapError .fault
          let net := { net with writeq := q }
          if m.nBytesWritten = m.msgLen then (doneWriting cb m net).mapError .fault else return net
        else .ok net

/-! ### Runs -/

/-- What happens to a connection that is written to -/
inductive Outgoing (κ : Type)
  | queue (pkt : Packet) (afterWriteCallback : Option κ)
  | write (r : WriteResult)

/-- One call -/
def outgoingStep (cb : Callbacks κ σ) (net : Net κ σ) : Outgoing κ → Option (Net κ σ)
  | .queue pkt k => (upkQueuePacket pkt k net).toOption
  | .write r => (upkWritePackets cb r net).toOption

/-- The packet as it is to be sent -/
def Packet.serialized (pkt : Packet) : List UInt8 :=
  match upkSerializePacket pkt with
  | .ok (_, buf) => buf.take pkt.msgLen.toNat
  | .error _ => []

/-- The packets that have been queued -/
def queued (_ : Net κ σ) (o : Outgoing κ) (t : List UInt8) : List UInt8 :=
  match o with
  | .queue pkt _ => t ++ pkt.serialized
  | .write _ => t

/-- `upk_serialize_packet` makes a packet of it that fits into a message. -/
def Packet.Sendable (pkt : Packet) : Prop :=
  ∃ pkt' buf, upkSerializePacket pkt = .ok (pkt', buf) ∧ pkt.msgLen.toNat ≤ buf.length ∧ 0 < pkt.msgLen.toNat ∧
    pkt.msgLen.toNat ≤ upkMaxPacketSize

theorem Created.msgLen {pkt : Packet} {payload : Payload} (h : Created pkt payload) :
    pkt.msgLen.toNat = 20 + payload.wire.length := by
  have hmax : upkMaxPacketSize = 65536 := rfl
  have hshort := h.short
  unfold Packet.msgLen
  rw [UInt32.toNat_toUInt64, UInt32.toNat_add, UInt32.toNat_add, h.payloadLen, UInt32.toNat_ofNat',
    UInt32.toNat_ofNat', upkPacketHeaderLen, upkPacketFooterLen]
  omega

/-- **What a constructor creates can be sent, and is sent as the packet it is.** -/
theorem Created.sendable {pkt : Packet} {payload : Payload} (h : Created pkt payload) :
    pkt.Sendable ∧ pkt.serialized = frame pkt payload.wire := by
  obtain ⟨hser, -⟩ := h.roundTrip
  have hframe : (frame pkt payload.wire).length = 20 + payload.wire.length := frame_length
  have hmax : upkMaxPacketSize = 65536 := rfl
  have hshort := h.short
  have hlen := h.msgLen
  refine ⟨⟨_, _, hser, ?_, by omega, by omega⟩, ?_⟩
  · rw [List.length_append]
    omega
  · rw [Packet.serialized, hser]
    exact List.take_left' (by omega)

/-- The packets that are queued can be sent, and the socket takes some of what it is offered. -/
def Offered (cb : Callbacks κ σ) (net : Net κ σ) : Outgoing κ → Prop
  | .queue pkt _ => pkt.Sendable
  | .write r => ∃ n, r = .taken n ∧ 0 < n ∧ upkWritePackets cb r net ≠ .error .noResult

/-- A packet is queued on an open connection with an empty queue. -/
def Ready (net : Net κ σ) : Outgoing κ → Prop
  | .queue _ _ => ¬net.Closed ∧ net.writeq.count = 0
  | .write _ => True

/-- No call of `upk_write_packets` does anything. -/
def Quiet (cb : Callbacks κ σ) (net : Net κ σ) : Prop := ∀ r, upkWritePackets cb r net = .ok net

/-- **What has been written is a prefix of what has been queued, and all of it once nothing more can be written.** -/
structure InOrder (cb : Callbacks κ σ) (net : Net κ σ) (t : List UInt8) : Prop where
  sent : net.sent <+: t
  whole : Quiet cb net → net.sent = t

theorem NetMsg.fill_eq (m : NetMsg κ) {buf : List UInt8} {len : Nat} (hlen : len ≤ buf.length)
    (hmax : len ≤ upkMaxPacketSize) :
    ∃ m', m.fill buf len = .ok m' ∧ m'.msg.bytes.take len = buf.take len ∧ m'.msgLen = m.msgLen ∧
      m'.nBytesWritten = m.nBytesWritten := by
  have htake : (buf.take len).length = len := by rw [List.length_take, Nat.min_eq_left hlen]
  have hfit : 0 + (buf.take len).length ≤ upkMaxPacketSize := by omega
  refine ⟨{ m with msg := m.msg.store 0 (buf.take len) hfit }, (if_neg (Nat.not_lt.mpr hlen)).trans (dif_pos hfit), ?_,
    rfl, rfl⟩
  have := CharArr.take_store_end (a := m.msg) (h := hfit)
  rwa [Nat.zero_add, List.take_zero, List.nil_append, htake] at this

/-! ### A queue of one -/

/-- The queue holds one message, and the cursor is on it. -/
structure One (q : UpkList (NetMsg κ)) (a : Addr) (m : NetMsg κ) : Prop where
  inv : q.Inv [a]
  thisp : q.thisp = some a
  prevp : q.prevp = none
  nextp : q.nextp = none
  val : q.val? a = some m

variable {q : UpkList (NetMsg κ)} {a : Addr} {m : NetMsg κ}

theorem One.append (h : q.Inv []) : ∃ q' a, q.append = some q' ∧ One q' a default := by
  obtain ⟨hprev, -, hnext⟩ := h.cursor_nil
  obtain ⟨q', hq', hlink, -, -⟩ := UpkList.append_nil_eq h
  have hcount : q.count ≠ 0xffffffff := by
    rw [h.count_eq_zero.mpr rfl]
    decide
  obtain ⟨q'', hq'', hinv⟩ := UpkList.append_inv h hnext hcount
  obtain rfl := Option.some.inj (hq'.symm.trans hq'')
  have hprev' : q'.prevp = none := Option.eq_none_iff_forall_not_mem.mpr fun x hx => by
    have := hlink.prevp x hx
    rw [hprev] at this
    cases this
  exact ⟨q', q.fresh, hq', hinv, hlink.thisp, hprev', hlink.nextp.trans hnext, UpkList.append_nil_val h hq'⟩

theorem One.modify (h : One q a m) (f : NetMsg κ → NetMsg κ) :
    ∃ q', q.modifyVal (some a) f = some q' ∧ One q' a (f m) := by
  obtain ⟨q', hq', hinv, hmod⟩ := UpkList.modifyVal_inv h.inv List.mem_cons_self f
  refine ⟨q', hq', hinv, hmod.thisp.trans h.thisp, hmod.prevp.trans h.prevp, hmod.nextp.trans h.nextp, ?_⟩
  rw [hmod.val, h.val]
  rfl

theorem One.unlink (h : One q a m) : ∃ q', q.unlink = some q' ∧ q'.Inv [] := by
  have hinv : q.Inv ([] ++ a :: []) := h.inv
  exact UpkList.unlink_inv hinv h.thisp h.prevp h.nextp

/-! ### One call -/

/-- The message at the cursor carries the bytes `bs`, of which the first have been written; `pre` was written before. -/
structure Sending (net : Net κ σ) (a : Addr) (m : NetMsg κ) (pre bs : List UInt8) : Prop where
  one : One net.writeq a m
  opened : ¬net.Closed
  msg : m.msg.bytes.take bs.length = bs
  msgLen : m.msgLen.toNat = bs.length
  fits : bs.length ≤ upkMaxPacketSize
  unsent : m.nBytesWritten.toNat < bs.length
  sent : net.sent = pre ++ bs.take m.nBytesWritten.toNat

/-- The invariant of a run: everything has been written, or the message at the cursor is the only one that has not. -/
def Outbox (net : Net κ σ) (t : List UInt8) : Prop :=
  net.writeq.Inv [] ∧ net.sent = t ∨ ∃ a m pre bs, Sending net a m pre bs ∧ t = pre ++ bs

variable {cb : Callbacks κ σ} {net : Net κ σ} {pre bs t : List UInt8}

theorem orNull_bind {α β : Type} {x : Option α} {f : α → Except Fault β} {b : α} (h : x = some b) :
    (orNull x >>= f) = f b := by
  rw [h]
  rfl

theorem orNull_eq_ok {α : Type} {x : Option α} {b : α} (h : orNull x = .ok b) : x = some b := by
  cases x with
  | none => cases h
  | some a => exact congrArg some (Except.ok.inj h)

theorem queuePacket_eq {pkt : Packet} (h : net.writeq.Inv []) (hopen : ¬net.Closed) (hpkt : pkt.Sendable)
    (k : Option κ) : ∃ net' a m, upkQueuePacket pkt k net = .ok net' ∧ Sending net' a m net.sent pkt.serialized := by
  obtain ⟨q₁, a, hq₁, hone₁⟩ := One.append h
  obtain ⟨q₂, hq₂, hone₂⟩ := hone₁.modify fun m => { m with afterWriteCallback := k, msgLen := pkt.msgLen }
  obtain ⟨pkt', buf, hser, hlen, hpos, hmax⟩ := hpkt
  have htake : (buf.take pkt.msgLen.toNat).length = pkt.msgLen.toNat := by rw [List.length_take, Nat.min_eq_left hlen]
  have hbytes : pkt.serialized = buf.take pkt.msgLen.toNat := by rw [Packet.serialized, hser]
  let m : NetMsg κ := { (default : NetMsg κ) with afterWriteCallback := k, msgLen := pkt.msgLen }
  obtain ⟨m', hfill, hmsg, hmsgLen, hwritten⟩ := m.fill_eq hlen hmax
  obtain ⟨q₃, hq₃, hone₃⟩ := hone₂.modify fun _ => m'
  have hzero : m'.nBytesWritten.toNat = 0 := congrArg UInt64.toNat hwritten
  refine ⟨{ net with pendingWriteq := net.pendingWriteq + 1, writeq := q₃ }, a, m', ?_, hone₃, hopen, ?_, ?_, ?_, ?_, ?_⟩
  · unfold upkQueuePacket
    rw [orNull_bind hq₁]
    dsimp only
    rw [hone₁.thisp, orNull_bind hq₂, hser, Wire.ok_bind]
    dsimp only
    rw [Option.bind_eq_bind, Option.bind_some, orNull_bind hone₂.val, hfill, Wire.ok_bind, orNull_bind hq₃]
    rfl
  · rw [hbytes, htake]
    exact hmsg
  · rw [hbytes, htake, hmsgLen]
  · rw [hbytes, htake]
    exact hmax
  · rw [hbytes, htake, hzero]
    exact hpos
  · show net.sent = net.sent ++ pkt.serialized.take _
    rw [hzero, List.take_zero, List.append_nil]

theorem writePackets_idle {r : WriteResult} (h : net.writeq.Inv []) : upkWritePackets cb r net = .ok net := by
  unfold upkWritePackets
  by_cases hclosed : net.Closed
  · rw [if_pos hclosed]
  · rw [if_neg hclosed, if_pos]
    rw [h.count_eq_zero.mpr rfl]
    decide

theorem Sending.writePackets {r : WriteResult} (h : Sending net a m pre bs) :
    upkWritePackets cb r net
      = sysWrite m m.nBytesWritten.toNat (bs.length - m.nBytesWritten.toNat) r net >>= fun (net, nWrite) =>
          if nWrite < 1 ∧ !net.errno.retry then .ok net.disconnect
          else do
            let m := { m with nBytesWritten := m.nBytesWritten + nWrite }
            let q ← (orNull (net.writeq.modifyVal (some a) fun _ => m)).mapError .fault
            let net := { net with writeq := q }
            if m.nBytesWritten = m.msgLen then (doneWriting cb m net).mapError .fault else return net := by
  have hcount : ¬net.writeq.count < 1 := by
    rw [UInt32.lt_iff_toNat_lt, h.one.inv.count]
    exact Nat.lt_irrefl 1
  have hle : m.nBytesWritten ≤ m.msgLen := by
    rw [UInt64.le_iff_toNat_le, h.msgLen]
    exact h.unsent.le
  have hleft : (m.msgLen - m.nBytesWritten).toNat = bs.length - m.nBytesWritten.toNat := by
    rw [UInt64.toNat_sub_of_le _ _ hle, h.msgLen]
  have hpos : 0 < m.msgLen - m.nBytesWritten := by
    have := h.unsent
    rw [UInt64.lt_iff_toNat_lt, hleft, UInt64.toNat_zero]
    omega
  unfold upkWritePackets
  rw [if_neg h.opened, if_neg hcount, h.one.thisp]
  simp only [h.one.val]
  rw [if_pos hpos, hleft]
  rfl

theorem Sending.noResult {k : Nat} (h : Sending net a m pre bs) (hk : bs.length < m.nBytesWritten.toNat + k) :
    upkWritePackets cb (.taken k) net = .error .noResult := by
  have hlt : bs.length - m.nBytesWritten.toNat < k := by
    have := h.unsent
    omega
  rw [h.writePackets, sysWrite, if_pos hlt]
  rfl

/-- The connection after the callback of a message -/
def NetMsg.callAfterWrite (cb : Callbacks κ σ) (m : NetMsg κ) (net : Net κ σ) : Net κ σ :=
  match m.afterWriteCallback with
  | none => net
  | some k => net.call cb k none

/-- The message is complete: it leaves the queue, whatever its callback does. -/
theorem doneWriting_eq_ok {net' : Net κ σ} : doneWriting cb m net = .ok net' ↔
    ∃ q, net.writeq.unlink = some q ∧
      net' = { m.callAfterWrite cb net with writeq := q, pendingWriteq := net.pendingWriteq - 1 } := by
  unfold doneWriting NetMsg.callAfterWrite
  constructor
  · intro h
    obtain ⟨q, hq, h⟩ := Wire.bind_eq_ok.mp h
    refine ⟨q, ?_, ?_⟩
    · cases hk : m.afterWriteCallback <;> rw [hk] at hq <;> exact orNull_eq_ok hq
    · cases hk : m.afterWriteCallback <;> rw [hk] at h <;> exact (Except.ok.inj h).symm
  · rintro ⟨q, hq, rfl⟩
    cases m.afterWriteCallback <;> exact orNull_bind hq

theorem callAfterWrite_sent : (m.callAfterWrite cb net).sent = net.sent := by
  unfold NetMsg.callAfterWrite
  cases m.afterWriteCallback <;> rfl

/-- **What a `write` of `k` bytes does.** -/
theorem Sending.write {k : Nat} (cb : Callbacks κ σ) (h : Sending net a m pre bs) (hpos : 0 < k)
    (hk : m.nBytesWritten.toNat + k ≤ bs.length) :
    ∃ net', upkWritePackets cb (.taken k) net = .ok net' ∧
      net'.sent = pre ++ bs.take (m.nBytesWritten.toNat + k) ∧ Outbox net' (pre ++ bs) := by
  have hmax : upkMaxPacketSize = 65536 := rfl
  have hfits := h.fits
  have hknat : (UInt64.ofNat k).toNat = k := by
    rw [UInt64.toNat_ofNat', Nat.mod_eq_of_lt]
    omega
  have hk1 : ¬UInt64.ofNat k < 1 := by
    rw [UInt64.lt_iff_toNat_lt, hknat, UInt64.toNat_one]
    omega
  -- the bytes that leave are the next of the message
  have hchunk : (m.msg.bytes.drop m.nBytesWritten.toNat).take k = (bs.drop m.nBytesWritten.toNat).take k := by
    rw [← h.msg, List.drop_take, List.take_take, Nat.min_eq_left (by omega)]
  have hsent : net.sent ++ (m.msg.bytes.drop m.nBytesWritten.toNat).take k
      = pre ++ bs.take (m.nBytesWritten.toNat + k) := by
    rw [h.sent, hchunk, List.append_assoc, ← List.take_add]
  have hsys : sysWrite m m.nBytesWritten.toNat (bs.length - m.nBytesWritten.toNat) (.taken k) net
      = .ok ({ net with sent := pre ++ bs.take (m.nBytesWritten.toNat + k) }, .ofNat k) := by
    unfold sysWrite
    dsimp only
    rw [if_neg (by omega), if_neg (by omega), hsent]
  let m' : NetMsg κ := { m with nBytesWritten := m.nBytesWritten + .ofNat k }
  have hwritten : m'.nBytesWritten.toNat = m.nBytesWritten.toNat + k := by
    show (m.nBytesWritten + .ofNat k).toNat = _
    rw [UInt64.toNat_add, hknat, Nat.mod_eq_of_lt]
    omega
  obtain ⟨q, hq, hone⟩ := h.one.modify fun _ => m'
  let net₁ : Net κ σ := { net with sent := pre ++ bs.take (m.nBytesWritten.toNat + k), writeq := q }
  have hcall : upkWritePackets cb (.taken k) net
      = if m'.nBytesWritten = m'.msgLen then (doneWriting cb m' net₁).mapError .fault else .ok net₁ := by
    rw [h.writePackets, hsys]
    show (if UInt64.ofNat k < 1 ∧ _ then _ else _) = _
    rw [if_neg fun hlt => hk1 hlt.1]
    dsimp only
    rw [hq]
    rfl
  rw [hcall]
  by_cases hend : m.nBytesWritten.toNat + k = bs.length
  · have heq : m'.nBytesWritten = m'.msgLen := UInt64.toNat.inj (by rw [hwritten, hend]; exact h.msgLen.symm)
    have hone₁ : One net₁.writeq a m' := hone
    obtain ⟨q', hq', hinv⟩ := hone₁.unlink
    have hsent' : (m'.callAfterWrite cb net₁).sent = net₁.sent := callAfterWrite_sent
    rw [if_pos heq, doneWriting_eq_ok.mpr ⟨q', hq', rfl⟩]
    refine ⟨_, rfl, hsent', Or.inl ⟨hinv, ?_⟩⟩
    show (m'.callAfterWrite cb net₁).sent = _
    rw [hsent']
    show pre ++ bs.take _ = _
    rw [hend, List.take_length]
  · have hne : m'.nBytesWritten ≠ m'.msgLen := fun heq => by
      have : m'.nBytesWritten.toNat = bs.length := by rw [heq]; exact h.msgLen
      omega
    rw [if_neg hne]
    refine ⟨net₁, rfl, rfl, Or.inr ⟨a, m', pre, bs, ⟨hone, h.opened, h.msg, h.msgLen, h.fits, ?_, ?_⟩, rfl⟩⟩
    · rw [hwritten]
      omega
    · rw [hwritten]

/-! ### Runs of calls -/

/-- **What one call does to a run.** -/
theorem Outbox.step (h : Outbox net t) (o : Outgoing κ) (hoff : Offered cb net o) (hready : Ready net o) :
    ∃ net', outgoingStep cb net o = some net' ∧ Outbox net' (queued net o t) := by
  cases o with
  | queue pkt k =>
    obtain ⟨hopen, hcount⟩ := hready
    rcases h with ⟨hinv, hsent⟩ | ⟨a, m, pre, bs, hs, rfl⟩
    · obtain ⟨net', a, m, hq, hs⟩ := queuePacket_eq hinv hopen hoff k
      refine ⟨net', ?_, Or.inr ⟨a, m, net.sent, pkt.serialized, hs, by rw [queued, hsent]⟩⟩
      rw [outgoingStep, hq]
      rfl
    · exact absurd (hs.one.inv.count_eq_zero.mp hcount) (by simp)
  | write r =>
    obtain ⟨n, rfl, hpos, hres⟩ := hoff
    rcases h with ⟨hinv, hsent⟩ | ⟨a, m, pre, bs, hs, rfl⟩
    · refine ⟨net, ?_, Or.inl ⟨hinv, hsent⟩⟩
      rw [outgoingStep, writePackets_idle hinv]
      rfl
    · have hn : m.nBytesWritten.toNat + n ≤ bs.length := by
        by_contra hlt
        exact hres (hs.noResult (by omega))
      obtain ⟨net', hw, -, hout⟩ := hs.write cb hpos hn
      refine ⟨net', ?_, hout⟩
      rw [outgoingStep, hw]
      rfl

theorem Outbox.inOrder (h : Outbox net t) : InOrder cb net t := by
  rcases h with ⟨-, hsent⟩ | ⟨a, m, pre, bs, hs, rfl⟩
  · exact ⟨by rw [hsent], fun _ => hsent⟩
  · refine ⟨?_, fun hquiet => ?_⟩
    · rw [hs.sent]
      exact (List.prefix_append_right_inj pre).mpr (List.take_prefix _ _)
    · -- one more byte could be written
      have hlt := hs.unsent
      obtain ⟨net', hw, hsent, -⟩ := hs.write cb Nat.one_pos hlt
      have hsame : net' = net := Except.ok.inj (hw.symm.trans (hquiet _))
      rw [hsame, hs.sent] at hsent
      have hlen := congrArg List.length (List.append_cancel_left hsent)
      rw [List.length_take, List.length_take] at hlen
      omega

/-- **Outgoing messages.** In a run that queues packets on an open connection with an empty queue only, what is written
is at every point a prefix of what has been queued, and all of it when no more can be written. -/
theorem outbox_inOrder (cb : Callbacks κ σ) (net : Net κ σ) (os : List (Outgoing κ)) (hnet : net.writeq = .init)
    (hsent : net.sent = []) (hoff : Machine.Guarded (outgoingStep cb) (Offered cb) net os)
    (hready : Machine.Guarded (outgoingStep cb) Ready net os) :
    Machine.Tracks (outgoingStep cb) queued (InOrder cb) net [] os := by
  have hstart : Outbox net [] := Or.inl ⟨hnet ▸ UpkList.init_inv, hsent⟩
  refine (Machine.tracks_of_guarded (fun s t o h hG => h.step o hG.1 hG.2) hstart (hoff.and hready)).mono ?_
  exact fun s t h => h.inOrder

/-- `v0_create_req_list` -/
def reqList : Packet := upkCreatePkt (.reqList ⟨upkReqList⟩) 4 pktRequest 0

/-- `v0_create_req_disconnect` -/
def reqDisconnect : Packet := upkCreatePkt (.reqDisconnect ⟨upkReqDisconnect⟩) 4 pktRequest 0

/-- A listing request that is written in two pieces -/
def oneRequest : List (Outgoing Unit) := [.queue reqList none, .write (.taken 1), .write (.taken 23)]

theorem outbox_inOrder_oneRequest :
    Machine.Tracks (outgoingStep ignore) queued (InOrder ignore) (Net.new 5 [] ()) [] oneRequest := by
  refine outbox_inOrder ignore (Net.new 5 [] ()) oneRequest rfl rfl ?_ ?_
  · refine ⟨⟨_, _, rfl, by decide, by decide, by decide⟩, fun s₁ h₁ => ⟨⟨1, rfl, by decide, ?_⟩, fun s₂ h₂ => ?_⟩⟩
    · obtain rfl := Option.some.inj h₁
      rintro ⟨⟩
    · obtain rfl := Option.some.inj h₁
      obtain rfl := Option.some.inj h₂
      refine ⟨⟨23, rfl, by decide, ?_⟩, fun _ _ => trivial⟩
      rintro ⟨⟩
  · exact ⟨⟨by decide, rfl⟩, fun _ _ => ⟨trivial, fun _ _ => ⟨trivial, fun _ _ => trivial⟩⟩⟩

/-- A request to disconnect is queued while a listing request waits -/
def twoRequests : List (Outgoing Unit) := [.queue reqList none, .queue reqDisconnect none, .write (.taken 24)]

/-- The second request is written first. -/
theorem not_inOrder_twoRequests :
    Machine.Guarded (outgoingStep ignore) (Offered ignore) (Net.new 5 [] ()) twoRequests ∧
      ¬Machine.Tracks (outgoingStep ignore) queued (InOrder ignore) (Net.new 5 [] ()) [] twoRequests := by
  have hfirst : reqList.Sendable := ⟨_, _, rfl, by decide, by decide, by decide⟩
  have hsecond : reqDisconnect.Sendable := ⟨_, _, rfl, by decide, by decide, by decide⟩
  refine ⟨⟨hfirst, fun s₁ h₁ => ⟨hsecond, fun s₂ h₂ => ⟨⟨24, rfl, by decide, ?_⟩, fun _ _ => trivial⟩⟩⟩, ?_⟩
  · obtain rfl := Option.some.inj h₁
    obtain rfl := Option.some.inj h₂
    rintro ⟨⟩
  · rintro ⟨-, s₁, h₁, -, s₂, h₂, -, s₃, h₃, hin⟩
    obtain rfl := Option.some.inj h₁
    obtain rfl := Option.some.inj h₂
    obtain rfl := Option.some.inj h₃
    exact absurd hin.sent (by decide)

end Upkeeper
