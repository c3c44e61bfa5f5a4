import Upkeeper.Network.Write
/-!
# Payload lengths

A constructor adds up the length of a message on its own, and every buffer is allocated with it: that of the serializer,
that of `upk_serialize_packet` around it, and the part of both that `upk_queue_packet` copies.
-/

namespace Upkeeper

open Wire (Reads)

variable {pkt : Packet} {payload : Payload} {w : List UInt8}

/-- **The payload length is that of `w`**: what the matching serializer writes, whatever the size of its buffer, and
what the matching decoder takes. -/
structure PayloadExact (pkt : Packet) (payload : Payload) (w : List UInt8) : Prop where
  payloadLen : pkt.payloadLen.toNat = w.length
  serial : ∀ n : UInt32, v0SerializePayload { pkt with payloadLen := n } payload
    = if w.length ≤ n.toNat then .ok (w ++ List.replicate (n.toNat - w.length) 0) else .error .overWrite
  deserial : ∃ d x, matchingDeserializer pkt.pkttype payload.msgtype = some d ∧ Reads d w x

/-- **The packet around the payload `w` is copied whole**, and both the buffer that it is copied from and the message
that it is copied to are large enough. -/
structure CopiedWhole (pkt : Packet) (w : List UInt8) : Prop where
  max : upkPacketHeaderLen + pkt.payloadLen.toNat + upkPacketFooterLen ≤ upkMaxPacketSize
  copied : ∃ pkt' buf, upkSerializePacket pkt = .ok (pkt', buf) ∧
    upkPacketHeaderLen + pkt.payloadLen.toNat + upkPacketFooterLen ≤ buf.length ∧
    ∀ (κ : Type) (m : NetMsg κ), ∃ m', m.fill buf pkt.msgLen.toNat = .ok m' ∧
      m'.msg.bytes.take (upkPacketHeaderLen + pkt.payloadLen.toNat + upkPacketFooterLen) = frame pkt w
  queued : ∀ (κ σ : Type) (net : Net κ σ) (k : Option κ),
    upkQueuePacket pkt k net ≠ .error .overRead ∧ upkQueuePacket pkt k net ≠ .error .overWrite

theorem Created.payloadExact (h : Created pkt payload) : PayloadExact pkt payload payload.wire := by
  have hexact := payload.exactlyCoded h.msgtype h.strsOk
  have htype : pkt.pkttype = payload.tag.1 := by
    rw [h.eq]
    rfl
  obtain ⟨d, hd, hreads⟩ := hexact.deserial
  refine ⟨h.payloadLen, fun n => hexact.serial _ htype, d, payload.canon, ?_, hreads⟩
  rw [htype]
  exact hd

theorem orNull_bind_ne {α β : Type} {x : Option α} {f : α → Except Wire.Fault β} {e : Wire.Fault} (he : e ≠ .nullDeref)
    (h : ∀ a, f a ≠ .error e) : (orNull x >>= f) ≠ .error e := by
  cases x with
  | none =>
    intro hx
    exact he (Except.error.inj hx).symm
  | some a => exact h a

theorem queuePacket_ne {κ σ : Type} {pkt : Packet} {e : Wire.Fault} (hpkt : pkt.Sendable) (he : e ≠ .nullDeref)
    (net : Net κ σ) (k : Option κ) : upkQueuePacket pkt k net ≠ .error e := by
  obtain ⟨pkt', buf, hser, hlen, -, hmax⟩ := hpkt
  unfold upkQueuePacket
  refine orNull_bind_ne he fun q => orNull_bind_ne he fun q' => ?_
  rw [hser, Wire.ok_bind]
  refine orNull_bind_ne he fun m => ?_
  obtain ⟨m', hfill, -⟩ := m.fill_eq hlen hmax
  rw [hfill, Wire.ok_bind]
  refine orNull_bind_ne he fun q'' => ?_
  intro h
  cases h

theorem Created.copiedWhole (h : Created pkt payload) : CopiedWhole pkt payload.wire := by
  obtain ⟨hser, -⟩ := h.roundTrip
  have hsend := h.sendable.1
  have hframe : (frame pkt payload.wire).length = 20 + payload.wire.length := frame_length
  have hmax : upkMaxPacketSize = 65536 := rfl
  have hshort := h.short
  have hlen : upkPacketHeaderLen + pkt.payloadLen.toNat + upkPacketFooterLen = 20 + payload.wire.length := by
    rw [h.payloadLen, upkPacketHeaderLen, upkPacketFooterLen]
    omega
  have hbuf : 20 + payload.wire.length ≤ (frame pkt payload.wire ++ List.replicate 4 0).length := by
    rw [List.length_append]
    omega
  refine ⟨by omega, ⟨_, _, hser, hlen ▸ hbuf, fun κ m => ?_⟩, fun κ σ net k => ?_⟩
  · obtain ⟨m', hfill, hmsg, -⟩ := m.fill_eq (h.msgLen ▸ hbuf) (by rw [h.msgLen]; omega)
    refine ⟨m', hfill, ?_⟩
    rw [hlen, ← h.msgLen, hmsg]
    exact List.take_left' (hframe.trans h.msgLen.symm)
  · exact ⟨queuePacket_ne hsend (by decide) net k, queuePacket_ne hsend (by decide) net k⟩

/-- **Payload lengths are exact**, for every constructor and all arguments that fit. -/
theorem payload_exact (c : CreateCall) (hc : c.Valid) :
    ∃ pkt payload w, c.run = .ok pkt ∧ pkt.payload = some payload ∧ PayloadExact pkt payload w ∧ CopiedWhole pkt w := by
  obtain ⟨pkt, payload, hrun, hcreated⟩ := c.run_sound hc
  refine ⟨pkt, payload, payload.wire, hrun, ?_, hcreated.payloadExact, hcreated.copiedWhole⟩
  rw [hcreated.eq]
  rfl

/-- A signal for a service with a name of two letters -/
theorem payload_exact_reqSignal :
    ∃ pkt payload w, (CreateCall.reqSignal ⟨[100, 98], by simp⟩ 15 true false).run = .ok pkt ∧
      pkt.payload = some payload ∧ PayloadExact pkt payload w ∧ CopiedWhole pkt w :=
  payload_exact (.reqSignal ⟨[100, 98], by simp⟩ 15 true false) (by show 2 < 2048; decide)

end Upkeeper
