import Upkeeper.Protocol.Coded
/-!
# Packet round trip

`frame` is a packet on the wire: the header, the serialized message and the checksum. `upk_serialize_packet` writes it
into a buffer with room to spare (`serializePacket_eq`), and `upk_deserialize_packet` reads it back from any buffer that
starts with it (`deserializePacket_eq`). Together with the messages being coded and the constructors filling in the
right lengths (`CreateCall.run_sound`), every packet that a constructor builds comes back.
-/

namespace Upkeeper

open Wire (Fault Reader Writer Reads Emits be32)

/-! ### Packets -/

/-- The bytes of a packet with the serialized payload `w` -/
def frame (pkt : Packet) (w : List UInt8) : List UInt8 :=
  packetBytes pkt.payloadLen pkt.versionId pkt.seqNum pkt.pkttype w (upkCrc32 w)

variable {pkt : Packet} {payload : Payload} {w : List UInt8}

theorem frame_length : (frame pkt w).length = 20 + w.length := packetBytes_length ..

theorem serializePacket_eq (hv : pkt.versionId = 0) (hp : pkt.payload = some payload)
    (hw : v0SerializePayload pkt payload = .ok w) (hlen : w.length = pkt.payloadLen.toNat) :
    upkSerializePacket pkt = .ok ({ pkt with crc32 := upkCrc32 w }, frame pkt w ++ List.replicate 4 0) := by
  have hpay : upkSerializePayload pkt = .ok w := by
    unfold upkSerializePayload
    rw [hv, hp]
    exact hw
  have hemit : Emits (do
      putUint32 pkt.payloadLen
      putUint32 pkt.versionId
      putUint32 pkt.seqNum
      putUint32 pkt.pkttype
      putDataFromBuf w pkt.payloadLen.toNat
      putUint32 (upkCrc32 w)) (frame pkt w) :=
    .cons (emits_putUint32 _) <| .cons (emits_putUint32 _) <| .cons (emits_putUint32 _) <|
      .cons (emits_putUint32 _) <| .cons (emits_putDataFromBuf w hlen) <| .single (emits_putUint32 _)
  have halloc := hemit.alloc (32 + pkt.payloadLen.toNat - 8)
  have hpad : 32 + pkt.payloadLen.toNat - 8 - (frame pkt w).length = 4 := by rw [frame_length]; omega
  rw [if_pos (by rw [frame_length]; omega), hpad] at halloc
  unfold upkSerializePacket
  rw [hpay, Wire.ok_bind]
  dsimp only
  rw [← hlen, List.take_length, hlen, halloc]
  rfl

theorem deserializePacket_eq (hv : pkt.versionId = 0) (ht : pkt.pkttype < 4) (hlen : w.length = pkt.payloadLen.toNat)
    (hmax : w.length ≤ upkMaxPacketSize) (hw : v0DeserializePayload w pkt.pkttype = .ok payload) (rest : List UInt8) :
    upkDeserializePacket (frame pkt w ++ rest)
      = .ok (.packet { pkt with payload := some payload, crc32 := upkCrc32 w }) := by
  have hcrc : upkVerifyCrc32 w (upkCrc32 w) = true := beq_self_eq_true _
  unfold frame
  rw [hv, upkDeserializePacket_bytes hlen (hlen ▸ hmax) rest, if_neg (not_not.mpr ht), if_neg (not_not.mpr hcrc), hw]
  show Except.ok (Deserialized.packet _) = _
  rw [← hv]

/-! ### Constructors -/

/-- The string arguments fit their fields, and the name in a `v0_svcinfo_t` is terminated. -/
def CreateCall.Valid : CreateCall → Prop
  | .reqPreamble s => s.chars.length < upkMaxStringLen
  | .reqAction s t => s.chars.length < upkMaxStringLen ∧ t.chars.length < upkMaxStringLen
  | .reqSignal s _ _ _ => s.chars.length < upkMaxStringLen
  | .reqStatus s _ => s.chars.length < upkMaxStringLen
  | .reqSubscribe s _ => s.chars.length < upkMaxStringLen
  | .reqUnsubscribe s _ => s.chars.length < upkMaxStringLen
  | .replResult s _ => s.chars.length < upkMaxStringLen
  | .replListing s => s.chars.length < upkMaxStringLen
  | .replSvcinfo s i => s.chars.length < upkMaxStringLen ∧ i.lastActionName.Terminated
  | .replError s _ t _ => s.chars.length < upkMaxStringLen ∧ t.chars.length < upkMaxStringLen
  | _ => True

theorem upkHelperString_eq {s : CStr} (h : s.chars.length < upkMaxStringLen) :
    ∃ len str, upkHelperString s = .ok (len, str) ∧ StrOk len str ∧ str.chars = s.chars ∧
      len.toNat = s.chars.length ∧ s.chars.length < 2048 := by
  have hmax : upkMaxStringLen = 2048 := rfl
  have hlen : s.strnlen upkMaxStringLen = s.chars.length := by
    unfold CStr.strnlen
    omega
  have hnat : (UInt32.ofNat s.chars.length).toNat = s.chars.length := by
    rw [UInt32.toNat_ofNat']
    omega
  have hchars : (CharArr.ofBytes upkMaxStringLen s.chars).chars = s.chars := CharArr.ofBytes_chars s.noNul h
  refine ⟨.ofNat s.chars.length, .ofBytes _ s.chars, ?_, ⟨?_, CharArr.ofBytes_terminated h⟩, hchars, hnat, h⟩
  · unfold upkHelperString
    rw [hlen]
    dsimp only
    rw [if_neg (by omega), List.take_length, CharArr.ofBytes_append_zero h]
  · rw [hnat, CharArr.strnlen, hchars]

/-- What the constructors fill in: a message with its type and string lengths, and the length of its serialized form. -/
structure Created (pkt : Packet) (payload : Payload) : Prop where
  eq : pkt = upkCreatePkt payload payload.wire.length payload.tag.1 0
  msgtype : payload.msgtype = payload.tag.2
  strsOk : payload.StrsOk
  short : payload.wire.length ≤ upkMaxPacketSize - 20

theorem getSvcinfoLen_eq {i : V0Svcinfo} (h : i.lastActionNameLen.toNat = i.lastActionName.strnlen) :
    (getSvcinfoLen i).toNat = i.wire.length := by
  have hle : i.lastActionName.strnlen ≤ 2048 := CharArr.strnlen_le
  have hwire : i.wire.length = 44 + i.lastActionName.strnlen := by
    simp [V0Svcinfo.wire, CharArr.strnlen]
    omega
  unfold getSvcinfoLen
  rw [UInt32.toNat_add, h, hwire]
  simp only [UInt32.reduceToNat]
  omega

theorem created {payload : Payload} {n : Nat} {t : UInt32} (hn : n = payload.wire.length) (ht : t = payload.tag.1)
    (hm : payload.msgtype = payload.tag.2) (hs : payload.StrsOk) (hshort : n ≤ upkMaxPacketSize - 20) :
    ∃ pkt payload', (Except.ok (upkCreatePkt payload n t 0) : Except Fault Packet) = .ok pkt ∧ Created pkt payload' := by
  subst hn ht
  exact ⟨_, payload, rfl, rfl, hm, hs, hshort⟩

/-- **Every constructor succeeds on valid arguments and fills in its message and its length.** -/
theorem CreateCall.run_sound (c : CreateCall) (hc : c.Valid) :
    ∃ pkt payload, c.run = .ok pkt ∧ Created pkt payload := by
  have hpkt : upkMaxPacketSize - 20 = 65516 := rfl
  cases c with
  | reqPreamble s =>
    obtain ⟨len, str, heq, hok, hchars, hlen, hlt⟩ := upkHelperString_eq hc
    simp only [CreateCall.run, upkCreateReqPreamble, heq, Wire.ok_bind]
    exact created (by simp [Payload.wire, Payload.fields, hchars, hlen]; omega) rfl rfl hok (by omega)
  | replPreamble v => exact created rfl rfl rfl trivial (by decide)
  | reqSeqStart t n => exact created rfl rfl rfl trivial (by decide)
  | reqSeqEnd b => exact created rfl rfl rfl trivial (by decide)
  | reqAction s t =>
    obtain ⟨len, str, heq, hok, hchars, hlen, hlt⟩ := upkHelperString_eq hc.1
    obtain ⟨len', str', heq', hok', hchars', hlen', hlt'⟩ := upkHelperString_eq hc.2
    simp only [CreateCall.run, v0CreateReqAction, heq, heq', Wire.ok_bind]
    exact created (by simp [Payload.wire, Payload.fields, hchars, hlen, hchars', hlen']; omega) rfl rfl ⟨hok, hok'⟩ (by omega)
  | reqSignal s x a b =>
    obtain ⟨len, str, heq, hok, hchars, hlen, hlt⟩ := upkHelperString_eq hc
    simp only [CreateCall.run, v0CreateReqSignal, heq, Wire.ok_bind]
    exact created (by simp [Payload.wire, Payload.fields, hchars, hlen]; omega) rfl rfl hok (by omega)
  | reqList => exact created rfl rfl rfl trivial (by decide)
  | reqStatus s x =>
    obtain ⟨len, str, heq, hok, hchars, hlen, hlt⟩ := upkHelperString_eq hc
    simp only [CreateCall.run, v0CreateReqStatus, heq, Wire.ok_bind]
    exact created (by simp [Payload.wire, Payload.fields, hchars, hlen]; omega) rfl rfl hok (by omega)
  | reqSubscribe s b =>
    obtain ⟨len, str, heq, hok, hchars, hlen, hlt⟩ := upkHelperString_eq hc
    simp only [CreateCall.run, v0CreateReqSubscribe, heq, Wire.ok_bind]
    exact created (by simp [Payload.wire, Payload.fields, hchars, hlen]; omega) rfl rfl hok (by omega)
  | reqUnsubscribe s b =>
    obtain ⟨len, str, heq, hok, hchars, hlen, hlt⟩ := upkHelperString_eq hc
    simp only [CreateCall.run, v0CreateReqUnsubscribe, heq, Wire.ok_bind]
    exact created (by simp [Payload.wire, Payload.fields, hchars, hlen]; omega) rfl rfl hok (by omega)
  | reqDisconnect => exact created rfl rfl rfl trivial (by decide)
  | replSeqStart t n => exact created rfl rfl rfl trivial (by decide)
  | replSeqEnd b => exact created rfl rfl rfl trivial (by decide)
  | replResult s b =>
    obtain ⟨len, str, heq, hok, hchars, hlen, hlt⟩ := upkHelperString_eq hc
    simp only [CreateCall.run, v0CreateReplResult, heq, Wire.ok_bind]
    exact created (by simp [Payload.wire, Payload.fields, hchars, hlen]; omega) rfl rfl hok (by omega)
  | replListing s =>
    obtain ⟨len, str, heq, hok, hchars, hlen, hlt⟩ := upkHelperString_eq hc
    simp only [CreateCall.run, v0CreateReplListing, heq, Wire.ok_bind]
    exact created (by simp [Payload.wire, Payload.fields, hchars, hlen]; omega) rfl rfl hok (by omega)
  | replSvcinfo s i =>
    obtain ⟨len, str, heq, hok, hchars, hlen, hlt⟩ := upkHelperString_eq hc.1
    have hname : i.lastActionName.strnlen < 2048 := CharArr.terminated_iff.mp hc.2
    have hnat : (UInt32.ofNat i.lastActionName.strnlen).toNat = i.lastActionName.strnlen := by
      rw [UInt32.toNat_ofNat']
      omega
    let j : V0Svcinfo := { i with lastActionNameLen := .ofNat i.lastActionName.strnlen }
    have hj : (getSvcinfoLen j).toNat = j.wire.length := getSvcinfoLen_eq hnat
    have hwire : j.wire.length = 44 + i.lastActionName.strnlen := by
      simp [j, V0Svcinfo.wire, CharArr.strnlen]
      omega
    simp only [CreateCall.run, v0CreateReplSvcinfo, heq, Wire.ok_bind]
    refine created ?_ rfl rfl ⟨⟨hnat, hc.2⟩, hj, hok⟩ ?_
    · show 4 + 4 + (getSvcinfoLen j).toNat + (len.toNat + 4) = _
      rw [hj]
      simp [Payload.wire, Payload.fields, hchars, hlen, j]
      omega
    · show 4 + 4 + (getSvcinfoLen j).toNat + (len.toNat + 4) ≤ _
      omega
  | replAck => exact created rfl rfl rfl trivial (by decide)
  | replError s u t e =>
    obtain ⟨len, str, heq, hok, hchars, hlen, hlt⟩ := upkHelperString_eq hc.2
    obtain ⟨len', str', heq', hok', hchars', hlen', hlt'⟩ := upkHelperString_eq hc.1
    simp only [CreateCall.run, v0CreateReplError, heq, heq', Wire.ok_bind]
    exact created (by simp [Payload.wire, Payload.fields, hchars, hlen, hchars', hlen']; omega) rfl rfl ⟨hok, hok'⟩ (by omega)
  | pubPublication => exact created rfl rfl rfl trivial (by decide)
  | pubCancelation => exact created rfl rfl rfl trivial (by decide)

/-! ### The round trip -/

theorem Created.payloadLen (h : Created pkt payload) : pkt.payloadLen.toNat = payload.wire.length := by
  have hmax : upkMaxPacketSize - 20 = 65516 := rfl
  have hshort := h.short
  rw [h.eq, upkCreatePkt, UInt32.toNat_ofNat']
  omega

theorem Created.roundTrip (h : Created pkt payload) :
    upkSerializePacket pkt
        = .ok ({ pkt with crc32 := upkCrc32 payload.wire }, frame pkt payload.wire ++ List.replicate 4 0) ∧
      ∀ rest, upkDeserializePacket (frame pkt payload.wire ++ rest)
        = .ok (.packet { pkt with payload := some payload.canon, crc32 := upkCrc32 payload.wire }) := by
  have hlen := h.payloadLen.symm
  obtain ⟨rfl, hm, hs, hshort⟩ := h
  have hcoded := payload.coded hm hs
  have hmax : upkMaxPacketSize - 20 = 65516 := rfl
  have ht : payload.tag.1 < 4 := by
    rcases payload.tag_pkttype with h | h | h <;> rw [h] <;> decide
  refine ⟨serializePacket_eq rfl rfl (hcoded.serial _ rfl hlen.symm) hlen, fun rest => ?_⟩
  exact deserializePacket_eq rfl ht hlen (by show _ ≤ 65536; omega) hcoded.deserial rest

/-- The packet that the call creates comes back from its serialized form: with the same header and a payload that
agrees with the created one field by field. -/
def CreateCall.RoundTrips (c : CreateCall) : Prop :=
  ∃ pkt pkt₁ buf pkt', c.run = .ok pkt ∧ upkSerializePacket pkt = .ok (pkt₁, buf) ∧
    upkDeserializePacket buf = .ok (.packet pkt') ∧
    pkt'.payloadLen = pkt.payloadLen ∧ pkt'.versionId = pkt.versionId ∧ pkt'.seqNum = pkt.seqNum ∧
    pkt'.pkttype = pkt.pkttype ∧
    ∃ p p', pkt.payload = some p ∧ pkt'.payload = some p' ∧ p.Agrees p'

/-- **Packet round trip.** -/
theorem packet_roundTrips (c : CreateCall) (hc : c.Valid) : c.RoundTrips := by
  obtain ⟨pkt, payload, hrun, hcreated⟩ := c.run_sound hc
  obtain ⟨hser, hdes⟩ := hcreated.roundTrip
  refine ⟨pkt, _, _, _, hrun, hser, hdes _, rfl, rfl, rfl, rfl, payload, payload.canon, ?_, rfl, ?_⟩
  · rw [hcreated.eq]
    rfl
  · exact payload.agrees_canon hcreated.strsOk

/-- An action request for a service, with an empty action -/
theorem reqAction_roundTrips : (CreateCall.reqAction ⟨[100, 98], by simp⟩ ⟨[], by simp⟩).RoundTrips :=
  packet_roundTrips _ ⟨by decide, by decide⟩

end Upkeeper
