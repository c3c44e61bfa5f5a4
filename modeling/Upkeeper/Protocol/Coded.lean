import Upkeeper.Protocol.Wire
/-!
# Every message is coded

For each of the twenty messages, the serializer and the decoder that the dispatch tables select, field by field.
-/

namespace Upkeeper

open Wire (Fault Reader Writer Reads Emits Fills be32)

/-! ### Records -/

theorem fills_serialSvcinfoData (s : V0Svcinfo) (h : StrOk s.lastActionNameLen s.lastActionName) :
    Fills (serialSvcinfoData s) s.wire := by
  apply Emits.fills
  exact .cons (emits_putUint32 _) <| .cons (emits_putUint32 _) <| .cons (emits_putUint32 _) <|
    .cons (emits_putArray h.1) <| .cons (emits_putUint32 _) <| .cons (emits_putUint32 _) <|
    .cons (emits_putUint32 _) <| .cons (emits_putUint32 _) <| .cons (emits_putUint32 _) <|
    .cons (emits_putUint32 _) <| .cons (emits_putUint32 _) <| .single (emits_putUint32 _)

theorem reads_deserialSvcinfoData (s : V0Svcinfo) (h : StrOk s.lastActionNameLen s.lastActionName) :
    Reads deserialSvcinfoData s.wire { s with lastActionName := strCanon s.lastActionName } :=
  .cons (reads_fetchUint32 _) <| .cons (reads_fetchUint32 _) <| .cons (reads_fetchUint32 _) <|
    .cons (reads_fetchString h.1) <| .cons (reads_fetchUint32 _) <| .cons (reads_fetchUint32 _) <|
    .cons (reads_fetchUint32 _) <| .cons (reads_fetchUint32 _) <| .cons (reads_fetchUint32 _) <|
    .cons (reads_fetchUint32 _) <| .cons (reads_fetchUint32 _) <| .cons (reads_fetchUint32 _) <| .nil _

section Families

variable {bs : List UInt8}

theorem fills_serialGeneric (m : GenericMsg) (hbs : bs = be32 m.msgtype) :
    Fills (serialGeneric m) bs := by
  subst hbs
  exact Emits.fills (emits_putUint32 m.msgtype)

theorem reads_deserialGeneric (mk : GenericMsg → Payload) (m : GenericMsg) (hbs : bs = be32 m.msgtype) :
    Reads (deserialGeneric mk) bs (mk m) := by
  have h : Reads (deserialGeneric mk) [be32 m.msgtype].flatten (mk m) := .cons (reads_fetchUint32 _) <| .nil _
  rwa [List.flatten_cons, List.flatten_nil, List.append_nil, ← hbs] at h

theorem fills_serialSeqStart (m : SeqStart)
    (hbs : bs = [be32 m.msgtype, be32 m.msgSeqType, be32 m.msgSeqCount].flatten) :
    Fills (serialSeqStart m) bs := by
  subst hbs
  apply Emits.fills
  exact .cons (emits_putUint32 _) <| .cons (emits_putUint32 _) <| .single (emits_putUint32 _)

theorem reads_deserialSeqStart (mk : SeqStart → Payload) (m : SeqStart) :
    Reads (deserialSeqStart mk) [be32 m.msgtype, be32 m.msgSeqType, be32 m.msgSeqCount].flatten (mk m) :=
  .cons (reads_fetchUint32 _) <| .cons (reads_fetchUint32 _) <| .cons (reads_fetchUint32 _) <| .nil _

theorem fills_serialSeqEnd (m : SeqEnd) (hbs : bs = [be32 m.msgtype, [boolByte m.commit]].flatten) :
    Fills (serialSeqEnd m) bs := by
  subst hbs
  apply Emits.fills
  exact .cons (emits_putUint32 _) <| .single (emits_putBool _)

theorem reads_deserialSeqEnd (mk : SeqEnd → Payload) (m : SeqEnd) :
    Reads (deserialSeqEnd mk) [be32 m.msgtype, [boolByte m.commit]].flatten (mk m) :=
  .cons (reads_fetchUint32 _) <| .cons (reads_fetchBool _) <| .nil _

theorem fills_serialReqSubscr (m : ReqSubscr)
    (hbs : bs = [be32 m.msgtype, [boolByte m.allSvcs], be32 m.svcIdLen, m.svcId.chars].flatten) :
    Fills (serialReqSubscr m) bs := by
  subst hbs
  apply Emits.fills
  exact .cons (emits_putUint32 _) <| .cons (emits_putBool _) <| .cons (emits_putUint32 _) <|
    .single (emits_putString _)

theorem reads_deserialReqSubscr (mk : ReqSubscr → Payload) (m : ReqSubscr) (h : StrOk m.svcIdLen m.svcId) :
    Reads (deserialReqSubscr mk) [be32 m.msgtype, [boolByte m.allSvcs], be32 m.svcIdLen, m.svcId.chars].flatten
      (mk { m with svcId := strCanon m.svcId }) :=
  .cons (reads_fetchUint32 _) <| .cons (reads_fetchBool _) <| .cons (reads_fetchUint32 _) <|
    .cons (reads_fetchString h.1) <| .nil _

end Families

/-! ### Dispatch -/

/-- The packet type and the message type of a message -/
def Payload.tag : Payload → UInt32 × UInt32
  | .reqPreamble _ => (pktRequest, upkReqPreamble)
  | .reqSeqStart _ => (pktRequest, upkReqSeqStart)
  | .reqSeqEnd _ => (pktRequest, upkReqSeqEnd)
  | .reqAction _ => (pktRequest, upkReqAction)
  | .reqSignal _ => (pktRequest, upkReqSignal)
  | .reqList _ => (pktRequest, upkReqList)
  | .reqStatus _ => (pktRequest, upkReqStatus)
  | .reqSubscribe _ => (pktRequest, upkReqSubscribe)
  | .reqUnsubscribe _ => (pktRequest, upkReqUnsubscribe)
  | .reqDisconnect _ => (pktRequest, upkReqDisconnect)
  | .replPreamble _ => (pktReply, upkReplPreamble)
  | .replSeqStart _ => (pktReply, upkReplSeqStart)
  | .replSeqEnd _ => (pktReply, upkReplSeqEnd)
  | .replResult _ => (pktReply, upkReplResult)
  | .replListing _ => (pktReply, upkReplListing)
  | .replSvcinfo _ => (pktReply, upkReplSvcinfo)
  | .replAck _ => (pktReply, upkReplAck)
  | .replError _ => (pktReply, upkReplError)
  | .pubPublication _ => (pktPubmsg, upkPubPublication)
  | .pubCancelation _ => (pktPubmsg, upkPubCancelation)

theorem Payload.tag_pkttype (p : Payload) : p.tag.1 = pktRequest ∨ p.tag.1 = pktReply ∨ p.tag.1 = pktPubmsg := by
  cases p <;> simp [Payload.tag]

/-- The tables map the message to a serializer that writes `wire` and to a decoder that reads `canon` from it. -/
structure Coded (p : Payload) : Prop where
  serial : ∀ pkt : Packet, pkt.pkttype = p.tag.1 → pkt.payloadLen.toNat = p.wire.length →
    v0SerializePayload pkt p = .ok p.wire
  deserial : v0DeserializePayload p.wire p.tag.1 = .ok p.canon

theorem deserializeTyped_eq {table : List (Reader Payload)} {origin msgtype : UInt32} {bs : List UInt8}
    {d : Reader Payload} {x : Payload} (hd : table[(msgtype - origin).toNat]? = some d)
    (h : Reads d (be32 msgtype ++ bs) x) : deserializeTyped table origin (be32 msgtype ++ bs) = .ok x := by
  have hx := h []
  rw [List.append_nil] at hx
  unfold deserializeTyped
  rw [Reads.u32 msgtype bs, Wire.ok_bind]
  simp only [hd]
  rw [hx]
  rfl

/-- The decoder in the table of the packet type, at the place of the message type -/
def matchingDeserializer (pkttype msgtype : UInt32) : Option (Reader Payload) :=
  if pkttype = pktRequest then deserialReqDispatch[(msgtype - upkReqOrigin).toNat]?
  else if pkttype = pktReply then deserialReplDispatch[(msgtype - upkReplOrigin).toNat]?
  else if pkttype = pktPubmsg then deserialPubDispatch[(msgtype - upkPubOrigin).toNat]?
  else none

/-- Of its buffer, the serializer that the tables select needs and fills exactly `wire`, and of what it is given, the
decoder that they select takes exactly that. -/
structure ExactlyCoded (p : Payload) : Prop where
  serial : ∀ pkt : Packet, pkt.pkttype = p.tag.1 → v0SerializePayload pkt p
    = if p.wire.length ≤ pkt.payloadLen.toNat then
        .ok (p.wire ++ List.replicate (pkt.payloadLen.toNat - p.wire.length) 0)
      else .error .overWrite
  deserial : ∃ d, matchingDeserializer p.tag.1 p.msgtype = some d ∧ Reads d p.wire p.canon

theorem ExactlyCoded.of {p : Payload} {table : List SerializePayload} {origin pkttype : UInt32} (msgtype : UInt32)
    (htag : p.tag = (pkttype, msgtype)) (hm : p.msgtype = p.tag.2)
    (htable : serialPktDispatch[pkttype.toNat]? = some (some (serializeTyped table origin)))
    {s : SerializePayload} {d : Reader Payload}
    (hs : table[(msgtype - origin).toNat]? = some s) (hd : matchingDeserializer pkttype msgtype = some d)
    (hser : Fills (s p) p.wire) (hdes : Reads d p.wire p.canon) : ExactlyCoded p where
  serial pkt hpkt := by
    unfold v0SerializePayload
    rw [hpkt, htag, htable]
    show serializeTyped table origin p pkt.payloadLen.toNat = _
    unfold serializeTyped
    rw [hm, htag, hs]
    exact hser _
  deserial := ⟨d, by rw [hm, htag]; exact hd, hdes⟩

theorem v0DeserializePayload_eq {pkttype msgtype : UInt32} {bs : List UInt8} {d : Reader Payload} {x : Payload}
    (hd : matchingDeserializer pkttype msgtype = some d) (h : Reads d (be32 msgtype ++ bs) x) :
    v0DeserializePayload (be32 msgtype ++ bs) pkttype = .ok x := by
  unfold matchingDeserializer at hd
  split at hd
  · subst pkttype
    exact deserializeTyped_eq hd h
  · split at hd
    · subst pkttype
      exact deserializeTyped_eq hd h
    · split at hd
      · subst pkttype
        exact deserializeTyped_eq hd h
      · cases hd

theorem ExactlyCoded.coded {p : Payload} (h : ExactlyCoded p) : Coded p where
  serial pkt hpkt hlen := by
    rw [h.serial pkt hpkt, hlen, if_pos (le_refl _), Nat.sub_self, List.replicate_zero, List.append_nil]
  deserial := by
    obtain ⟨d, hd, hdes⟩ := h.deserial
    exact v0DeserializePayload_eq hd hdes

/-- **Every message whose length fields count its strings is coded.** -/
theorem Payload.exactlyCoded (p : Payload) (hm : p.msgtype = p.tag.2) (h : p.StrsOk) : ExactlyCoded p := by
  cases p with
  | reqPreamble m =>
    refine .of upkReqPreamble rfl hm rfl rfl rfl ?_ ?_
    · apply Emits.fills
      exact .cons (emits_putUint32 _) <| .cons (emits_putUint32 _) <| .cons (emits_putUint32 _) <|
        .cons (emits_putUint32 _) <| .single (emits_putString _)
    · exact .cons (reads_fetchUint32 _) <| .cons (reads_fetchUint32 _) <| .cons (reads_fetchUint32 _) <|
        .cons (reads_fetchUint32 _) <| .cons (reads_fetchString (StrOk.len h)) <| .nil _
  | replPreamble m =>
    refine .of upkReplPreamble rfl hm rfl rfl rfl ?_ ?_
    · apply Emits.fills
      exact .cons (emits_putUint32 _) <| .single (emits_putUint32 _)
    · exact .cons (reads_fetchUint32 _) <| .cons (reads_fetchUint32 _) <| .nil _
  | reqSeqStart m => exact .of upkReqSeqStart rfl hm rfl rfl rfl (fills_serialSeqStart m rfl) (reads_deserialSeqStart _ m)
  | reqSeqEnd m => exact .of upkReqSeqEnd rfl hm rfl rfl rfl (fills_serialSeqEnd m rfl) (reads_deserialSeqEnd _ m)
  | reqAction m =>
    refine .of upkReqAction rfl hm rfl rfl rfl ?_ ?_
    · apply Emits.fills
      exact .cons (emits_putUint32 _) <| .cons (emits_putUint32 _) <| .cons (emits_putString _) <|
        .cons (emits_putUint32 _) <| .single (emits_putString _)
    · exact .cons (reads_fetchUint32 _) <| .cons (reads_fetchUint32 _) <| .cons (reads_fetchString h.1.1) <|
        .cons (reads_fetchUint32 _) <| .cons (reads_fetchString h.2.1) <| .nil _
  | reqSignal m =>
    refine .of upkReqSignal rfl hm rfl rfl rfl ?_ ?_
    · apply Emits.fills
      exact .cons (emits_putUint32 _) <| .cons (emits_putUint32 _) <| .cons (emits_putBool _) <|
        .cons (emits_putBool _) <| .cons (emits_putUint32 _) <| .single (emits_putString _)
    · exact .cons (reads_fetchUint32 _) <| .cons (reads_fetchUint32 _) <| .cons (reads_fetchBool _) <|
        .cons (reads_fetchBool _) <| .cons (reads_fetchUint32 _) <| .cons (reads_fetchString (StrOk.len h)) <| .nil _
  | reqList m =>
    exact .of upkReqList rfl hm rfl rfl rfl (fills_serialGeneric m (List.append_nil _))
      (reads_deserialGeneric _ m (List.append_nil _))
  | reqStatus m =>
    refine .of upkReqStatus rfl hm rfl rfl rfl ?_ ?_
    · apply Emits.fills
      exact .cons (emits_putUint32 _) <| .cons (emits_putUint32 _) <| .cons (emits_putString _) <|
        .single (emits_putUint32 _)
    · exact .cons (reads_fetchUint32 _) <| .cons (reads_fetchUint32 _) <|
        .cons (reads_fetchString (StrOk.len h)) <| .cons (reads_fetchUint32 _) <| .nil _
  | reqSubscribe m =>
    exact .of upkReqSubscribe rfl hm rfl rfl rfl (fills_serialReqSubscr m rfl) (reads_deserialReqSubscr _ m h)
  | reqUnsubscribe m =>
    exact .of upkReqUnsubscribe rfl hm rfl rfl rfl (fills_serialReqSubscr m rfl) (reads_deserialReqSubscr _ m h)
  | reqDisconnect m =>
    exact .of upkReqDisconnect rfl hm rfl rfl rfl (fills_serialGeneric m (List.append_nil _))
      (reads_deserialGeneric _ m (List.append_nil _))
  | replSeqStart m => exact .of upkReplSeqStart rfl hm rfl rfl rfl (fills_serialSeqStart m rfl) (reads_deserialSeqStart _ m)
  | replSeqEnd m => exact .of upkReplSeqEnd rfl hm rfl rfl rfl (fills_serialSeqEnd m rfl) (reads_deserialSeqEnd _ m)
  | replResult m =>
    refine .of upkReplResult rfl hm rfl rfl rfl ?_ ?_
    · apply Emits.fills
      exact .cons (emits_putUint32 _) <| .cons (emits_putBool _) <| .cons (emits_putUint32 _) <|
        .single (emits_putString _)
    · exact .cons (reads_fetchUint32 _) <| .cons (reads_fetchBool _) <| .cons (reads_fetchUint32 _) <|
        .cons (reads_fetchString (StrOk.len h)) <| .nil _
  | replListing m =>
    refine .of upkReplListing rfl hm rfl rfl rfl ?_ ?_
    · apply Emits.fills
      exact .cons (emits_putUint32 _) <| .cons (emits_putUint32 _) <| .single (emits_putString _)
    · exact .cons (reads_fetchUint32 _) <| .cons (reads_fetchUint32 _) <|
        .cons (reads_fetchString (StrOk.len h)) <| .nil _
  | replSvcinfo m =>
    obtain ⟨hname, hlen, hid⟩ := h
    refine .of upkReplSvcinfo rfl hm rfl rfl rfl ?_ ?_
    · apply Emits.fills
      refine .cons (emits_putUint32 _) <| .cons (emits_putUint32 _) <| .lift_bind ?_ <|
        .cons (emits_putDataFromBuf m.svcinfo.wire hlen.symm) <| .cons (emits_putUint32 _) <|
        .single (emits_putString _)
      rw [hlen]
      exact (fills_serialSvcinfoData m.svcinfo hname).exact
    · exact .cons (reads_fetchUint32 _) <| .cons (reads_fetchUint32 _) <| .cons (Reads.take hlen.symm) <|
        .within_bind (reads_deserialSvcinfoData m.svcinfo hname) <| .cons (reads_fetchUint32 _) <|
        .cons (reads_fetchString hid.1) <| .nil _
  | replAck m =>
    exact .of upkReplAck rfl hm rfl rfl rfl (fills_serialGeneric m (List.append_nil _))
      (reads_deserialGeneric _ m (List.append_nil _))
  | replError m =>
    refine .of upkReplError rfl hm rfl rfl rfl ?_ ?_
    · apply Emits.fills
      exact .cons (emits_putUint32 _) <| .cons (emits_putUint32 _) <| .cons (emits_putUint32 _) <|
        .cons (emits_putUint32 _) <| .cons (emits_putString _) <| .cons (emits_putUint32 _) <|
        .single (emits_putString _)
    · exact .cons (reads_fetchUint32 _) <| .cons (reads_fetchUint32 _) <| .cons (reads_fetchUint32 _) <|
        .cons (reads_fetchUint32 _) <| .cons (reads_fetchString h.1.1) <| .cons (reads_fetchUint32 _) <|
        .cons (reads_fetchString h.2.1) <| .nil _
  | pubPublication m =>
    exact .of upkPubPublication rfl hm rfl rfl rfl (fills_serialGeneric m (List.append_nil _))
      (reads_deserialGeneric _ m (List.append_nil _))
  | pubCancelation m =>
    exact .of upkPubCancelation rfl hm rfl rfl rfl (fills_serialGeneric m (List.append_nil _))
      (reads_deserialGeneric _ m (List.append_nil _))

theorem Payload.coded (p : Payload) (hm : p.msgtype = p.tag.2) (h : p.StrsOk) : Coded p := (p.exactlyCoded hm h).coded

end Upkeeper
