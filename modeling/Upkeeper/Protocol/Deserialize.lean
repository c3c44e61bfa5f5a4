import Upkeeper.Protocol.Crc32
import Upkeeper.Protocol.Types
/-!
# Deserialization (`upk_protocol_serializer.c`, `upk_v0_protocol_serializer.c`)

`upk_deserialize_packet` checks the header and the checksum and hands a copy of the payload to the decoder that the
packet type and the message type select. The decoders do not know how long the payload is: every fetch moves the
pointer by what the bytes say.
-/

namespace Upkeeper

open Wire (Fault Reader)

/-! ### Fields -/

/-- `UPK_FETCH_UINT32`, `UPK_FETCH_ENUM` -/
def fetchUint32 : Reader UInt32 := Reader.u32

/-- `UPK_FETCH_BOOL` -/
def fetchBool : Reader Bool := do
  let b ← Reader.u8
  return b != 0

/-- `UPK_FETCH_STRING`, `UPK_FETCH_ARRAY`: `len` bytes into a zeroed `char[UPK_MAX_STRING_LEN]` -/
def fetchString (len : UInt32) : Reader Str := Reader.array upkMaxStringLen len.toNat

/-- `UPK_FETCH_DATA_TO_BUF` -/
def fetchDataToBuf (len : UInt32) : Reader (List UInt8) := Reader.take len.toNat

/-! ### Requests -/

/-- `upk_deserialize_req_preamble` -/
def upkDeserializeReqPreamble : Reader Payload := do
  let msgtype ← fetchUint32
  let minSupportedVer ← fetchUint32
  let maxSupportedVer ← fetchUint32
  let clientNameLen ← fetchUint32
  let clientName ← fetchString clientNameLen
  return .reqPreamble ⟨msgtype, minSupportedVer, maxSupportedVer, clientNameLen, clientName⟩

/-- The decoders of a message that is only its type -/
def deserialGeneric (mk : GenericMsg → Payload) : Reader Payload := do
  let msgtype ← fetchUint32
  return mk ⟨msgtype⟩

/-- The decoders of `v0_req_seq_start_t` and `v0_repl_seq_start_t` -/
def deserialSeqStart (mk : SeqStart → Payload) : Reader Payload := do
  let msgtype ← fetchUint32
  let msgSeqType ← fetchUint32
  let msgSeqCount ← fetchUint32
  return mk ⟨msgtype, msgSeqType, msgSeqCount⟩

/-- The decoders of `v0_req_seq_end_t` and `v0_repl_seq_end_t` -/
def deserialSeqEnd (mk : SeqEnd → Payload) : Reader Payload := do
  let msgtype ← fetchUint32
  let commit ← fetchBool
  return mk ⟨msgtype, commit⟩

/-- The decoders of `v0_req_subscribe_t` and `v0_req_unsubscribe_t` -/
def deserialReqSubscr (mk : ReqSubscr → Payload) : Reader Payload := do
  let msgtype ← fetchUint32
  let allSvcs ← fetchBool
  let svcIdLen ← fetchUint32
  let svcId ← fetchString svcIdLen
  return mk ⟨msgtype, allSvcs, svcIdLen, svcId⟩

/-- `deserial_req_seq_start` -/
def deserialReqSeqStart : Reader Payload := deserialSeqStart .reqSeqStart

/-- `deserial_req_seq_end` -/
def deserialReqSeqEnd : Reader Payload := deserialSeqEnd .reqSeqEnd

/-- `deserial_req_action` -/
def deserialReqAction : Reader Payload := do
  let msgtype ← fetchUint32
  let svcIdLen ← fetchUint32
  let svcId ← fetchString svcIdLen
  let actionLen ← fetchUint32
  let action ← fetchString actionLen
  return .reqAction ⟨msgtype, svcIdLen, svcId, actionLen, action⟩

/-- `deserial_req_signal` -/
def deserialReqSignal : Reader Payload := do
  let msgtype ← fetchUint32
  let signal ← fetchUint32
  let signalSid ← fetchBool
  let signalPgrp ← fetchBool
  let svcIdLen ← fetchUint32
  let svcId ← fetchString svcIdLen
  return .reqSignal ⟨msgtype, signal, signalSid, signalPgrp, svcIdLen, svcId⟩

/-- `deserial_req_list` -/
def deserialReqList : Reader Payload := deserialGeneric .reqList

/-- `deserial_req_status` -/
def deserialReqStatus : Reader Payload := do
  let msgtype ← fetchUint32
  let svcIdLen ← fetchUint32
  let svcId ← fetchString svcIdLen
  let restartWindowSeconds ← fetchUint32
  return .reqStatus ⟨msgtype, svcIdLen, svcId, restartWindowSeconds⟩

/-- `deserial_req_subscribe` -/
def deserialReqSubscribe : Reader Payload := deserialReqSubscr .reqSubscribe

/-- `deserial_req_unsub` -/
def deserialReqUnsub : Reader Payload := deserialReqSubscr .reqUnsubscribe

/-- `deserial_req_disconnect` -/
def deserialReqDisconnect : Reader Payload := deserialGeneric .reqDisconnect

/-! ### Replies -/

/-- `upk_deserialize_repl_preamble` -/
def upkDeserializeReplPreamble : Reader Payload := do
  let msgtype ← fetchUint32
  let bestVersion ← fetchUint32
  return .replPreamble ⟨msgtype, bestVersion⟩

/-- `deserial_repl_seq_start` -/
def deserialReplSeqStart : Reader Payload := deserialSeqStart .replSeqStart

/-- `deserial_repl_seq_end` -/
def deserialReplSeqEnd : Reader Payload := deserialSeqEnd .replSeqEnd

/-- `deserial_repl_result` -/
def deserialReplResult : Reader Payload := do
  let msgtype ← fetchUint32
  let successful ← fetchBool
  let msgLen ← fetchUint32
  let msg ← fetchString msgLen
  return .replResult ⟨msgtype, successful, msgLen, msg⟩

/-- `deserial_repl_listing` -/
def deserialReplListing : Reader Payload := do
  let msgtype ← fetchUint32
  let svcIdLen ← fetchUint32
  let svcId ← fetchString svcIdLen
  return .replListing ⟨msgtype, svcIdLen, svcId⟩

/-- `deserial_svcinfo_data` -/
def deserialSvcinfoData : Reader V0Svcinfo := do
  let lastActionTime ← fetchUint32
  let lastActionStatus ← fetchUint32
  let lastActionNameLen ← fetchUint32
  let lastActionName ← fetchString lastActionNameLen
  let lastSignalTime ← fetchUint32
  let lastSignalStatus ← fetchUint32
  let lastSignalName ← fetchUint32
  let buddyPid ← fetchUint32
  let procPid ← fetchUint32
  let currentState ← fetchUint32
  let priorState ← fetchUint32
  let nRecordedRestarts ← fetchUint32
  return ⟨lastActionTime, lastActionStatus, lastActionNameLen, lastActionName, lastSignalTime, lastSignalStatus,
    lastSignalName, buddyPid, procPid, currentState, priorState, nRecordedRestarts⟩

/-- `deserial_repl_svcinfo`; the inner decoder runs on a copy of the block. -/
def deserialReplSvcinfo : Reader Payload := do
  let msgtype ← fetchUint32
  let svcinfoLen ← fetchUint32
  let data ← fetchDataToBuf svcinfoLen
  let svcinfo ← Reader.within deserialSvcinfoData data
  let svcIdLen ← fetchUint32
  let svcId ← fetchString svcIdLen
  return .replSvcinfo ⟨msgtype, svcinfoLen, svcinfo, svcIdLen, svcId⟩

/-- `deserial_repl_ack` -/
def deserialReplAck : Reader Payload := deserialGeneric .replAck

/-- `deserial_repl_err` -/
def deserialReplErr : Reader Payload := do
  let msgtype ← fetchUint32
  let errlevel ← fetchUint32
  let uerrno ← fetchUint32
  let msgLen ← fetchUint32
  let msg ← fetchString msgLen
  let svcIdLen ← fetchUint32
  let svcId ← fetchString svcIdLen
  return .replError ⟨msgtype, errlevel, uerrno, msgLen, msg, svcIdLen, svcId⟩

/-! ### Publications -/

/-- `deserial_pub_pub` -/
def deserialPubPub : Reader Payload := deserialGeneric .pubPublication

/-- `deserial_pub_cancel` -/
def deserialPubCancel : Reader Payload := deserialGeneric .pubCancelation

/-! ### Dispatch -/

/-- `deserial_req_dispatch`, from `UPK_REQ_ORIGIN` on -/
def deserialReqDispatch : List (Reader Payload) :=
  [upkDeserializeReqPreamble, deserialReqSeqStart, deserialReqSeqEnd, deserialReqAction, deserialReqSignal,
   deserialReqList, deserialReqStatus, deserialReqSubscribe, deserialReqUnsub, deserialReqDisconnect]

/-- `deserial_repl_dispatch`, from `UPK_REPL_ORIGIN` on -/
def deserialReplDispatch : List (Reader Payload) :=
  [upkDeserializeReplPreamble, deserialReplSeqStart, deserialReplSeqEnd, deserialReplResult, deserialReplListing,
   deserialReplSvcinfo, deserialReplAck, deserialReplErr]

/-- `deserial_pub_dispatch`, from `UPK_PUB_ORIGIN` on -/
def deserialPubDispatch : List (Reader Payload) := [deserialPubPub, deserialPubCancel]

/-- `deserialize_req_payload`, `deserialize_repl_payload`, `deserialize_pub_payload`: a table and the message type it
starts from. The message type is read ahead, and asserted to be in the table; the decoder starts at it again. -/
def deserializeTyped (table : List (Reader Payload)) (origin : UInt32) (buf : List UInt8) :
    Except Fault Payload := do
  let (msgtype, _) ← Reader.u32 buf
  match table[(msgtype - origin).toNat]? with
  | none => .error .assertFailed
  | some deserial => do
    let (payload, _) ← deserial buf
    return payload

/-- `deserial_pkt_dispatch`; there is no packet type 0. -/
def deserialPktDispatch : List (Option (List UInt8 → Except Fault Payload)) :=
  [none, some (deserializeTyped deserialReqDispatch upkReqOrigin),
   some (deserializeTyped deserialReplDispatch upkReplOrigin),
   some (deserializeTyped deserialPubDispatch upkPubOrigin)]

/-- `v0_deserialize_payload` -/
def v0DeserializePayload (buf : List UInt8) (pkttype : UInt32) : Except Fault Payload :=
  match deserialPktDispatch[pkttype.toNat]? with
  | none => .error .overRead
  | some none => .error .nullCall
  | some (some deserial) => deserial buf

/-- `upk_deserialize_payload` -/
def upkDeserializePayload (payloadBuf : List UInt8) (pkttype versionId : UInt32) :
    Except Fault (Option Payload) :=
  match versionId with
  | 0 => some <$> v0DeserializePayload payloadBuf pkttype
  | _ => .ok none

/-- What `upk_deserialize_packet` leaves: a packet, or a reported error and a pointer to the packet it has freed. -/
inductive Deserialized
  | packet (pkt : Packet)
  | freed (err : UpkErrno)

/-- `upk_deserialize_packet`, on everything that can be read from its argument on. A failed `UPK_FUNC_ASSERT` reports
the error, frees the packet and still returns the pointer to it. -/
def upkDeserializePacket (buf : List UInt8) : Except Fault Deserialized := do
  let (payloadLen, buf) ← fetchUint32 buf
  if ¬payloadLen.toNat ≤ upkMaxPacketSize then return .freed .invalidPkt
  let (versionId, buf) ← fetchUint32 buf
  if ¬(upkMinSupportedProto ≤ versionId ∧ versionId ≤ upkMaxSupportedProto) then return .freed .unsup
  let (seqNum, buf) ← fetchUint32 buf
  let (pkttype, buf) ← fetchUint32 buf
  let some limit := upkPktProtoLimit[versionId.toNat]? | .error .overRead
  if ¬pkttype < limit then return .freed .invalidPkt
  let (payloadBuf, buf) ← fetchDataToBuf payloadLen buf
  let (crc32, _) ← fetchUint32 buf
  if ¬upkVerifyCrc32 payloadBuf crc32 then return .freed .invalidPkt
  let payload ← upkDeserializePayload payloadBuf pkttype versionId
  return .packet ⟨payloadLen, versionId, seqNum, pkttype, payload, crc32⟩

/-! ### The decoder on a packet of version 0 -/

/-- The bytes of a packet: header, payload, footer -/
def packetBytes (payloadLen versionId seqNum pkttype : UInt32) (payload : List UInt8) (crc32 : UInt32) : List UInt8 :=
  [Wire.be32 payloadLen, Wire.be32 versionId, Wire.be32 seqNum, Wire.be32 pkttype, payload, Wire.be32 crc32].flatten

theorem packetBytes_length (l v n t : UInt32) (w : List UInt8) (c : UInt32) :
    (packetBytes l v n t w c).length = 20 + w.length := by
  simp [packetBytes]
  omega

/-- **What the decoder does with a packet whose header it accepts.** -/
theorem upkDeserializePacket_bytes {len seq t crc : UInt32} {w : List UInt8} (hlen : w.length = len.toNat)
    (hmax : len.toNat ≤ upkMaxPacketSize) (rest : List UInt8) :
    upkDeserializePacket (packetBytes len 0 seq t w crc ++ rest)
      = if ¬t < 4 then .ok (.freed .invalidPkt)
        else if ¬upkVerifyCrc32 w crc then .ok (.freed .invalidPkt)
        else (v0DeserializePayload w t).map fun p => .packet ⟨len, 0, seq, t, some p, crc⟩ := by
  have hbytes : packetBytes len 0 seq t w crc ++ rest = Wire.be32 len ++ (Wire.be32 0 ++ (Wire.be32 seq ++
      (Wire.be32 t ++ (w ++ (Wire.be32 crc ++ rest))))) := by
    simp [packetBytes]
  have hu (x : UInt32) (bs : List UInt8) : fetchUint32 (Wire.be32 x ++ bs) = .ok (x, bs) := Wire.Reads.u32 x bs
  have hd (bs : List UInt8) : fetchDataToBuf len (w ++ bs) = .ok (w, bs) := Wire.Reads.take hlen bs
  have hver : upkMinSupportedProto ≤ 0 ∧ (0 : UInt32) ≤ upkMaxSupportedProto := by decide
  rw [hbytes]
  unfold upkDeserializePacket
  rw [hu, Wire.ok_bind]
  dsimp only
  rw [if_neg (not_not.mpr hmax), hu, Wire.ok_bind]
  dsimp only
  rw [if_neg (not_not.mpr hver), hu, Wire.ok_bind]
  dsimp only
  rw [hu, Wire.ok_bind]
  show (if ¬t < 4 then _ else _) = _
  by_cases ht : t < 4
  · rw [if_neg (not_not.mpr ht), if_neg (not_not.mpr ht), hd, Wire.ok_bind]
    dsimp only
    rw [hu, Wire.ok_bind]
    dsimp only
    by_cases hcrc : upkVerifyCrc32 w crc = true
    · rw [if_neg (not_not.mpr hcrc), if_neg (not_not.mpr hcrc)]
      show ((some <$> v0DeserializePayload w t) >>= _) = _
      cases v0DeserializePayload w t <;> rfl
    · rw [if_pos hcrc, if_pos hcrc]
      rfl
  · rw [if_pos ht, if_pos ht]
    rfl

end Upkeeper
