import Upkeeper.Protocol.Create
import Upkeeper.Protocol.Crc32
/-!
# Serialization (`upk_protocol_serializer.c`, `upk_v0_protocol_serializer.c`)

Every serializer allocates a buffer of the payload's declared length and puts the fields of its structure one after
another, in network order. Which one runs is looked up by packet type and message type.
-/

namespace Upkeeper

open Wire (Fault Writer)

/-! ### Fields -/

/-- `UPK_PUT_UINT32`, `UPK_PUT_ENUM` -/
def putUint32 (x : UInt32) : Writer Unit := Writer.put (Wire.be32 x)

/-- `UPK_PUT_BOOL` -/
def putBool (b : Bool) : Writer Unit := Writer.put [if b then 1 else 0]

/-- `UPK_PUT_ARRAY` -/
def putArray {n : Nat} (a : CharArr n) (len : Nat) : Writer Unit :=
  if n < len then throw .overRead else Writer.put (a.bytes.take len)

/-- `UPK_PUT_STRING` -/
def putString (s : Str) : Writer Unit := Writer.put (s.bytes.take s.strnlen)

/-- `UPK_PUT_DATA_FROM_BUF` -/
def putDataFromBuf (buf : List UInt8) (len : Nat) : Writer Unit :=
  if buf.length < len then throw .overRead else Writer.put (buf.take len)

/-! ### Requests -/

/-- `upk_serialize_req_preamble` -/
def upkSerializeReqPreamble (m : ReqPreamble) (len : Nat) : Except Fault (List UInt8) := Writer.alloc len do
  putUint32 m.msgtype
  putUint32 m.minSupportedVer
  putUint32 m.maxSupportedVer
  putUint32 m.clientNameLen
  putString m.clientName

/-- The serializers of a message that is only its type -/
def serialGeneric (m : GenericMsg) (len : Nat) : Except Fault (List UInt8) := Writer.alloc len do
  putUint32 m.msgtype

/-- The serializers of `v0_req_seq_start_t` and `v0_repl_seq_start_t` -/
def serialSeqStart (m : SeqStart) (len : Nat) : Except Fault (List UInt8) := Writer.alloc len do
  putUint32 m.msgtype
  putUint32 m.msgSeqType
  putUint32 m.msgSeqCount

/-- The serializers of `v0_req_seq_end_t` and `v0_repl_seq_end_t` -/
def serialSeqEnd (m : SeqEnd) (len : Nat) : Except Fault (List UInt8) := Writer.alloc len do
  putUint32 m.msgtype
  putBool m.commit

/-- `serial_req_seq_start` -/
def serialReqSeqStart := serialSeqStart

/-- `serial_req_seq_end` -/
def serialReqSeqEnd := serialSeqEnd

/-- `serial_req_list` -/
def serialReqList := serialGeneric

/-- `serial_req_disconnect` -/
def serialReqDisconnect := serialGeneric

/-- `serial_req_action` -/
def serialReqAction (m : ReqAction) (len : Nat) : Except Fault (List UInt8) := Writer.alloc len do
  putUint32 m.msgtype
  putUint32 m.svcIdLen
  putString m.svcId
  putUint32 m.actionLen
  putString m.action

/-- `serial_req_signal` -/
def serialReqSignal (m : ReqSignal) (len : Nat) : Except Fault (List UInt8) := Writer.alloc len do
  putUint32 m.msgtype
  putUint32 m.signal
  putBool m.signalSid
  putBool m.signalPgrp
  putUint32 m.svcIdLen
  putString m.svcId

/-- `serial_req_status` -/
def serialReqStatus (m : ReqStatus) (len : Nat) : Except Fault (List UInt8) := Writer.alloc len do
  putUint32 m.msgtype
  putUint32 m.svcIdLen
  putString m.svcId
  putUint32 m.restartWindowSeconds

/-- The serializers of `v0_req_subscribe_t` and `v0_req_unsubscribe_t` -/
def serialReqSubscr (m : ReqSubscr) (len : Nat) : Except Fault (List UInt8) := Writer.alloc len do
  putUint32 m.msgtype
  putBool m.allSvcs
  putUint32 m.svcIdLen
  putString m.svcId

/-- `serial_req_subscribe` -/
def serialReqSubscribe := serialReqSubscr

/-- `serial_req_unsub` -/
def serialReqUnsub := serialReqSubscr

/-! ### Replies -/

/-- `serial_repl_seq_start` -/
def serialReplSeqStart := serialSeqStart

/-- `serial_repl_seq_end` -/
def serialReplSeqEnd := serialSeqEnd

/-- `serial_repl_ack` -/
def serialReplAck := serialGeneric

/-- `upk_serialize_repl_preamble` -/
def upkSerializeReplPreamble (m : ReplPreamble) (len : Nat) : Except Fault (List UInt8) := Writer.alloc len do
  putUint32 m.msgtype
  putUint32 m.bestVersion

/-- `serial_repl_result` -/
def serialReplResult (m : ReplResult) (len : Nat) : Except Fault (List UInt8) := Writer.alloc len do
  putUint32 m.msgtype
  putBool m.successful
  putUint32 m.msgLen
  putString m.msg

/-- `serial_repl_listing` -/
def serialReplListing (m : ReplListing) (len : Nat) : Except Fault (List UInt8) := Writer.alloc len do
  putUint32 m.msgtype
  putUint32 m.svcIdLen
  putString m.svcId

/-- `serial_svcinfo_data` -/
def serialSvcinfoData (s : V0Svcinfo) (len : Nat) : Except Fault (List UInt8) := Writer.alloc len do
  putUint32 s.lastActionTime
  putUint32 s.lastActionStatus
  putUint32 s.lastActionNameLen
  putArray s.lastActionName s.lastActionNameLen.toNat
  putUint32 s.lastSignalTime
  putUint32 s.lastSignalStatus
  putUint32 s.lastSignalName
  putUint32 s.buddyPid
  putUint32 s.procPid
  putUint32 s.currentState
  putUint32 s.priorState
  putUint32 s.nRecordedRestarts

/-- `serial_repl_svcinfo` -/
def serialReplSvcinfo (m : ReplSvcinfo) (len : Nat) : Except Fault (List UInt8) := Writer.alloc len do
  putUint32 m.msgtype
  putUint32 m.svcinfoLen
  let data ← monadLift (serialSvcinfoData m.svcinfo m.svcinfoLen.toNat)
  putDataFromBuf data m.svcinfoLen.toNat
  putUint32 m.svcIdLen
  putString m.svcId

/-- `serial_repl_err` -/
def serialReplErr (m : ReplError) (len : Nat) : Except Fault (List UInt8) := Writer.alloc len do
  putUint32 m.msgtype
  putUint32 m.errlevel
  putUint32 m.uerrno
  putUint32 m.msgLen
  putString m.msg
  putUint32 m.svcIdLen
  putString m.svcId

/-! ### Publications -/

/-- `serial_pub_pub` -/
def serialPubPub := serialGeneric

/-- `serial_pub_cancel` -/
def serialPubCancel := serialGeneric

/-! ### Dispatch -/

/-- An entry of a table of serializers. It casts the payload to its own structure. -/
abbrev SerializePayload := Payload → Nat → Except Fault (List UInt8)

/-- `serial_req_dispatch`, from `UPK_REQ_ORIGIN` on -/
def serialReqDispatch : List SerializePayload :=
  [fun | .reqPreamble m => upkSerializeReqPreamble m | _ => fun _ => .error .badCast,
   fun | .reqSeqStart m => serialReqSeqStart m | _ => fun _ => .error .badCast,
   fun | .reqSeqEnd m => serialReqSeqEnd m | _ => fun _ => .error .badCast,
   fun | .reqAction m => serialReqAction m | _ => fun _ => .error .badCast,
   fun | .reqSignal m => serialReqSignal m | _ => fun _ => .error .badCast,
   fun | .reqList m => serialReqList m | _ => fun _ => .error .badCast,
   fun | .reqStatus m => serialReqStatus m | _ => fun _ => .error .badCast,
   fun | .reqSubscribe m => serialReqSubscribe m | _ => fun _ => .error .badCast,
   fun | .reqUnsubscribe m => serialReqUnsub m | _ => fun _ => .error .badCast,
   fun | .reqDisconnect m => serialReqDisconnect m | _ => fun _ => .error .badCast]

/-- `serial_repl_dispatch`, from `UPK_REPL_ORIGIN` on -/
def serialReplDispatch : List SerializePayload :=
  [fun | .replPreamble m => upkSerializeReplPreamble m | _ => fun _ => .error .badCast,
   fun | .replSeqStart m => serialReplSeqStart m | _ => fun _ => .error .badCast,
   fun | .replSeqEnd m => serialReplSeqEnd m | _ => fun _ => .error .badCast,
   fun | .replResult m => serialReplResult m | _ => fun _ => .error .badCast,
   fun | .replListing m => serialReplListing m | _ => fun _ => .error .badCast,
   fun | .replSvcinfo m => serialReplSvcinfo m | _ => fun _ => .error .badCast,
   fun | .replAck m => serialReplAck m | _ => fun _ => .error .badCast,
   fun | .replError m => serialReplErr m | _ => fun _ => .error .badCast]

/-- `serial_pub_dispatch`, from `UPK_PUB_ORIGIN` on -/
def serialPubDispatch : List SerializePayload :=
  [fun | .pubPublication m => serialPubPub m | _ => fun _ => .error .badCast,
   fun | .pubCancelation m => serialPubCancel m | _ => fun _ => .error .badCast]

/-- `serialize_req_payload`, `serialize_repl_payload`, `serialize_pub_payload`: a table and the message type it
starts from. The index is not checked. -/
def serializeTyped (table : List SerializePayload) (origin : UInt32) : SerializePayload := fun payload len =>
  match table[(payload.msgtype - origin).toNat]? with
  | none => .error .overRead
  | some serial => serial payload len

/-- `serial_pkt_dispatch`; there is no packet type 0. -/
def serialPktDispatch : List (Option SerializePayload) :=
  [none, some (serializeTyped serialReqDispatch upkReqOrigin), some (serializeTyped serialReplDispatch upkReplOrigin),
   some (serializeTyped serialPubDispatch upkPubOrigin)]

/-- `v0_serialize_payload` -/
def v0SerializePayload (pkt : Packet) (payload : Payload) : Except Fault (List UInt8) :=
  match serialPktDispatch[pkt.pkttype.toNat]? with
  | none => .error .overRead
  | some none => .error .nullCall
  | some (some serial) => serial payload pkt.payloadLen.toNat

/-- `upk_serialize_payload`; for any other version it returns `NULL`, which the caller reads through. -/
def upkSerializePayload (pkt : Packet) : Except Fault (List UInt8) :=
  match pkt.versionId, pkt.payload with
  | 0, some payload => v0SerializePayload pkt payload
  | _, _ => .error .nullDeref

/-- `upk_serialize_packet`: the packet, whose checksum it sets, and the buffer. The buffer is as large as the packet
structure with the payload in place of the pointer to it. -/
def upkSerializePacket (pkt : Packet) : Except Fault (Packet × List UInt8) := do
  let payloadBuf ← upkSerializePayload pkt
  let pkt := { pkt with crc32 := upkCrc32 (payloadBuf.take pkt.payloadLen.toNat) }
  let buf ← Writer.alloc (32 + pkt.payloadLen.toNat - 8) do
    putUint32 pkt.payloadLen
    putUint32 pkt.versionId
    putUint32 pkt.seqNum
    putUint32 pkt.pkttype
    putDataFromBuf payloadBuf pkt.payloadLen.toNat
    putUint32 pkt.crc32
  return (pkt, buf)

end Upkeeper
