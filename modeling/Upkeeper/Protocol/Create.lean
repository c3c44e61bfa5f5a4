import Upkeeper.Protocol.Types
/-!
# Packet constructors (`upk_protocol.c`, `upk_v0_protocol.c`)

Every constructor fills a zeroed message structure and adds up the length of its serialized form. A string argument
is copied with its terminator into a `char[UPK_MAX_STRING_LEN]` field, so one that is too long runs over the field.
-/

namespace Upkeeper

open Wire (Fault)

/-- `upk_create_pkt` -/
def upkCreatePkt (payload : Payload) (payloadLen : Nat) (pkttype protoVer : UInt32) : Packet where
  payloadLen := .ofNat payloadLen
  versionId := protoVer
  seqNum := 0
  pkttype := pkttype
  payload := some payload
  crc32 := 0

/-- `UPK_HELPER_STRING`: the field and its length. The copy takes `strnlen(s, UPK_MAX_STRING_LEN) + 1` bytes. -/
def upkHelperString (s : CStr) : Except Fault (UInt32 × Str) :=
  let len := s.strnlen upkMaxStringLen
  if upkMaxStringLen < len + 1 then .error .overWrite
  else .ok (.ofNat len, .ofBytes _ (s.chars.take len ++ [0]))

/-- `upk_create_req_preamble` -/
def upkCreateReqPreamble (clientName : CStr) : Except Fault Packet := do
  let (clientNameLen, clientName) ← upkHelperString clientName
  return upkCreatePkt
    (.reqPreamble ⟨upkReqPreamble, upkMinSupportedProto, upkMaxSupportedProto, clientNameLen, clientName⟩)
    (16 + clientNameLen.toNat) pktRequest 0

/-- `upk_create_repl_preamble` -/
def upkCreateReplPreamble (bestVersion : UInt32) : Except Fault Packet :=
  return upkCreatePkt (.replPreamble ⟨upkReplPreamble, bestVersion⟩) (4 + 4) pktReply 0

/-! ### Requests -/

/-- `v0_create_req_seq_start` -/
def v0CreateReqSeqStart (msgSeqType msgSeqCount : UInt32) : Except Fault Packet :=
  return upkCreatePkt (.reqSeqStart ⟨upkReqSeqStart, msgSeqType, msgSeqCount⟩) (4 + 4 + 4) pktRequest 0

/-- `v0_create_req_seq_end` -/
def v0CreateReqSeqEnd (commit : Bool) : Except Fault Packet :=
  return upkCreatePkt (.reqSeqEnd ⟨upkReqSeqEnd, commit⟩) (4 + 1) pktRequest 0

/-- `v0_create_req_action` -/
def v0CreateReqAction (svcId action : CStr) : Except Fault Packet := do
  let (svcIdLen, svcId) ← upkHelperString svcId
  let (actionLen, action) ← upkHelperString action
  return upkCreatePkt (.reqAction ⟨upkReqAction, svcIdLen, svcId, actionLen, action⟩)
    (4 + (svcIdLen.toNat + 4) + (actionLen.toNat + 4)) pktRequest 0

/-- `v0_create_req_signal` -/
def v0CreateReqSignal (svcId : CStr) (signal : UInt32) (signalSid signalPgrp : Bool) : Except Fault Packet := do
  let (svcIdLen, svcId) ← upkHelperString svcId
  return upkCreatePkt (.reqSignal ⟨upkReqSignal, signal, signalSid, signalPgrp, svcIdLen, svcId⟩)
    (4 + 4 + 1 + 1 + (svcIdLen.toNat + 4)) pktRequest 0

/-- `v0_create_req_list` -/
def v0CreateReqList : Except Fault Packet :=
  return upkCreatePkt (.reqList ⟨upkReqList⟩) 4 pktRequest 0

/-- `v0_create_req_status` -/
def v0CreateReqStatus (svcId : CStr) (restartWindowSeconds : UInt32) : Except Fault Packet := do
  let (svcIdLen, svcId) ← upkHelperString svcId
  return upkCreatePkt (.reqStatus ⟨upkReqStatus, svcIdLen, svcId, restartWindowSeconds⟩)
    (4 + (svcIdLen.toNat + 4) + 4) pktRequest 0

/-- `v0_create_req_subscribe` -/
def v0CreateReqSubscribe (svcId : CStr) (allSvcs : Bool) : Except Fault Packet := do
  let (svcIdLen, svcId) ← upkHelperString svcId
  return upkCreatePkt (.reqSubscribe ⟨upkReqSubscribe, allSvcs, svcIdLen, svcId⟩)
    (4 + 1 + (svcIdLen.toNat + 4)) pktRequest 0

/-- `v0_create_req_unsubscribe` -/
def v0CreateReqUnsubscribe (svcId : CStr) (allSvcs : Bool) : Except Fault Packet := do
  let (svcIdLen, svcId) ← upkHelperString svcId
  return upkCreatePkt (.reqUnsubscribe ⟨upkReqUnsubscribe, allSvcs, svcIdLen, svcId⟩)
    (4 + 1 + (svcIdLen.toNat + 4)) pktRequest 0

/-- `v0_create_req_disconnect` -/
def v0CreateReqDisconnect : Except Fault Packet :=
  return upkCreatePkt (.reqDisconnect ⟨upkReqDisconnect⟩) 4 pktRequest 0

/-! ### Replies -/

/-- `v0_create_repl_seq_start` -/
def v0CreateReplSeqStart (msgSeqType msgSeqCount : UInt32) : Except Fault Packet :=
  return upkCreatePkt (.replSeqStart ⟨upkReplSeqStart, msgSeqType, msgSeqCount⟩) (4 + 4 + 4) pktReply 0

/-- `v0_create_repl_seq_end` -/
def v0CreateReplSeqEnd (commit : Bool) : Except Fault Packet :=
  return upkCreatePkt (.replSeqEnd ⟨upkReplSeqEnd, commit⟩) (4 + 1) pktReply 0

/-- `v0_create_repl_result` -/
def v0CreateReplResult (msg : CStr) (successful : Bool) : Except Fault Packet := do
  let (msgLen, msg) ← upkHelperString msg
  return upkCreatePkt (.replResult ⟨upkReplResult, successful, msgLen, msg⟩)
    (4 + 1 + (msgLen.toNat + 4)) pktReply 0

/-- `v0_create_repl_listing` -/
def v0CreateReplListing (svcId : CStr) : Except Fault Packet := do
  let (svcIdLen, svcId) ← upkHelperString svcId
  return upkCreatePkt (.replListing ⟨upkReplListing, svcIdLen, svcId⟩)
    (4 + (svcIdLen.toNat + 4)) pktReply 0

/-- `get_svcinfo_len`: the size of the structure, with its name field counted by length -/
def getSvcinfoLen (s : V0Svcinfo) : UInt32 := 44 + s.lastActionNameLen

/-- `v0_create_repl_svcinfo`; it sets the name length of the caller's structure and copies all of it. -/
def v0CreateReplSvcinfo (svcId : CStr) (svcinfo : V0Svcinfo) : Except Fault Packet := do
  let svcinfo := { svcinfo with lastActionNameLen := .ofNat svcinfo.lastActionName.strnlen }
  let svcinfoLen := getSvcinfoLen svcinfo
  let (svcIdLen, svcId) ← upkHelperString svcId
  return upkCreatePkt (.replSvcinfo ⟨upkReplSvcinfo, svcinfoLen, svcinfo, svcIdLen, svcId⟩)
    (4 + 4 + svcinfoLen.toNat + (svcIdLen.toNat + 4)) pktReply 0

/-- `v0_create_repl_ack` -/
def v0CreateReplAck : Except Fault Packet :=
  return upkCreatePkt (.replAck ⟨upkReplAck⟩) 4 pktReply 0

/-- `v0_create_repl_error` -/
def v0CreateReplError (svcId : CStr) (uerrno : UInt32) (msg : CStr) (errlevel : UInt32) :
    Except Fault Packet := do
  let (msgLen, msg) ← upkHelperString msg
  let (svcIdLen, svcId) ← upkHelperString svcId
  return upkCreatePkt (.replError ⟨upkReplError, errlevel, uerrno, msgLen, msg, svcIdLen, svcId⟩)
    (4 + 4 + 4 + (msgLen.toNat + 4) + (svcIdLen.toNat + 4)) pktReply 0

/-! ### Publications -/

/-- `v0_create_pub_publication` -/
def v0CreatePubPublication : Except Fault Packet :=
  return upkCreatePkt (.pubPublication ⟨upkPubPublication⟩) 4 pktPubmsg 0

/-- `v0_create_pub_cancelation` -/
def v0CreatePubCancelation : Except Fault Packet :=
  return upkCreatePkt (.pubCancelation ⟨upkPubCancelation⟩) 4 pktPubmsg 0

/-! ### Calls -/

/-- A call of one of the twenty constructors. -/
inductive CreateCall
  | reqPreamble (clientName : CStr)
  | replPreamble (bestVersion : UInt32)
  | reqSeqStart (msgSeqType msgSeqCount : UInt32)
  | reqSeqEnd (commit : Bool)
  | reqAction (svcId action : CStr)
  | reqSignal (svcId : CStr) (signal : UInt32) (signalSid signalPgrp : Bool)
  | reqList
  | reqStatus (svcId : CStr) (restartWindowSeconds : UInt32)
  | reqSubscribe (svcId : CStr) (allSvcs : Bool)
  | reqUnsubscribe (svcId : CStr) (allSvcs : Bool)
  | reqDisconnect
  | replSeqStart (msgSeqType msgSeqCount : UInt32)
  | replSeqEnd (commit : Bool)
  | replResult (msg : CStr) (successful : Bool)
  | replListing (svcId : CStr)
  | replSvcinfo (svcId : CStr) (svcinfo : V0Svcinfo)
  | replAck
  | replError (svcId : CStr) (uerrno : UInt32) (msg : CStr) (errlevel : UInt32)
  | pubPublication
  | pubCancelation

/-- The packet that the call returns. -/
def CreateCall.run : CreateCall → Except Fault Packet
  | .reqPreamble clientName => upkCreateReqPreamble clientName
  | .replPreamble bestVersion => upkCreateReplPreamble bestVersion
  | .reqSeqStart msgSeqType msgSeqCount => v0CreateReqSeqStart msgSeqType msgSeqCount
  | .reqSeqEnd commit => v0CreateReqSeqEnd commit
  | .reqAction svcId action => v0CreateReqAction svcId action
  | .reqSignal svcId signal signalSid signalPgrp => v0CreateReqSignal svcId signal signalSid signalPgrp
  | .reqList => v0CreateReqList
  | .reqStatus svcId restartWindowSeconds => v0CreateReqStatus svcId restartWindowSeconds
  | .reqSubscribe svcId allSvcs => v0CreateReqSubscribe svcId allSvcs
  | .reqUnsubscribe svcId allSvcs => v0CreateReqUnsubscribe svcId allSvcs
  | .reqDisconnect => v0CreateReqDisconnect
  | .replSeqStart msgSeqType msgSeqCount => v0CreateReplSeqStart msgSeqType msgSeqCount
  | .replSeqEnd commit => v0CreateReplSeqEnd commit
  | .replResult msg successful => v0CreateReplResult msg successful
  | .replListing svcId => v0CreateReplListing svcId
  | .replSvcinfo svcId svcinfo => v0CreateReplSvcinfo svcId svcinfo
  | .replAck => v0CreateReplAck
  | .replError svcId uerrno msg errlevel => v0CreateReplError svcId uerrno msg errlevel
  | .pubPublication => v0CreatePubPublication
  | .pubCancelation => v0CreatePubCancelation

end Upkeeper
