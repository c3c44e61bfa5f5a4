import Upkeeper.Library.Wire
/-!
# Packets and messages (`upk_protocol.h`, `upk_v0_protocol_structs.h`)

A packet is a header, a payload and a checksum. The payload is one of twenty message structures. Enumerations travel
as 32-bit integers, and a decoder casts whatever arrives, so they are `UInt32` here with the names of their values.
Strings are `char[UPK_MAX_STRING_LEN]` fields with a separate length field.
-/

namespace Upkeeper

/-! ### Limits and identifiers -/

/-- `UPK_MAX_STRING_LEN` -/
def upkMaxStringLen : Nat := 2048

/-- `UPK_MAX_PACKET_SIZE` -/
def upkMaxPacketSize : Nat := 65536

/-- `UPK_PACKET_HEADER_LEN` -/
def upkPacketHeaderLen : Nat := 16

/-- `UPK_PACKET_FOOTER_LEN` -/
def upkPacketFooterLen : Nat := 4

/-- `UPK_MIN_SUPPORTED_PROTO` -/
def upkMinSupportedProto : UInt32 := 0

/-- `UPK_MAX_SUPPORTED_PROTO` -/
def upkMaxSupportedProto : UInt32 := 0

/-- `PKT_REQUEST` -/
def pktRequest : UInt32 := 1

/-- `PKT_REPLY` -/
def pktReply : UInt32 := 2

/-- `PKT_PUBMSG` -/
def pktPubmsg : UInt32 := 3

/-- `upk_pkt_proto_limit`: the first invalid packet type, for each version of the protocol -/
def upkPktProtoLimit : List UInt32 := [4]

/-- `UPK_REQ_ORIGIN` -/
def upkReqOrigin : UInt32 := 1

/-- `UPK_REPL_ORIGIN` -/
def upkReplOrigin : UInt32 := 4096

/-- `UPK_PUB_ORIGIN` -/
def upkPubOrigin : UInt32 := 8192

/-! The values of `upk_msgtype_t` -/

def upkReqPreamble : UInt32 := 1
def upkReqSeqStart : UInt32 := 2
def upkReqSeqEnd : UInt32 := 3
def upkReqAction : UInt32 := 4
def upkReqSignal : UInt32 := 5
def upkReqList : UInt32 := 6
def upkReqStatus : UInt32 := 7
def upkReqSubscribe : UInt32 := 8
def upkReqUnsubscribe : UInt32 := 9
def upkReqDisconnect : UInt32 := 10
def upkReplPreamble : UInt32 := 4096
def upkReplSeqStart : UInt32 := 4097
def upkReplSeqEnd : UInt32 := 4098
def upkReplResult : UInt32 := 4099
def upkReplListing : UInt32 := 4100
def upkReplSvcinfo : UInt32 := 4101
def upkReplAck : UInt32 := 4102
def upkReplError : UInt32 := 4103
def upkPubPublication : UInt32 := 8192
def upkPubCancelation : UInt32 := 8193

/-- The values of `upk_errno_t` that the decoder reports -/
inductive UpkErrno
  | unsup
  | invalidPkt
  deriving DecidableEq, Repr

/-- A string field of a message -/
abbrev Str := CharArr upkMaxStringLen

/-! ### Message structures -/

/-- `upk_req_preamble_t` -/
structure ReqPreamble where
  msgtype : UInt32
  minSupportedVer : UInt32
  maxSupportedVer : UInt32
  clientNameLen : UInt32
  clientName : Str

/-- `upk_repl_preamble_t` -/
structure ReplPreamble where
  msgtype : UInt32
  bestVersion : UInt32

/-- `upk_generic_msg_t`, and the messages without fields: `v0_req_list_t`, `v0_req_disconnect_t`, `v0_repl_ack_t`,
`v0_pub_publication_t`, `v0_pub_cancelation_t` -/
structure GenericMsg where
  msgtype : UInt32

/-- `v0_req_seq_start_t`, `v0_repl_seq_start_t` -/
structure SeqStart where
  msgtype : UInt32
  msgSeqType : UInt32
  msgSeqCount : UInt32

/-- `v0_req_seq_end_t`, `v0_repl_seq_end_t` -/
structure SeqEnd where
  msgtype : UInt32
  commit : Bool

/-- `v0_req_action_t` -/
structure ReqAction where
  msgtype : UInt32
  svcIdLen : UInt32
  svcId : Str
  actionLen : UInt32
  action : Str

/-- `v0_req_signal_t` -/
structure ReqSignal where
  msgtype : UInt32
  signal : UInt32
  signalSid : Bool
  signalPgrp : Bool
  svcIdLen : UInt32
  svcId : Str

/-- `v0_req_status_t` -/
structure ReqStatus where
  msgtype : UInt32
  svcIdLen : UInt32
  svcId : Str
  restartWindowSeconds : UInt32

/-- `v0_req_subscribe_t`, `v0_req_unsubscribe_t` -/
structure ReqSubscr where
  msgtype : UInt32
  allSvcs : Bool
  svcIdLen : UInt32
  svcId : Str

/-- `v0_repl_result_t` -/
structure ReplResult where
  msgtype : UInt32
  successful : Bool
  msgLen : UInt32
  msg : Str

/-- `v0_repl_listing_t` -/
structure ReplListing where
  msgtype : UInt32
  svcIdLen : UInt32
  svcId : Str

/-- `v0_svcinfo_t` -/
structure V0Svcinfo where
  lastActionTime : UInt32
  lastActionStatus : UInt32
  lastActionNameLen : UInt32
  lastActionName : Str
  lastSignalTime : UInt32
  lastSignalStatus : UInt32
  lastSignalName : UInt32
  buddyPid : UInt32
  procPid : UInt32
  currentState : UInt32
  priorState : UInt32
  nRecordedRestarts : UInt32

/-- `v0_repl_svcinfo_t` -/
structure ReplSvcinfo where
  msgtype : UInt32
  svcinfoLen : UInt32
  svcinfo : V0Svcinfo
  svcIdLen : UInt32
  svcId : Str

/-- `v0_repl_error_t` -/
structure ReplError where
  msgtype : UInt32
  errlevel : UInt32
  uerrno : UInt32
  msgLen : UInt32
  msg : Str
  svcIdLen : UInt32
  svcId : Str

/-- What the `void *payload` of a packet points to. -/
inductive Payload
  | reqPreamble (m : ReqPreamble)
  | reqSeqStart (m : SeqStart)
  | reqSeqEnd (m : SeqEnd)
  | reqAction (m : ReqAction)
  | reqSignal (m : ReqSignal)
  | reqList (m : GenericMsg)
  | reqStatus (m : ReqStatus)
  | reqSubscribe (m : ReqSubscr)
  | reqUnsubscribe (m : ReqSubscr)
  | reqDisconnect (m : GenericMsg)
  | replPreamble (m : ReplPreamble)
  | replSeqStart (m : SeqStart)
  | replSeqEnd (m : SeqEnd)
  | replResult (m : ReplResult)
  | replListing (m : ReplListing)
  | replSvcinfo (m : ReplSvcinfo)
  | replAck (m : GenericMsg)
  | replError (m : ReplError)
  | pubPublication (m : GenericMsg)
  | pubCancelation (m : GenericMsg)

/-- The first field of every message, through the pointer `dummy` of the serializers -/
def Payload.msgtype : Payload → UInt32
  | .reqPreamble m => m.msgtype
  | .reqSeqStart m => m.msgtype
  | .reqSeqEnd m => m.msgtype
  | .reqAction m => m.msgtype
  | .reqSignal m => m.msgtype
  | .reqList m => m.msgtype
  | .reqStatus m => m.msgtype
  | .reqSubscribe m => m.msgtype
  | .reqUnsubscribe m => m.msgtype
  | .reqDisconnect m => m.msgtype
  | .replPreamble m => m.msgtype
  | .replSeqStart m => m.msgtype
  | .replSeqEnd m => m.msgtype
  | .replResult m => m.msgtype
  | .replListing m => m.msgtype
  | .replSvcinfo m => m.msgtype
  | .replAck m => m.msgtype
  | .replError m => m.msgtype
  | .pubPublication m => m.msgtype
  | .pubCancelation m => m.msgtype

/-- `upk_packet_t`; the payload is `NULL` in a packet of an unknown version. -/
structure Packet where
  payloadLen : UInt32
  versionId : UInt32
  seqNum : UInt32
  pkttype : UInt32
  payload : Option Payload
  crc32 : UInt32

end Upkeeper
