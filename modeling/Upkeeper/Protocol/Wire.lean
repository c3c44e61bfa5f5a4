import Upkeeper.Protocol.Deserialize
import Upkeeper.Protocol.Serialize
/-!
# The wire format of the messages

`Payload.wire` is what a message looks like on the wire, as one expression, and `Payload.canon` is the message that a
decoder makes of it: the same, with what stands behind the terminator of a string replaced by zeros. `Coded` says that
the serializer that the tables select writes `wire`, and that the decoder they select reads `canon` from it. Every
message whose length fields count its strings is coded.
-/

namespace Upkeeper

open Wire (Fault Reader Writer Reads Emits be32)

/-! ### Fields -/

/-- The length field counts the string, and the string is terminated. -/
def StrOk (len : UInt32) (s : Str) : Prop := len.toNat = s.strnlen ∧ s.Terminated

/-- The string as a decoder stores it -/
def strCanon (s : Str) : Str := .ofBytes _ s.chars

theorem StrOk.len {len : UInt32} {s : Str} (h : StrOk len s) : len.toNat = s.strnlen := h.1

theorem StrOk.lt {len : UInt32} {s : Str} (h : StrOk len s) : s.chars.length < upkMaxStringLen :=
  CharArr.terminated_iff.mp h.2

theorem StrOk.same {len : UInt32} {s : Str} (h : StrOk len s) : s.Same (strCanon s) :=
  ⟨(CharArr.ofBytes_chars CharArr.chars_ne_zero h.lt).symm, h.2, CharArr.ofBytes_terminated h.lt⟩

/-- A boolean as a byte -/
def boolByte (b : Bool) : UInt8 := if b then 1 else 0

theorem reads_fetchUint32 (x : UInt32) : Reads fetchUint32 (be32 x) x := Reads.u32 x

theorem reads_fetchBool (b : Bool) : Reads fetchBool [boolByte b] b := by
  intro rest
  cases b <;> rfl

theorem reads_fetchString {len : UInt32} {s : Str} (h : len.toNat = s.strnlen) :
    Reads (fetchString len) s.chars (strCanon s) :=
  Reads.array h.symm (h ▸ CharArr.strnlen_le)

theorem emits_putUint32 (x : UInt32) : Emits (putUint32 x) (be32 x) := Emits.put _

theorem emits_putBool (b : Bool) : Emits (putBool b) [boolByte b] := Emits.put _

theorem emits_putString (s : Str) : Emits (putString s) s.chars := by
  unfold putString
  rw [CharArr.take_strnlen]
  exact Emits.put _

theorem emits_putArray {len : UInt32} {s : Str} (h : len.toNat = s.strnlen) :
    Emits (putArray s len.toNat) s.chars := by
  have hle : s.strnlen ≤ upkMaxStringLen := CharArr.strnlen_le
  unfold putArray
  rw [if_neg (by omega), h, CharArr.take_strnlen]
  exact Emits.put _

theorem emits_putDataFromBuf (buf : List UInt8) {len : Nat} (h : buf.length = len) :
    Emits (putDataFromBuf buf len) buf := by
  unfold putDataFromBuf
  rw [if_neg (by omega), List.take_of_length_le (by omega)]
  exact Emits.put _

/-! ### Messages -/

/-- The serialized form of the block in `v0_repl_svcinfo_t` -/
def V0Svcinfo.wire (s : V0Svcinfo) : List UInt8 :=
  [be32 s.lastActionTime, be32 s.lastActionStatus, be32 s.lastActionNameLen, s.lastActionName.chars,
   be32 s.lastSignalTime, be32 s.lastSignalStatus, be32 s.lastSignalName, be32 s.buddyPid, be32 s.procPid,
   be32 s.currentState, be32 s.priorState, be32 s.nRecordedRestarts].flatten

/-- The fields of a message on the wire, behind its type -/
def Payload.fields : Payload → List (List UInt8)
  | .reqPreamble m => [be32 m.minSupportedVer, be32 m.maxSupportedVer, be32 m.clientNameLen, m.clientName.chars]
  | .replPreamble m => [be32 m.bestVersion]
  | .reqSeqStart m | .replSeqStart m => [be32 m.msgSeqType, be32 m.msgSeqCount]
  | .reqSeqEnd m | .replSeqEnd m => [[boolByte m.commit]]
  | .reqAction m => [be32 m.svcIdLen, m.svcId.chars, be32 m.actionLen, m.action.chars]
  | .reqSignal m => [be32 m.signal, [boolByte m.signalSid], [boolByte m.signalPgrp], be32 m.svcIdLen, m.svcId.chars]
  | .reqStatus m => [be32 m.svcIdLen, m.svcId.chars, be32 m.restartWindowSeconds]
  | .reqSubscribe m | .reqUnsubscribe m => [[boolByte m.allSvcs], be32 m.svcIdLen, m.svcId.chars]
  | .replResult m => [[boolByte m.successful], be32 m.msgLen, m.msg.chars]
  | .replListing m => [be32 m.svcIdLen, m.svcId.chars]
  | .replSvcinfo m => [be32 m.svcinfoLen, m.svcinfo.wire, be32 m.svcIdLen, m.svcId.chars]
  | .replError m =>
    [be32 m.errlevel, be32 m.uerrno, be32 m.msgLen, m.msg.chars, be32 m.svcIdLen, m.svcId.chars]
  | .reqList _ | .reqDisconnect _ | .replAck _ | .pubPublication _ | .pubCancelation _ => []

/-- The serialized form of a message -/
def Payload.wire (p : Payload) : List UInt8 := be32 p.msgtype ++ p.fields.flatten

/-- The structure that a decoder makes of the message -/
def Payload.canon : Payload → Payload
  | .reqPreamble m => .reqPreamble { m with clientName := strCanon m.clientName }
  | .reqAction m => .reqAction { m with svcId := strCanon m.svcId, action := strCanon m.action }
  | .reqSignal m => .reqSignal { m with svcId := strCanon m.svcId }
  | .reqStatus m => .reqStatus { m with svcId := strCanon m.svcId }
  | .reqSubscribe m => .reqSubscribe { m with svcId := strCanon m.svcId }
  | .reqUnsubscribe m => .reqUnsubscribe { m with svcId := strCanon m.svcId }
  | .replResult m => .replResult { m with msg := strCanon m.msg }
  | .replListing m => .replListing { m with svcId := strCanon m.svcId }
  | .replSvcinfo m =>
    .replSvcinfo { m with
      svcinfo := { m.svcinfo with lastActionName := strCanon m.svcinfo.lastActionName }
      svcId := strCanon m.svcId }
  | .replError m => .replError { m with msg := strCanon m.msg, svcId := strCanon m.svcId }
  | p => p

/-- The length fields of the message count its strings. -/
def Payload.StrsOk : Payload → Prop
  | .reqPreamble m => StrOk m.clientNameLen m.clientName
  | .reqAction m => StrOk m.svcIdLen m.svcId ∧ StrOk m.actionLen m.action
  | .reqSignal m => StrOk m.svcIdLen m.svcId
  | .reqStatus m => StrOk m.svcIdLen m.svcId
  | .reqSubscribe m | .reqUnsubscribe m => StrOk m.svcIdLen m.svcId
  | .replResult m => StrOk m.msgLen m.msg
  | .replListing m => StrOk m.svcIdLen m.svcId
  | .replSvcinfo m =>
    StrOk m.svcinfo.lastActionNameLen m.svcinfo.lastActionName ∧ m.svcinfoLen.toNat = m.svcinfo.wire.length ∧
      StrOk m.svcIdLen m.svcId
  | .replError m => StrOk m.msgLen m.msg ∧ StrOk m.svcIdLen m.svcId
  | _ => True

/-- Two messages of the same type agree field by field: numbers are equal, strings hold the same text up to their
terminator, and are terminated. -/
def Payload.Agrees : Payload → Payload → Prop
  | .reqPreamble m, .reqPreamble m' =>
    m.msgtype = m'.msgtype ∧ m.minSupportedVer = m'.minSupportedVer ∧ m.maxSupportedVer = m'.maxSupportedVer ∧
      m.clientNameLen = m'.clientNameLen ∧ m.clientName.Same m'.clientName
  | .reqAction m, .reqAction m' =>
    m.msgtype = m'.msgtype ∧ m.svcIdLen = m'.svcIdLen ∧ m.svcId.Same m'.svcId ∧ m.actionLen = m'.actionLen ∧
      m.action.Same m'.action
  | .reqSignal m, .reqSignal m' =>
    m.msgtype = m'.msgtype ∧ m.signal = m'.signal ∧ m.signalSid = m'.signalSid ∧ m.signalPgrp = m'.signalPgrp ∧
      m.svcIdLen = m'.svcIdLen ∧ m.svcId.Same m'.svcId
  | .reqStatus m, .reqStatus m' =>
    m.msgtype = m'.msgtype ∧ m.svcIdLen = m'.svcIdLen ∧ m.svcId.Same m'.svcId ∧
      m.restartWindowSeconds = m'.restartWindowSeconds
  | .reqSubscribe m, .reqSubscribe m' | .reqUnsubscribe m, .reqUnsubscribe m' =>
    m.msgtype = m'.msgtype ∧ m.allSvcs = m'.allSvcs ∧ m.svcIdLen = m'.svcIdLen ∧ m.svcId.Same m'.svcId
  | .replResult m, .replResult m' =>
    m.msgtype = m'.msgtype ∧ m.successful = m'.successful ∧ m.msgLen = m'.msgLen ∧ m.msg.Same m'.msg
  | .replListing m, .replListing m' =>
    m.msgtype = m'.msgtype ∧ m.svcIdLen = m'.svcIdLen ∧ m.svcId.Same m'.svcId
  | .replSvcinfo m, .replSvcinfo m' =>
    m.msgtype = m'.msgtype ∧ m.svcinfoLen = m'.svcinfoLen ∧
      { m.svcinfo with lastActionName := m'.svcinfo.lastActionName } = m'.svcinfo ∧
      m.svcinfo.lastActionName.Same m'.svcinfo.lastActionName ∧ m.svcIdLen = m'.svcIdLen ∧ m.svcId.Same m'.svcId
  | .replError m, .replError m' =>
    m.msgtype = m'.msgtype ∧ m.errlevel = m'.errlevel ∧ m.uerrno = m'.uerrno ∧ m.msgLen = m'.msgLen ∧
      m.msg.Same m'.msg ∧ m.svcIdLen = m'.svcIdLen ∧ m.svcId.Same m'.svcId
  | .replPreamble m, .replPreamble m' => m = m'
  | .reqSeqStart m, .reqSeqStart m' | .replSeqStart m, .replSeqStart m' => m = m'
  | .reqSeqEnd m, .reqSeqEnd m' | .replSeqEnd m, .replSeqEnd m' => m = m'
  | .reqList m, .reqList m' | .reqDisconnect m, .reqDisconnect m' | .replAck m, .replAck m' => m = m'
  | .pubPublication m, .pubPublication m' | .pubCancelation m, .pubCancelation m' => m = m'
  | _, _ => False

theorem Payload.agrees_canon (p : Payload) (h : p.StrsOk) : p.Agrees p.canon := by
  cases p with
  | reqPreamble m => exact ⟨rfl, rfl, rfl, rfl, StrOk.same h⟩
  | reqAction m => exact ⟨rfl, rfl, h.1.same, rfl, h.2.same⟩
  | reqSignal m => exact ⟨rfl, rfl, rfl, rfl, rfl, StrOk.same h⟩
  | reqStatus m => exact ⟨rfl, rfl, StrOk.same h, rfl⟩
  | reqSubscribe m => exact ⟨rfl, rfl, rfl, StrOk.same h⟩
  | reqUnsubscribe m => exact ⟨rfl, rfl, rfl, StrOk.same h⟩
  | replResult m => exact ⟨rfl, rfl, rfl, StrOk.same h⟩
  | replListing m => exact ⟨rfl, rfl, StrOk.same h⟩
  | replSvcinfo m => exact ⟨rfl, rfl, rfl, h.1.same, rfl, h.2.2.same⟩
  | replError m => exact ⟨rfl, rfl, rfl, rfl, h.1.same, rfl, h.2.same⟩
  | _ => exact rfl

end Upkeeper
