import Upkeeper.Kernel
import Upkeeper.Protocol.Types
import Upkeeper.UpkList.Basic
/-!
# Connections (`upk_network_types.h`)

A connection handle has a reader, which collects a packet in `readbuf`, a queue of messages to write, and what the
callbacks of the connection work on (`Session`). A callback is a name `κ`; what it does is a parameter, which may change
the session and the state `σ` of everything outside the handle. A packet that a callback queues is a call of
`upk_queue_packet` of its own.
-/

namespace Upkeeper

/-! ### Callbacks -/

/-- `UPK_REQ_LIMIT` -/
def upkReqLimit : UInt32 := 12

/-- `UPK_REPL_LIMIT` -/
def upkReplLimit : UInt32 := 4105

/-- `UPK_PUB_LIMIT` -/
def upkPubLimit : UInt32 := 8195

/-- `UPK_N_REQ_TYPES` -/
def upkNReqTypes : Nat := 10

/-- `UPK_N_REPL_TYPES` -/
def upkNReplTypes : Nat := 8

/-- `TOTAL_N_MSG_TYPES` -/
def totalNMsgTypes : Nat := 20

/-- `UPK_MSGTYPE_IDX` -/
def upkMsgtypeIdx (msgtype : UInt32) : Int :=
  if msgtype < upkReqLimit then (msgtype.toNat : Int) - upkReqOrigin.toNat
  else if msgtype < upkReplLimit then (msgtype.toNat : Int) - upkReplOrigin.toNat + upkNReqTypes
  else if msgtype < upkPubLimit then (msgtype.toNat : Int) - upkPubOrigin.toNat + (upkNReqTypes + upkNReplTypes)
  else -1

/-- `upk_net_cb_stk_t`: the handler of each message type -/
structure CbStk (κ : Type) where
  msgHandlers : Fin totalNMsgTypes → Option κ

/-- What the callbacks of a connection work on: its descriptor, its last message and its callback stack, if it has a
state. -/
structure Session (κ : Type) where
  fd : Int
  lastPktData : Option Payload
  state : Option (List (CbStk κ))

/-- What a callback does when it is called with a message -/
abbrev Callbacks (κ σ : Type) := κ → Session κ × σ → Option Payload → Session κ × σ

/-! ### Handles -/

/-- `upk_netmsg_queue_t` -/
structure NetMsg (κ : Type) where
  msg : CharArr upkMaxPacketSize
  msgLen : UInt64
  nBytesWritten : UInt64
  afterWriteCallback : Option κ

instance {κ : Type} : Inhabited (NetMsg κ) := ⟨⟨.zero _, 0, 0, none⟩⟩

/-- `upk_conn_handle_t` -/
structure ConnHandle (κ : Type) extends Session κ where
  readbuf : CharArr upkMaxPacketSize
  nHdrBytesRead : UInt8
  nRemainingRead : UInt64
  writeq : UpkList (NetMsg κ)
  userdata : Option Addr
  userdataFreeFunc : Option κ

/-- A connection with what surrounds it: the counter of all messages that wait to be written, `errno`, and the state
that only callbacks use. `calls` records the calls of message handlers, `sent` the bytes that the socket has taken. -/
structure Net (κ σ : Type) extends ConnHandle κ where
  pendingWriteq : UInt64
  errno : Errno
  world : σ
  calls : List (κ × Payload)
  sent : List UInt8

variable {κ σ : Type}

/-- The connection is closed. -/
abbrev Session.Closed (s : Session κ) : Prop := s.fd < 0

/-- `upk_disconnect_handle` -/
def Session.disconnect (s : Session κ) : Session κ := { s with fd := -2 }

/-- `upk_disconnect_handle` of the current handle -/
def Net.disconnect (net : Net κ σ) : Net κ σ := { net with fd := -2 }

/-- Call a callback. -/
def Net.call (cb : Callbacks κ σ) (k : κ) (msg : Option Payload) (net : Net κ σ) : Net κ σ :=
  let (s, w) := cb k (net.toSession, net.world) msg
  { net with toSession := s, world := w }

/-- A zeroed handle with a descriptor and a callback stack, on which nothing has happened -/
def Net.new (fd : Int) (callbackStack : List (CbStk κ)) (world : σ) : Net κ σ where
  fd := fd
  lastPktData := none
  state := some callbackStack
  readbuf := .zero _
  nHdrBytesRead := 0
  nRemainingRead := 0
  writeq := .init
  userdata := none
  userdataFreeFunc := none
  pendingWriteq := 0
  errno := .zero
  world := world
  calls := []
  sent := []

/-- Callbacks that do nothing -/
def ignore : Callbacks Unit Unit := fun _ s _ => s

/-- A call does not get to its end: it is undefined, or the next result is not one that its system call can return. -/
inductive Halt
  | fault (f : Wire.Fault)
  | noResult
  deriving DecidableEq, Repr

end Upkeeper
