import Upkeeper.Kernel
/-!
# The state of buddy (`buddy.c`, `ctrl_protocol.h`)

Buddy runs as one process with a signal handler, so its state is one record: the global variables and the static ones
that outlive a call. The ring buffer is the list of its nodes from `info_ringbuffer` on, in the order of their `next`
pointers: following `next` takes the first node to the end of the list.
-/

namespace Upkeeper

/-! ### Commands and records -/

/-- `UPK_CTRL_ACK` -/
def upkCtrlAck : UInt32 := 1

/-- `UPK_CTRL_SHUTDOWN` -/
def upkCtrlShutdown : UInt32 := 2

/-- `UPK_CTRL_STATUS_REQ` -/
def upkCtrlStatusReq : UInt32 := 3

/-- `UPK_CTRL_ACTION_START` -/
def upkCtrlActionStart : UInt32 := 4

/-- `UPK_CTRL_ACTION_STOP` -/
def upkCtrlActionStop : UInt32 := 5

/-- `UPK_CTRL_ACTION_RELOAD` -/
def upkCtrlActionReload : UInt32 := 6

/-- `UPK_CTRL_ACTION_RUNONCE` -/
def upkCtrlActionRunonce : UInt32 := 7

/-- `UPK_CTRL_CUSTOM_ACTION_00` -/
def upkCtrlCustomAction00 : UInt32 := 8

/-- `UPK_CTRL_CUSTOM_ACTION_31` -/
def upkCtrlCustomAction31 : UInt32 := 39

/-- `UPK_CTRL_SIGNAL_01` -/
def upkCtrlSignal01 : UInt32 := 40

/-- `UPK_CTRL_SIGNAL_32` -/
def upkCtrlSignal32 : UInt32 := 71

/-- `buddy_runstate_t` -/
inductive RunState
  | unknown
  | stopped
  | running
  | ranonce
  deriving DecidableEq, Repr

/-- What the handler copies of its `siginfo_t` -/
structure Siginfo where
  signo : Int
  code : Int
  pid : Int
  status : Int
  deriving DecidableEq, Repr

/-- What a recording says: `buddy_info_t` without the fields that the ring needs -/
structure Record where
  servicePid : Int
  waitPid : Int
  command : UInt32
  desiredState : RunState
  siginfo : Siginfo
  waitStatus : Int
  timestamp : Int
  uuid : List UInt8
  deriving DecidableEq, Repr

/-- `buddy_info_t` -/
structure BuddyInfo extends Record where
  populated : Bool
  remaining : UInt64
  deriving DecidableEq, Repr

/-- A zeroed slot -/
def BuddyInfo.zero : BuddyInfo :=
  { servicePid := 0, waitPid := 0, command := 0, desiredState := .unknown, siginfo := ⟨0, 0, 0, 0⟩, waitStatus := 0,
    timestamp := 0, uuid := [], populated := false, remaining := 0 }

/-- What a slot holds -/
def BuddyInfo.held (info : BuddyInfo) : Option Record := if info.populated then some info.toRecord else none

@[simp] theorem BuddyInfo.held_zero : BuddyInfo.zero.held = none := rfl

/-- `sizeof(buddy_info_t)` -/
def sizeofBuddyInfo : Nat := 208

/-- `sizeof(buddy_cmnd_t)` -/
def sizeofBuddyCmnd : Nat := 4

/-! ### State -/

/-- What buddy looks at in the mode of a file -/
structure FileMode where
  regular : Bool
  executable : Bool
  deriving DecidableEq, Repr

/-- The configuration of buddy -/
structure BuddyConfig where
  reconnectRetries : Nat
  runawayRatelimit : Int
  userRatelimit : Int
  randomizeRatelimit : Bool
  userMaxRestarts : UInt32
  userRestartWindow : Int
  killTimeout : Int

/-- The configuration of buddy without any option -/
def exampleConfig : BuddyConfig where
  reconnectRetries := 5
  runawayRatelimit := 300
  userRatelimit := 0
  randomizeRatelimit := false
  userMaxRestarts := 10
  userRestartWindow := 5
  killTimeout := -1

/-- The variables of buddy. `writeCount` and `readCount` are the `ncount` of `write_ctrl` and of `read_ctrl`, `ack` is
the one of `buddy_flush_ringbuffer`, `stopCount` the `n` of `buddy_stop_proc`, and `statMode` what the last `stat` of
`buddy_exec_action` that succeeded found. -/
structure Buddy where
  uuid : List UInt8
  ring : List BuddyInfo
  ringbufferPending : Nat
  chldTerminated : Bool
  procPid : Int
  lastCommand : UInt32
  thisCommand : UInt32
  buddyShutdown : Int
  ctrlfd : Int
  desiredState : RunState
  respawnTimestamp : Int
  rapidRespawnCount : UInt32
  forceRatelimit : Bool
  jitter : Int
  writeCount : UInt64
  readCount : UInt64
  ack : UInt32
  stopCount : UInt8
  statMode : FileMode
  errno : Errno
  mask : SigSet

/-- Buddy when it enters its event loop, with a ring of `n` slots -/
def Buddy.init (n : Nat) (uuid : List UInt8) : Buddy where
  uuid := uuid
  ring := List.replicate n .zero
  ringbufferPending := 0
  chldTerminated := false
  procPid := 0
  lastCommand := 0
  thisCommand := 0
  buddyShutdown := 0
  ctrlfd := -1
  desiredState := .stopped
  respawnTimestamp := 0
  rapidRespawnCount := 0
  forceRatelimit := false
  jitter := 0
  writeCount := 0
  readCount := 0
  ack := 0
  stopCount := 0
  statMode := ⟨false, false⟩
  errno := .zero
  mask := ∅

end Upkeeper
