import Mathlib.Data.Fintype.Pi
import Mathlib.Logic.Function.Basic
import Upkeeper.Library.CString
import Upkeeper.Library.Wire
import Upkeeper.Protocol.Types
/-!
# Service and controller configurations (`upk_config.h`, `upk_types.h`, `upk_uuid.h`)

Fields of one C type that the code treats alike are named by an enumeration, in the order of their declaration, and
the record has one function from the names: `IntField` are the `int32_t` settings of a service, `FlagField` its
`int8_t` settings, `PathField` its `char[UPK_MAX_PATH_LEN]` settings, `ScriptField` its scripts, and `DirField` the
directories of the controller.
-/

namespace Upkeeper

open Wire (Fault)

/-- `UPK_MAX_PATH_LEN` -/
def upkMaxPathLen : Nat := 8192

/-! ### Values -/

/-- `upk_uuid_t` -/
structure Uuid where
  timeLow : UInt32
  timeMid : UInt16
  timeHighAndVersion : UInt16
  clkSeqHigh : UInt8
  clkSeqLow : UInt8
  node : Fin 6 → UInt8
  deriving DecidableEq

/-- The zeroed UUID -/
def Uuid.zero : Uuid := ⟨0, 0, 0, 0, 0, fun _ => 0⟩

/-- `upk_state_t` -/
inductive UpkState
  | undefined
  | running
  | stopped
  | shutdown
  deriving DecidableEq, Repr

/-- A `char *` that is `NULL`, or points to a string on the heap, or to memory that has been freed -/
inductive CharPtr
  | null
  | text (s : CStr)
  | freed
  deriving DecidableEq

/-- A `double`, by its bits -/
structure Double where
  bits : UInt64
  deriving DecidableEq, Repr

/-- `DBL_MIN` -/
def dblMin : Double := ⟨0x0010000000000000⟩

/-- The conversion from `int`, which is exact -/
def Double.ofInt32 (i : Int32) : Double :=
  let n := i.toInt.natAbs
  if n = 0 then ⟨0⟩
  else ⟨.ofNat ((if i < 0 then 2 ^ 63 else 0) + (n.log2 + 1023) * 2 ^ 52 + (n * 2 ^ (52 - n.log2) - 2 ^ 52))⟩

/-- `strncpy(dst, s, UPK_MAX_STRING_LEN - 1)` into a `char[UPK_MAX_STRING_LEN]` -/
def strncpyString (s : CStr) : CharBuf upkMaxStringLen := .strncpy s (upkMaxStringLen - 1) (by decide)

/-- `strncpy(dst, s, UPK_MAX_PATH_LEN - 1)` into a `char[UPK_MAX_PATH_LEN]` -/
def strncpyPath (s : CStr) : CharBuf upkMaxPathLen := .strncpy s (upkMaxPathLen - 1) (by decide)

/-- `INT32_MIN` -/
def int32Min : Int32 := Int32.minValue

/-- `INT8_MIN` -/
def int8Min : Int8 := Int8.minValue

/-- `upk_svcid_t` -/
structure SvcId where
  pkg : CharBuf upkMaxStringLen
  name : CharBuf upkMaxStringLen
  deriving DecidableEq

/-- A zeroed identifier -/
def SvcId.zero : SvcId := ⟨.zero, .zero⟩

/-- `upk_cust_actscr_list_t` -/
structure CustActscr where
  name : CharBuf upkMaxStringLen
  script : CStr
  deriving DecidableEq

/-! ### Services -/

inductive IntField
  | startPriority
  | killTimeout
  | maxConsecutiveFailures
  | userMaxRestarts
  | userRestartWindow
  | userRateLimit
  | reconnectRetries
  deriving DecidableEq, Repr

inductive FlagField
  | randomizeRateLimit
  | unconfigureOnFileRemoval
  | preferBuddyStateForStopped
  | preferBuddyStateForRunning
  deriving DecidableEq, Repr

inductive PathField
  | execStart
  | execStop
  | execReload
  | redirectStdout
  | redirectStderr
  deriving DecidableEq, Repr

inductive ScriptField
  | startScript
  | stopScript
  | reloadScript
  | pipeStdoutScript
  | pipeStderrScript
  deriving DecidableEq, Repr

/-- `upk_svc_desc_t` -/
structure SvcDesc where
  name : CharBuf upkMaxStringLen
  package : CharBuf upkMaxStringLen
  provides : Option (List SvcId)
  uuid : Uuid
  shortDescription : CharBuf upkMaxStringLen
  longDescription : CharPtr
  prerequisites : Option (List SvcId)
  startAfter : Option (List SvcId)
  restartAllDependencies : Bool
  restartOnPrerequisiteRestart : Bool
  restartOnNamedPrereqRestart : Option (List SvcId)
  startupDelay : Int32
  ints : IntField → Int32
  flags : FlagField → Int8
  setUID : UInt32
  setGID : UInt32
  ringbufferSize : UInt64
  paths : PathField → CharBuf upkMaxPathLen
  scripts : ScriptField → CharPtr
  customActions : Option (List CustActscr)
  initialState : UpkState

/-- A zeroed service -/
def SvcDesc.zero : SvcDesc where
  name := .zero
  package := .zero
  provides := none
  uuid := .zero
  shortDescription := .zero
  longDescription := .null
  prerequisites := none
  startAfter := none
  restartAllDependencies := false
  restartOnPrerequisiteRestart := false
  restartOnNamedPrereqRestart := none
  startupDelay := 0
  ints := fun _ => 0
  flags := fun _ => 0
  setUID := 0
  setGID := 0
  ringbufferSize := 0
  paths := fun _ => .zero
  scripts := fun _ => .null
  customActions := none
  initialState := .undefined

/-- `INT32_MIN`, assigned to a `uid_t` or a `gid_t` -/
def idUnset : UInt32 := int32Min.toUInt32

/-- `INT32_MIN`, assigned to a `size_t` -/
def sizeUnset : UInt64 := int32Min.toInt64.toUInt64

/-- What `upk_svc_desc_clear` makes of a service -/
def upkSvcDescClear : SvcDesc :=
  { SvcDesc.zero with
    ints := fun _ => int32Min
    flags := fun _ => int8Min
    setUID := idUnset
    setGID := idUnset
    ringbufferSize := sizeUnset }

/-! ### Service identifiers -/

/-- `strstr`: where the first occurrence starts -/
def strstr (s t : CStr) : Option Nat := (List.range (s.chars.length + 1)).find? fun i => t.chars.isPrefixOf (s.chars.drop i)

/-- `upk_concat_svcid` into a `char[UPK_MAX_STRING_LEN]`; `remainder` is a `size_t`. -/
def upkConcatSvcid (pkg name : CStr) : Except Fault CStr :=
  let remainder : UInt64 := .ofNat (upkMaxStringLen - 1)
  let (dest, remainder) :=
    if pkg.chars ≠ [] then
      let dest := pkg.take remainder.toNat
      let remainder := remainder - .ofNat pkg.chars.length
      (dest.append ((cstr "::").take remainder.toNat), remainder - 2)
    else (.empty, remainder)
  let dest := dest.append (name.take remainder.toNat)
  if dest.chars.length < upkMaxStringLen then .ok dest else .error .overWrite

/-- `upk_svc_id` -/
def upkSvcId (svc : SvcDesc) : Except Fault CStr := upkConcatSvcid svc.package.toCStr svc.name.toCStr

/-- `upk_parse_svc_id` -/
def upkParseSvcId (key : CStr) (svc : SvcDesc) : SvcDesc :=
  match strstr key (cstr "::") with
  | some p =>
    { svc with
      package := strncpyString (key.take p)
      name := strncpyString (key.drop (p + 2)) }
  | none => { svc with name := strncpyString key }

/-! ### The controller -/

inductive DirField
  | stateDir
  | svcConfigPath
  | svcRunPath
  | upkBuddyPath
  deriving DecidableEq, Repr

/-- `upk_controller_config_t` -/
structure ControllerConfig where
  dirs : DirField → CharBuf upkMaxPathLen
  buddyVerbosity : UInt32
  buddyPollingInterval : Double
  controllerSocket : CharBuf upkMaxPathLen
  controllerBuddySock : CharBuf upkMaxPathLen
  serviceDefaults : SvcDesc
  svclist : Option (List SvcDesc)

/-- A zeroed configuration -/
def ControllerConfig.zero : ControllerConfig where
  dirs := fun _ => .zero
  buddyVerbosity := 0
  buddyPollingInterval := ⟨0⟩
  controllerSocket := .zero
  controllerBuddySock := .zero
  serviceDefaults := .zero
  svclist := none

end Upkeeper
