import Upkeeper.Config.Json
import Upkeeper.Config.Uuid
/-!
# The handlers of the configuration files (`upk_config.c`)

A handler compares its key with one literal after another, without regard to case. Such a chain is a table here, in the
order of the comparisons. Handlers that take the key for a string crash where there is none, which is in an array.
-/

namespace Upkeeper

open Wire (Fault)

/-- `if(strcasecmp(key, ...) == 0) ... else if ...`: the first entry that matches -/
def matchKey {α : Type} (chain : List (String × α)) (key : CStr) : Option α :=
  (chain.find? fun e => key.strcasecmpEq (cstr e.1)).map (·.2)

/-! ### What the nodes point to -/

/-- A service of a configuration: `&cfg->ServiceDefaults`, or an element of `cfg->svclist` -/
inductive SvcTarget
  | serviceDefaults
  | svclist (i : Nat)

/-- The lists of service identifiers that can be configured -/
inductive SvcidField
  | provides
  | prerequisites
  deriving DecidableEq, Repr

/-- The `data` of a node -/
inductive ConfData
  | cfg
  | svc (t : SvcTarget)
  | svcids (t : SvcTarget) (l : SvcidField)
  | customActions (t : SvcTarget)

/-- The functions that are installed as handlers -/
inductive ConfHandler
  | confError
  | svcidArrayAppender
  | arrayHandler
  | customactionArrayAppender
  | nestedObjectHandler
  | ctrlconfObjectHandler
  | ctrlconfStringHandler
  | ctrlconfIntHandler
  | ctrlconfDoubleHandler
  | ctrlconfToplvlObj
  | svcconfObjectHandler
  | svcconfToplvlObj
  | svcconfBoolHandler
  | svcconfIntHandler
  | svcconfStringHandler
  deriving DecidableEq, Repr

abbrev ConfNode := StackNode ConfHandler ConfData

abbrev ConfMeta := JsonMeta ConfHandler ConfData ControllerConfig

def ControllerConfig.modifySvc (t : SvcTarget) (f : SvcDesc → SvcDesc) (cfg : ControllerConfig) : ControllerConfig :=
  match t with
  | .serviceDefaults => { cfg with serviceDefaults := f cfg.serviceDefaults }
  | .svclist i => { cfg with svclist := cfg.svclist.map fun svcs => svcs.modify i f }

namespace ConfMeta

def modifyCfg (f : ControllerConfig → ControllerConfig) (m : ConfMeta) : ConfMeta := { m with world := f m.world }

def modifySvc (t : SvcTarget) (f : SvcDesc → SvcDesc) (m : ConfMeta) : ConfMeta :=
  modifyCfg (ControllerConfig.modifySvc t f) m

end ConfMeta

/-! ### Which handlers a node has -/

/-- `upk_svcconf_setup_array_handlers` -/
def upkSvcconfSetupArrayHandlers : Handlers ConfHandler where
  jsonNull := none
  jsonBool := some .confError
  jsonDouble := some .confError
  jsonInt := some .confError
  jsonString := some .svcidArrayAppender
  jsonArray := some .confError
  jsonObject := some .confError
  afterJsonObjPop := none
  afterJsonArrayPop := none

/-- `upk_svcconf_setup_object_handlers` -/
def upkSvcconfSetupObjectHandlers : Handlers ConfHandler where
  jsonNull := none
  jsonBool := some .confError
  jsonDouble := some .confError
  jsonInt := some .confError
  jsonString := some .customactionArrayAppender
  jsonArray := some .confError
  jsonObject := some .confError
  afterJsonObjPop := none
  afterJsonArrayPop := none

/-- `upk_svcconf_setup_handlers` -/
def upkSvcconfSetupHandlers : Handlers ConfHandler where
  jsonNull := none
  jsonBool := some .svcconfBoolHandler
  jsonDouble := some .confError
  jsonInt := some .svcconfIntHandler
  jsonString := some .svcconfStringHandler
  jsonArray := some .arrayHandler
  jsonObject := some .nestedObjectHandler
  afterJsonObjPop := none
  afterJsonArrayPop := none

/-- The handlers that report everything but an object -/
def objectHandlers (object : ConfHandler) : Handlers ConfHandler where
  jsonNull := some .confError
  jsonBool := some .confError
  jsonDouble := some .confError
  jsonInt := some .confError
  jsonString := some .confError
  jsonArray := some .confError
  jsonObject := some object
  afterJsonObjPop := none
  afterJsonArrayPop := none

/-- `ctrl_node.handlers`, in `upk_ctrlconf_toplvl_obj` -/
def ctrlNodeHandlers : Handlers ConfHandler where
  jsonNull := some .confError
  jsonBool := some .confError
  jsonDouble := some .ctrlconfDoubleHandler
  jsonInt := some .ctrlconfIntHandler
  jsonString := some .ctrlconfStringHandler
  jsonArray := some .confError
  jsonObject := some .ctrlconfObjectHandler
  afterJsonObjPop := none
  afterJsonArrayPop := none

/-- `init_node`, in `upk_svcconf_pack` -/
def svcconfInitNode : ConfNode := ⟨.cfg, objectHandlers .svcconfToplvlObj⟩

/-- `svc_node`, in `upk_svcconf_toplvl_obj` -/
def svcNode : ConfNode := ⟨.cfg, objectHandlers .svcconfObjectHandler⟩

/-- `init_node`, in `upk_ctrlconf_pack` -/
def ctrlconfInitNode : ConfNode := ⟨.cfg, objectHandlers .ctrlconfToplvlObj⟩

/-- `ctrl_node`, in `upk_ctrlconf_toplvl_obj` -/
def ctrlNode : ConfNode := ⟨.cfg, ctrlNodeHandlers⟩

/-- `service_node` -/
def serviceNode (t : SvcTarget) : ConfNode := ⟨.svc t, upkSvcconfSetupHandlers⟩

/-- `service_array_node`, in `upk_svcconf_array_handler` -/
def svcidsNode (t : SvcTarget) (l : SvcidField) : ConfNode := ⟨.svcids t l, upkSvcconfSetupArrayHandlers⟩

/-- `service_array_node`, in `upk_svcconf_nested_object_handler` -/
def customActionsNode (t : SvcTarget) : ConfNode := ⟨.customActions t, upkSvcconfSetupObjectHandlers⟩

/-! ### Lists -/

/-- `':'` -/
def colon : UInt8 := 58

/-- What `upk_svcconf_svcid_array_appender` appends -/
def upkSvcconfSvcid (s : CStr) : SvcId :=
  match s.chars.idxOf? colon with
  | some p => if p < upkMaxStringLen then ⟨strncpyString (s.take p), strncpyString (s.drop (p + 1))⟩ else .zero
  | none =>
    if strncasecmpEq 5 s.chars (cstr "uuid#").chars then { SvcId.zero with pkg := strncpyString (s.drop 5) }
    else { SvcId.zero with name := strncpyString s }

/-- A list of identifiers, changed -/
def SvcDesc.modifySvcids (l : SvcidField) (f : Option (List SvcId) → Option (List SvcId)) (d : SvcDesc) : SvcDesc :=
  match l with
  | .provides => { d with provides := f d.provides }
  | .prerequisites => { d with prerequisites := f d.prerequisites }

/-- `upk_svcconf_svcid_array_appender` -/
def upkSvcconfSvcidArrayAppender (l : SvcidField) (s : CStr) (d : SvcDesc) : SvcDesc :=
  d.modifySvcids l (·.map (· ++ [upkSvcconfSvcid s]))

/-- The chain of `upk_svcconf_array_handler` -/
def svcidKeys : List (String × SvcidField) := [("Provides", .provides), ("Prerequisites", .prerequisites)]

/-- `upk_svcconf_array_handler`, with `d` in `t` -/
def upkSvcconfArrayHandler (t : SvcTarget) (key : CStr) (m : ConfMeta) : ConfMeta :=
  match matchKey svcidKeys key with
  | some l => (ConfMeta.modifySvc t (·.modifySvcids l fun ids => some (ids.getD [])) m).push (svcidsNode t l)
  | none => m

/-- `upk_svcconf_customaction_array_appender` -/
def upkSvcconfCustomactionArrayAppender (key s : CStr) (d : SvcDesc) : SvcDesc :=
  { d with customActions := d.customActions.map (· ++ [⟨strncpyString key, s⟩]) }

/-- `upk_svcconf_nested_object_handler`, with `d` in `t` -/
def upkSvcconfNestedObjectHandler (t : SvcTarget) (key : CStr) (m : ConfMeta) : ConfMeta :=
  if key.strcasecmpEq (cstr "CustomActions") then
    (ConfMeta.modifySvc t (fun d => { d with customActions := some (d.customActions.getD []) }) m).push
      (customActionsNode t)
  else m

/-! ### Services -/

/-- The chain of `upk_svcconf_bool_handler` -/
def svcBoolKeys : List (String × FlagField) :=
  [("RandomizeRateLimit", .randomizeRateLimit),
    ("UnconfigureOnFileRemoval", .unconfigureOnFileRemoval),
    ("PreferBuddyStateForStopped", .preferBuddyStateForStopped),
    ("PreferBuddyStateForRunning", .preferBuddyStateForRunning),
    ("UnconfigureOnFileRemoval", .unconfigureOnFileRemoval)]

/-- `upk_svcconf_bool_handler` -/
def upkSvcconfBoolHandler (key : CStr) (bl : Bool) (d : SvcDesc) : SvcDesc :=
  match matchKey svcBoolKeys key with
  | some f => { d with flags := Function.update d.flags f (if bl then 1 else 0) }
  | none => d

/-- What `upk_svcconf_int_handler` sets -/
inductive SvcIntKey
  | int (f : IntField)
  | setUID
  | setGID
  | ringbufferSize
  deriving DecidableEq, Repr

/-- The chain of `upk_svcconf_int_handler` -/
def svcIntKeys : List (String × SvcIntKey) :=
  [("StartPriority", .int .startPriority),
    ("KillTimeout", .int .killTimeout),
    ("MaxConsecutiveFailures", .int .maxConsecutiveFailures),
    ("UserMaxRestarts", .int .userMaxRestarts),
    ("UserRestartWindow", .int .userRestartWindow),
    ("UserRateLimit", .int .userRateLimit),
    ("SetUID", .setUID),
    ("SetGID", .setGID),
    ("RingbufferSize", .ringbufferSize),
    ("ReconnectRetries", .int .reconnectRetries)]

/-- `upk_svcconf_int_handler` -/
def upkSvcconfIntHandler (key : CStr) (i : Int32) (d : SvcDesc) : SvcDesc :=
  match matchKey svcIntKeys key with
  | some (.int f) => { d with ints := Function.update d.ints f i }
  | some .setUID => { d with setUID := i.toUInt32 }
  | some .setGID => { d with setGID := i.toUInt32 }
  | some .ringbufferSize => { d with ringbufferSize := i.toInt64.toUInt64 }
  | none => d

/-- What `upk_svcconf_string_handler` sets -/
inductive SvcStringKey
  | package
  | name
  | uuid
  | shortDescription
  | longDescription
  | path (f : PathField)
  | script (f : ScriptField)
  | initialState
  | setUID
  | setGID
  deriving DecidableEq, Repr

/-- The chain of `upk_svcconf_string_handler` -/
def svcStringKeys : List (String × SvcStringKey) :=
  [("Package", .package),
    ("Name", .name),
    ("UUID", .uuid),
    ("ShortDescription", .shortDescription),
    ("LongDescription", .longDescription),
    ("ExecStart", .path .execStart),
    ("StartScript", .script .startScript),
    ("ExecStop", .path .execStop),
    ("StopScript", .script .stopScript),
    ("ExecReload", .path .execReload),
    ("ReloadScript", .script .reloadScript),
    ("PipeStdoutScript", .script .pipeStdoutScript),
    ("PipeStderrScript", .script .pipeStderrScript),
    ("RedirectStdout", .path .redirectStdout),
    ("RedirectStderr", .path .redirectStderr),
    ("InitialState", .initialState),
    ("SetUID", .setUID),
    ("SetGID", .setGID)]

/-- The room that `upk_svcconf_string_handler` makes for a `LongDescription` -/
def longDescriptionMax : Nat := 16384

/-- The value of an `InitialState` -/
def parseInitialState (s : CStr) : UpkState :=
  if ["running", "up", "start", "run"].any fun word => s.strcasecmpEq (cstr word) then .running else .shutdown

section Passwd

-- `getpwnam_r`: the user and the group of a name that is known
variable (passwd : CStr → Option (UInt32 × UInt32))

/-- `upk_svcconf_string_handler`: the change it makes to a service -/
def upkSvcconfStringHandler (key s : CStr) : Except Stop (SvcDesc → SvcDesc) :=
  match matchKey svcStringKeys key with
  | some .package => .ok fun d => { d with package := strncpyString s }
  | some .name => .ok fun d => { d with name := strncpyString s }
  | some .uuid => .ok fun d => { d with uuid := upkStringToUuid d.uuid s }
  | some .shortDescription => .ok fun d => { d with shortDescription := strncpyString s }
  | some .longDescription =>
    -- all of it is copied into the room that `strnlen` has counted
    if s.chars.length ≤ longDescriptionMax then .ok fun d => { d with longDescription := .text s }
    else .error (.fault .overWrite)
  | some (.path f) => .ok fun d => { d with paths := Function.update d.paths f (strncpyPath s) }
  | some (.script f) => .ok fun d => { d with scripts := Function.update d.scripts f (.text s) }
  | some .initialState => .ok fun d => { d with initialState := parseInitialState s }
  | some .setUID => .ok fun d => { d with setUID := ((passwd s).map (·.1)).getD d.setUID }
  | some .setGID => .ok fun d => { d with setGID := ((passwd s).map (·.2)).getD d.setGID }
  | none => .ok id

/-! ### The controller -/

/-- `upk_svcconf_object_handler` -/
def upkSvcconfObjectHandler (key : CStr) (m : ConfMeta) : ConfMeta :=
  let svcs := m.world.svclist.getD []
  (ConfMeta.modifyCfg (fun cfg => { cfg with svclist := some (svcs ++ [upkParseSvcId key upkSvcDescClear]) }) m).push
    (serviceNode (.svclist svcs.length))

/-- `upk_ctrlconf_object_handler` -/
def upkCtrlconfObjectHandler (key : CStr) (m : ConfMeta) : ConfMeta :=
  if key.strcasecmpEq (cstr "ServiceDefaults") then
    (ConfMeta.modifySvc .serviceDefaults (upkParseSvcId key) m).push (serviceNode .serviceDefaults)
  else m

/-- `strncpy(dst, s, UPK_MAX_STRING_LEN - 1)` into a `char[UPK_MAX_PATH_LEN]`, in which no longer text has been -/
def strncpyDir (s : CStr) : CharBuf upkMaxPathLen := .strncpy s (upkMaxStringLen - 1) (by decide)

/-- The chain of `upk_ctrlconf_string_handler` -/
def ctrlStringKeys : List (String × DirField) :=
  [("StateDir", .stateDir), ("SvcConfigPath", .svcConfigPath), ("SvcRunPath", .svcRunPath),
    ("UpkBuddyPath", .upkBuddyPath)]

/-- `upk_ctrlconf_string_handler` -/
def upkCtrlconfStringHandler (key s : CStr) : Except Stop (ControllerConfig → ControllerConfig) :=
  match matchKey ctrlStringKeys key with
  | some f => .ok fun cfg => { cfg with dirs := Function.update cfg.dirs f (strncpyDir s) }
  | none => .error .exit

/-- What `upk_ctrlconf_int_handler` sets -/
inductive CtrlIntKey
  | buddyVerbosity
  | buddyPollingInterval
  deriving DecidableEq, Repr

/-- The chain of `upk_ctrlconf_int_handler` -/
def ctrlIntKeys : List (String × CtrlIntKey) :=
  [("BuddyVerbosity", .buddyVerbosity), ("BuddyPollingInterval", .buddyPollingInterval)]

/-- `upk_ctrlconf_int_handler` -/
def upkCtrlconfIntHandler (key : CStr) (i : Int32) : Except Stop (ControllerConfig → ControllerConfig) :=
  match matchKey ctrlIntKeys key with
  | some .buddyVerbosity => .ok fun cfg => { cfg with buddyVerbosity := i.toUInt32 }
  | some .buddyPollingInterval => .ok fun cfg => { cfg with buddyPollingInterval := .ofInt32 i }
  | none => .error .exit

/-- `upk_ctrlconf_double_handler` -/
def upkCtrlconfDoubleHandler (key : CStr) (dbl : Double) : Except Stop (ControllerConfig → ControllerConfig) :=
  if key.strcasecmpEq (cstr "BuddyPollingInterval") then .ok fun cfg => { cfg with buddyPollingInterval := dbl }
  else .error .exit

/-! ### All of them -/

/-- A handler, called with the data of its node. All that look at the key dereference it. -/
def confCalls : HandlerCalls ConfHandler ConfData ControllerConfig
  | .confError, _, _, _, m => .ok m
  | .svcidArrayAppender, .svcids t l, _, .string s, m => .ok (ConfMeta.modifySvc t (upkSvcconfSvcidArrayAppender l s) m)
  | .customactionArrayAppender, .customActions t, some key, .string s, m =>
    .ok (ConfMeta.modifySvc t (upkSvcconfCustomactionArrayAppender key s) m)
  | .arrayHandler, .svc t, some key, .array _, m => .ok (upkSvcconfArrayHandler t key m)
  | .nestedObjectHandler, .svc t, some key, .object _, m => .ok (upkSvcconfNestedObjectHandler t key m)
  | .svcconfBoolHandler, .svc t, some key, .bool b, m => .ok (ConfMeta.modifySvc t (upkSvcconfBoolHandler key b) m)
  | .svcconfIntHandler, .svc t, some key, .int i, m => .ok (ConfMeta.modifySvc t (upkSvcconfIntHandler key i) m)
  | .svcconfStringHandler, .svc t, some key, .string s, m => do
    let f ← upkSvcconfStringHandler passwd key s
    .ok (ConfMeta.modifySvc t f m)
  | .svcconfObjectHandler, .cfg, some key, .object _, m => .ok (upkSvcconfObjectHandler key m)
  | .svcconfToplvlObj, .cfg, _, .object _, m => .ok (m.push svcNode)
  | .ctrlconfObjectHandler, .cfg, some key, .object _, m => .ok (upkCtrlconfObjectHandler key m)
  | .ctrlconfStringHandler, .cfg, some key, .string s, m => do
    let f ← upkCtrlconfStringHandler key s
    .ok (ConfMeta.modifyCfg f m)
  | .ctrlconfIntHandler, .cfg, some key, .int i, m => do
    let f ← upkCtrlconfIntHandler key i
    .ok (ConfMeta.modifyCfg f m)
  | .ctrlconfDoubleHandler, .cfg, some key, .double dbl, m => do
    let f ← upkCtrlconfDoubleHandler key dbl
    .ok (ConfMeta.modifyCfg f m)
  | .ctrlconfToplvlObj, .cfg, _, .object _, m => .ok (m.push ctrlNode)
  | _, _, _, _, _ => .error (.fault .nullDeref)

/-- `upk_svcconf_pack`, of a text that has been parsed -/
def upkSvcconfPack (cfg : ControllerConfig) (doc : Option Json) : Except Stop ControllerConfig :=
  match doc with
  | none => .ok cfg
  | some v => do
    let m ← upkJsonParseNode (confCalls passwd) none v ⟨[svcconfInitNode], cfg⟩
    .ok m.world

/-- `upk_ctrlconf_pack`, of a text that has been parsed -/
def upkCtrlconfPack (cfg : ControllerConfig) (doc : Option Json) : Except Stop ControllerConfig :=
  match doc with
  | none => .ok cfg
  | some v => do
    let m ← upkJsonParseNode (confCalls passwd) none v ⟨[ctrlconfInitNode], cfg⟩
    .ok m.world

end Passwd

end Upkeeper
