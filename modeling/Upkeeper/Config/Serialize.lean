import Upkeeper.Config.Fields
import Upkeeper.Library.Table
/-!
# Writing services as JSON (`upk_config.c`)

`upk_svclist_to_json_obj` makes an object of a list of services, with the entries that the handlers of
`upk_svcconf_pack` read. A setting that is not set is written as `null`, which no handler of a service takes.
-/

namespace Upkeeper

open Wire (Fault)

/-! ### What is written -/

/-- What `upk_json_serialize_or_null` is called with: a type, and a pointer to a value of it. A table keeps its entries
in the order of their insertion. -/
inductive SerializeArg
  | string (p : CharPtr)
  | array (vs : List Json)
  | int (i : Int32)
  | boolean (b : Int8)
  | object (es : List (CStr × Json))

/-- `upk_json_serialize_or_null` -/
def upkJsonSerializeOrNull : SerializeArg → Except Fault Json
  | .string .null => .ok .null
  | .string (.text s) => .ok (if s.chars.length > 0 then .string s else .null)
  | .string .freed => .error .useAfterFree
  | .array vs => .ok (if vs.length > 0 then .array vs else .null)
  | .int i => .ok (if i ≠ int32Min then .int i else .null)
  | .boolean b => .ok (if b ≠ int8Min then .bool (b ≠ 0) else .null)
  | .object es => .ok (if es.length > 0 then .object es else .null)

/-- `*((int32_t *) val)` for a `size_t`: its first four bytes, which are the low ones -/
def lowInt32 (n : UInt64) : Int32 := n.toUInt32.toInt32

/-- The array of a list of identifiers -/
def svcidArray (ids : Option (List SvcId)) : Except Fault (List Json) :=
  (ids.getD []).mapM fun id => do
    let buf ← upkConcatSvcid id.pkg.toCStr id.name.toCStr
    .ok (.string buf)

/-- The object of the custom actions -/
def customActionsObj (actions : Option (List CustActscr)) : List (CStr × Json) :=
  Table.ofList ((actions.getD []).map fun action => (action.name.toCStr, .string action.script))

/-- What is written for an `InitialState` -/
def initialStateJson : UpkState → Json
  | .running => .string (cstr "running")
  | .stopped => .string (cstr "stopped")
  | .undefined | .shutdown => .null

/-- The entries of `upk_svc_desc_to_json_obj`, in the order in which they are added. The text for the UUID is what is in
`uuid_buf` when `upk_string_to_uuid(&svc->UUID, uuid_buf)` has read a UUID from it. -/
def svcDescEntries (svc : SvcDesc) : List (String × Except Fault Json) :=
  let uuidBuf : CStr := .empty
  let svc := { svc with uuid := upkStringToUuid svc.uuid uuidBuf }
  [("Package", upkJsonSerializeOrNull (.string (.text svc.package.toCStr))),
    ("Provides", do upkJsonSerializeOrNull (.array (← svcidArray svc.provides))),
    ("UUID", upkJsonSerializeOrNull (.string (.text uuidBuf))),
    ("ShortDescription", upkJsonSerializeOrNull (.string (.text svc.shortDescription.toCStr))),
    ("LongDescription", upkJsonSerializeOrNull (.string svc.longDescription)),
    ("Prerequisites", do upkJsonSerializeOrNull (.array (← svcidArray svc.prerequisites))),
    ("StartPriority", upkJsonSerializeOrNull (.int (svc.ints .startPriority))),
    ("KillTimeout", upkJsonSerializeOrNull (.int (svc.ints .killTimeout))),
    ("MaxConsecutiveFailures", upkJsonSerializeOrNull (.int (svc.ints .maxConsecutiveFailures))),
    ("UserMaxRestarts", upkJsonSerializeOrNull (.int (svc.ints .userMaxRestarts))),
    ("UserRestartWindow", upkJsonSerializeOrNull (.int (svc.ints .userRestartWindow))),
    ("UserRateLimit", upkJsonSerializeOrNull (.int (svc.ints .userRateLimit))),
    ("RandomizeRateLimit", upkJsonSerializeOrNull (.boolean (svc.flags .randomizeRateLimit))),
    ("SetUID", upkJsonSerializeOrNull (.int svc.setUID.toInt32)),
    ("SetGID", upkJsonSerializeOrNull (.int svc.setGID.toInt32)),
    ("RingbufferSize", upkJsonSerializeOrNull (.int (lowInt32 svc.ringbufferSize))),
    ("ReconnectRetries", upkJsonSerializeOrNull (.int (svc.ints .reconnectRetries))),
    ("ExecStart", upkJsonSerializeOrNull (.string (.text (svc.paths .execStart).toCStr))),
    ("StartScript", upkJsonSerializeOrNull (.string (svc.scripts .startScript))),
    ("ExecStop", upkJsonSerializeOrNull (.string (.text (svc.paths .execStop).toCStr))),
    ("StopScript", upkJsonSerializeOrNull (.string (svc.scripts .stopScript))),
    ("ExecReload", upkJsonSerializeOrNull (.string (.text (svc.paths .execReload).toCStr))),
    ("ReloadScript", upkJsonSerializeOrNull (.string (svc.scripts .reloadScript))),
    ("CustomActions", upkJsonSerializeOrNull (.object (customActionsObj svc.customActions))),
    ("PipeStdoutScript", upkJsonSerializeOrNull (.string (svc.scripts .pipeStdoutScript))),
    ("PipeStderrScript", upkJsonSerializeOrNull (.string (svc.scripts .pipeStderrScript))),
    ("RedirectStdout", upkJsonSerializeOrNull (.string (.text (svc.paths .redirectStdout).toCStr))),
    ("RedirectStderr", upkJsonSerializeOrNull (.string (.text (svc.paths .redirectStderr).toCStr))),
    ("InitialState", .ok (initialStateJson svc.initialState)),
    ("UnconfigureOnFileRemoval", upkJsonSerializeOrNull (.boolean (svc.flags .unconfigureOnFileRemoval))),
    ("PreferBuddyStateForStopped", upkJsonSerializeOrNull (.boolean (svc.flags .preferBuddyStateForStopped))),
    ("PreferBuddyStateForRunning", upkJsonSerializeOrNull (.boolean (svc.flags .preferBuddyStateForRunning)))]

/-- `upk_svc_desc_to_json_obj`: the entries of the object -/
def upkSvcDescToJsonObj (svc : SvcDesc) : Except Fault (List (CStr × Json)) := do
  let es ← (svcDescEntries svc).mapM fun e => do .ok (cstr e.1, ← e.2)
  .ok (Table.ofList es)

/-- `upk_svclist_to_json_obj` -/
def upkSvclistToJsonObj : Option (List SvcDesc) → Except Fault Json
  | none => .ok .null
  | some svcs => do
    let es ← svcs.mapM fun svc => do
      let idbuf ← upkSvcId svc
      let p ← upkSvcDescToJsonObj svc
      .ok (idbuf, .object p)
    .ok (.object (Table.ofList es))

/-! ### The entry of a field -/

/-- The key under which the field is written; a name is not. -/
def SvcField.key : SvcField → String
  | .name => "Name"
  | .package => "Package"
  | .uuid => "UUID"
  | .shortDescription => "ShortDescription"
  | .longDescription => "LongDescription"
  | .int .startPriority => "StartPriority"
  | .int .killTimeout => "KillTimeout"
  | .int .maxConsecutiveFailures => "MaxConsecutiveFailures"
  | .int .userMaxRestarts => "UserMaxRestarts"
  | .int .userRestartWindow => "UserRestartWindow"
  | .int .userRateLimit => "UserRateLimit"
  | .int .reconnectRetries => "ReconnectRetries"
  | .flag .randomizeRateLimit => "RandomizeRateLimit"
  | .flag .unconfigureOnFileRemoval => "UnconfigureOnFileRemoval"
  | .flag .preferBuddyStateForStopped => "PreferBuddyStateForStopped"
  | .flag .preferBuddyStateForRunning => "PreferBuddyStateForRunning"
  | .setUID => "SetUID"
  | .setGID => "SetGID"
  | .ringbufferSize => "RingbufferSize"
  | .path .execStart => "ExecStart"
  | .path .execStop => "ExecStop"
  | .path .execReload => "ExecReload"
  | .path .redirectStdout => "RedirectStdout"
  | .path .redirectStderr => "RedirectStderr"
  | .script .startScript => "StartScript"
  | .script .stopScript => "StopScript"
  | .script .reloadScript => "ReloadScript"
  | .script .pipeStdoutScript => "PipeStdoutScript"
  | .script .pipeStderrScript => "PipeStderrScript"
  | .svcids .provides => "Provides"
  | .svcids .prerequisites => "Prerequisites"
  | .customActions => "CustomActions"
  | .initialState => "InitialState"

/-- What is written for the field -/
def encodeField (svc : SvcDesc) : SvcField → Except Fault Json
  | .name => .ok .null
  | .package => upkJsonSerializeOrNull (.string (.text svc.package.toCStr))
  | .uuid => upkJsonSerializeOrNull (.string (.text .empty))
  | .shortDescription => upkJsonSerializeOrNull (.string (.text svc.shortDescription.toCStr))
  | .longDescription => upkJsonSerializeOrNull (.string svc.longDescription)
  | .int f => upkJsonSerializeOrNull (.int (svc.ints f))
  | .flag f => upkJsonSerializeOrNull (.boolean (svc.flags f))
  | .setUID => upkJsonSerializeOrNull (.int svc.setUID.toInt32)
  | .setGID => upkJsonSerializeOrNull (.int svc.setGID.toInt32)
  | .ringbufferSize => upkJsonSerializeOrNull (.int (lowInt32 svc.ringbufferSize))
  | .path f => upkJsonSerializeOrNull (.string (.text (svc.paths f).toCStr))
  | .script f => upkJsonSerializeOrNull (.string (svc.scripts f))
  | .svcids l => do upkJsonSerializeOrNull (.array (← svcidArray (svc.svcids l)))
  | .customActions => upkJsonSerializeOrNull (.object (customActionsObj svc.customActions))
  | .initialState => .ok (initialStateJson svc.initialState)

/-- The fields, in the order in which they are written -/
def encodedFields : List SvcField :=
  [.package, .svcids .provides, .uuid, .shortDescription, .longDescription, .svcids .prerequisites,
    .int .startPriority, .int .killTimeout, .int .maxConsecutiveFailures, .int .userMaxRestarts,
    .int .userRestartWindow, .int .userRateLimit, .flag .randomizeRateLimit, .setUID, .setGID, .ringbufferSize,
    .int .reconnectRetries, .path .execStart, .script .startScript, .path .execStop, .script .stopScript,
    .path .execReload, .script .reloadScript, .customActions, .script .pipeStdoutScript, .script .pipeStderrScript,
    .path .redirectStdout, .path .redirectStderr, .initialState, .flag .unconfigureOnFileRemoval,
    .flag .preferBuddyStateForStopped, .flag .preferBuddyStateForRunning]

theorem svcDescEntries_eq (svc : SvcDesc) :
    svcDescEntries svc = encodedFields.map fun f => (f.key, encodeField svc f) := rfl

theorem mem_encodedFields {f : SvcField} (h : f ≠ .name) : f ∈ encodedFields := by
  cases f with
  | name => exact absurd rfl h
  | int f => cases f <;> decide
  | flag f => cases f <;> decide
  | path f => cases f <;> decide
  | script f => cases f <;> decide
  | svcids l => cases l <;> decide
  | _ => decide

theorem nodup_encodedFields : encodedFields.Nodup := by decide

theorem nodup_keys : (encodedFields.map fun f => cstr f.key).Nodup := by decide +kernel

/-! ### The handlers know the keys

Each key of a chain is matched where it stands first.
-/

theorem matchKey_flag (f : FlagField) : matchKey svcBoolKeys (cstr (SvcField.flag f).key) = some f := by
  have hall : ∀ e ∈ svcBoolKeys, matchKey svcBoolKeys (cstr e.1) = some e.2 := by decide +kernel
  have hmem : ((SvcField.flag f).key, f) ∈ svcBoolKeys := by cases f <;> simp [svcBoolKeys, SvcField.key]
  exact hall ((SvcField.flag f).key, f) hmem

theorem matchKey_int (k : SvcIntKey) : matchKey svcIntKeys (cstr k.field.key) = some k := by
  have hall : ∀ e ∈ svcIntKeys, matchKey svcIntKeys (cstr e.1) = some e.2 := by decide +kernel
  have hmem : (k.field.key, k) ∈ svcIntKeys := by
    cases k with
    | int f => cases f <;> simp [svcIntKeys, SvcIntKey.field, SvcField.key]
    | _ => simp [svcIntKeys, SvcIntKey.field, SvcField.key]
  exact hall (k.field.key, k) hmem

theorem matchKey_string (k : SvcStringKey) : matchKey svcStringKeys (cstr k.field.key) = some k := by
  have hall : ∀ e ∈ svcStringKeys, matchKey svcStringKeys (cstr e.1) = some e.2 := by decide +kernel
  have hmem : (k.field.key, k) ∈ svcStringKeys := by
    cases k with
    | path f => cases f <;> simp [svcStringKeys, SvcStringKey.field, SvcField.key]
    | script f => cases f <;> simp [svcStringKeys, SvcStringKey.field, SvcField.key]
    | _ => simp [svcStringKeys, SvcStringKey.field, SvcField.key]
  exact hall (k.field.key, k) hmem

theorem matchKey_svcids (l : SvcidField) : matchKey svcidKeys (cstr (SvcField.svcids l).key) = some l := by
  have hall : ∀ e ∈ svcidKeys, matchKey svcidKeys (cstr e.1) = some e.2 := by decide +kernel
  have hmem : ((SvcField.svcids l).key, l) ∈ svcidKeys := by cases l <;> simp [svcidKeys, SvcField.key]
  exact hall ((SvcField.svcids l).key, l) hmem

theorem strcasecmpEq_customActions : (cstr SvcField.customActions.key).strcasecmpEq (cstr "CustomActions") = true := by
  decide +kernel

/-! ### Identifiers -/

/-- The identifier of the package and the name fits into its buffer. Behind a package that leaves no room for the
separator and the terminator, `remainder` wraps around, and all of the name is added. -/
def FitsId (pkg name : CharBuf upkMaxStringLen) : Prop := pkg.chars.length + 2 < upkMaxStringLen ∨ name.chars = []

instance (pkg name : CharBuf upkMaxStringLen) : Decidable (FitsId pkg name) := inferInstanceAs (Decidable (_ ∨ _))

theorem exists_ok_ite {ε α : Type} {p : Prop} [Decidable p] {a : α} {e : ε} :
    (∃ b, (if p then Except.ok a else .error e) = (.ok b : Except ε α)) ↔ p := by
  by_cases h : p <;> simp [h]

theorem exists_upkConcatSvcid {pkg name : CharBuf upkMaxStringLen} :
    (∃ s, upkConcatSvcid pkg.toCStr name.toCStr = .ok s) ↔ FitsId pkg name := by
  have hmax : upkMaxStringLen = 2048 := rfl
  have hpkg := pkg.fits
  have hname := name.fits
  have hfull : (UInt64.ofNat (upkMaxStringLen - 1)).toNat = 2047 := rfl
  have hsep : (cstr "::").chars.length = 2 := by decide
  have hempty : name.chars = [] ↔ name.chars.length = 0 := List.length_eq_zero_iff.symm
  unfold upkConcatSvcid FitsId
  by_cases hp : pkg.chars ≠ []
  · have hpos : 0 < pkg.chars.length := List.length_pos_iff.mpr hp
    have hleft : (UInt64.ofNat (upkMaxStringLen - 1) - .ofNat pkg.chars.length).toNat = 2047 - pkg.chars.length := by
      rw [UInt64.toNat_sub, hfull, UInt64.toNat_ofNat']
      omega
    have hlast : (UInt64.ofNat (upkMaxStringLen - 1) - .ofNat pkg.chars.length - 2).toNat =
        (2 ^ 64 + 2045 - pkg.chars.length) % 2 ^ 64 := by
      rw [UInt64.toNat_sub, hleft]
      show (2 ^ 64 - 2 + _) % 2 ^ 64 = _
      omega
    dsimp only
    rw [if_pos hp]
    dsimp only
    rw [exists_ok_ite, hempty]
    simp only [CStr.append, CStr.take, List.length_append, List.length_take, hfull, hleft, hlast, hsep]
    omega
  · have hnil : pkg.chars = [] := not_not.mp hp
    dsimp only
    rw [if_neg hp]
    dsimp only
    rw [exists_ok_ite, hnil]
    simp only [CStr.append, CStr.take, CStr.empty, List.length_append, List.length_take, hfull, List.length_nil]
    omega
theorem exists_svcidArray {ids : Option (List SvcId)} :
    (∃ vs, svcidArray ids = .ok vs) ↔ ∀ l ∈ ids, ∀ id ∈ l, FitsId id.pkg id.name := by
  have hid {id : SvcId} : (∃ v, (do .ok (.string (← upkConcatSvcid id.pkg.toCStr id.name.toCStr)) : Except Fault Json)
      = .ok v) ↔ FitsId id.pkg id.name := by
    simp only [Wire.bind_eq_ok, ← exists_upkConcatSvcid]
    constructor
    · rintro ⟨-, s, hs, -⟩
      exact ⟨s, hs⟩
    · rintro ⟨s, hs⟩
      exact ⟨_, s, hs, rfl⟩
  rw [svcidArray, Wire.exists_mapM_eq_ok]
  simp only [hid]
  cases ids with
  | none => simp
  | some l => simp

end Upkeeper
