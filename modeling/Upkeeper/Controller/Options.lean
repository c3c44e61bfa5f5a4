import Upkeeper.Controller.Store
import Upkeeper.Library.Group
import Upkeeper.Library.Decimal
/-!
# The options in the store (`upk_db_upsert_options`)

The options of a service with their values. `svc_options_s1` has `(uuid, key)` as its primary key, so it is a function of
both; the option that a service does not set keeps the row that it had (`latest_iff`). `svc_list_options_s1` has no primary
key: its rows are deleted and written anew, with the index of each entry, and the index of custom actions does not advance
(`readsBack_iff`). `upsertOptions_represents` connects both tables with those of the store without values.
-/

namespace Upkeeper

/-! ### Values -/

/-- `upk_svc_desc_t` as an object: the service, and what stands behind each field of one byte. `UPSERT_INT` reads every
field as an `int`. -/
structure SvcImage where
  svc : SvcDesc
  behind : CStr → UInt32

/-- The text that an `int` is stored as -/
def intText (i : Int32) : CStr := .ofChars (Decimal.signed i.toInt)

/-- An option with the value that is stored, if one is -/
abbrev OptionValue := CStr × Option (Option CStr)

/-- `UPSERT_TEXT` of an array -/
def upsertText (key text : CStr) : OptionValue := (key, some (if text.chars ≠ [] then some text else none))

/-- `UPSERT_TEXT` of a pointer -/
def upsertPtr (key : CStr) : CharPtr → OptionValue
  | .null => (key, some none)
  | .text s => upsertText key s
  | .freed => (key, none)

/-- `UPSERT_INT`, where the four bytes at the field are `value` -/
def upsertInt (key : CStr) (isSet : Bool) (value : UInt32) : OptionValue :=
  (key, some (if isSet then some (intText value.toInt32) else none))

/-- `UPSERT_INT` of a field of one byte -/
def upsertByte (o : SvcImage) (key : CStr) (isSet : Bool) (value : UInt8) : OptionValue :=
  upsertInt key isSet (o.behind key <<< 8 ||| value.toUInt32)

/-- The number of a state -/
def UpkState.value : UpkState → UInt32
  | .undefined => 0
  | .running => 1
  | .stopped => 2
  | .shutdown => 3

/-- The options of `upk_db_upsert_options` -/
def SvcImage.options (o : SvcImage) : List OptionValue :=
  let svc := o.svc
  let int (key : CStr) (field : IntField) := upsertInt key (svc.ints field ≠ int32Min) (svc.ints field).toUInt32
  let flag (key : CStr) (field : FlagField) := upsertByte o key (svc.flags field ≠ int8Min) (svc.flags field).toUInt8
  let path (key : CStr) (field : PathField) := upsertText key (svc.paths field).toCStr
  let script (key : CStr) (field : ScriptField) := upsertPtr key (svc.scripts field)
  [int (cstr "StartPriority") .startPriority,
    upsertText (cstr "Name") svc.name.toCStr,
    upsertText (cstr "Package") svc.package.toCStr,
    upsertText (cstr "ShortDescription") svc.shortDescription.toCStr,
    upsertPtr (cstr "LongDescription") svc.longDescription,
    upsertByte o (cstr "RestartAllDependencies") true svc.restartAllDependencies.toUInt8,
    upsertByte o (cstr "RestartOnPrerequisiteRestart") true svc.restartOnPrerequisiteRestart.toUInt8,
    int (cstr "KillTimeout") .killTimeout,
    upsertInt (cstr "StartupDelay") (svc.startupDelay ≠ int32Min) svc.startupDelay.toUInt32,
    int (cstr "MaxConsecutiveFailures") .maxConsecutiveFailures,
    int (cstr "UserMaxRestarts") .userMaxRestarts,
    int (cstr "UserRestartWindow") .userRestartWindow,
    int (cstr "UserRateLimit") .userRateLimit,
    flag (cstr "RandomizeRateLimit") .randomizeRateLimit,
    upsertInt (cstr "SetUID") (svc.setUID ≠ idUnset) svc.setUID,
    upsertInt (cstr "SetGID") (svc.setGID ≠ idUnset) svc.setGID,
    -- the lower half of a `size_t`
    upsertInt (cstr "RingbufferSize") (svc.ringbufferSize ≠ sizeUnset) svc.ringbufferSize.toUInt32,
    int (cstr "ReconnectRetries") .reconnectRetries,
    path (cstr "ExecStart") .execStart,
    script (cstr "StartScript") .startScript,
    path (cstr "ExecStop") .execStop,
    script (cstr "StopScript") .stopScript,
    path (cstr "ExecReload") .execReload,
    script (cstr "ReloadScript") .reloadScript,
    script (cstr "PipeStdoutScript") .pipeStdoutScript,
    script (cstr "PipeStderrScript") .pipeStderrScript,
    path (cstr "RedirectStdout") .redirectStdout,
    path (cstr "RedirectStderr") .redirectStderr,
    upsertInt (cstr "InitialState") true svc.initialState.value,
    flag (cstr "UnconfigureOnFileRemoval") .unconfigureOnFileRemoval,
    flag (cstr "PreferBuddyStateForStopped") .preferBuddyStateForStopped,
    flag (cstr "PreferBuddyStateForRunning") .preferBuddyStateForRunning]

/-- The options that are stored, with their values -/
def SvcImage.values (o : SvcImage) : Option (List (CStr × CStr)) :=
  o.options.filterMapM fun v => v.2.map fun value => value.map (v.1, ·)

/-! ### Lists -/

/-- A row of `svc_list_options_s1`, with its value -/
structure ListRow where
  uuid : CStr
  list : CStr
  key : CStr
  id : CStr
  value : CStr
  deriving DecidableEq

/-- The text of `"%ld"` for an index -/
def indexText (idx : Nat) : CStr := .ofChars (Decimal.digits idx)

/-- `LIST_UPSERT_TEXT` -/
def listUpsertText (uuid list key id text : CStr) : List ListRow :=
  if text.chars ≠ [] then [⟨uuid, list, key, id, text⟩] else []

/-- The two texts of an entry of a list -/
structure ListEntry where
  first : CStr
  second : CStr
  deriving DecidableEq

def SvcId.listEntry (d : SvcId) : ListEntry := ⟨d.name.toCStr, d.pkg.toCStr⟩

def CustActscr.listEntry (a : CustActscr) : ListEntry := ⟨a.name.toCStr, a.script⟩

/-- The rows of an entry -/
def entryRows (uuid list key₁ key₂ id : CStr) (e : ListEntry) : List ListRow :=
  listUpsertText uuid list key₁ id e.first ++ listUpsertText uuid list key₂ id e.second

/-- `A && A->count > 0`: the count has 32 bits. -/
def hasEntries (entries : List ListEntry) : Bool := 0 < UInt32.ofNat entries.length

/-- The rows of a list of services -/
def svcidRows (uuid list : CStr) (entries : List ListEntry) : List ListRow :=
  if hasEntries entries then
    entries.zipIdx.flatMap fun e => entryRows uuid list (cstr "name") (cstr "pkg") (indexText e.2) e.1
  else []

/-- The rows of the custom actions: their index is written before the loop. -/
def customRows (uuid : CStr) (entries : List ListEntry) : List ListRow :=
  if hasEntries entries then
    entries.flatMap fun e => entryRows uuid (cstr "CustomActions") (cstr "name") (cstr "script") (indexText 0) e
  else []

def SvcDesc.providesEntries (svc : SvcDesc) : List ListEntry := (svc.provides.getD []).map SvcId.listEntry

def SvcDesc.startAfterEntries (svc : SvcDesc) : List ListEntry := (svc.startAfter.getD []).map SvcId.listEntry

def SvcDesc.restartOnNamedEntries (svc : SvcDesc) : List ListEntry :=
  (svc.restartOnNamedPrereqRestart.getD []).map SvcId.listEntry

def SvcDesc.customEntries (svc : SvcDesc) : List ListEntry := (svc.customActions.getD []).map CustActscr.listEntry

/-- The rows of the lists of a service -/
def SvcDesc.listRows (svc : SvcDesc) : List ListRow :=
  let uuid := upkUuidToString svc.uuid
  svcidRows uuid (cstr "Provides") svc.providesEntries ++ svcidRows uuid (cstr "StartAfter") svc.startAfterEntries ++
    svcidRows uuid (cstr "RestartOnNamedPrereqRestart") svc.restartOnNamedEntries ++ customRows uuid svc.customEntries

/-! ### Tables -/

/-- `svc_options_s1`: the value for a UUID and a key -/
abbrev OptionTable := CStr → CStr → Option CStr

/-- The tables of the options -/
structure OptionStore where
  svcOptions : OptionTable
  svcListOptions : List ListRow

/-- `upk_db_try_insert`: `(uuid, key)` is the primary key. -/
def upkDbTryInsert (uuid key value : CStr) (t : OptionTable) : Option OptionTable :=
  if (t uuid key).isSome then none else some fun u k => if u = uuid ∧ k = key then some value else t u k

/-- `upk_db_try_update` -/
def upkDbTryUpdate (uuid key value : CStr) (t : OptionTable) : OptionTable :=
  fun u k => (t u k).map fun old => if u = uuid ∧ k = key then value else old

/-- `upk_db_upsert` -/
def upkDbUpsertValue (uuid : CStr) (t : OptionTable) (option : CStr × CStr) : OptionTable :=
  (upkDbTryInsert uuid option.1 option.2 t).getD (upkDbTryUpdate uuid option.1 option.2 t)

/-- `upk_db_upsert_options` -/
def SvcImage.upkDbUpsertOptions (o : SvcImage) (db : OptionStore) : Option OptionStore := do
  let values ← o.values
  let uuid := upkUuidToString o.svc.uuid
  some
    { svcOptions := values.foldl (upkDbUpsertValue uuid) db.svcOptions
      svcListOptions := (db.svcListOptions.filter fun r => r.uuid ≠ uuid) ++ o.svc.listRows }

variable {o : SvcImage} {db db' : OptionStore} {uuid : CStr}

theorem upkDbUpsertValue_apply (t : OptionTable) (option : CStr × CStr) (u k : CStr) :
    upkDbUpsertValue uuid t option u k = if u = uuid ∧ k = option.1 then some option.2 else t u k := by
  unfold upkDbUpsertValue upkDbTryInsert
  split
  · next hrow =>
    unfold upkDbTryUpdate
    rw [Option.getD_none]
    by_cases hsame : u = uuid ∧ k = option.1
    · obtain ⟨rfl, rfl⟩ := hsame
      obtain ⟨old, hold⟩ := Option.isSome_iff_exists.mp hrow
      simp [hold]
    · simp [hsame]
  · rfl

/-- The value that is stored last under a key -/
def lastValue (values : List (CStr × CStr)) (key : CStr) : Option CStr :=
  (values.reverse.find? fun v => v.1 = key).map Prod.snd

theorem lastValue_isSome {values : List (CStr × CStr)} {key : CStr} :
    (lastValue values key).isSome = true ↔ key ∈ values.map Prod.fst := by
  rw [lastValue, Option.isSome_map, List.find?_isSome]
  simp

/-- **Storing options** writes their last values over what was there. -/
theorem foldl_upsertValue (values : List (CStr × CStr)) (t : OptionTable) (u k : CStr) :
    values.foldl (upkDbUpsertValue uuid) t u k = if u = uuid then (lastValue values k).or (t u k) else t u k := by
  induction values using List.reverseRecOn with
  | nil => simp [lastValue]
  | append_singleton values v ih =>
    rw [List.foldl_concat, upkDbUpsertValue_apply, ih]
    unfold lastValue
    rw [List.reverse_concat, List.find?_cons]
    by_cases hu : u = uuid
    · by_cases hk : v.1 = k
      · simp [hu, hk]
      · simp [hu, hk, Ne.symm hk]
    · simp [hu]

/-! ### Refinement of the store without values -/

theorem filterMapM_fst (options : List OptionValue) :
    (options.filterMapM fun v : OptionValue => v.2.map fun value => value.map (v.1, ·)).map (List.map Prod.fst) =
      (options.map fun v => (v.1, v.2.map Option.isSome)).filterMapM fun o =>
        o.2.map fun set => if set then some o.1 else none := by
  induction options with
  | nil => rfl
  | cons v options ih =>
    obtain ⟨key, value⟩ := v
    rw [List.map_cons, List.filterMapM_cons, List.filterMapM_cons, ← ih]
    cases value with
    | none => rfl
    | some value =>
      cases options.filterMapM fun v : OptionValue => v.2.map fun value => value.map (v.1, ·) with
      | none => cases value <;> rfl
      | some values => cases value <;> rfl

theorem upsertText_isSome (key text : CStr) :
    ((upsertText key text).1, (upsertText key text).2.map Option.isSome) = (key, some (decide (text.chars ≠ []))) := by
  unfold upsertText
  split
  · next h => simp [h]
  · next h => simp [h]

theorem upsertPtr_isSome (key : CStr) (p : CharPtr) :
    ((upsertPtr key p).1, (upsertPtr key p).2.map Option.isSome) = (key, p.isSet) := by
  cases p with
  | null => rfl
  | text s => exact upsertText_isSome key s
  | freed => rfl

theorem upsertInt_isSome (key : CStr) (isSet : Bool) (value : UInt32) :
    ((upsertInt key isSet value).1, (upsertInt key isSet value).2.map Option.isSome) = (key, some isSet) := by
  cases isSet <;> rfl

theorem SvcImage.options_isSome (o : SvcImage) :
    (o.options.map fun v => (v.1, v.2.map Option.isSome)) = o.svc.options := by
  simp only [SvcImage.options, SvcDesc.options, upsertByte, List.map_cons, List.map_nil, upsertText_isSome,
    upsertPtr_isSome, upsertInt_isSome]

theorem SvcImage.values_keys (o : SvcImage) : o.values.map (List.map Prod.fst) = o.svc.optionKeys := by
  rw [SvcImage.values, filterMapM_fst, o.options_isSome]
  rfl

/-- The tables have the same rows as those of the store without values. -/
structure OptionStore.Represents (t : OptionStore) (db : Db) : Prop where
  options : ∀ u k, (t.svcOptions u k).isSome = true ↔ ∃ r ∈ db.svcOptions, r.uuid = u ∧ r.key = k
  listOptions : (t.svcListOptions.map fun r => (r.uuid, r.list, r.key, r.id)) =
    db.svcListOptions.map fun r => (r.uuid, r.list, r.key, indexText r.id)

theorem foldl_upsert_keys (svc : SvcDesc) (keys : List CStr) (rows : List OptionRow) (u k : CStr) :
    (∃ r ∈ keys.foldl (upkDbUpsert svc) rows, r.uuid = u ∧ r.key = k) ↔
      u = upkUuidToString svc.uuid ∧ k ∈ keys ∨ ∃ r ∈ rows, r.uuid = u ∧ r.key = k := by
  have hone (rows : List OptionRow) (key : CStr) : (∃ r ∈ upkDbUpsert svc rows key, r.uuid = u ∧ r.key = k) ↔
      u = upkUuidToString svc.uuid ∧ k = key ∨ ∃ r ∈ rows, r.uuid = u ∧ r.key = k := by
    unfold upkDbUpsert
    dsimp only
    split
    · next hrow =>
      have hmap : (∃ r ∈ rows.map fun r => if r.uuid = upkUuidToString svc.uuid ∧ r.key = key then
          { r with source := some svc.key } else r, r.uuid = u ∧ r.key = k) ↔ ∃ r ∈ rows, r.uuid = u ∧ r.key = k := by
        simp only [List.mem_map, exists_exists_and_eq_and]
        refine exists_congr fun r => and_congr_right fun _ => ?_
        split <;> rfl
      rw [hmap]
      refine (or_iff_right_of_imp ?_).symm
      rintro ⟨rfl, rfl⟩
      simpa using hrow
    · simp only [List.mem_append, List.mem_singleton, or_and_right, exists_or, exists_eq_left, or_comm, eq_comm]
  induction keys generalizing rows with
  | nil => simp
  | cons key keys ih =>
    refine (ih (upkDbUpsert svc rows key)).trans ?_
    rw [hone, List.mem_cons]
    tauto

/-- No list is so long that its count wraps to zero. -/
def Countable (entries : List ListEntry) : Prop := entries ≠ [] → hasEntries entries = true

theorem map_listUpsertText {α : Type} (f : ListRow → α) (uuid list key id text : CStr) :
    (listUpsertText uuid list key id text).map f =
      if text.chars ≠ [] then [f ⟨uuid, list, key, id, text⟩] else [] := by
  unfold listUpsertText
  split <;> rfl

theorem svcidRows_options (uuid list : CStr) (ids : Option (List SvcId))
    (h : Countable ((ids.getD []).map SvcId.listEntry)) :
    (svcidRows uuid list ((ids.getD []).map SvcId.listEntry)).map (fun r => (r.uuid, r.list, r.key, r.id)) =
      (svcidOptions list ids).map fun o => (uuid, o.1, o.2.1, indexText o.2.2) := by
  unfold svcidRows svcidOptions
  split
  · rw [List.zipIdx_map, List.flatMap_map, List.map_flatMap, List.map_flatMap]
    refine List.flatMap_congr fun e _ => ?_
    simp only [entryRows, List.map_append, map_listUpsertText, SvcId.listEntry, Prod.map, apply_ite (List.map _)]
    rfl
  · next hnone =>
    have hnil : ids.getD [] = [] := by
      by_contra hne
      exact hnone (h (by simpa using hne))
    rw [hnil]
    rfl

theorem customRows_options (uuid : CStr) (actions : List CustActscr) (h : Countable (actions.map CustActscr.listEntry)) :
    (customRows uuid (actions.map CustActscr.listEntry)).map (fun r => (r.uuid, r.list, r.key, r.id)) =
      (actions.flatMap fun a =>
        (if a.name.chars ≠ [] then [(cstr "CustomActions", cstr "name", 0)] else []) ++
          if a.script.chars ≠ [] then [(cstr "CustomActions", cstr "script", 0)] else []).map
        fun o => (uuid, o.1, o.2.1, indexText o.2.2) := by
  unfold customRows
  split
  · rw [List.flatMap_map, List.map_flatMap, List.map_flatMap]
    refine List.flatMap_congr fun a _ => ?_
    simp only [entryRows, List.map_append, map_listUpsertText, CustActscr.listEntry, apply_ite (List.map _)]
    rfl
  · next hnone =>
    have hnil : actions = [] := by
      by_contra hne
      exact hnone (h (by simpa using hne))
    rw [hnil]
    rfl

/-- The lists of a service can be counted. -/
structure SvcDesc.Countable (svc : SvcDesc) : Prop where
  provides : Upkeeper.Countable svc.providesEntries
  startAfter : Upkeeper.Countable svc.startAfterEntries
  restartOnNamed : Upkeeper.Countable svc.restartOnNamedEntries
  custom : Upkeeper.Countable svc.customEntries

theorem listRows_options {svc : SvcDesc} (h : svc.Countable) :
    (svc.listRows.map fun r => (r.uuid, r.list, r.key, r.id)) =
      svc.listOptions.map fun o => (upkUuidToString svc.uuid, o.1, o.2.1, indexText o.2.2) := by
  unfold SvcDesc.listRows SvcDesc.listOptions
  dsimp only
  simp only [List.map_append]
  congr 1
  · congr 1
    · congr 1
      · exact svcidRows_options _ _ svc.provides h.provides
      · exact svcidRows_options _ _ svc.startAfter h.startAfter
    · exact svcidRows_options _ _ svc.restartOnNamedPrereqRestart h.restartOnNamed
  · exact customRows_options _ _ h.custom

/-- **Storing the options of a service** does the same on the store without values. -/
theorem upsertOptions_represents {db db' : Db} {t : OptionStore} (h : t.Represents db) (hcountable : o.svc.Countable)
    (hrun : Upkeeper.upkDbUpsertOptions o.svc db = some db') :
    ∃ t', o.upkDbUpsertOptions t = some t' ∧ t'.Represents db' := by
  obtain ⟨keys, hkeys, hdb⟩ := Option.bind_eq_some_iff.mp hrun
  obtain rfl := Option.some.inj hdb
  rw [← o.values_keys] at hkeys
  obtain ⟨values, hvalues, rfl⟩ := Option.map_eq_some_iff.mp hkeys
  refine ⟨_, Option.bind_eq_some_iff.mpr ⟨values, hvalues, rfl⟩, fun u k => ?_, ?_⟩
  · dsimp only
    rw [foldl_upsert_keys, foldl_upsertValue]
    split
    · next hu =>
      rw [Option.isSome_or, Bool.or_eq_true, lastValue_isSome, h.options, and_iff_right hu]
    · next hu =>
      rw [h.options, or_iff_right fun h => hu h.1]
  · have hfilter : ∀ rows : List ListOptionRow, ((rows.filter fun r => r.uuid ≠ upkUuidToString o.svc.uuid).map
        fun r => (r.uuid, r.list, r.key, indexText r.id)) =
          (rows.map fun r => (r.uuid, r.list, r.key, indexText r.id)).filter fun r => r.1 ≠ upkUuidToString o.svc.uuid := by
      intro rows
      rw [List.filter_map]
      rfl
    have hfilter' : ∀ rows : List ListRow, ((rows.filter fun r => r.uuid ≠ upkUuidToString o.svc.uuid).map
        fun r => (r.uuid, r.list, r.key, r.id)) =
          (rows.map fun r => (r.uuid, r.list, r.key, r.id)).filter fun r => r.1 ≠ upkUuidToString o.svc.uuid := by
      intro rows
      rw [List.filter_map]
      rfl
    dsimp only
    rw [List.map_append, List.map_append, hfilter', hfilter, h.listOptions, listRows_options hcountable, List.map_map]
    rfl

/-! ### The latest configuration -/

/-- A configuration sets an option. -/
def SvcImage.Sets (o : SvcImage) (key : CStr) : Prop := ∃ values ∈ o.values, key ∈ values.map Prod.fst

/-- There is no row for the UUID. -/
structure OptionStore.Without (t : OptionStore) (uuid : CStr) : Prop where
  options : ∀ key, t.svcOptions uuid key = none
  listOptions : ∀ r ∈ t.svcListOptions, r.uuid ≠ uuid

/-- The rows for the UUID are the same in both stores. -/
structure OptionStore.SameRows (t t' : OptionStore) (uuid : CStr) : Prop where
  options : ∀ key, t.svcOptions uuid key = t'.svcOptions uuid key
  listOptions : (t.svcListOptions.filter fun r => r.uuid = uuid) = t'.svcListOptions.filter fun r => r.uuid = uuid

theorem upsertOptions_eq (hrun : o.upkDbUpsertOptions db = some db') :
    ∃ values, o.values = some values ∧
      (∀ key, db'.svcOptions (upkUuidToString o.svc.uuid) key =
        (lastValue values key).or (db.svcOptions (upkUuidToString o.svc.uuid) key)) ∧
      db'.svcListOptions = (db.svcListOptions.filter fun r => r.uuid ≠ upkUuidToString o.svc.uuid) ++ o.svc.listRows := by
  obtain ⟨values, hvalues, hdb⟩ := Option.bind_eq_some_iff.mp hrun
  obtain rfl := Option.some.inj hdb
  refine ⟨values, hvalues, fun key => ?_, rfl⟩
  dsimp only
  rw [foldl_upsertValue, if_pos rfl]

theorem upsertOptions_of_values {values : List (CStr × CStr)} (h : o.values = some values) (db : OptionStore) :
    ∃ db', o.upkDbUpsertOptions db = some db' := by
  rw [SvcImage.upkDbUpsertOptions, h]
  exact ⟨_, rfl⟩

theorem sets_iff {values : List (CStr × CStr)} (h : o.values = some values) (key : CStr) :
    o.Sets key ↔ (lastValue values key).isSome = true := by
  rw [lastValue_isSome]
  constructor
  · rintro ⟨values', hvalues', hkey⟩
    obtain rfl := Option.some.inj (h.symm.trans hvalues')
    exact hkey
  · exact fun hkey => ⟨values, h, hkey⟩

theorem filter_listRows {rows new : List ListRow} (hnew : ∀ r ∈ new, r.uuid = uuid) :
    (((rows.filter fun r => r.uuid ≠ uuid) ++ new).filter fun r => r.uuid = uuid) = new := by
  rw [List.filter_append, List.filter_filter, List.filter_eq_nil_iff.mpr, List.nil_append, List.filter_eq_self.mpr]
  · exact fun r hr => decide_eq_true (hnew r hr)
  · intro r _
    simp

theorem mem_listUpsertText {list key id text : CStr} {r : ListRow} (h : r ∈ listUpsertText uuid list key id text) :
    r = ⟨uuid, list, key, id, text⟩ := by
  unfold listUpsertText at h
  split at h
  · exact List.mem_singleton.mp h
  · cases h

theorem mem_entryRows {list key₁ key₂ id : CStr} {e : ListEntry} {r : ListRow}
    (h : r ∈ entryRows uuid list key₁ key₂ id e) : r.uuid = uuid ∧ r.list = list ∧ r.id = id := by
  rcases List.mem_append.mp h with h | h
  · obtain rfl := mem_listUpsertText h
    exact ⟨rfl, rfl, rfl⟩
  · obtain rfl := mem_listUpsertText h
    exact ⟨rfl, rfl, rfl⟩

theorem mem_svcidRows {list : CStr} {entries : List ListEntry} {r : ListRow} (h : r ∈ svcidRows uuid list entries) :
    r.uuid = uuid ∧ r.list = list := by
  unfold svcidRows at h
  split at h
  · obtain ⟨e, -, hr⟩ := List.mem_flatMap.mp h
    exact ⟨(mem_entryRows hr).1, (mem_entryRows hr).2.1⟩
  · cases h

theorem mem_customRows {entries : List ListEntry} {r : ListRow} (h : r ∈ customRows uuid entries) :
    r.uuid = uuid ∧ r.list = cstr "CustomActions" ∧ r.id = indexText 0 := by
  unfold customRows at h
  split at h
  · obtain ⟨e, -, hr⟩ := List.mem_flatMap.mp h
    exact mem_entryRows hr
  · cases h

theorem mem_listRows {svc : SvcDesc} {r : ListRow} (h : r ∈ svc.listRows) : r.uuid = upkUuidToString svc.uuid := by
  simp only [SvcDesc.listRows, List.mem_append] at h
  rcases h with ((h | h) | h) | h
  · exact (mem_svcidRows h).1
  · exact (mem_svcidRows h).1
  · exact (mem_svcidRows h).1
  · exact (mem_customRows h).1

/-- **The store reflects the latest configuration** exactly when this sets every option that the store had, or that the
configuration before it sets. -/
theorem latest_iff (a b : SvcImage) (db db₀ dbA dbAB dbB : OptionStore) (huuid : a.svc.uuid = b.svc.uuid)
    (hempty : db₀.Without (upkUuidToString b.svc.uuid)) (hA : a.upkDbUpsertOptions db = some dbA)
    (hAB : b.upkDbUpsertOptions dbA = some dbAB) (hB : b.upkDbUpsertOptions db₀ = some dbB) :
    dbAB.SameRows dbB (upkUuidToString b.svc.uuid) ↔
      ∀ key, (db.svcOptions (upkUuidToString b.svc.uuid) key).isSome = true ∨ a.Sets key → b.Sets key := by
  obtain ⟨values, hvalues, hoptionsA, -⟩ := upsertOptions_eq hA
  obtain ⟨values', hvalues', hoptionsAB, hlistAB⟩ := upsertOptions_eq hAB
  obtain ⟨values'', hvalues'', hoptionsB, hlistB⟩ := upsertOptions_eq hB
  obtain rfl := Option.some.inj (hvalues'.symm.trans hvalues'')
  rw [huuid] at hoptionsA
  have hlist : (dbAB.svcListOptions.filter fun r => r.uuid = upkUuidToString b.svc.uuid) =
      dbB.svcListOptions.filter fun r => r.uuid = upkUuidToString b.svc.uuid := by
    rw [hlistAB, hlistB, filter_listRows fun r => mem_listRows, filter_listRows fun r => mem_listRows]
  have hkey (key : CStr) :
      dbAB.svcOptions (upkUuidToString b.svc.uuid) key = dbB.svcOptions (upkUuidToString b.svc.uuid) key ↔
        ((db.svcOptions (upkUuidToString b.svc.uuid) key).isSome = true ∨ a.Sets key → b.Sets key) := by
    rw [hoptionsAB, hoptionsB, hoptionsA, hempty.options, sets_iff hvalues, sets_iff hvalues']
    cases lastValue values' key with
    | some value => simp
    | none =>
      cases lastValue values key with
      | some value => simp
      | none => simp
  exact ⟨fun h key => (hkey key).mp (h.options key), fun h => ⟨fun key => (hkey key).mpr (h key), hlist⟩⟩

/-- Tables without rows -/
def OptionStore.empty : OptionStore := ⟨fun _ _ => none, []⟩

theorem OptionStore.empty_without (uuid : CStr) : OptionStore.empty.Without uuid := ⟨fun _ => rfl, nofun⟩

/-- A configuration with a short description -/
def described (description : CStr) : SvcImage :=
  ⟨{ upkSvcDescClear with name := strncpyString (cstr "web"), shortDescription := strncpyString description }, fun _ => 0⟩

/-- A new description takes the place of the old one. -/
theorem latest_described : ∃ dbA dbAB dbB : OptionStore,
    (described (cstr "old")).upkDbUpsertOptions .empty = some dbA ∧
      (described (cstr "new")).upkDbUpsertOptions dbA = some dbAB ∧
      (described (cstr "new")).upkDbUpsertOptions .empty = some dbB ∧ dbAB.SameRows dbB (upkUuidToString .zero) := by
  have hold : (described (cstr "old")).values = some [(cstr "Name", cstr "web"), (cstr "ShortDescription", cstr "old"),
      (cstr "RestartAllDependencies", cstr "0"), (cstr "RestartOnPrerequisiteRestart", cstr "0"),
      (cstr "StartupDelay", cstr "0"), (cstr "InitialState", cstr "0")] := by decide +kernel
  have hnew : (described (cstr "new")).values = some [(cstr "Name", cstr "web"), (cstr "ShortDescription", cstr "new"),
      (cstr "RestartAllDependencies", cstr "0"), (cstr "RestartOnPrerequisiteRestart", cstr "0"),
      (cstr "StartupDelay", cstr "0"), (cstr "InitialState", cstr "0")] := by decide +kernel
  obtain ⟨dbA, hA⟩ := upsertOptions_of_values hold .empty
  obtain ⟨dbAB, hAB⟩ := upsertOptions_of_values hnew dbA
  obtain ⟨dbB, hB⟩ := upsertOptions_of_values hnew .empty
  refine ⟨dbA, dbAB, dbB, hA, hAB, hB, ?_⟩
  refine (latest_iff (described (cstr "old")) (described (cstr "new")) .empty .empty dbA dbAB dbB rfl
    (OptionStore.empty_without _) hA hAB hB).mpr fun key h => ?_
  rw [sets_iff hold, lastValue_isSome] at h
  rw [sets_iff hnew, lastValue_isSome]
  exact h.resolve_left Bool.false_ne_true

/-- A description that the new configuration does not have stays. -/
theorem not_latest_described : ∃ dbA dbAB dbB : OptionStore,
    (described (cstr "old")).upkDbUpsertOptions .empty = some dbA ∧ (described .empty).upkDbUpsertOptions dbA = some dbAB ∧
      (described .empty).upkDbUpsertOptions .empty = some dbB ∧ ¬ dbAB.SameRows dbB (upkUuidToString .zero) := by
  have hold : (described (cstr "old")).values = some [(cstr "Name", cstr "web"), (cstr "ShortDescription", cstr "old"),
      (cstr "RestartAllDependencies", cstr "0"), (cstr "RestartOnPrerequisiteRestart", cstr "0"),
      (cstr "StartupDelay", cstr "0"), (cstr "InitialState", cstr "0")] := by decide +kernel
  have hnew : (described .empty).values = some [(cstr "Name", cstr "web"), (cstr "RestartAllDependencies", cstr "0"),
      (cstr "RestartOnPrerequisiteRestart", cstr "0"), (cstr "StartupDelay", cstr "0"),
      (cstr "InitialState", cstr "0")] := by decide +kernel
  obtain ⟨dbA, hA⟩ := upsertOptions_of_values hold .empty
  obtain ⟨dbAB, hAB⟩ := upsertOptions_of_values hnew dbA
  obtain ⟨dbB, hB⟩ := upsertOptions_of_values hnew .empty
  refine ⟨dbA, dbAB, dbB, hA, hAB, hB, fun hsame => ?_⟩
  have hdescription := hsame.options (cstr "ShortDescription")
  obtain ⟨valuesA, hvaluesA, hoptionsA, -⟩ := upsertOptions_eq hA
  obtain ⟨valuesAB, hvaluesAB, hoptionsAB, -⟩ := upsertOptions_eq hAB
  obtain ⟨valuesB, hvaluesB, hoptionsB, -⟩ := upsertOptions_eq hB
  obtain rfl := Option.some.inj (hold.symm.trans hvaluesA)
  obtain rfl := Option.some.inj (hnew.symm.trans hvaluesAB)
  obtain rfl := Option.some.inj (hnew.symm.trans hvaluesB)
  have huuid (description : CStr) : (described description).svc.uuid = .zero := rfl
  rw [huuid] at hoptionsA hoptionsAB hoptionsB
  rw [hoptionsAB, hoptionsA, hoptionsB] at hdescription
  revert hdescription
  decide +kernel

/-! ### Reading the lists back -/

/-- The values under a key -/
def readKey (key : CStr) (rows : List ListRow) : List CStr := (rows.filter fun r => r.key = key).map ListRow.value

/-- A list, read by its two keys from each group of rows with one id -/
def readList (list key₁ key₂ : CStr) (rows : List ListRow) : List (List CStr × List CStr) :=
  (Group.groupsOf ListRow.id (rows.filter fun r => r.list = list)).map fun g => (readKey key₁ g, readKey key₂ g)

/-- What should be read of a text: an empty one is not stored. -/
def textRead (text : CStr) : List CStr := if text.chars ≠ [] then [text] else []

/-- What should be read of an entry -/
def ListEntry.read (e : ListEntry) : List CStr × List CStr := (textRead e.first, textRead e.second)

/-- One of the texts is not empty. -/
def ListEntry.IsSet (e : ListEntry) : Prop := e.first.chars ≠ [] ∨ e.second.chars ≠ []

/-- The rows for the UUID of a service determine its lists: one group for each entry, with its texts, in order. -/
structure OptionsReadBack (svc : SvcDesc) (rows : List ListRow) : Prop where
  provides : readList (cstr "Provides") (cstr "name") (cstr "pkg") rows = svc.providesEntries.map ListEntry.read
  startAfter : readList (cstr "StartAfter") (cstr "name") (cstr "pkg") rows = svc.startAfterEntries.map ListEntry.read
  restartOnNamed : readList (cstr "RestartOnNamedPrereqRestart") (cstr "name") (cstr "pkg") rows =
    svc.restartOnNamedEntries.map ListEntry.read
  custom : readList (cstr "CustomActions") (cstr "name") (cstr "script") rows = svc.customEntries.map ListEntry.read

/-- Each entry has a text. -/
structure SvcDesc.EntriesSet (svc : SvcDesc) : Prop where
  provides : ∀ e ∈ svc.providesEntries, e.IsSet
  startAfter : ∀ e ∈ svc.startAfterEntries, e.IsSet
  restartOnNamed : ∀ e ∈ svc.restartOnNamedEntries, e.IsSet
  custom : ∀ e ∈ svc.customEntries, e.IsSet

theorem indexText_injective : Function.Injective indexText := by
  intro m n h
  have hchars (k : Nat) : (indexText k).chars = Decimal.digits k := by
    refine List.filter_eq_self.mpr fun c hc => ?_
    have hdigit := Decimal.isDigit_of_mem c hc
    simp only [Decimal.IsDigit] at hdigit
    grind
  exact Decimal.digits_inj ((hchars m).symm.trans ((congrArg CStr.chars h).trans (hchars n)))

theorem entryRows_ne_nil {list key₁ key₂ id : CStr} {e : ListEntry} (h : e.IsSet) :
    entryRows uuid list key₁ key₂ id e ≠ [] := by
  unfold entryRows listUpsertText
  rcases h with h | h <;> simp [h]

theorem readKey_listUpsertText (list key key' id text : CStr) :
    readKey key (listUpsertText uuid list key' id text) = if key' = key then textRead text else [] := by
  unfold readKey listUpsertText textRead
  split
  · by_cases hkey : key' = key <;> simp [hkey]
  · simp

theorem read_entryRows {list key₁ key₂ id : CStr} (hkeys : key₁ ≠ key₂) (e : ListEntry) :
    (readKey key₁ (entryRows uuid list key₁ key₂ id e), readKey key₂ (entryRows uuid list key₁ key₂ id e)) = e.read := by
  have hsplit (key : CStr) : readKey key (entryRows uuid list key₁ key₂ id e) =
      readKey key (listUpsertText uuid list key₁ id e.first) ++ readKey key (listUpsertText uuid list key₂ id e.second) := by
    unfold readKey entryRows
    rw [List.filter_append, List.map_append]
  rw [hsplit, hsplit]
  simp only [readKey_listUpsertText, if_neg hkeys, if_neg hkeys.symm, if_true, List.append_nil, List.nil_append]
  rfl

/-- **Rows with indices** are read back, one group for each entry. -/
theorem readGroups_indexed {list key₁ key₂ : CStr} (hkeys : key₁ ≠ key₂) {entries : List ListEntry}
    (hset : ∀ e ∈ entries, e.IsSet) :
    (Group.groupsOf ListRow.id
        (entries.zipIdx.flatMap fun e => entryRows uuid list key₁ key₂ (indexText e.2) e.1)).map
      (fun g => (readKey key₁ g, readKey key₂ g)) = entries.map ListEntry.read := by
  have hids : (entries.zipIdx.map fun e => indexText e.2) = (List.range' 0 entries.length).map indexText := by
    rw [← List.zipIdx_map_snd 0 entries, List.map_map]
    rfl
  have hnodup : (entries.zipIdx.map fun e => indexText e.2).Nodup := by
    rw [hids]
    exact List.Nodup.map indexText_injective List.nodup_range'
  rw [Group.groupsOf_flatMap (fun e he => entryRows_ne_nil (hset e.1 (List.fst_mem_of_mem_zipIdx he)))
    (fun e _ r hr => (mem_entryRows hr).2.2) hnodup, List.map_map]
  conv_rhs => rw [← List.zipIdx_map_fst 0 entries, List.map_map]
  exact List.map_congr_left fun e _ => read_entryRows hkeys e.1

theorem readList_svcidRows {list : CStr} {entries : List ListEntry} {rows : List ListRow}
    (hrows : (rows.filter fun r => r.list = list) = svcidRows uuid list entries) (hset : ∀ e ∈ entries, e.IsSet) :
    readList list (cstr "name") (cstr "pkg") rows = entries.map ListEntry.read ↔ Countable entries := by
  unfold readList
  rw [hrows]
  unfold svcidRows Countable
  split
  · next hcount => exact iff_of_true (readGroups_indexed (by decide) hset) fun _ => hcount
  · next hcount =>
    rw [Group.groupsOf_nil, List.map_nil, eq_comm, List.map_eq_nil_iff]
    exact ⟨fun hnil hne => absurd hnil hne, fun h => by_contra fun hne => hcount (h hne)⟩

theorem readList_customRows {entries : List ListEntry} {rows : List ListRow}
    (hrows : (rows.filter fun r => r.list = cstr "CustomActions") = customRows uuid entries)
    (hset : ∀ e ∈ entries, e.IsSet) :
    readList (cstr "CustomActions") (cstr "name") (cstr "script") rows = entries.map ListEntry.read ↔
      entries.length ≤ 1 := by
  unfold readList
  rw [hrows]
  constructor
  · intro hread
    have hlength := congrArg List.length hread
    rw [List.length_map, List.length_map] at hlength
    exact hlength ▸ Group.length_groupsOf_le fun r hr => (mem_customRows hr).2.2
  · intro hlength
    match entries, hlength with
    | [], _ => rfl
    | [e], _ =>
      have hone : customRows uuid [e] = ([e].zipIdx.flatMap fun e =>
          entryRows uuid (cstr "CustomActions") (cstr "name") (cstr "script") (indexText e.2) e.1) := rfl
      rw [hone]
      exact readGroups_indexed (by decide) hset

theorem filter_list {rows : List ListRow} {list : CStr} (h : ∀ r ∈ rows, r.list = list) (list' : CStr) :
    (rows.filter fun r => r.list = list') = if list = list' then rows else [] := by
  split
  · next heq => exact List.filter_eq_self.mpr fun r hr => decide_eq_true ((h r hr).trans heq)
  · next hne => exact List.filter_eq_nil_iff.mpr fun r hr heq => hne ((h r hr).symm.trans (of_decide_eq_true heq))

theorem filter_list_listRows (svc : SvcDesc) (list : CStr) :
    (svc.listRows.filter fun r => r.list = list) =
      (if cstr "Provides" = list then svcidRows (upkUuidToString svc.uuid) (cstr "Provides") svc.providesEntries else []) ++
        (if cstr "StartAfter" = list then svcidRows (upkUuidToString svc.uuid) (cstr "StartAfter") svc.startAfterEntries
          else []) ++
        (if cstr "RestartOnNamedPrereqRestart" = list then
          svcidRows (upkUuidToString svc.uuid) (cstr "RestartOnNamedPrereqRestart") svc.restartOnNamedEntries else []) ++
        if cstr "CustomActions" = list then customRows (upkUuidToString svc.uuid) svc.customEntries else [] := by
  unfold SvcDesc.listRows
  dsimp only
  rw [List.filter_append, List.filter_append, List.filter_append, filter_list fun r hr => (mem_svcidRows hr).2,
    filter_list fun r hr => (mem_svcidRows hr).2, filter_list fun r hr => (mem_svcidRows hr).2,
    filter_list fun r hr => (mem_customRows hr).2.1]

/-- **The lists can be read back** exactly when there is one custom action at most, and no other list has a count that
wraps to zero. -/
theorem readsBack_iff (o : SvcImage) (db db' : OptionStore) (hrun : o.upkDbUpsertOptions db = some db')
    (hset : o.svc.EntriesSet) :
    OptionsReadBack o.svc (db'.svcListOptions.filter fun r => r.uuid = upkUuidToString o.svc.uuid) ↔
      o.svc.customEntries.length ≤ 1 ∧ Countable o.svc.providesEntries ∧ Countable o.svc.startAfterEntries ∧
        Countable o.svc.restartOnNamedEntries := by
  obtain ⟨values, -, -, hlist⟩ := upsertOptions_eq hrun
  rw [hlist, filter_listRows fun r => mem_listRows]
  have hprovides : (o.svc.listRows.filter fun r => r.list = cstr "Provides") =
      svcidRows (upkUuidToString o.svc.uuid) (cstr "Provides") o.svc.providesEntries := by
    rw [filter_list_listRows]
    simp +decide only [if_true, if_false, List.append_nil]
  have hstartAfter : (o.svc.listRows.filter fun r => r.list = cstr "StartAfter") =
      svcidRows (upkUuidToString o.svc.uuid) (cstr "StartAfter") o.svc.startAfterEntries := by
    rw [filter_list_listRows]
    simp +decide only [if_true, if_false, List.append_nil, List.nil_append]
  have hrestart : (o.svc.listRows.filter fun r => r.list = cstr "RestartOnNamedPrereqRestart") =
      svcidRows (upkUuidToString o.svc.uuid) (cstr "RestartOnNamedPrereqRestart") o.svc.restartOnNamedEntries := by
    rw [filter_list_listRows]
    simp +decide only [if_true, if_false, List.append_nil, List.nil_append]
  have hcustom : (o.svc.listRows.filter fun r => r.list = cstr "CustomActions") =
      customRows (upkUuidToString o.svc.uuid) o.svc.customEntries := by
    rw [filter_list_listRows]
    simp +decide only [if_true, if_false, List.append_nil, List.nil_append]
  have hprovides := readList_svcidRows hprovides hset.provides
  have hstartAfter := readList_svcidRows hstartAfter hset.startAfter
  have hrestart := readList_svcidRows hrestart hset.restartOnNamed
  have hcustom := readList_customRows hcustom hset.custom
  constructor
  · intro h
    exact ⟨hcustom.mp h.custom, hprovides.mp h.provides, hstartAfter.mp h.startAfter, hrestart.mp h.restartOnNamed⟩
  · rintro ⟨hc, hp, hs, hr⟩
    exact ⟨hprovides.mpr hp, hstartAfter.mpr hs, hrestart.mpr hr, hcustom.mpr hc⟩

/-- A service that provides two services, with custom actions of these names -/
def providing (actions : List CStr) : SvcImage :=
  ⟨{ upkSvcDescClear with
      provides := some [⟨strncpyString .empty, strncpyString (cstr "http")⟩,
        ⟨strncpyString (cstr "net"), strncpyString (cstr "https")⟩]
      customActions := some (actions.map fun name => ⟨strncpyString name, cstr "exec true"⟩) }, fun _ => 0⟩

theorem providing_entriesSet (actions : List CStr) : (providing actions).svc.EntriesSet where
  provides := by
    show ∀ e ∈ [_, _], ListEntry.IsSet e
    rintro e (_ | ⟨_, _ | ⟨_, h⟩⟩)
    · exact Or.inl (by decide +kernel)
    · exact Or.inl (by decide +kernel)
    · cases h
  startAfter := nofun
  restartOnNamed := nofun
  custom := by
    intro e he
    obtain ⟨a, ha, rfl⟩ := List.mem_map.mp he
    obtain ⟨name, -, rfl⟩ := List.mem_map.mp ha
    have hscript : (cstr "exec true").chars ≠ [] := by decide
    exact Or.inr hscript

theorem providing_stored (actions : List CStr) : ∃ db', (providing actions).upkDbUpsertOptions .empty = some db' := by
  have hvalues : (providing []).values = some [(cstr "RestartAllDependencies", cstr "0"),
      (cstr "RestartOnPrerequisiteRestart", cstr "0"), (cstr "StartupDelay", cstr "0"),
      (cstr "InitialState", cstr "0")] := by decide +kernel
  have hsame : (providing actions).values = (providing []).values := rfl
  exact upsertOptions_of_values (hsame.trans hvalues) .empty

/-- With one custom action, the lists are read back. -/
theorem readsBack_oneAction : ∃ db', (providing [cstr "rotate"]).upkDbUpsertOptions .empty = some db' ∧
    OptionsReadBack (providing [cstr "rotate"]).svc
      (db'.svcListOptions.filter fun r => r.uuid = upkUuidToString .zero) := by
  obtain ⟨db', hrun⟩ := providing_stored [cstr "rotate"]
  exact ⟨db', hrun, (readsBack_iff (providing [cstr "rotate"]) .empty db' hrun (providing_entriesSet _)).mpr
    ⟨by decide +kernel, fun _ => by decide +kernel, fun h => absurd rfl h, fun h => absurd rfl h⟩⟩

/-- Two custom actions are one group. -/
theorem not_readsBack_twoActions : ∃ db',
    (providing [cstr "rotate", cstr "dump"]).upkDbUpsertOptions .empty = some db' ∧
      (providing [cstr "rotate", cstr "dump"]).svc.EntriesSet ∧
      ¬ OptionsReadBack (providing [cstr "rotate", cstr "dump"]).svc
        (db'.svcListOptions.filter fun r => r.uuid = upkUuidToString .zero) := by
  obtain ⟨db', hrun⟩ := providing_stored [cstr "rotate", cstr "dump"]
  refine ⟨db', hrun, providing_entriesSet _, fun h => ?_⟩
  obtain ⟨values, -, -, hlist⟩ := upsertOptions_eq hrun
  have hcustom := h.custom
  have hrows : (db'.svcListOptions.filter fun r => r.uuid = upkUuidToString .zero) =
      (providing [cstr "rotate", cstr "dump"]).svc.listRows := by
    rw [hlist]
    exact filter_listRows fun r => mem_listRows
  rw [hrows] at hcustom
  revert hcustom
  decide +kernel

end Upkeeper
