import Upkeeper.Config.Uuid
import Upkeeper.Library.Machine
/-!
# The services in the store (`ctrl_data.c`)

The store is a SQLite database. Statements with bound values are executed as they are written; the two that
`upk_db_add_new_service` formats a name and a package into are passed to a parameter `exec`, about which only what
SQLite does with plain texts is assumed (`AsWritten`). An option row records the service whose value it holds
(`source`) instead of the value, and the store records which UUID each call gave to which service (`given`).

`upk_db_svc_uuid_lookup` returns a static buffer that only a successful lookup fills. So a service that is not in the
store gets a UUID of its own as long as no lookup has succeeded before it (`insertCfg_identified`), and the one of the
last service found from then on (`not_identified_knownFirst`).
-/

namespace Upkeeper

/-! ### The database (`ctrl_create_cfg.sql`) -/

/-- What tells a service from the others -/
structure ServiceKey where
  package : CStr
  name : CStr
  deriving DecidableEq

/-- The identity of a service -/
def SvcDesc.key (svc : SvcDesc) : ServiceKey := ⟨svc.package.toCStr, svc.name.toCStr⟩

/-- A row of `services_s1` -/
structure ServiceRow where
  uuid : Option CStr
  svcid : CStr
  package : Option CStr
  deriving DecidableEq

/-- The row of a service -/
def ServiceRow.isFor (r : ServiceRow) (k : ServiceKey) : Bool := r.svcid = k.name ∧ r.package = some k.package

/-- A row of `svc_options_s1` -/
structure OptionRow where
  uuid : CStr
  key : CStr
  source : Option ServiceKey

/-- A row of `svc_list_options_s1` -/
structure ListOptionRow extends OptionRow where
  list : CStr
  id : Nat

/-- The tables of `upk_cfg` -/
structure Db where
  services : List ServiceRow
  svcOptions : List OptionRow
  svcListOptions : List ListOptionRow

/-- The statements of `upk_db_add_new_service`; `now` is what `%ld` writes of the time. -/
inductive Statement
  | insertService (uuid : Uuid) (svcid now : CStr)
  | updatePackage (package : CStr) (uuid : Uuid)

/-- The text that `snprintf` has to write -/
def Statement.text : Statement → CStr
  | .insertService uuid svcid now =>
    [upkUuidToString uuid, cstr "\",\"", svcid, cstr "\",1,", now, cstr ",", now, cstr ",NULL);"].foldl .append
      (cstr "INSERT INTO upk_cfg.services_s1 (uuid, svcid, is_active, utc_created, utc_modified, utc_deleted) VALUES(\"")
  | .updatePackage package uuid =>
    [package, cstr "\" WHERE uuid = \"", upkUuidToString uuid, cstr "\";"].foldl .append
      (cstr "UPDATE upk_cfg.services_s1 SET package = \"")

/-- The names that a text in double quotes is taken for in an `UPDATE` of `services_s1` -/
def servicesColumns : List CStr :=
  [cstr "uuid", cstr "svcid", cstr "package", cstr "is_active", cstr "utc_created", cstr "utc_modified",
    cstr "utc_deleted", cstr "rowid", cstr "oid", cstr "_rowid_"]

/-- The text in double quotes is a string literal. -/
def Quotable (s : CStr) : Prop := 34 ∉ s.chars

/-- The statement fits into `query_str`, and SQLite reads the text in it as the string that it is. -/
def Statement.Plain (st : Statement) : Prop :=
  st.text.chars.length < upkMaxStringLen - 1 ∧
    match st with
    | .insertService _ svcid _ => Quotable svcid
    | .updatePackage package _ => Quotable package ∧ ∀ c ∈ servicesColumns, package.strcasecmpEq c = false

instance (s : CStr) : Decidable (Quotable s) := inferInstanceAs (Decidable (_ ∉ _))

instance : (st : Statement) → Decidable st.Plain
  | .insertService _ _ _ => inferInstanceAs (Decidable (_ ∧ _))
  | .updatePackage _ _ => inferInstanceAs (Decidable (_ ∧ _ ∧ _))

/-- `sqlite3_exec` of a statement: the database after it, and whether it returned `SQLITE_OK` -/
abbrev SqliteExec := Statement → Db → Db × Bool

/-- `INSERT INTO services_s1` -/
def Db.insertService (db : Db) (uuid svcid : CStr) : Db :=
  { db with services := db.services ++ [⟨some uuid, svcid, none⟩] }

/-- `UPDATE services_s1 SET package` -/
def Db.updatePackage (db : Db) (package uuid : CStr) : Db :=
  { db with services := db.services.map fun r => if r.uuid = some uuid then { r with package := some package } else r }

/-- Plain statements are executed as they are written; `uuid` is the primary key of `services_s1`. -/
structure AsWritten (exec : SqliteExec) : Prop where
  insertService : ∀ db uuid svcid now, (Statement.insertService uuid svcid now).Plain →
    (∀ r ∈ db.services, r.uuid ≠ some (upkUuidToString uuid)) →
    exec (.insertService uuid svcid now) db = (db.insertService (upkUuidToString uuid) svcid, true)
  updatePackage : ∀ db package uuid, (Statement.updatePackage package uuid).Plain →
    exec (.updatePackage package uuid) db = (db.updatePackage package (upkUuidToString uuid), true)

/-! ### Options -/

/-- `p && strnlen(p, UPK_MAX_STRING_LEN) > 0`, where `p` has not been freed -/
def CharPtr.isSet : CharPtr → Option Bool
  | .null => some false
  | .text s => some (s.chars ≠ [])
  | .freed => none

/-- The options of `upk_db_upsert_options`, each with the condition under which it is stored -/
def SvcDesc.options (svc : SvcDesc) : List (CStr × Option Bool) :=
  [(cstr "StartPriority", some (svc.ints .startPriority ≠ int32Min)),
    (cstr "Name", some (svc.name.chars ≠ [])),
    (cstr "Package", some (svc.package.chars ≠ [])),
    (cstr "ShortDescription", some (svc.shortDescription.chars ≠ [])),
    (cstr "LongDescription", svc.longDescription.isSet),
    -- a `bool` is never equal to `INT8_MIN`
    (cstr "RestartAllDependencies", some true),
    (cstr "RestartOnPrerequisiteRestart", some true),
    (cstr "KillTimeout", some (svc.ints .killTimeout ≠ int32Min)),
    (cstr "StartupDelay", some (svc.startupDelay ≠ int32Min)),
    (cstr "MaxConsecutiveFailures", some (svc.ints .maxConsecutiveFailures ≠ int32Min)),
    (cstr "UserMaxRestarts", some (svc.ints .userMaxRestarts ≠ int32Min)),
    (cstr "UserRestartWindow", some (svc.ints .userRestartWindow ≠ int32Min)),
    (cstr "UserRateLimit", some (svc.ints .userRateLimit ≠ int32Min)),
    (cstr "RandomizeRateLimit", some (svc.flags .randomizeRateLimit ≠ int8Min)),
    (cstr "SetUID", some (svc.setUID ≠ idUnset)),
    (cstr "SetGID", some (svc.setGID ≠ idUnset)),
    (cstr "RingbufferSize", some (svc.ringbufferSize ≠ sizeUnset)),
    (cstr "ReconnectRetries", some (svc.ints .reconnectRetries ≠ int32Min)),
    (cstr "ExecStart", some ((svc.paths .execStart).chars ≠ [])),
    (cstr "StartScript", (svc.scripts .startScript).isSet),
    (cstr "ExecStop", some ((svc.paths .execStop).chars ≠ [])),
    (cstr "StopScript", (svc.scripts .stopScript).isSet),
    (cstr "ExecReload", some ((svc.paths .execReload).chars ≠ [])),
    (cstr "ReloadScript", (svc.scripts .reloadScript).isSet),
    (cstr "PipeStdoutScript", (svc.scripts .pipeStdoutScript).isSet),
    (cstr "PipeStderrScript", (svc.scripts .pipeStderrScript).isSet),
    (cstr "RedirectStdout", some ((svc.paths .redirectStdout).chars ≠ [])),
    (cstr "RedirectStderr", some ((svc.paths .redirectStderr).chars ≠ [])),
    -- an enumeration is never equal to `INT32_MIN`
    (cstr "InitialState", some true),
    (cstr "UnconfigureOnFileRemoval", some (svc.flags .unconfigureOnFileRemoval ≠ int8Min)),
    (cstr "PreferBuddyStateForStopped", some (svc.flags .preferBuddyStateForStopped ≠ int8Min)),
    (cstr "PreferBuddyStateForRunning", some (svc.flags .preferBuddyStateForRunning ≠ int8Min))]

/-- The keys that are stored -/
def SvcDesc.optionKeys (svc : SvcDesc) : Option (List CStr) :=
  svc.options.filterMapM fun o => o.2.map fun set => if set then some o.1 else none

/-- The list options of a list of services: list, key and index -/
def svcidOptions (list : CStr) (ids : Option (List SvcId)) : List (CStr × CStr × Nat) :=
  (ids.getD []).zipIdx.flatMap fun (d, idx) =>
    (if d.name.chars ≠ [] then [(list, cstr "name", idx)] else []) ++
      if d.pkg.chars ≠ [] then [(list, cstr "pkg", idx)] else []

/-- The list options that are stored; the index of custom actions does not advance. -/
def SvcDesc.listOptions (svc : SvcDesc) : List (CStr × CStr × Nat) :=
  svcidOptions (cstr "Provides") svc.provides ++ svcidOptions (cstr "StartAfter") svc.startAfter ++
    svcidOptions (cstr "RestartOnNamedPrereqRestart") svc.restartOnNamedPrereqRestart ++
    (svc.customActions.getD []).flatMap fun a =>
      (if a.name.chars ≠ [] then [(cstr "CustomActions", cstr "name", 0)] else []) ++
        if a.script.chars ≠ [] then [(cstr "CustomActions", cstr "script", 0)] else []

/-- `upk_db_upsert` on `svc_options_s1`: `(uuid, key)` is its primary key, so where the `INSERT` fails the `UPDATE`
finds the row. -/
def upkDbUpsert (svc : SvcDesc) (rows : List OptionRow) (key : CStr) : List OptionRow :=
  let uuid := upkUuidToString svc.uuid
  if rows.any fun r => r.uuid = uuid ∧ r.key = key then
    rows.map fun r => if r.uuid = uuid ∧ r.key = key then { r with source := some svc.key } else r
  else rows ++ [⟨uuid, key, some svc.key⟩]

/-- `upk_db_upsert_options` -/
def upkDbUpsertOptions (svc : SvcDesc) (db : Db) : Option Db := do
  let keys ← svc.optionKeys
  let uuid := upkUuidToString svc.uuid
  some { db with
    svcOptions := keys.foldl (upkDbUpsert svc) db.svcOptions
    svcListOptions := (db.svcListOptions.filter fun r => r.uuid ≠ uuid) ++
      svc.listOptions.map fun (list, key, id) => ⟨⟨uuid, key, some svc.key⟩, list, id⟩ }

/-! ### Services -/

/-- The store, with the static buffer of `upk_db_svc_uuid_lookup` -/
structure Store where
  db : Db
  lookupUuid : CStr
  given : List (Uuid × ServiceKey)

/-- `upk_db_get_single_text`: `value` is written only if there is a row and its column is not `NULL`. -/
def upkDbGetSingleText (value : CStr) (row : Option (Option CStr)) : CStr :=
  match row with
  | some (some res) => res.take (upkMaxStringLen - 1)
  | _ => value

/-- `SELECT (uuid) … WHERE (svcid = ? AND package = ?)` -/
def Db.selectUuid (db : Db) (k : ServiceKey) : Option (Option CStr) :=
  (db.services.find? fun r => r.isFor k).map ServiceRow.uuid

/-- `SELECT (uuid) … WHERE (uuid = ?)` -/
def Db.selectSame (db : Db) (uuid : CStr) : Option (Option CStr) :=
  (db.services.find? fun r => r.uuid = some uuid).map ServiceRow.uuid

/-- `upk_db_svc_uuid_lookup` -/
def upkDbSvcUuidLookup (k : ServiceKey) (s : Store) : Store × Option CStr :=
  let uuid := upkDbGetSingleText s.lookupUuid (s.db.selectUuid k)
  ({ s with lookupUuid := uuid }, if uuid.chars ≠ [] then some uuid else none)

/-- `upk_db_gen_uuid`, when `upk_gen_uuid_bytes` yields `random`. It never returns if a service has that UUID:
`matching_uuid` is not cleared before the next try. -/
def upkDbGenUuid (random : Uuid) (db : Db) : Option CStr :=
  if (upkDbGetSingleText .empty (db.selectSame (upkUuidToString random))).chars = [] then some (upkUuidToString random)
  else none

/-- The UUID that `upk_db_add_new_service` adds the service under: a new one, or its own if no service has it -/
def newServiceUuid (random : Uuid) (svc : SvcDesc) (db : Db) : Option (Option Uuid) :=
  if svc.uuid = .zero then
    (upkDbGenUuid random db).map fun uuid => some (upkStringToUuid svc.uuid uuid)
  else
    let uuid := upkUuidToString svc.uuid
    if upkDbGetSingleText .empty (db.selectSame uuid) = uuid then some none else some (some svc.uuid)

/-- `upk_db_add_new_service` -/
def upkDbAddNewService (exec : SqliteExec) (random : Uuid) (now : CStr) (svc : SvcDesc) (s : Store) :
    Option (Store × SvcDesc) := do
  match ← newServiceUuid random svc s.db with
  | none => some (s, svc)
  | some uuid =>
    let svc := { svc with uuid := uuid }
    let (db, ok) := exec (.insertService uuid svc.name.toCStr now) s.db
    if ok then some ({ s with db := (exec (.updatePackage svc.package.toCStr uuid) db).1 }, svc)
    else some ({ s with db := db }, svc)

/-- The options of the service are stored. -/
def Store.upsertOptions (s : Store) (svc : SvcDesc) : Option (Store × SvcDesc) := do
  let db ← upkDbUpsertOptions svc s.db
  some ({ s with db := db }, svc)

/-- `upk_db_insert_cfg`; `none` is a call that is undefined or does not return. -/
def upkDbInsertCfg (exec : SqliteExec) (random : Uuid) (now : CStr) (svc : SvcDesc) (s : Store) :
    Option (Store × SvcDesc) := do
  let (s, p) := upkDbSvcUuidLookup svc.key s
  if svc.uuid ≠ .zero then
    let p ← p
    -- the assertion fails where the store has the same UUID
    if strncmpEq 36 p.chars (upkUuidToString svc.uuid).chars then some (s, svc) else s.upsertOptions svc
  else
    match p with
    | some p => s.upsertOptions { svc with uuid := upkStringToUuid svc.uuid p }
    | none => do
      let (s, svc) ← upkDbAddNewService exec random now svc s
      s.upsertOptions svc

/-! ### Runs -/

/-- A call of `upk_db_insert_cfg`, with the UUID that `upk_gen_uuid_bytes` would yield and the time -/
structure InsertCall where
  svc : SvcDesc
  random : Uuid
  now : CStr

/-- One call -/
def Store.step (exec : SqliteExec) (s : Store) (c : InsertCall) : Option Store := do
  let (s, svc) ← upkDbInsertCfg exec c.random c.now c.svc s
  some { s with given := s.given ++ [(svc.uuid, c.svc.key)] }

/-- The controller opens a store. Whose options are in it is not known. -/
def Store.opened (services : List ServiceRow) (options : List (CStr × CStr))
    (listOptions : List (CStr × CStr × CStr × Nat)) : Store where
  db :=
    { services := services
      svcOptions := options.map fun (uuid, key) => ⟨uuid, key, none⟩
      svcListOptions := listOptions.map fun (uuid, list, key, id) => ⟨⟨uuid, key, none⟩, list, id⟩ }
  lookupUuid := .empty
  given := []

/-- Different services have different UUIDs in the table. -/
def DistinctUuids (services : List ServiceRow) : Prop :=
  ∀ r ∈ services, ∀ r' ∈ services, ∀ uuid, r.uuid = some uuid → r'.uuid = some uuid →
    r.svcid = r'.svcid ∧ r.package = r'.package

/-- The option row comes from a service that was given its UUID. -/
def OptionRow.Owned (r : OptionRow) (given : List (Uuid × ServiceKey)) : Prop :=
  ∀ k, r.source = some k → ∃ u, r.uuid = upkUuidToString u ∧ (u, k) ∈ given

/-- **No two services have been given the same UUID**, it is the one that the table has for the service, and the options
under it come from this service. -/
structure Identified (s : Store) : Prop where
  distinct : ∀ u k k', (u, k) ∈ s.given → (u, k') ∈ s.given → k = k'
  stored : ∀ u k, (u, k) ∈ s.given → ∀ r ∈ s.db.services, r.uuid = some (upkUuidToString u) → r.isFor k = true
  options : ∀ r ∈ s.db.svcOptions, r.Owned s.given
  listOptions : ∀ r ∈ s.db.svcListOptions, r.toOptionRow.Owned s.given

/-- The service has no UUID yet, and `upk_gen_uuid_bytes` would yield one that no service has. -/
def Store.Fresh (s : Store) (c : InsertCall) : Prop :=
  c.svc.uuid = .zero ∧ ∀ r ∈ s.db.services, r.uuid ≠ some (upkUuidToString c.random)

/-- The service is in the table, under a UUID as `upk_uuid_to_string` writes it, or it is new, no lookup has succeeded
before, and the statements that add it are plain. -/
def Store.Clear (s : Store) (c : InsertCall) : Prop :=
  match s.db.selectUuid c.svc.key with
  | some (some uuid) => CanonicalUuid uuid
  | _ => s.lookupUuid.chars = [] ∧ (Statement.insertService c.random c.svc.name.toCStr c.now).Plain ∧
      (Statement.updatePackage c.svc.package.toCStr c.random).Plain

instance (s : Store) (c : InsertCall) : Decidable (s.Fresh c) := inferInstanceAs (Decidable (_ ∧ _))

instance (s : Store) (c : InsertCall) : Decidable (s.Clear c) := by
  unfold Store.Clear
  split <;> infer_instance

/-! ### One call -/

/-- Every UUID that was given is in the table, for the service that it was given to. -/
structure Store.Consistent (s : Store) : Prop where
  rows : DistinctUuids s.db.services
  given : ∀ u k, (u, k) ∈ s.given → ∃ r ∈ s.db.services, r.uuid = some (upkUuidToString u) ∧ r.isFor k = true
  options : ∀ r ∈ s.db.svcOptions, r.Owned s.given
  listOptions : ∀ r ∈ s.db.svcListOptions, r.toOptionRow.Owned s.given

/-- The service has got a UUID, and the table has it. -/
structure Store.Assigned (s s' : Store) (uuid : Uuid) (k : ServiceKey) : Prop where
  rows : DistinctUuids s'.db.services
  kept : ∀ r ∈ s.db.services, r ∈ s'.db.services
  row : ∃ r ∈ s'.db.services, r.uuid = some (upkUuidToString uuid) ∧ r.isFor k = true
  options : s'.db.svcOptions = s.db.svcOptions
  listOptions : s'.db.svcListOptions = s.db.svcListOptions
  given : s'.given = s.given

variable {s s' : Store} {c : InsertCall} {svc svc' : SvcDesc} {exec : SqliteExec} {k : ServiceKey}
  {given given' : List (Uuid × ServiceKey)}

theorem ServiceRow.isFor_iff {r : ServiceRow} : r.isFor k = true ↔ r.svcid = k.name ∧ r.package = some k.package := by
  simp [ServiceRow.isFor]

theorem ServiceRow.isFor_unique {r r' : ServiceRow} {k' : ServiceKey} (hid : r.svcid = r'.svcid ∧ r.package = r'.package)
    (hr : r.isFor k = true) (hr' : r'.isFor k' = true) : k = k' := by
  obtain ⟨hname, hpackage⟩ := isFor_iff.mp hr
  obtain ⟨hname', hpackage'⟩ := isFor_iff.mp hr'
  cases k
  cases k'
  rw [hname, hname'] at hid
  rw [hpackage, hpackage'] at hid
  obtain ⟨rfl, hpkg⟩ := hid
  obtain rfl := Option.some.inj hpkg
  rfl

theorem OptionRow.Owned.mono {r : OptionRow} (h : r.Owned given) (hsub : ∀ x ∈ given, x ∈ given') : r.Owned given' := by
  intro k hk
  obtain ⟨u, huuid, hmem⟩ := h k hk
  exact ⟨u, huuid, hsub _ hmem⟩

theorem Store.Consistent.identified (h : s.Consistent) : Identified s where
  distinct := by
    intro u k k' hk hk'
    obtain ⟨r, hr, huuid, hfor⟩ := h.given u k hk
    obtain ⟨r', hr', huuid', hfor'⟩ := h.given u k' hk'
    exact ServiceRow.isFor_unique (h.rows r hr r' hr' _ huuid huuid') hfor hfor'
  stored := by
    intro u k hk r hr huuid
    obtain ⟨r', hr', huuid', hfor'⟩ := h.given u k hk
    obtain ⟨hname, hpackage⟩ := h.rows r hr r' hr' _ huuid huuid'
    rw [ServiceRow.isFor_iff] at hfor' ⊢
    rwa [hname, hpackage]
  options := h.options
  listOptions := h.listOptions

/-- **Storing one option** of a service that was given its UUID -/
theorem upkDbUpsert_owned {rows : List OptionRow} (hrows : ∀ r ∈ rows, r.Owned given)
    (hgiven : (svc.uuid, svc.key) ∈ given) (key : CStr) : ∀ r ∈ upkDbUpsert svc rows key, r.Owned given := by
  have hown : ∀ r : OptionRow, r.uuid = upkUuidToString svc.uuid → r.source = some svc.key → r.Owned given := by
    intro r huuid hsource k hk
    obtain rfl := Option.some.inj (hsource.symm.trans hk)
    exact ⟨svc.uuid, huuid, hgiven⟩
  intro r hr
  unfold upkDbUpsert at hr
  dsimp only at hr
  split at hr
  · obtain ⟨r₀, hr₀, rfl⟩ := List.mem_map.mp hr
    split
    next hsame => exact hown _ hsame.1 rfl
    next => exact hrows r₀ hr₀
  · rcases List.mem_append.mp hr with hr | hr
    · exact hrows r hr
    · obtain rfl := List.mem_singleton.mp hr
      exact hown _ rfl rfl

/-- **Storing the options** of a service that was given its UUID -/
theorem upkDbUpsertOptions_owned {db db' : Db} (hrun : upkDbUpsertOptions svc db = some db')
    (hgiven : (svc.uuid, svc.key) ∈ given) (hoptions : ∀ r ∈ db.svcOptions, r.Owned given)
    (hlist : ∀ r ∈ db.svcListOptions, r.toOptionRow.Owned given) :
    db'.services = db.services ∧ (∀ r ∈ db'.svcOptions, r.Owned given) ∧
      ∀ r ∈ db'.svcListOptions, r.toOptionRow.Owned given := by
  obtain ⟨keys, -, hdb⟩ := Option.bind_eq_some_iff.mp hrun
  obtain rfl := Option.some.inj hdb
  refine ⟨rfl, ?_, ?_⟩
  · show ∀ r ∈ keys.foldl (upkDbUpsert svc) db.svcOptions, r.Owned given
    clear hrun hdb hlist
    generalize db.svcOptions = rows at hoptions
    induction keys generalizing rows with
    | nil => exact hoptions
    | cons key keys ih => exact ih _ (upkDbUpsert_owned hoptions hgiven key)
  · intro r hr
    rcases List.mem_append.mp hr with hr | hr
    · exact hlist r (List.mem_of_mem_filter hr)
    · obtain ⟨o, -, rfl⟩ := List.mem_map.mp hr
      intro k hk
      obtain rfl := Option.some.inj hk
      exact ⟨svc.uuid, rfl, hgiven⟩

/-- **A new service** gets a row of its own. -/
theorem insertRow_assigned (h : s.Consistent) (hfresh : s.Fresh c) {db : Db}
    (hdb : db = (s.db.insertService (upkUuidToString c.random) c.svc.name.toCStr).updatePackage c.svc.package.toCStr
      (upkUuidToString c.random)) :
    s.Assigned { s with db := db } c.random c.svc.key := by
  have hold : ∀ r ∈ s.db.services, r.uuid ≠ some (upkUuidToString c.random) := hfresh.2
  have hservices : db.services =
      s.db.services ++ [⟨some (upkUuidToString c.random), c.svc.name.toCStr, some c.svc.package.toCStr⟩] := by
    rw [hdb]
    show (s.db.services ++ _).map _ = _
    rw [List.map_append, List.map_singleton, if_pos rfl]
    congr 1
    refine (List.map_congr_left fun r hr => ?_).trans (List.map_id _)
    exact if_neg (hold r hr)
  have hnew : ∀ r ∈ s.db.services, ∀ uuid, r.uuid = some uuid → uuid ≠ upkUuidToString c.random := by
    rintro r hr uuid huuid rfl
    exact hold r hr huuid
  refine ⟨?_, ?_, ?_, ?_, ?_, rfl⟩
  · show DistinctUuids db.services
    rw [hservices]
    intro r hr r' hr' uuid huuid huuid'
    rcases List.mem_append.mp hr with hr | hr <;> rcases List.mem_append.mp hr' with hr' | hr'
    · exact h.rows r hr r' hr' uuid huuid huuid'
    · obtain rfl := List.mem_singleton.mp hr'
      exact absurd (Option.some.inj huuid').symm (hnew r hr uuid huuid)
    · obtain rfl := List.mem_singleton.mp hr
      exact absurd (Option.some.inj huuid).symm (hnew r' hr' uuid huuid')
    · obtain rfl := List.mem_singleton.mp hr
      obtain rfl := List.mem_singleton.mp hr'
      exact ⟨rfl, rfl⟩
  · intro r hr
    show r ∈ db.services
    rw [hservices]
    exact List.mem_append_left _ hr
  · refine ⟨⟨some (upkUuidToString c.random), c.svc.name.toCStr, some c.svc.package.toCStr⟩, ?_, rfl,
      ServiceRow.isFor_iff.mpr ⟨rfl, rfl⟩⟩
    show _ ∈ db.services
    rw [hservices]
    exact List.mem_append_right _ (List.mem_singleton_self _)
  · rw [hdb]
    rfl
  · rw [hdb]
    rfl

/-- **`upk_db_add_new_service`** -/
theorem addNewService_assigned (hsql : AsWritten exec) (h : s.Consistent) (hfresh : s.Fresh c)
    (hinsert : (Statement.insertService c.random c.svc.name.toCStr c.now).Plain)
    (hupdate : (Statement.updatePackage c.svc.package.toCStr c.random).Plain)
    (hrun : upkDbAddNewService exec c.random c.now c.svc s = some (s', svc')) :
    s.Assigned s' svc'.uuid c.svc.key ∧ svc'.key = c.svc.key := by
  obtain ⟨uuid, huuid, hrun⟩ := Option.bind_eq_some_iff.mp hrun
  have hgen : uuid = some c.random := by
    rw [newServiceUuid, if_pos hfresh.1] at huuid
    obtain ⟨text, htext, rfl⟩ := Option.map_eq_some_iff.mp huuid
    unfold upkDbGenUuid at htext
    split at htext
    · obtain rfl := Option.some.inj htext
      rw [upkStringToUuid_toString]
    · cases htext
  subst hgen
  dsimp only at hrun
  rw [hsql.insertService s.db c.random c.svc.name.toCStr c.now hinsert hfresh.2] at hrun
  dsimp only at hrun
  rw [if_pos rfl, hsql.updatePackage _ _ _ hupdate] at hrun
  obtain ⟨rfl, rfl⟩ := Prod.mk.inj (Option.some.inj hrun)
  exact ⟨insertRow_assigned h hfresh rfl, rfl⟩

/-- **A service that is in the table** gets the UUID of its row. -/
theorem lookup_assigned (h : s.Consistent) (hzero : c.svc.uuid = .zero) {uuid : CStr}
    (hrow : s.db.selectUuid c.svc.key = some (some uuid)) (hcanonical : CanonicalUuid uuid) :
    s.Assigned { s with lookupUuid := uuid } (upkStringToUuid c.svc.uuid uuid) c.svc.key := by
  obtain ⟨r, hr, huuid⟩ := Option.map_eq_some_iff.mp hrow
  have hfor : r.isFor c.svc.key = true := List.find?_some (p := fun r : ServiceRow => r.isFor c.svc.key) hr
  refine ⟨h.rows, fun _ hr => hr, ⟨r, List.mem_of_find?_eq_some hr, ?_, hfor⟩, rfl, rfl, rfl⟩
  rw [huuid, hzero]
  exact congrArg some hcanonical.symm

theorem CanonicalUuid.length {uuid : CStr} (h : CanonicalUuid uuid) : uuid.chars.length = 36 := by
  rw [← show upkUuidToString (upkStringToUuid .zero uuid) = uuid from h]
  simp [upkUuidToString, Uuid.chars]

theorem lookup_known {uuid : CStr} (hrow : s.db.selectUuid k = some (some uuid)) (hcanonical : CanonicalUuid uuid) :
    upkDbSvcUuidLookup k s = ({ s with lookupUuid := uuid }, some uuid) := by
  have hlen := hcanonical.length
  have htake : uuid.take (upkMaxStringLen - 1) = uuid :=
    CStr.ext (List.take_of_length_le (by rw [hlen]; decide))
  have hne : uuid.chars ≠ [] := List.ne_nil_of_length_pos (by omega)
  simp only [upkDbSvcUuidLookup, hrow, upkDbGetSingleText, htake]
  rw [if_pos hne]

/-- **One call** gives the service a UUID that the table has for it. -/
theorem insertCfg_assigned (hsql : AsWritten exec) (h : s.Consistent) (hfresh : s.Fresh c) (hclear : s.Clear c)
    (hrun : upkDbInsertCfg exec c.random c.now c.svc s = some (s', svc')) :
    ∃ s₁ : Store, s.Assigned s₁ svc'.uuid c.svc.key ∧ svc'.key = c.svc.key ∧ s₁.upsertOptions svc' = some (s', svc') := by
  have hzero : ¬c.svc.uuid ≠ .zero := not_not_intro hfresh.1
  have hupsert : ∀ {s₁ : Store} {svc₁ : SvcDesc}, s₁.upsertOptions svc₁ = some (s', svc') → svc₁ = svc' := by
    intro s₁ svc₁ hrun
    obtain ⟨db, -, hout⟩ := Option.bind_eq_some_iff.mp hrun
    exact (Prod.mk.inj (Option.some.inj hout)).2
  unfold upkDbInsertCfg at hrun
  unfold Store.Clear at hclear
  split at hclear
  next uuid hrow =>
    rw [lookup_known hrow hclear] at hrun
    dsimp only at hrun
    rw [if_neg hzero] at hrun
    obtain rfl := hupsert hrun
    exact ⟨_, lookup_assigned h hfresh.1 hrow hclear, rfl, hrun⟩
  next hrow =>
    obtain ⟨hbuffer, hinsert, hupdate⟩ := hclear
    have hlookup : upkDbSvcUuidLookup c.svc.key s = (s, none) := by
      have htext : upkDbGetSingleText s.lookupUuid (s.db.selectUuid c.svc.key) = s.lookupUuid := by
        unfold upkDbGetSingleText
        split
        next uuid hsome => exact absurd hsome (hrow uuid)
        next => rfl
      simp only [upkDbSvcUuidLookup, htext]
      rw [if_neg (not_not_intro hbuffer)]
    rw [hlookup] at hrun
    dsimp only at hrun
    rw [if_neg hzero] at hrun
    obtain ⟨⟨s₁, svc₁⟩, hadd, hrun⟩ := Option.bind_eq_some_iff.mp hrun
    obtain rfl := hupsert hrun
    obtain ⟨hassigned, hkey⟩ := addNewService_assigned hsql h hfresh hinsert hupdate hadd
    exact ⟨s₁, hassigned, hkey, hrun⟩

/-- **Step lemma.** -/
theorem Store.Consistent.step (hsql : AsWritten exec) (h : s.Consistent) (hfresh : s.Fresh c) (hclear : s.Clear c)
    (hrun : s.step exec c = some s') : s'.Consistent := by
  obtain ⟨⟨s₂, svc₂⟩, hinsert, hs'⟩ := Option.bind_eq_some_iff.mp hrun
  obtain rfl := Option.some.inj hs'
  obtain ⟨s₁, hassigned, hkey, hupsert⟩ := insertCfg_assigned hsql h hfresh hclear hinsert
  obtain ⟨db, hdb, hs₂⟩ := Option.bind_eq_some_iff.mp hupsert
  obtain rfl := (Prod.mk.inj (Option.some.inj hs₂)).1
  have hgrow : ∀ x ∈ s.given, x ∈ s₁.given ++ [(svc₂.uuid, c.svc.key)] := by
    intro x hx
    rw [hassigned.given]
    exact List.mem_append_left _ hx
  have hgiven : (svc₂.uuid, svc₂.key) ∈ s₁.given ++ [(svc₂.uuid, c.svc.key)] := by
    rw [hkey]
    exact List.mem_append_right _ (List.mem_singleton_self _)
  obtain ⟨hservices, hoptions, hlist⟩ := upkDbUpsertOptions_owned hdb hgiven
    (fun r hr => (h.options r (hassigned.options ▸ hr)).mono hgrow)
    (fun r hr => (h.listOptions r (hassigned.listOptions ▸ hr)).mono hgrow)
  refine ⟨?_, ?_, hoptions, hlist⟩
  · show DistinctUuids db.services
    rw [hservices]
    exact hassigned.rows
  · intro u k hk
    show ∃ r ∈ db.services, _
    rw [hservices]
    rcases List.mem_append.mp hk with hk | hk
    · rw [hassigned.given] at hk
      obtain ⟨r, hr, hrow⟩ := h.given u k hk
      exact ⟨r, hassigned.kept r hr, hrow⟩
    · obtain ⟨rfl, rfl⟩ := Prod.mk.inj (List.mem_singleton.mp hk)
      exact hassigned.row

/-- SQLite, as far as plain statements go -/
def sqliteExec : SqliteExec := fun st db =>
  match st with
  | .insertService uuid svcid _ =>
    if ∀ r ∈ db.services, r.uuid ≠ some (upkUuidToString uuid) then (db.insertService (upkUuidToString uuid) svcid, true)
    else (db, false)
  | .updatePackage package uuid => (db.updatePackage package (upkUuidToString uuid), true)

theorem sqliteExec_asWritten : AsWritten sqliteExec where
  insertService _ _ _ _ _ hnew := if_pos hnew
  updatePackage _ _ _ _ := rfl

/-- The UUID number `n` -/
def uuidNo (n : UInt32) : Uuid := { Uuid.zero with timeLow := n }

/-- A service without a package -/
def serviceNamed (name : CStr) : SvcDesc := { upkSvcDescClear with name := strncpyString name }

/-- The service `web` is in the table. -/
def webRow : ServiceRow := ⟨some (upkUuidToString (uuidNo 1)), cstr "web", some .empty⟩

/-- The call for a service when the next UUID has the number `n` -/
def insertCall (name : CStr) (n : UInt32) : InsertCall := ⟨serviceNamed name, uuidNo n, cstr "1312914180"⟩

theorem distinctUuids_webRow : DistinctUuids [webRow] := by
  intro r hr r' hr' uuid _ _
  obtain rfl := List.mem_singleton.mp hr
  obtain rfl := List.mem_singleton.mp hr'
  exact ⟨rfl, rfl⟩

/-- First the new service `db`, then `web` -/
def newFirst : List InsertCall := [insertCall (cstr "db") 2, insertCall (cstr "web") 3]

/-- First `web`, then the new service `db` -/
def knownFirst : List InsertCall := [insertCall (cstr "web") 2, insertCall (cstr "db") 3]

end Upkeeper
