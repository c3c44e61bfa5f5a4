import Upkeeper.Config.Restore
/-!
# Round trips of services (`upk_config.c`)

The tree that `upk_svclist_to_json_obj` makes of a list of services is walked to the end, with one entry of an object
for each field of each service. So it adds services that agree with those that it was made of, field by field, exactly
when their fields come back one by one, and no entry of a service replaces that of another (`svclist_roundTrips_iff`).
-/

namespace Upkeeper

open Wire (Fault)

variable {passwd : CStr → Option (UInt32 × UInt32)} {d svc : SvcDesc} {f : SvcField} {v : Json} {key : CStr} {s : CStr}

/-! ### All entries -/

/-- The entry is read as the one of the field, and the walk takes it. -/
def Belongs (f : SvcField) (e : CStr × Json) : Prop :=
  (∀ g, entryField e = some g → g = f) ∧ serviceEntryFits e = true

theorem belongs_null : Belongs f (key, .null) := ⟨fun g hg => (by cases hg), rfl⟩

theorem belongs_string {k : SvcStringKey} (hkey : matchKey svcStringKeys key = some k)
    (hk : k = .longDescription → s.chars.length ≤ longDescriptionMax) : Belongs k.field (key, .string s) := by
  constructor
  · intro g hg
    rw [entryField, hkey] at hg
    exact (Option.some.inj hg).symm
  · simp only [serviceEntryFits, hkey, Option.some.injEq, Bool.or_eq_true, Bool.not_eq_true', decide_eq_false_iff_not,
      decide_eq_true_eq]
    exact not_or_of_imp hk

theorem belongs_text {k : SvcStringKey} {p : CharPtr} (hkey : matchKey svcStringKeys key = some k)
    (hk : k = .longDescription → ∀ s, p = .text s → s.chars.length ≤ longDescriptionMax)
    (hv : upkJsonSerializeOrNull (.string p) = .ok v) : Belongs k.field (key, v) := by
  cases p with
  | freed => cases hv
  | null =>
    obtain rfl := Except.ok.inj hv
    exact belongs_null
  | text s =>
    obtain rfl := Except.ok.inj hv
    split
    · exact belongs_string hkey fun h => hk h s rfl
    · exact belongs_null

theorem belongs_int {k : SvcIntKey} {i : Int32} (hkey : matchKey svcIntKeys key = some k)
    (hv : upkJsonSerializeOrNull (.int i) = .ok v) : Belongs k.field (key, v) := by
  obtain rfl := Except.ok.inj hv
  split
  · refine ⟨fun g hg => ?_, rfl⟩
    rw [entryField, hkey] at hg
    exact (Option.some.inj hg).symm
  · exact belongs_null

theorem belongs_flag {g : FlagField} (hv : encodeField svc (.flag g) = .ok v) :
    Belongs (.flag g) (cstr (SvcField.flag g).key, v) := by
  obtain rfl := Except.ok.inj hv
  split
  · refine ⟨fun g' hg => ?_, rfl⟩
    rw [entryField, matchKey_flag] at hg
    exact (Option.some.inj hg).symm
  · exact belongs_null

theorem isScalar_of_svcidArray {ids : Option (List SvcId)} {vs : List Json} (h : svcidArray ids = .ok vs) :
    ∀ v ∈ vs, v.isScalar = true := by
  intro v hv
  obtain ⟨id, -, hid⟩ := Wire.exists_of_mem_mapM h hv
  obtain ⟨buf, -, hid⟩ := Wire.bind_eq_ok.mp hid
  obtain rfl := Except.ok.inj hid
  rfl

theorem belongs_svcids {l : SvcidField} (hv : encodeField svc (.svcids l) = .ok v) :
    Belongs (.svcids l) (cstr (SvcField.svcids l).key, v) := by
  obtain ⟨vs, hvs, hv⟩ := Wire.bind_eq_ok.mp hv
  obtain rfl := Except.ok.inj hv
  split
  · constructor
    · intro g hg
      rw [entryField, matchKey_svcids] at hg
      exact (Option.some.inj hg).symm
    · rw [serviceEntryFits, matchKey_svcids, Option.isSome_some, Bool.true_and, List.all_eq_true]
      exact isScalar_of_svcidArray hvs
  · exact belongs_null

theorem belongs_customActions (hv : encodeField svc .customActions = .ok v) :
    Belongs .customActions (cstr SvcField.customActions.key, v) := by
  obtain rfl := Except.ok.inj hv
  split
  · constructor
    · intro g hg
      rw [entryField, if_pos strcasecmpEq_customActions] at hg
      exact (Option.some.inj hg).symm
    · rw [serviceEntryFits, strcasecmpEq_customActions, Bool.true_and, List.all_eq_true]
      intro e he
      obtain ⟨action, -, rfl⟩ := List.mem_map.mp (Table.mem_of_mem_ofList he)
      rfl
  · exact belongs_null

theorem belongs_encoded (hs : svc.Settable) (hv : encodeField svc f = .ok v) : Belongs f (cstr f.key, v) := by
  cases f with
  | name =>
    obtain rfl := Except.ok.inj hv
    exact belongs_null
  | package => exact belongs_text (p := .text svc.package.toCStr) (matchKey_string .package) (by simp) hv
  | uuid => exact belongs_text (p := .text .empty) (matchKey_string .uuid) (by simp) hv
  | shortDescription =>
    exact belongs_text (p := .text svc.shortDescription.toCStr) (matchKey_string .shortDescription) (by simp) hv
  | longDescription =>
    refine belongs_text (matchKey_string .longDescription) (fun _ s hptr => ?_) hv
    rcases hs.longDescription with hnull | ⟨s', hptr', hmax⟩
    · rw [hnull] at hptr
      cases hptr
    · rw [hptr', CharPtr.text.injEq] at hptr
      exact hptr ▸ hmax
  | int g => exact belongs_int (matchKey_int (.int g)) hv
  | flag g => exact belongs_flag hv
  | setUID => exact belongs_int (matchKey_int .setUID) hv
  | setGID => exact belongs_int (matchKey_int .setGID) hv
  | ringbufferSize => exact belongs_int (matchKey_int .ringbufferSize) hv
  | path g => exact belongs_text (p := .text (svc.paths g).toCStr) (matchKey_string (.path g)) (by simp) hv
  | script g => exact belongs_text (matchKey_string (.script g)) (by simp) hv
  | svcids l => exact belongs_svcids hv
  | customActions => exact belongs_customActions hv
  | initialState =>
    have hv' : Except.ok (initialStateJson svc.initialState) = (Except.ok v : Except Fault Json) := hv
    obtain rfl := Except.ok.inj hv'
    cases svc.initialState with
    | running | stopped => exact belongs_string (matchKey_string .initialState) (by simp)
    | undefined | shutdown => exact belongs_null

/-- The entry of the field -/
def Encodes (svc : SvcDesc) (f : SvcField) (e : CStr × Json) : Prop := e.1 = cstr f.key ∧ encodeField svc f = .ok e.2

variable {fs : List SvcField} {es : List (CStr × Json)} {e : CStr × Json}

theorem Encodes.belongs (h : Encodes svc f e) (hs : svc.Settable) : Belongs f e := by
  obtain ⟨key, v⟩ := e
  obtain ⟨rfl, hv⟩ := h
  exact belongs_encoded hs hv

theorem encodes_iff : (do .ok (cstr f.key, ← encodeField svc f)) = .ok e ↔ Encodes svc f e := by
  obtain ⟨key, v⟩ := e
  rw [Wire.bind_eq_ok]
  constructor
  · rintro ⟨v', hv, h⟩
    obtain ⟨rfl, rfl⟩ := Prod.mk.inj (Except.ok.inj h)
    exact ⟨rfl, hv⟩
  · rintro ⟨rfl, hv⟩
    exact ⟨v, hv, rfl⟩

theorem forall₂_encodes : List.Forall₂ (Encodes svc) fs es ↔
    (fs.mapM fun f => do .ok (cstr f.key, ← encodeField svc f)) = .ok es := by
  rw [Wire.mapM_eq_ok]
  simp only [encodes_iff]

theorem keys_eq (h : List.Forall₂ (Encodes svc) fs es) : es.map Prod.fst = fs.map fun f => cstr f.key := by
  induction h with
  | nil => rfl
  | cons he _ ih => rw [List.map_cons, List.map_cons, ih, he.1]

theorem upkSvcDescToJsonObj_eq_ok :
    upkSvcDescToJsonObj svc = .ok es ↔ List.Forall₂ (Encodes svc) encodedFields es := by
  have hentries {es : List (CStr × Json)} :
      ((svcDescEntries svc).mapM fun e => do .ok (cstr e.1, ← e.2)) = .ok es ↔
        List.Forall₂ (Encodes svc) encodedFields es := by
    rw [Wire.mapM_eq_ok, svcDescEntries_eq, List.forall₂_map_left_iff]
    simp only [encodes_iff]
  have hkeys {es : List (CStr × Json)} (h : List.Forall₂ (Encodes svc) encodedFields es) : Table.ofList es = es :=
    Table.ofList_of_nodup (keys_eq h ▸ nodup_keys)
  rw [upkSvcDescToJsonObj, Wire.bind_eq_ok]
  constructor
  · rintro ⟨es', hes', hes⟩
    obtain rfl := Except.ok.inj hes
    rw [hentries] at hes'
    rwa [hkeys hes']
  · intro h
    exact ⟨es, hentries.mpr h, congrArg _ (hkeys h)⟩

theorem get_applyService_of_notMem (hs : svc.Settable) (h : List.Forall₂ (Encodes svc) fs es) (hf : f ∉ fs) :
    (applyService passwd es d).get f = d.get f := by
  induction h generalizing d with
  | nil => rfl
  | cons he _ ih =>
    rw [List.mem_cons, not_or] at hf
    refine (ih hf.2).trans (get_applyServiceEntry fun heq => hf.1 ?_)
    exact (he.belongs hs).1 _ heq

/-- **What the walk of the entries makes of a field** -/
theorem get_applyService (hs : svc.Settable) (h : List.Forall₂ (Encodes svc) fs es) (hnodup : fs.Nodup)
    (hmem : f ∈ fs) (hf : f.Compared) (hd : d.get f = upkSvcDescClear.get f) :
    (applyService passwd es d).get f = svc.get f ↔ svc.Keeps f := by
  induction h generalizing d with
  | nil => cases hmem
  | @cons g e fs es he hrest ih =>
    rw [List.nodup_cons] at hnodup
    rcases List.mem_cons.mp hmem with rfl | hmem
    · rw [← get_encoded hs hf hd he.2, ← he.1]
      rw [show applyService passwd (e :: es) d = applyService passwd es (applyServiceEntry passwd d e) from rfl,
        get_applyService_of_notMem hs hrest hnodup.1]
    · have hne : f ≠ g := fun heq => hnodup.1 (heq ▸ hmem)
      refine ih hnodup.2 hmem ?_
      exact (get_applyServiceEntry fun heq => hne ((he.belongs hs).1 _ heq)).trans hd

/-- `svc'` has what `svc` has, but for the name, the package and the lists of identifiers. -/
structure SvcDesc.Agrees (svc svc' : SvcDesc) : Prop where
  uuid : svc'.uuid = svc.uuid
  shortDescription : svc'.shortDescription = svc.shortDescription
  longDescription : svc'.longDescription = svc.longDescription
  ints : svc'.ints = svc.ints
  flags : svc'.flags = svc.flags
  setUID : svc'.setUID = svc.setUID
  setGID : svc'.setGID = svc.setGID
  ringbufferSize : svc'.ringbufferSize = svc.ringbufferSize
  paths : svc'.paths = svc.paths
  scripts : svc'.scripts = svc.scripts
  customActions : svc'.customActions = svc.customActions
  initialState : svc'.initialState = svc.initialState

theorem SvcDesc.agrees_iff {svc' : SvcDesc} :
    svc.Agrees svc' ↔ ∀ f : SvcField, f.Compared → svc'.get f = svc.get f := by
  constructor
  · intro h f hf
    cases f with
    | name | package | svcids => exact hf.elim
    | uuid => exact h.uuid
    | shortDescription => exact h.shortDescription
    | longDescription => exact h.longDescription
    | int g => exact congrFun h.ints g
    | flag g => exact congrFun h.flags g
    | setUID => exact h.setUID
    | setGID => exact h.setGID
    | ringbufferSize => exact h.ringbufferSize
    | path g => exact congrFun h.paths g
    | script g => exact congrFun h.scripts g
    | customActions => exact h.customActions
    | initialState => exact h.initialState
  · intro h
    exact {
      uuid := h .uuid trivial
      shortDescription := h .shortDescription trivial
      longDescription := h .longDescription trivial
      ints := funext fun g => h (.int g) trivial
      flags := funext fun g => h (.flag g) trivial
      setUID := h .setUID trivial
      setGID := h .setGID trivial
      ringbufferSize := h .ringbufferSize trivial
      paths := funext fun g => h (.path g) trivial
      scripts := funext fun g => h (.script g) trivial
      customActions := h .customActions trivial
      initialState := h .initialState trivial }

theorem get_upkParseSvcId (hf : f.Compared) : (upkParseSvcId key d).get f = d.get f := by
  unfold upkParseSvcId
  split
  · cases f with
    | name | package => exact hf.elim
    | _ => rfl
  · cases f with
    | name | package => exact hf.elim
    | _ => rfl

/-- **The entries of a service are read as one that agrees with it, if each field is set again to what it is.** -/
theorem agrees_applyService (hs : svc.Settable) (h : upkSvcDescToJsonObj svc = .ok es) :
    svc.Agrees (applyService passwd es (upkParseSvcId key upkSvcDescClear)) ↔
      ∀ f : SvcField, f.Compared → svc.Keeps f := by
  rw [SvcDesc.agrees_iff]
  refine forall₂_congr fun f hf => ?_
  refine get_applyService hs (upkSvcDescToJsonObj_eq_ok.mp h) nodup_encodedFields (mem_encodedFields ?_) hf
    (get_upkParseSvcId hf)
  rintro rfl
  exact hf

theorem serviceEntryFits_of_encodes (hs : svc.Settable) (h : List.Forall₂ (Encodes svc) fs es) :
    es.all serviceEntryFits = true := by
  induction h with
  | nil => rfl
  | cons he _ ih => rw [List.all_cons, ih, (he.belongs hs).2, Bool.and_self]

/-- Only an identifier that does not fit keeps a service from being written. -/
theorem exists_upkSvcDescToJsonObj (hs : svc.Settable) :
    (∃ es, upkSvcDescToJsonObj svc = .ok es) ↔
      ∀ l : SvcidField, ∀ ids ∈ svc.svcids l, ∀ id ∈ ids, FitsId id.pkg id.name := by
  have hfields : (∃ es, List.Forall₂ (Encodes svc) encodedFields es) ↔
      ∀ f ∈ encodedFields, ∃ v, encodeField svc f = .ok v := by
    simp only [forall₂_encodes, Wire.exists_mapM_eq_ok, encodes_iff]
    refine forall₂_congr fun f _ => ⟨?_, ?_⟩
    · rintro ⟨e, -, hv⟩
      exact ⟨e.2, hv⟩
    · rintro ⟨v, hv⟩
      exact ⟨(_, v), rfl, hv⟩
  simp only [upkSvcDescToJsonObj_eq_ok, hfields, ← exists_svcidArray]
  constructor
  · intro h l
    obtain ⟨v, hv⟩ := h (.svcids l) (mem_encodedFields (by simp))
    obtain ⟨vs, hvs, -⟩ := Wire.bind_eq_ok.mp hv
    exact ⟨vs, hvs⟩
  · intro h f _
    cases f with
    | svcids l =>
      obtain ⟨vs, hvs⟩ := h l
      exact ⟨_, Wire.bind_eq_ok.mpr ⟨vs, hvs, rfl⟩⟩
    | longDescription =>
      rcases hs.longDescription with hptr | ⟨s, hptr, -⟩
      · exact ⟨_, by rw [encodeField, hptr]; rfl⟩
      · exact ⟨_, by rw [encodeField, hptr]; rfl⟩
    | script g =>
      cases hptr : svc.scripts g with
      | freed => exact absurd hptr (hs.scripts g)
      | null => exact ⟨_, by rw [encodeField, hptr]; rfl⟩
      | text s => exact ⟨_, by rw [encodeField, hptr]; rfl⟩
    | _ => exact ⟨_, rfl⟩

/-! ### Lists of services -/

/-- What the walk adds for an entry of a file of services -/
def entryService (passwd : CStr → Option (UInt32 × UInt32)) : CStr × Json → Option SvcDesc
  | (key, .object es) => some (applyService passwd es (upkParseSvcId key upkSvcDescClear))
  | _ => none

theorem svclist_applySvcconf (es : List (CStr × Json)) (cfg : ControllerConfig) :
    (applySvcconf passwd cfg (.object es)).svclist.getD [] =
      cfg.svclist.getD [] ++ es.filterMap (entryService passwd) := by
  show (es.foldl (applySvcconfEntry passwd) cfg).svclist.getD [] = _
  induction es generalizing cfg with
  | nil => simp
  | cons e es ih =>
    rw [List.foldl_cons, ih]
    obtain ⟨key, v⟩ := e
    cases v with
    | object es' => simp [applySvcconfEntry, entryService]
    | _ => rfl

/-- The entry of a service -/
def EncodesSvc (svc : SvcDesc) (e : CStr × Json) : Prop :=
  upkSvcId svc = .ok e.1 ∧ ∃ es, upkSvcDescToJsonObj svc = .ok es ∧ e.2 = .object es

/-- **The services come back**: the tree that is made of them is walked to the end, which adds services that agree with
them, one after another. -/
def RoundTrips (passwd : CStr → Option (UInt32 × UInt32)) (cfg : ControllerConfig) (svcs : List SvcDesc) : Prop :=
  ∃ doc cfg' svcs', upkSvclistToJsonObj (some svcs) = .ok doc ∧ upkSvcconfPack passwd cfg (some doc) = .ok cfg' ∧
    cfg'.svclist.getD [] = cfg.svclist.getD [] ++ svcs' ∧ List.Forall₂ SvcDesc.Agrees svcs svcs'

theorem encodesSvc_iff :
    (do let idbuf ← upkSvcId svc; let p ← upkSvcDescToJsonObj svc; .ok (idbuf, Json.object p)) = .ok e ↔
      EncodesSvc svc e := by
  obtain ⟨key, v⟩ := e
  simp only [Wire.bind_eq_ok, EncodesSvc]
  constructor
  · rintro ⟨id, hid, es, hes, h⟩
    obtain ⟨rfl, rfl⟩ := Prod.mk.inj (Except.ok.inj h)
    exact ⟨hid, es, hes, rfl⟩
  · rintro ⟨hid, es, hes, rfl⟩
    exact ⟨key, hid, es, hes, rfl⟩

theorem exists_encodesSvc (hs : svc.Settable) : (∃ e, EncodesSvc svc e) ↔ FitsId svc.package svc.name ∧
    ∀ l : SvcidField, ∀ ids ∈ svc.svcids l, ∀ id ∈ ids, FitsId id.pkg id.name := by
  rw [← exists_upkConcatSvcid, ← exists_upkSvcDescToJsonObj hs]
  constructor
  · rintro ⟨e, hid, es, hes, -⟩
    exact ⟨⟨e.1, hid⟩, es, hes⟩
  · rintro ⟨⟨id, hid⟩, es, hes⟩
    exact ⟨(id, .object es), hid, es, hes, rfl⟩

theorem SvcDesc.keeps_iff : (∀ f : SvcField, f.Compared → svc.Keeps f) ↔ svc.uuid = .zero ∧
    svc.longDescription ≠ .text .empty ∧ (∀ f, svc.scripts f ≠ .text .empty) ∧
    (∀ l ∈ svc.customActions, l ≠ [] ∧ (l.map (·.name)).Nodup) ∧ svc.initialState ≠ .shutdown := by
  constructor
  · intro h
    exact ⟨h .uuid trivial, h .longDescription trivial, fun g => h (.script g) trivial, h .customActions trivial,
      h .initialState trivial⟩
  · rintro ⟨huuid, hlong, hscripts, hactions, hstate⟩ f -
    cases f with
    | uuid => exact huuid
    | longDescription => exact hlong
    | script g => exact hscripts g
    | customActions => exact hactions
    | initialState => exact hstate
    | _ => trivial

theorem EncodesSvc.fits (h : EncodesSvc svc e) (hs : svc.Settable) : svcconfEntryFits e = true := by
  obtain ⟨key, v⟩ := e
  obtain ⟨-, es, hes, rfl⟩ := h
  exact serviceEntryFits_of_encodes hs (upkSvcDescToJsonObj_eq_ok.mp hes)

theorem EncodesSvc.adds (h : EncodesSvc svc e) (hs : svc.Settable) : ∃ svc',
    entryService passwd e = some svc' ∧ (svc.Agrees svc' ↔ ∀ f : SvcField, f.Compared → svc.Keeps f) := by
  obtain ⟨key, v⟩ := e
  obtain ⟨-, es, hes, rfl⟩ := h
  exact ⟨_, rfl, agrees_applyService hs hes⟩

variable {svcs : List SvcDesc} {cfg : ControllerConfig}

theorem forall₂_encodesSvc : List.Forall₂ EncodesSvc svcs es ↔
    (svcs.mapM fun svc => do
      let idbuf ← upkSvcId svc
      let p ← upkSvcDescToJsonObj svc
      .ok (idbuf, Json.object p)) = .ok es := by
  rw [Wire.mapM_eq_ok]
  simp only [encodesSvc_iff]

theorem upkSvclistToJsonObj_eq_ok {doc : Json} : upkSvclistToJsonObj (some svcs) = .ok doc ↔
    ∃ es, List.Forall₂ EncodesSvc svcs es ∧ doc = .object (Table.ofList es) := by
  simp only [forall₂_encodesSvc, upkSvclistToJsonObj, Wire.bind_eq_ok]
  refine exists_congr fun es => and_congr_right fun _ => ?_
  exact ⟨fun h => (Except.ok.inj h).symm, fun h => congrArg _ h.symm⟩

theorem pack_encoded (h : List.Forall₂ EncodesSvc svcs es) (hs : ∀ svc ∈ svcs, svc.Settable) :
    upkSvcconfPack passwd cfg (some (.object (Table.ofList es))) =
      .ok (applySvcconf passwd cfg (.object (Table.ofList es))) := by
  refine upkSvcconfPack_eq ?_ cfg
  rw [svcconfFits, List.all_eq_true]
  intro e he
  obtain ⟨svc, hsvc, hencodes⟩ := Wire.exists_of_mem_mapM (forall₂_encodesSvc.mp h) (Table.mem_of_mem_ofList he)
  exact (encodesSvc_iff.mp hencodes).fits (hs svc hsvc)

theorem forall₂_agrees (h : List.Forall₂ EncodesSvc svcs es) (hs : ∀ svc ∈ svcs, svc.Settable) :
    List.Forall₂ SvcDesc.Agrees svcs (es.filterMap (entryService passwd)) ↔
      ∀ svc ∈ svcs, ∀ f : SvcField, f.Compared → svc.Keeps f := by
  induction h with
  | nil => simp
  | @cons svc e svcs es he _ ih =>
    rw [List.forall_mem_cons] at hs
    obtain ⟨svc', hentry, hagrees⟩ : ∃ svc', entryService passwd e = some svc' ∧ (svc.Agrees svc' ↔ _) :=
      he.adds hs.1
    rw [List.filterMap_cons_some hentry, List.forall₂_cons, hagrees, ih hs.2, List.forall_mem_cons]

theorem nodup_ids (h : List.Forall₂ EncodesSvc svcs es) :
    (svcs.map upkSvcId).Nodup ↔ (es.map Prod.fst).Nodup := by
  have hids : svcs.map upkSvcId = (es.map Prod.fst).map .ok := by
    induction h with
    | nil => rfl
    | cons he _ ih => rw [List.map_cons, List.map_cons, List.map_cons, ih, he.1]
  rw [hids]
  exact List.nodup_map_iff fun _ _ heq => Except.ok.inj heq

/-- **What comes back of a list of services**, field by field -/
theorem roundTrips_iff_keeps (hs : ∀ svc ∈ svcs, svc.Settable) : RoundTrips passwd cfg svcs ↔
    ∃ es, List.Forall₂ EncodesSvc svcs es ∧ (es.map Prod.fst).Nodup ∧
      ∀ svc ∈ svcs, ∀ f : SvcField, f.Compared → svc.Keeps f := by
  constructor
  · rintro ⟨doc, cfg', svcs', hdoc, hpack, hadded, hagrees⟩
    obtain ⟨es, hes, rfl⟩ := upkSvclistToJsonObj_eq_ok.mp hdoc
    rw [pack_encoded hes hs] at hpack
    obtain rfl := Except.ok.inj hpack
    rw [svclist_applySvcconf] at hadded
    obtain rfl := List.append_cancel_left hadded
    -- as many services have come back as there are entries in the table
    have hnodup : (es.map Prod.fst).Nodup := by
      have hlen := hes.length_eq
      have hlen' := hagrees.length_eq
      have hle := List.length_filterMap_le (entryService passwd) (Table.ofList es)
      exact Table.nodup_of_length (by omega)
    rw [Table.ofList_of_nodup hnodup, forall₂_agrees hes hs] at hagrees
    exact ⟨es, hes, hnodup, hagrees⟩
  · rintro ⟨es, hes, hnodup, hkeeps⟩
    refine ⟨_, _, _, upkSvclistToJsonObj_eq_ok.mpr ⟨es, hes, rfl⟩, pack_encoded hes hs, svclist_applySvcconf _ _, ?_⟩
    rw [Table.ofList_of_nodup hnodup, forall₂_agrees hes hs]
    exact hkeeps

/-- The fields of the service come back as they are: the UUID is zero, no `char *` points to an empty text, there are
no two custom actions of one name and no list without actions, and the `InitialState` is not `shutdown`. And its
identifier fits into the buffer, as do those that it provides and those that it needs. -/
structure SvcDesc.Carried (svc : SvcDesc) : Prop where
  uuid : svc.uuid = .zero
  longDescription : svc.longDescription ≠ .text .empty
  scripts : ∀ f, svc.scripts f ≠ .text .empty
  customActions : ∀ l ∈ svc.customActions, l ≠ [] ∧ (l.map (·.name)).Nodup
  initialState : svc.initialState ≠ .shutdown
  id : FitsId svc.package svc.name
  svcids : ∀ l : SvcidField, ∀ ids ∈ svc.svcids l, ∀ id ∈ ids, FitsId id.pkg id.name

theorem SvcDesc.carried_iff (hs : svc.Settable) :
    svc.Carried ↔ (∃ e, EncodesSvc svc e) ∧ ∀ f : SvcField, f.Compared → svc.Keeps f := by
  rw [exists_encodesSvc hs, SvcDesc.keeps_iff]
  constructor
  · intro h
    exact ⟨⟨h.id, h.svcids⟩, h.uuid, h.longDescription, h.scripts, h.customActions, h.initialState⟩
  · rintro ⟨⟨hid, hids⟩, huuid, hlong, hscripts, hactions, hstate⟩
    exact ⟨huuid, hlong, hscripts, hactions, hstate, hid, hids⟩

/-- **Services come back exactly when each of them is carried by its entries, and no two have one identifier.** -/
theorem svclist_roundTrips_iff (passwd : CStr → Option (UInt32 × UInt32)) (cfg : ControllerConfig)
    (svcs : List SvcDesc) (hs : ∀ svc ∈ svcs, svc.Settable) :
    RoundTrips passwd cfg svcs ↔ (∀ svc ∈ svcs, svc.Carried) ∧ (svcs.map upkSvcId).Nodup := by
  have hentries : (∃ es, List.Forall₂ EncodesSvc svcs es) ↔ ∀ svc ∈ svcs, ∃ e, EncodesSvc svc e := by
    simp only [forall₂_encodesSvc, Wire.exists_mapM_eq_ok, encodesSvc_iff]
  have hcarried : (∀ svc ∈ svcs, svc.Carried) ↔ (∃ es, List.Forall₂ EncodesSvc svcs es) ∧
      ∀ svc ∈ svcs, ∀ f : SvcField, f.Compared → svc.Keeps f := by
    rw [hentries, ← forall₂_and]
    exact forall₂_congr fun svc hsvc => SvcDesc.carried_iff (hs svc hsvc)
  rw [roundTrips_iff_keeps hs, hcarried]
  constructor
  · rintro ⟨es, hes, hnodup, hkeeps⟩
    exact ⟨⟨⟨es, hes⟩, hkeeps⟩, (nodup_ids hes).mpr hnodup⟩
  · rintro ⟨⟨⟨es, hes⟩, hkeeps⟩, hnodup⟩
    exact ⟨es, hes, (nodup_ids hes).mp hnodup, hkeeps⟩

/-- A service of which a file says nothing but the key -/
def keyOnly (key : CStr) : SvcDesc := upkParseSvcId key upkSvcDescClear

theorem keyOnly_settable (key : CStr) : (keyOnly key).Settable := SvcDesc.Settable.clear.parseSvcId key

theorem keyOnly_carried {key : CStr} (h : FitsId (keyOnly key).package (keyOnly key).name) : (keyOnly key).Carried := by
  have hkeeps : ∀ f : SvcField, f.Compared → (keyOnly key).get f = upkSvcDescClear.get f :=
    fun f hf => get_upkParseSvcId hf
  have hids : (keyOnly key).svcids = fun _ => none := by
    unfold keyOnly upkParseSvcId
    split <;> funext l <;> cases l <;> rfl
  refine ⟨hkeeps .uuid trivial, ?_, fun f => ?_, ?_, ?_, h, ?_⟩
  · rw [show (keyOnly key).longDescription = .null from hkeeps .longDescription trivial]
    simp
  · rw [show (keyOnly key).scripts f = .null from hkeeps (.script f) trivial]
    simp
  · rw [show (keyOnly key).customActions = none from hkeeps .customActions trivial]
    simp
  · rw [show (keyOnly key).initialState = .undefined from hkeeps .initialState trivial]
    simp
  · simp [hids]

/-- A service that runs, with a script, a custom action and some settings -/
def configured : SvcDesc :=
  { keyOnly (cstr "p::a") with
    ints := fun _ => 5
    flags := fun _ => 1
    setUID := 1000
    ringbufferSize := 64
    scripts := Function.update (fun _ => .null) .startScript (.text (cstr "exec a"))
    customActions := some [⟨strncpyString (cstr "status"), cstr "ps"⟩]
    initialState := .running }

/-- This service, and one without settings -/
theorem svclist_roundTrips_configured : RoundTrips (fun _ => none) .zero [configured, keyOnly (cstr "b")] := by
  refine (svclist_roundTrips_iff _ _ _ ?_).mpr ⟨?_, by decide +kernel⟩
  · rw [List.forall_mem_cons, List.forall_mem_singleton]
    refine ⟨{ keyOnly_settable (cstr "p::a") with
      flags := fun _ => Or.inr (Or.inl rfl)
      ringbufferSize := ⟨64, rfl⟩
      scripts := fun f => by cases f <;> decide
      initialState := by decide }, keyOnly_settable _⟩
  · rw [List.forall_mem_cons, List.forall_mem_singleton]
    have hcarried : (keyOnly (cstr "p::a")).Carried := keyOnly_carried (by decide +kernel)
    refine ⟨{ hcarried with
      scripts := fun f => by cases f <;> decide
      customActions := by simp [configured]
      initialState := by decide }, keyOnly_carried (by decide +kernel)⟩

/-- A service with a UUID -/
def identified : SvcDesc := { keyOnly (cstr "a") with uuid := { Uuid.zero with timeLow := 1 } }

/-- A UUID that is set does not come back. -/
theorem not_roundTrips_uuid :
    (∀ svc ∈ [identified], svc.Settable) ∧ ¬RoundTrips (fun _ => none) .zero [identified] := by
  have hs : ∀ svc ∈ [identified], svc.Settable := by
    rw [List.forall_mem_singleton]
    exact { keyOnly_settable (cstr "a") with }
  refine ⟨hs, fun h => ?_⟩
  obtain ⟨es, -, -, hkeeps⟩ := (roundTrips_iff_keeps hs).mp h
  have huuid : identified.uuid = .zero := hkeeps identified (List.mem_singleton_self _) .uuid trivial
  exact absurd huuid (by decide)

end Upkeeper
