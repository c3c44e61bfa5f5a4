import Upkeeper.Config.Serialize
/-!
# What comes back of a field (`upk_config.c`)

The entry that is written for a field sets it again to what it was, when the field is not set yet and holds a value
that the entry carries (`get_encoded`). The UUID is not carried: `upk_svc_desc_to_json_obj` calls `upk_string_to_uuid`
where it means `upk_uuid_to_string`, and writes no UUID. Nor is an `InitialState` of `shutdown`, as the function asks
for `stopped`, which no handler sets.
-/

namespace Upkeeper

open Wire (Fault)

/-! ### What comes back -/

/-- The values that the handlers of a service can set, and those that `upk_svc_desc_clear` leaves -/
structure SvcDesc.Settable (svc : SvcDesc) : Prop where
  flags : ∀ f, svc.flags f = 0 ∨ svc.flags f = 1 ∨ svc.flags f = int8Min
  ringbufferSize : ∃ i : Int32, svc.ringbufferSize = i.toInt64.toUInt64
  longDescription : svc.longDescription = .null ∨
    ∃ s : CStr, svc.longDescription = .text s ∧ s.chars.length ≤ longDescriptionMax
  scripts : ∀ f, svc.scripts f ≠ .freed
  initialState : svc.initialState ≠ .stopped

namespace SvcDesc.Settable

variable {d : SvcDesc} {passwd : CStr → Option (UInt32 × UInt32)}

theorem clear : upkSvcDescClear.Settable where
  flags _ := Or.inr (Or.inr rfl)
  ringbufferSize := ⟨int32Min, rfl⟩
  longDescription := Or.inl rfl
  scripts _ := by simp [upkSvcDescClear, SvcDesc.zero]
  initialState := by simp [upkSvcDescClear, SvcDesc.zero]

theorem modifySvcids (h : d.Settable) (l : SvcidField) (f : Option (List SvcId) → Option (List SvcId)) :
    (d.modifySvcids l f).Settable := by
  cases l <;> exact { h with }

theorem parseSvcId (h : d.Settable) (key : CStr) : (upkParseSvcId key d).Settable := by
  unfold upkParseSvcId
  split <;> exact { h with }

theorem boolHandler (h : d.Settable) (key : CStr) (b : Bool) : (upkSvcconfBoolHandler key b d).Settable := by
  unfold upkSvcconfBoolHandler
  split
  next g _ =>
    refine { h with flags := fun f => ?_ }
    by_cases heq : f = g
    · subst heq
      cases b <;> simp
    · simpa [Function.update_of_ne heq] using h.flags f
  next => exact h

theorem intHandler (h : d.Settable) (key : CStr) (i : Int32) : (upkSvcconfIntHandler key i d).Settable := by
  unfold upkSvcconfIntHandler
  split
  case h_4 => exact { h with ringbufferSize := ⟨i, rfl⟩ }
  all_goals exact { h with }

theorem stringHandler (h : d.Settable) {key s : CStr} {f : SvcDesc → SvcDesc}
    (hf : upkSvcconfStringHandler passwd key s = .ok f) : (f d).Settable := by
  unfold upkSvcconfStringHandler at hf
  cases hkey : matchKey svcStringKeys key with
  | none =>
    rw [hkey] at hf
    obtain rfl := Except.ok.inj hf
    exact h
  | some k =>
    rw [hkey] at hf
    cases k with
    | longDescription =>
      by_cases hlen : s.chars.length ≤ longDescriptionMax
      · simp only [if_pos hlen] at hf
        obtain rfl := Except.ok.inj hf
        exact { h with longDescription := Or.inr ⟨s, rfl, hlen⟩ }
      · simp only [if_neg hlen] at hf
        exact nomatch hf
    | script g =>
      obtain rfl := Except.ok.inj hf
      refine { h with scripts := fun f => ?_ }
      by_cases heq : f = g
      · subst heq
        simp
      · simpa [Function.update_of_ne heq] using h.scripts f
    | initialState =>
      obtain rfl := Except.ok.inj hf
      refine { h with initialState := ?_ }
      dsimp only [parseInitialState]
      split <;> simp
    | _ =>
      obtain rfl := Except.ok.inj hf
      exact { h with }

theorem applyServiceEntry (h : d.Settable) (e : CStr × Json) : (applyServiceEntry passwd d e).Settable :=
  applyServiceEntry_keeps (fun key b _ hd => hd.boolHandler key b) (fun key i _ hd => hd.intHandler key i)
    (fun _ _ _ _ hf hd => hd.stringHandler hf) (fun l f _ hd => hd.modifySvcids l f) (fun _ _ hd => { hd with }) h e

/-- **What the entries of a file make of a service** -/
theorem applyService (es : List (CStr × Json)) (h : d.Settable) : (applyService passwd es d).Settable :=
  List.foldlRecOn es _ h fun _ hd e _ => hd.applyServiceEntry e

end SvcDesc.Settable

/-- The fields that are compared -/
def SvcField.Compared : SvcField → Prop
  | .name | .package | .svcids _ => False
  | _ => True

/-- The field is set again to what it is. -/
def SvcDesc.Keeps (svc : SvcDesc) : SvcField → Prop
  | .uuid => svc.uuid = .zero
  | .longDescription => svc.longDescription ≠ .text .empty
  | .script f => svc.scripts f ≠ .text .empty
  | .customActions => ∀ l ∈ svc.customActions, l ≠ [] ∧ (l.map (·.name)).Nodup
  | .initialState => svc.initialState ≠ .shutdown
  | _ => True

variable {passwd : CStr → Option (UInt32 × UInt32)} {d svc : SvcDesc} {f : SvcField} {v : Json} {key : CStr} {s : CStr}

theorem CStr.eq_empty (h : ¬s.chars.length > 0) : s = .empty :=
  CStr.ext (List.length_eq_zero_iff.mp (Nat.eq_zero_of_not_pos h))

theorem text_ne_empty (h : s.chars.length > 0) : CharPtr.text s ≠ .text .empty := by
  intro heq
  rw [CharPtr.text.inj heq] at h
  exact Nat.lt_irrefl _ h

theorem strncpyString_toCStr (b : CharBuf upkMaxStringLen) : strncpyString b.toCStr = b :=
  CharBuf.ext (congrArg CStr.chars (CharBuf.strncpy_eq (Nat.le_sub_one_of_lt b.fits)))

theorem strncpyPath_toCStr (b : CharBuf upkMaxPathLen) : strncpyPath b.toCStr = b :=
  CharBuf.ext (congrArg CStr.chars (CharBuf.strncpy_eq (Nat.le_sub_one_of_lt b.fits)))

theorem lowInt32_ofInt32 (i : Int32) : lowInt32 i.toInt64.toUInt64 = i := by
  apply Int32.toBitVec.inj
  show BitVec.setWidth 32 (BitVec.signExtend 64 i.toBitVec) = i.toBitVec
  ext j hj
  rw [BitVec.getElem_setWidth, BitVec.getLsbD_signExtend, if_pos hj, BitVec.getLsbD_eq_getElem hj,
    decide_eq_true (by omega), Bool.true_and]

theorem applyInt {i : Int32} (hv : upkJsonSerializeOrNull (.int i) = .ok v) :
    applyServiceEntry passwd d (key, v) = if i ≠ int32Min then upkSvcconfIntHandler key i d else d := by
  obtain rfl := Except.ok.inj hv
  by_cases hi : i ≠ int32Min
  · rw [if_pos hi, if_pos hi]
    rfl
  · rw [if_neg hi, if_neg hi]
    rfl

/-- What the handler of integers stores -/
def SvcIntKey.stored : (k : SvcIntKey) → Int32 → k.field.Value
  | .int _, i => i
  | .setUID, i | .setGID, i => i.toUInt32
  | .ringbufferSize, i => i.toInt64.toUInt64

/-- **The entry of an integer field** gives it its value, if that is what the handler stores for some integer, and the
field is as the handler leaves it for `INT32_MIN`. -/
theorem get_intKey (k : SvcIntKey) {i : Int32} (hv : upkJsonSerializeOrNull (.int i) = .ok v)
    (hset : svc.get k.field = k.stored i) (hd : d.get k.field = k.stored int32Min) :
    (applyServiceEntry passwd d (cstr k.field.key, v)).get k.field = svc.get k.field := by
  rw [applyInt hv, hset]
  by_cases hi : i ≠ int32Min
  · rw [if_pos hi, upkSvcconfIntHandler, matchKey_int k]
    cases k with
    | int g => exact Function.update_self ..
    | setUID | setGID | ringbufferSize => rfl
  · rw [if_neg hi, hd, not_not.mp hi]

theorem toUInt32_toInt32 (id : UInt32) : id.toInt32.toUInt32 = id := by simp

theorem get_ringbufferSize (hs : svc.Settable) (hd : d.get .ringbufferSize = sizeUnset)
    (hv : encodeField svc .ringbufferSize = .ok v) :
    (applyServiceEntry passwd d (cstr SvcField.ringbufferSize.key, v)).get .ringbufferSize =
      svc.get .ringbufferSize := by
  obtain ⟨i, hsize⟩ := hs.ringbufferSize
  have hlow : encodeField svc .ringbufferSize = upkJsonSerializeOrNull (.int i) := by
    rw [encodeField, hsize, lowInt32_ofInt32]
  exact get_intKey .ringbufferSize (hlow.symm.trans hv) hsize hd

theorem get_flag (hs : svc.Settable) {g : FlagField} (hd : d.get (.flag g) = int8Min)
    (hv : encodeField svc (.flag g) = .ok v) :
    (applyServiceEntry passwd d (cstr (SvcField.flag g).key, v)).get (.flag g) = svc.get (.flag g) := by
  have hset (b : Bool) : (applyServiceEntry passwd d (cstr (SvcField.flag g).key, .bool b)).get (.flag g) =
      if b then (1 : Int8) else 0 := by
    show (upkSvcconfBoolHandler _ b d).get (.flag g) = _
    rw [upkSvcconfBoolHandler, matchKey_flag]
    exact Function.update_self ..
  have hv' : upkJsonSerializeOrNull (.boolean (svc.flags g)) = .ok v := hv
  show _ = svc.flags g
  rcases hs.flags g with hflag | hflag | hflag
  · rw [hflag] at hv' ⊢
    obtain rfl := Except.ok.inj hv'
    exact hset false
  · rw [hflag] at hv' ⊢
    obtain rfl := Except.ok.inj hv'
    exact hset true
  · rw [hflag] at hv' ⊢
    obtain rfl := Except.ok.inj hv'
    exact hd

theorem applyText (hv : upkJsonSerializeOrNull (.string (.text s)) = .ok v) :
    applyServiceEntry passwd d (key, v) =
      if s.chars.length > 0 then (upkSvcconfStringHandler passwd key s).toOption.elim d (· d) else d := by
  obtain rfl := Except.ok.inj hv
  by_cases hlen : s.chars.length > 0
  · rw [if_pos hlen, if_pos hlen]
    rfl
  · rw [if_neg hlen, if_neg hlen]
    rfl

theorem get_shortDescription (hd : d.get .shortDescription = CharBuf.zero)
    (hv : encodeField svc .shortDescription = .ok v) :
    (applyServiceEntry passwd d (cstr SvcField.shortDescription.key, v)).get .shortDescription =
      svc.get .shortDescription := by
  rw [applyText hv]
  by_cases hlen : svc.shortDescription.chars.length > 0
  · have hkey : matchKey svcStringKeys (cstr SvcField.shortDescription.key) = some .shortDescription :=
      matchKey_string .shortDescription
    rw [if_pos hlen, upkSvcconfStringHandler, hkey]
    exact strncpyString_toCStr _
  · rw [if_neg hlen, hd]
    exact (CharBuf.ext (congrArg CStr.chars (CStr.eq_empty hlen))).symm

theorem get_path {g : PathField} (hd : d.get (.path g) = CharBuf.zero) (hv : encodeField svc (.path g) = .ok v) :
    (applyServiceEntry passwd d (cstr (SvcField.path g).key, v)).get (.path g) = svc.get (.path g) := by
  rw [applyText hv]
  by_cases hlen : (svc.paths g).chars.length > 0
  · have hkey : matchKey svcStringKeys (cstr (SvcField.path g).key) = some (.path g) := matchKey_string (.path g)
    rw [if_pos hlen, upkSvcconfStringHandler, hkey]
    exact (Function.update_self ..).trans (strncpyPath_toCStr _)
  · rw [if_neg hlen, hd]
    exact (CharBuf.ext (congrArg CStr.chars (CStr.eq_empty hlen))).symm

theorem get_script (hs : svc.Settable) {g : ScriptField} (hd : d.get (.script g) = CharPtr.null)
    (hv : encodeField svc (.script g) = .ok v) :
    (applyServiceEntry passwd d (cstr (SvcField.script g).key, v)).get (.script g) = svc.get (.script g) ↔
      svc.scripts g ≠ .text .empty := by
  have hv' : upkJsonSerializeOrNull (.string (svc.scripts g)) = .ok v := hv
  show _ = svc.scripts g ↔ _
  cases hptr : svc.scripts g with
  | freed => exact absurd hptr (hs.scripts g)
  | null =>
    rw [hptr] at hv'
    obtain rfl := Except.ok.inj hv'
    exact iff_of_true hd (by simp)
  | text s =>
    rw [hptr] at hv'
    rw [applyText hv']
    by_cases hlen : s.chars.length > 0
    · have hkey : matchKey svcStringKeys (cstr (SvcField.script g).key) = some (.script g) :=
        matchKey_string (.script g)
      rw [if_pos hlen, upkSvcconfStringHandler, hkey]
      exact iff_of_true (Function.update_self ..) (text_ne_empty hlen)
    · rw [if_neg hlen, hd, CStr.eq_empty hlen]
      simp

theorem get_longDescription (hs : svc.Settable) (hd : d.get .longDescription = CharPtr.null)
    (hv : encodeField svc .longDescription = .ok v) :
    (applyServiceEntry passwd d (cstr SvcField.longDescription.key, v)).get .longDescription =
      svc.get .longDescription ↔ svc.longDescription ≠ .text .empty := by
  have hv' : upkJsonSerializeOrNull (.string svc.longDescription) = .ok v := hv
  show _ = svc.longDescription ↔ _
  rcases hs.longDescription with hptr | ⟨s, hptr, hmax⟩
  · rw [hptr] at hv' ⊢
    obtain rfl := Except.ok.inj hv'
    exact iff_of_true hd (by simp)
  · rw [hptr] at hv' ⊢
    rw [applyText hv']
    by_cases hlen : s.chars.length > 0
    · have hkey : matchKey svcStringKeys (cstr SvcField.longDescription.key) = some .longDescription :=
        matchKey_string .longDescription
      rw [if_pos hlen, upkSvcconfStringHandler, hkey]
      dsimp only
      rw [if_pos hmax]
      exact iff_of_true rfl (text_ne_empty hlen)
    · rw [if_neg hlen, hd, CStr.eq_empty hlen]
      simp

theorem get_uuid (hd : d.get .uuid = Uuid.zero) (hv : encodeField svc .uuid = .ok v) :
    (applyServiceEntry passwd d (cstr SvcField.uuid.key, v)).get .uuid = svc.get .uuid ↔ svc.uuid = .zero := by
  obtain rfl := Except.ok.inj hv
  show d.get .uuid = svc.uuid ↔ _
  rw [hd]
  exact eq_comm

theorem get_initialState (hs : svc.Settable) (hd : d.get .initialState = UpkState.undefined)
    (hv : encodeField svc .initialState = .ok v) :
    (applyServiceEntry passwd d (cstr SvcField.initialState.key, v)).get .initialState = svc.get .initialState ↔
      svc.initialState ≠ .shutdown := by
  have hv' : Except.ok (initialStateJson svc.initialState) = (Except.ok v : Except Fault Json) := hv
  obtain rfl := Except.ok.inj hv'
  show _ = svc.initialState ↔ _
  cases hstate : svc.initialState with
  | stopped => exact absurd hstate hs.initialState
  | undefined => exact iff_of_true hd (by simp)
  | shutdown =>
    refine iff_of_false (fun heq => ?_) (by simp)
    have hkept : d.get .initialState = UpkState.shutdown := heq
    rw [hd] at hkept
    cases hkept
  | running =>
    have hword : parseInitialState (cstr "running") = .running := by decide +kernel
    refine iff_of_true ?_ (by simp)
    show ((upkSvcconfStringHandler passwd (cstr SvcField.initialState.key) (cstr "running")).toOption.elim d
      (· d)).get .initialState = _
    have hkey : matchKey svcStringKeys (cstr SvcField.initialState.key) = some .initialState :=
      matchKey_string .initialState
    rw [upkSvcconfStringHandler, hkey]
    exact hword

/-- The entry of a custom action -/
def CustActscr.entry (action : CustActscr) : CStr × Json := (action.name.toCStr, .string action.script)

theorem CustActscr.entry_injective : Function.Injective CustActscr.entry := by
  rintro ⟨name, script⟩ ⟨name', script'⟩ h
  obtain ⟨hname, hscript⟩ := Prod.mk.inj h
  obtain rfl : name = name' := CharBuf.ext (congrArg CStr.chars hname)
  obtain rfl := Json.string.inj hscript
  rfl

theorem nodup_names {l : List CustActscr} :
    ((l.map CustActscr.entry).map Prod.fst).Nodup ↔ (l.map (·.name)).Nodup := by
  have hkeys : (l.map CustActscr.entry).map Prod.fst = (l.map (·.name)).map CharBuf.toCStr := by
    rw [List.map_map, List.map_map]
    rfl
  rw [hkeys]
  exact List.nodup_map_iff fun a b h => CharBuf.ext (congrArg CStr.chars h)

theorem foldl_customActions (l : List CustActscr) (d : SvcDesc) :
    ((l.map CustActscr.entry).foldl applyCustomAction d).customActions = d.customActions.map (· ++ l) := by
  induction l generalizing d with
  | nil => simp
  | cons action l ih =>
    have hback : upkSvcconfCustomactionArrayAppender action.name.toCStr action.script d =
        { d with customActions := d.customActions.map (· ++ [action]) } := by
      rw [upkSvcconfCustomactionArrayAppender, strncpyString_toCStr]
    rw [List.map_cons, List.foldl_cons]
    refine (ih _).trans ?_
    show Option.map (· ++ l) (upkSvcconfCustomactionArrayAppender action.name.toCStr action.script d).customActions = _
    rw [hback]
    simp [Function.comp_def]

theorem customActions_applied {l : List CustActscr} (hd : d.customActions = none) (hl : l ≠ [])
    (hv : upkJsonSerializeOrNull (.object (l.map CustActscr.entry)) = .ok v) :
    (applyServiceEntry passwd d (cstr SvcField.customActions.key, v)).customActions = some l := by
  have hpos : (l.map CustActscr.entry).length > 0 := List.length_pos_iff.mpr (by simpa using hl)
  obtain rfl := Except.ok.inj hv
  rw [if_pos hpos]
  simp only [applyServiceEntry, strcasecmpEq_customActions, if_true]
  rw [foldl_customActions, hd]
  rfl

/-- Of the actions with one name there is one entry, and a list without actions is written as none. -/
theorem get_customActions (hd : d.get .customActions = (none : Option (List CustActscr)))
    (hv : encodeField svc .customActions = .ok v) :
    (applyServiceEntry passwd d (cstr SvcField.customActions.key, v)).get .customActions = svc.get .customActions ↔
      ∀ l ∈ svc.customActions, l ≠ [] ∧ (l.map (·.name)).Nodup := by
  have hv' : upkJsonSerializeOrNull (.object (customActionsObj svc.customActions)) = .ok v := hv
  show _ = svc.customActions ↔ _
  cases hactions : svc.customActions with
  | none =>
    rw [hactions] at hv'
    obtain rfl := Except.ok.inj hv'
    exact iff_of_true hd (by simp)
  | some l =>
    rw [hactions] at hv'
    obtain ⟨l', hl'⟩ := Table.ofList_map CustActscr.entry l
    have hobj : customActionsObj (some l) = l'.map CustActscr.entry := hl'.symm
    rw [hobj] at hv'
    by_cases hl : l = []
    · subst hl
      obtain rfl : l' = [] := List.map_eq_nil_iff.mp hl'
      obtain rfl := Except.ok.inj hv'
      refine iff_of_false (fun heq => ?_) (by simp)
      have hkept : d.get .customActions = some ([] : List CustActscr) := heq
      rw [hd] at hkept
      cases hkept
    · have hne : l' ≠ [] := by
        rintro rfl
        exact Table.ofList_ne_nil (by simpa using hl) hl'.symm
      have hget : (applyServiceEntry passwd d (cstr SvcField.customActions.key, v)).customActions = some l' :=
        customActions_applied hd hne hv'
      rw [show SvcDesc.get _ SvcField.customActions = some l' from hget, Option.some.injEq]
      constructor
      · rintro rfl
        intro m hm
        obtain rfl := Option.some.inj hm
        refine ⟨hl, nodup_names.mp (Table.nodup_of_length ?_)⟩
        rw [← hl']
      · intro h
        rw [Table.ofList_of_nodup (nodup_names.mpr (h l rfl).2)] at hl'
        exact CustActscr.entry_injective.list_map hl'

/-- **The entry of a field and the handlers of a service** -/
theorem get_encoded (hs : svc.Settable) (hf : f.Compared) (hd : d.get f = upkSvcDescClear.get f)
    (hv : encodeField svc f = .ok v) :
    (applyServiceEntry passwd d (cstr f.key, v)).get f = svc.get f ↔ svc.Keeps f := by
  cases f with
  | name | package | svcids => exact hf.elim
  | uuid => exact get_uuid hd hv
  | shortDescription => exact iff_of_true (get_shortDescription hd hv) trivial
  | longDescription => exact get_longDescription hs hd hv
  | int g => exact iff_of_true (get_intKey (.int g) hv rfl hd) trivial
  | flag g => exact iff_of_true (get_flag hs hd hv) trivial
  | setUID => exact iff_of_true (get_intKey .setUID hv (toUInt32_toInt32 _).symm hd) trivial
  | setGID => exact iff_of_true (get_intKey .setGID hv (toUInt32_toInt32 _).symm hd) trivial
  | ringbufferSize => exact iff_of_true (get_ringbufferSize hs hd hv) trivial
  | path g => exact iff_of_true (get_path hd hv) trivial
  | script g => exact get_script hs hd hv
  | customActions => exact get_customActions hd hv
  | initialState => exact get_initialState hs hd hv

end Upkeeper
