import Upkeeper.Config.Meaning
/-!
# The fields of a service

Each entry of a service sets one field (`entryField`), if it sets any, and leaves the others as they are
(`get_applyServiceEntry`).
-/

namespace Upkeeper

/-- What an entry of a service sets -/
inductive SvcField
  | name
  | package
  | uuid
  | shortDescription
  | longDescription
  | int (f : IntField)
  | flag (f : FlagField)
  | setUID
  | setGID
  | ringbufferSize
  | path (f : PathField)
  | script (f : ScriptField)
  | svcids (l : SvcidField)
  | customActions
  | initialState
  deriving DecidableEq, Repr

/-- The type of a field -/
def SvcField.Value : SvcField → Type
  | .name | .package | .shortDescription => CharBuf upkMaxStringLen
  | .uuid => Uuid
  | .longDescription | .script _ => CharPtr
  | .int _ => Int32
  | .flag _ => Int8
  | .setUID | .setGID => UInt32
  | .ringbufferSize => UInt64
  | .path _ => CharBuf upkMaxPathLen
  | .svcids _ => Option (List SvcId)
  | .customActions => Option (List CustActscr)
  | .initialState => UpkState

/-- The lists of identifiers of a service -/
def SvcDesc.svcids (d : SvcDesc) : SvcidField → Option (List SvcId)
  | .provides => d.provides
  | .prerequisites => d.prerequisites

/-- What the field holds -/
def SvcDesc.get (d : SvcDesc) : (f : SvcField) → f.Value
  | .name => d.name
  | .package => d.package
  | .uuid => d.uuid
  | .shortDescription => d.shortDescription
  | .longDescription => d.longDescription
  | .int f => d.ints f
  | .flag f => d.flags f
  | .setUID => d.setUID
  | .setGID => d.setGID
  | .ringbufferSize => d.ringbufferSize
  | .path f => d.paths f
  | .script f => d.scripts f
  | .svcids l => d.svcids l
  | .customActions => d.customActions
  | .initialState => d.initialState

def SvcIntKey.field : SvcIntKey → SvcField
  | .int f => .int f
  | .setUID => .setUID
  | .setGID => .setGID
  | .ringbufferSize => .ringbufferSize

def SvcStringKey.field : SvcStringKey → SvcField
  | .package => .package
  | .name => .name
  | .uuid => .uuid
  | .shortDescription => .shortDescription
  | .longDescription => .longDescription
  | .path f => .path f
  | .script f => .script f
  | .initialState => .initialState
  | .setUID => .setUID
  | .setGID => .setGID

/-- The field that an entry of a service sets, if it sets one -/
def entryField : CStr × Json → Option SvcField
  | (key, .bool _) => (matchKey svcBoolKeys key).map .flag
  | (key, .int _) => (matchKey svcIntKeys key).map SvcIntKey.field
  | (key, .string _) => (matchKey svcStringKeys key).map SvcStringKey.field
  | (key, .array _) => (matchKey svcidKeys key).map .svcids
  | (key, .object _) => if key.strcasecmpEq (cstr "CustomActions") then some .customActions else none
  | (_, .null) | (_, .double _) => none

variable {passwd : CStr → Option (UInt32 × UInt32)} {d d' svc : SvcDesc} {f : SvcField} {e : CStr × Json} {key : CStr}

theorem get_boolHandler {b : Bool} (h : ∀ g, matchKey svcBoolKeys key = some g → f ≠ .flag g) :
    (upkSvcconfBoolHandler key b d).get f = d.get f := by
  unfold upkSvcconfBoolHandler
  cases hkey : matchKey svcBoolKeys key with
  | none => rfl
  | some g =>
    cases f with
    | flag f =>
      have hne : f ≠ g := fun heq => h g hkey (congrArg _ heq)
      exact Function.update_of_ne hne _ _
    | _ => rfl

theorem get_intHandler {i : Int32} (h : ∀ k, matchKey svcIntKeys key = some k → f ≠ k.field) :
    (upkSvcconfIntHandler key i d).get f = d.get f := by
  unfold upkSvcconfIntHandler
  cases hkey : matchKey svcIntKeys key with
  | none => rfl
  | some k =>
    have hne := h k hkey
    cases k with
    | int g =>
      cases f with
      | int f => exact Function.update_of_ne (fun heq => hne (congrArg _ heq)) _ _
      | _ => rfl
    | setUID => cases f with
      | setUID => exact absurd rfl hne
      | _ => rfl
    | setGID => cases f with
      | setGID => exact absurd rfl hne
      | _ => rfl
    | ringbufferSize => cases f with
      | ringbufferSize => exact absurd rfl hne
      | _ => rfl

theorem get_stringHandler {s : CStr} {g : SvcDesc → SvcDesc} (hok : upkSvcconfStringHandler passwd key s = .ok g)
    (h : ∀ k, matchKey svcStringKeys key = some k → f ≠ k.field) : (g d).get f = d.get f := by
  unfold upkSvcconfStringHandler at hok
  cases hkey : matchKey svcStringKeys key with
  | none =>
    rw [hkey] at hok
    obtain rfl := Except.ok.inj hok
    rfl
  | some k =>
    rw [hkey] at hok
    have hne := h k hkey
    cases k with
    | path g =>
      obtain rfl := Except.ok.inj hok
      cases f with
      | path f => exact Function.update_of_ne (fun heq => hne (congrArg _ heq)) _ _
      | _ => rfl
    | script g =>
      obtain rfl := Except.ok.inj hok
      cases f with
      | script f => exact Function.update_of_ne (fun heq => hne (congrArg _ heq)) _ _
      | _ => rfl
    | longDescription =>
      dsimp only at hok
      split at hok
      · obtain rfl := Except.ok.inj hok
        cases f <;> first | rfl | exact absurd rfl hne
      · cases hok
    | _ =>
      obtain rfl := Except.ok.inj hok
      cases f <;> first | rfl | exact absurd rfl hne

theorem get_modifySvcids {l : SvcidField} {g : Option (List SvcId) → Option (List SvcId)} (h : f ≠ .svcids l) :
    (d.modifySvcids l g).get f = d.get f := by
  cases f with
  | svcids l' =>
    cases l <;> cases l' <;> first | rfl | exact absurd rfl h
  | _ => cases l <;> rfl

theorem get_array {l : SvcidField} {vs : List Json} (h : f ≠ .svcids l) :
    (vs.foldl (applySvcid l) d).get f = d.get f := by
  refine List.foldlRecOn (motive := fun d' : SvcDesc => d'.get f = d.get f) vs _ rfl fun d' hd' v _ => ?_
  refine Eq.trans ?_ hd'
  cases v with
  | string s => exact get_modifySvcids h
  | _ => rfl

theorem get_object {es : List (CStr × Json)} (h : f ≠ .customActions) :
    (es.foldl applyCustomAction d).get f = d.get f := by
  refine List.foldlRecOn (motive := fun d' : SvcDesc => d'.get f = d.get f) es _ rfl fun d' hd' e _ => ?_
  refine Eq.trans ?_ hd'
  obtain ⟨key, v⟩ := e
  cases v with
  | string s =>
    cases f with
    | customActions => exact absurd rfl h
    | _ => rfl
  | _ => rfl

/-- **An entry leaves every other field as it is.** -/
theorem get_applyServiceEntry (h : entryField e ≠ some f) : (applyServiceEntry passwd d e).get f = d.get f := by
  obtain ⟨key, v⟩ := e
  cases v with
  | null | double => rfl
  | bool b =>
    refine get_boolHandler fun g hkey heq => h ?_
    rw [entryField, hkey, heq]
    rfl
  | int i =>
    refine get_intHandler fun k hkey heq => h ?_
    rw [entryField, hkey, heq]
    rfl
  | string s =>
    cases hok : upkSvcconfStringHandler passwd key s with
    | error =>
      simp only [applyServiceEntry, hok]
      rfl
    | ok g =>
      simp only [applyServiceEntry, hok]
      refine get_stringHandler hok fun k hkey heq => h ?_
      rw [entryField, hkey, heq]
      rfl
  | array vs =>
    cases hkey : matchKey svcidKeys key with
    | none =>
      simp only [applyServiceEntry, hkey]
      rfl
    | some l =>
      have hne : f ≠ .svcids l := by
        rintro rfl
        exact h (by rw [entryField, hkey]; rfl)
      simp only [applyServiceEntry, hkey]
      exact (get_array hne).trans (get_modifySvcids hne)
  | object es =>
    cases hkey : key.strcasecmpEq (cstr "CustomActions") with
    | false =>
      simp only [applyServiceEntry, hkey]
      rfl
    | true =>
      have hne : f ≠ .customActions := by
        rintro rfl
        exact h (by rw [entryField, if_pos hkey])
      simp only [applyServiceEntry, hkey, if_true]
      refine (get_object hne).trans ?_
      cases f with
      | customActions => exact absurd rfl hne
      | _ => rfl

end Upkeeper
