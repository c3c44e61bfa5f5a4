import Upkeeper.Config.Load
import Upkeeper.Library.Heap
import Upkeeper.UpkList.Copy
/-!
# Services in memory (`upk_overlay_svcconf_values`)

The overlay of one service on another, with its pointers: the strings are on a heap, and the lists are those of the
`UPKLIST` macros. `SvcObject.desc` is what a service in memory reads as. Where each string is one that only one pointer
leads to (`Separate`), the function does in memory what it does to the values (`upkOverlaySvcconfValues_desc`).
-/

namespace Upkeeper

open UpkList (reading unlinking)

/-! ### Data -/

/-- `upk_cust_actscr_list_t`, in memory -/
structure ActObject where
  name : CharBuf upkMaxStringLen
  script : Option Addr

instance : Inhabited ActObject := ⟨⟨SvcId.zero.name, none⟩⟩

instance : Inhabited SvcId := ⟨.zero⟩

/-- `upk_svc_desc_t`, in memory -/
structure SvcObject where
  name : CharBuf upkMaxStringLen
  package : CharBuf upkMaxStringLen
  provides : Option (UpkList SvcId)
  uuid : Uuid
  shortDescription : CharBuf upkMaxStringLen
  longDescription : Option Addr
  prerequisites : Option (UpkList SvcId)
  restartAllDependencies : Bool
  restartOnPrerequisiteRestart : Bool
  startupDelay : Int32
  ints : IntField → Int32
  flags : FlagField → Int8
  setUID : UInt32
  setGID : UInt32
  ringbufferSize : UInt64
  paths : PathField → CharBuf upkMaxPathLen
  scripts : ScriptField → Option Addr
  customActions : Option (UpkList ActObject)
  initialState : UpkState

/-- What `upk_svc_desc_clear` makes of a service -/
def SvcObject.clear : SvcObject where
  name := upkSvcDescClear.name
  package := upkSvcDescClear.package
  provides := none
  uuid := upkSvcDescClear.uuid
  shortDescription := upkSvcDescClear.shortDescription
  longDescription := none
  prerequisites := none
  restartAllDependencies := upkSvcDescClear.restartAllDependencies
  restartOnPrerequisiteRestart := upkSvcDescClear.restartOnPrerequisiteRestart
  startupDelay := upkSvcDescClear.startupDelay
  ints := upkSvcDescClear.ints
  flags := upkSvcDescClear.flags
  setUID := upkSvcDescClear.setUID
  setGID := upkSvcDescClear.setGID
  ringbufferSize := upkSvcDescClear.ringbufferSize
  paths := upkSvcDescClear.paths
  scripts := fun _ => none
  customActions := none
  initialState := upkSvcDescClear.initialState

/-! ### The function -/

/-- `if(high->Provides && high->Provides->count > 0)`: the entries are appended. -/
def overlaySvcids (dest high : Option (UpkList SvcId)) : Option (Option (UpkList SvcId) × Option (UpkList SvcId)) :=
  match high with
  | none => some (dest, none)
  | some h =>
    if h.count > 0 then do
      let (h, d) ← h.foreach (reading UpkList.appendVal) (h.fresh + 1) (dest.getD .init)
      some (some d, some h)
    else some (dest, some h)

/-- The block of `LongDescription`. The old text is not freed. -/
def overlayLongDescription (m : Heap) (dest high : Option Addr) : Option (Heap × Option Addr) := do
  if ← m.nonEmpty high then
    let (m, a) ← m.copy high
    some (m, some a)
  else some (m, dest)

/-- The block of one script -/
def overlayScriptPtr (high : ScriptField → Option Addr) (x : Heap × (ScriptField → Option Addr)) (f : ScriptField) :
    Option (Heap × (ScriptField → Option Addr)) := do
  let (m, dest) := x
  if ← m.nonEmpty (high f) then
    let m ← m.release (dest f.releases)
    let (m, a) ← m.copy (high f)
    some (m, Function.update dest f (some a))
  else some (m, dest)

/-- A custom action is appended, with a copy of its script. -/
def appendAction (x : Heap × UpkList ActObject) (v : ActObject) : Option (Heap × UpkList ActObject) := do
  let (m, d) := x
  let d ← d.append
  let d ← d.modifyVal d.thisp fun _ => v
  match v.script with
  | none => some (m, d)
  | some p => do
    let (m, a) ← m.copy (some p)
    let d ← d.modifyVal d.thisp fun v => { v with script := some a }
    some (m, d)

/-- The custom actions that are replaced: their scripts are freed, and their nodes unlinked. -/
def dropActions (m : Heap) : Option (UpkList ActObject) → Option Heap
  | none => some m
  | some d => do
    let (_, m) ← d.foreach (unlinking (fun m v => m.release v.script) fun v => { v with script := none }) (d.fresh + 1) m
    some m

/-- `if(high->CustomActions && high->CustomActions->count > 0)`: the list is replaced by a copy. -/
def overlayActions (m : Heap) (dest high : Option (UpkList ActObject)) :
    Option (Heap × Option (UpkList ActObject) × Option (UpkList ActObject)) :=
  match high with
  | none => some (m, dest, none)
  | some h =>
    if h.count > 0 then do
      let m ← dropActions m dest
      let (h, m, d) ← h.foreach (reading appendAction) (h.fresh + 1) (m, .init)
      some (m, some d, some h)
    else some (m, dest, some h)

/-- The fields that hold no pointers, with the strings and the lists that have come out -/
def SvcObject.overlaid (dest high : SvcObject) (provides : Option (UpkList SvcId)) (longDescription : Option Addr)
    (prerequisites : Option (UpkList SvcId)) (scripts : ScriptField → Option Addr)
    (customActions : Option (UpkList ActObject)) : SvcObject :=
  { dest with
    name := overlayBuf high.name dest.name
    package := overlayBuf high.package dest.package
    provides
    uuid := overlay .zero high.uuid dest.uuid
    shortDescription := overlayBuf high.shortDescription dest.shortDescription
    longDescription
    prerequisites
    ints := fun f => overlay int32Min (high.ints f) (dest.ints f)
    flags := fun f => overlay int8Min (high.flags f) (dest.flags f)
    setUID := overlay idUnset high.setUID dest.setUID
    setGID := overlay idUnset high.setGID dest.setGID
    ringbufferSize := overlay sizeUnset high.ringbufferSize dest.ringbufferSize
    paths := fun f => overlayBuf (high.paths f) (dest.paths f)
    scripts
    customActions
    initialState := overlay .undefined high.initialState dest.initialState }

/-- A service whose lists a pass has gone through -/
def SvcObject.withLists (d : SvcObject) (provides prerequisites : Option (UpkList SvcId))
    (customActions : Option (UpkList ActObject)) : SvcObject :=
  { d with provides, prerequisites, customActions }

/-- `upk_overlay_svcconf_values`, in memory. The passes over its lists move the cursors of `high`. -/
def SvcObject.upkOverlaySvcconfValues (m : Heap) (dest high : SvcObject) : Option (Heap × SvcObject × SvcObject) := do
  let (provides, highProvides) ← overlaySvcids dest.provides high.provides
  let (m, longDescription) ← overlayLongDescription m dest.longDescription high.longDescription
  let (prerequisites, highPrerequisites) ← overlaySvcids dest.prerequisites high.prerequisites
  let (m, scripts) ← [.startScript, .stopScript, .reloadScript].foldlM (overlayScriptPtr high.scripts) (m, dest.scripts)
  let (m, customActions, highActions) ← overlayActions m dest.customActions high.customActions
  let (m, scripts) ← [.pipeStdoutScript, .pipeStderrScript].foldlM (overlayScriptPtr high.scripts) (m, scripts)
  some (m, dest.overlaid high provides longDescription prerequisites scripts customActions,
    high.withLists highProvides highPrerequisites highActions)

/-! ### What a service reads as -/

/-- What a string pointer reads as -/
def charPtr (m : Heap) : Option Addr → CharPtr
  | none => .null
  | some a =>
    match m.text a with
    | some s => .text s
    | none => .freed

/-- The custom actions, as they read -/
def actionsOf (m : Heap) (L : Option (UpkList ActObject)) : Option (List (CharBuf upkMaxStringLen × CharPtr)) :=
  L.map fun L => L.entries.map fun v => (v.name, charPtr m v.script)

/-- The text behind a pointer, if there is any -/
def CharPtr.orEmpty : CharPtr → CStr
  | .text s => s
  | _ => .empty

/-- What a service in memory reads as -/
def SvcObject.desc (m : Heap) (d : SvcObject) : SvcDesc :=
  { SvcDesc.zero with
    name := d.name
    package := d.package
    provides := d.provides.map UpkList.entries
    uuid := d.uuid
    shortDescription := d.shortDescription
    longDescription := charPtr m d.longDescription
    prerequisites := d.prerequisites.map UpkList.entries
    restartAllDependencies := d.restartAllDependencies
    restartOnPrerequisiteRestart := d.restartOnPrerequisiteRestart
    startupDelay := d.startupDelay
    ints := d.ints
    flags := d.flags
    setUID := d.setUID
    setGID := d.setGID
    ringbufferSize := d.ringbufferSize
    paths := d.paths
    scripts := fun f => charPtr m (d.scripts f)
    customActions := (actionsOf m d.customActions).map (List.map fun x => ⟨x.1, x.2.orEmpty⟩)
    initialState := d.initialState }

theorem SvcObject.desc_clear (m : Heap) : SvcObject.clear.desc m = upkSvcDescClear := rfl

/-- The list, if there is one, is well formed. -/
def Sound {α : Type} (L : Option (UpkList α)) : Prop := ∀ l ∈ L, ∃ ns, l.Inv ns

/-- Entries can be appended to a list with no `nextp` and room in its counter. -/
def Appendable {α : Type} (dest high : Option (UpkList α)) : Prop :=
  ∀ h ∈ high, h.count ≠ 0 → ∀ d ∈ dest, d.nextp = none ∧ d.count.toNat + h.count.toNat < 2 ^ 32

/-! ### Lists of identifiers -/

section Lists

variable {α : Type} {dest high : Option (UpkList SvcId)} {h : UpkList SvcId} {vs : List SvcId}

theorem count_pos_iff {L : UpkList α} {vs : List α} (h : L.Holds vs) : L.count > 0 ↔ vs ≠ [] := by
  rw [gt_iff_lt, UInt32.lt_iff_toNat_lt, h.count]
  exact List.length_pos_iff

theorem Sound.holds {L : Option (UpkList α)} (h : Sound L) : (L.getD .init).Holds ((L.map UpkList.entries).getD []) := by
  cases L with
  | none => exact UpkList.holds_init
  | some L =>
    obtain ⟨ns, hns⟩ := h L rfl
    exact hns.holds

theorem sound_some {L : UpkList α} {vs : List α} (h : L.Holds vs) : Sound (some L) := by
  intro l hl
  obtain rfl := Option.some.inj hl
  exact h.sound

theorem overlaySvcids_nil (h' : h.Holds []) : overlaySvcids dest (some h) = some (dest, some h) :=
  if_neg (mt (count_pos_iff h').mp fun hne => hne rfl)

theorem overlaySvcids_cons (dest : Option (UpkList SvcId)) (h' : h.Holds vs) (hvs : vs ≠ []) :
    ∃ g, g.Holds vs ∧ overlaySvcids dest (some h) =
      (vs.foldlM UpkList.appendVal (dest.getD .init)).map fun d => (some d, some g) := by
  obtain ⟨g, hg, -, -, hrun⟩ := UpkList.foreach_reading (f := UpkList.appendVal) h' (Nat.lt_succ_self h.fresh)
  refine ⟨g, hg, (if_pos ((count_pos_iff h').mpr hvs)).trans ?_⟩
  rw [hrun]
  cases vs.foldlM UpkList.appendVal (dest.getD .init) <;> rfl

theorem appendable_iff (hd : Sound dest) (h' : h.Holds vs) (hvs : vs ≠ []) : Appendable dest (some h) ↔
    (dest.getD .init).nextp = none ∧ ((dest.map UpkList.entries).getD []).length + vs.length < 2 ^ 32 := by
  have hcount : h.count ≠ 0 := fun hzero => by
    have hpos := (count_pos_iff h').mpr hvs
    rw [hzero] at hpos
    exact absurd hpos (by decide)
  have hh := h'.count
  cases dest with
  | none =>
    refine iff_of_true (fun _ _ _ d hd => nomatch hd) ⟨rfl, ?_⟩
    rw [← hh]
    simpa using h.count.toNat_lt
  | some d =>
    have hlen : d.count.toNat = ((Option.map UpkList.entries (some d)).getD []).length := hd.holds.count
    rw [← hlen, ← hh]
    constructor
    · exact fun happ => happ h rfl hcount d rfl
    · intro happ g hg _ e he
      obtain rfl := Option.some.inj hg
      obtain rfl := Option.some.inj he
      exact happ

theorem overlaySvcids_spec (hd : Sound dest) (hh : Sound high) (happ : Appendable dest high) :
    ∃ d g, overlaySvcids dest high = some (d, g) ∧ Sound d ∧ Sound g ∧
      d.map UpkList.entries = overlayAppend (high.map UpkList.entries) (dest.map UpkList.entries) ∧
      g.map UpkList.entries = high.map UpkList.entries := by
  cases high with
  | none => exact ⟨dest, none, rfl, hd, hh, rfl, rfl⟩
  | some h =>
    have h' : h.Holds h.entries := hh.holds
    by_cases hvs : h.entries = []
    · refine ⟨dest, some h, overlaySvcids_nil (hvs ▸ h'), hd, hh, ?_, rfl⟩
      rw [Option.map_some, overlayAppend, if_neg (by simp [hvs])]
    · obtain ⟨g, hg, hrun⟩ := overlaySvcids_cons dest h' hvs
      obtain ⟨hnext, hlen⟩ := (appendable_iff hd h' hvs).mp happ
      obtain ⟨d, hd', hholds, -⟩ := hd.holds.appendAll hnext hlen
      refine ⟨some d, some g, by rw [hrun, hd']; rfl, sound_some hholds, sound_some hg, ?_, ?_⟩
      · rw [Option.map_some, hholds.entries_eq]
        exact (if_pos (List.length_pos_iff.mpr hvs)).symm
      · rw [Option.map_some, hg.entries_eq]
        rfl

theorem overlaySvcids_needs {d g : Option (UpkList SvcId)} (hd : Sound dest) (hh : Sound high)
    (hrun : overlaySvcids dest high = some (d, g)) (hd' : Sound d)
    (hentries : (d.map UpkList.entries).getD [] =
      (dest.map UpkList.entries).getD [] ++ (high.map UpkList.entries).getD []) : Appendable dest high := by
  cases high with
  | none => exact fun h hnone => nomatch hnone
  | some h =>
    have h' : h.Holds h.entries := hh.holds
    by_cases hvs : h.entries = []
    · intro g hg hcount
      obtain rfl := Option.some.inj hg
      have hzero : h.count.toNat = 0 := by
        rw [h'.count]
        exact congrArg List.length hvs
      exact absurd (UInt32.toNat_inj.mp hzero) hcount
    · obtain ⟨g', -, heq⟩ := overlaySvcids_cons dest h' hvs
      obtain ⟨D, hD, hpair⟩ := Option.map_eq_some_iff.mp (heq.symm.trans hrun)
      obtain ⟨rfl, -⟩ := Prod.mk.inj hpair
      refine (appendable_iff hd h' hvs).mpr ((UpkList.appendAll_iff hd.holds hvs).mp ⟨D, hD, ?_⟩)
      exact hentries ▸ hd'.holds

end Lists

/-! ### Strings -/

/-- The pointers of a service to strings -/
inductive StringSlot
  | longDescription
  | script (f : ScriptField)
  | action (i : Nat)
  deriving DecidableEq

/-- What these pointers are -/
def slots (longDescription : Option Addr) (scripts : ScriptField → Option Addr) (acts : List (Option Addr)) :
    StringSlot → Option Addr
  | .longDescription => longDescription
  | .script f => scripts f
  | .action i => acts[i]?.join

/-- The scripts of custom actions -/
def actionScripts (L : Option (UpkList ActObject)) : List (Option Addr) :=
  ((L.map UpkList.entries).getD []).map ActObject.script

/-- The strings of a service -/
def SvcObject.strings (d : SvcObject) : StringSlot → Option Addr :=
  slots d.longDescription d.scripts (actionScripts d.customActions)

/-- What a pointer to a string that is there, or `NULL`, reads as -/
def CharPtr.ofOption : Option CStr → CharPtr
  | none => .null
  | some s => .text s

/-- `CharPtr.over`, of what can be there -/
def overText (high dest : Option CStr) : Option CStr := if (CharPtr.ofOption high).Has then high else dest

section Strings

variable {ι : Type} {m : Heap} {ptr : ι → Option Addr} {val : ι → Option CStr} {v w : StringSlot → Option CStr}
  {hp : StringSlot → Option Addr} {long : Option Addr} {scripts : ScriptField → Option Addr} {acts : List (Option Addr)}
  {f : ScriptField}

theorem CharPtr.ofOption_ne_freed (o : Option CStr) : CharPtr.ofOption o ≠ .freed := by
  cases o <;> exact fun h => nomatch h

theorem CharPtr.ofOption_over (a b : Option CStr) :
    (CharPtr.ofOption a).over (CharPtr.ofOption b) = CharPtr.ofOption (overText a b) := by
  unfold CharPtr.over overText
  split <;> rfl

theorem charPtr_eq (h : Heap.Owns m ptr val) (i : ι) : charPtr m (ptr i) = .ofOption (val i) := by
  rcases h.cases i with ⟨hp, hv⟩ | ⟨a, s, hp, hv, htext⟩
  · rw [hp, hv]
    rfl
  · rw [hp, hv]
    simp only [charPtr, htext]
    rfl

theorem exists_of_has {o : Option CStr} (h : (CharPtr.ofOption o).Has) : ∃ s, o = some s := by
  cases o with
  | none => exact h.elim
  | some s => exact ⟨s, rfl⟩

@[simp] theorem slots_update_long (p : Option Addr) :
    Function.update (slots long scripts acts) .longDescription p = slots p scripts acts := by
  funext s
  cases s <;> simp [slots]

@[simp] theorem slots_update_script (p : Option Addr) :
    Function.update (slots long scripts acts) (.script f) p = slots long (Function.update scripts f p) acts := by
  funext s
  cases s with
  | script g => by_cases hg : g = f <;> simp [slots, hg]
  | _ => simp [slots]

theorem slots_concat (p : Option Addr) :
    slots long scripts (acts ++ [p]) = Function.update (slots long scripts acts) (.action acts.length) p := by
  funext s
  cases s with
  | action i =>
    by_cases hi : i = acts.length
    · simp [slots, hi]
    · rw [Function.update_of_ne (by simpa using hi)]
      simp only [slots]
      rcases Nat.lt_or_gt_of_ne hi with hlt | hgt
      · rw [List.getElem?_append_left hlt]
      · rw [List.getElem?_eq_none (by simpa using Nat.succ_le_of_lt hgt), List.getElem?_eq_none (Nat.le_of_lt hgt)]
  | _ => simp [slots]

theorem high_nonEmpty {dp : StringSlot → Option Addr} (h : Heap.Owns m (Sum.elim dp hp) (Sum.elim v w)) (s : StringSlot) :
    m.nonEmpty (hp s) = some (decide (CharPtr.ofOption (w s)).Has) := by
  have hset : m.nonEmpty (hp s) = some (decide (∃ t ∈ w s, t.chars ≠ [])) := h.nonEmpty_eq (.inr s)
  rw [hset]
  refine congrArg some (decide_eq_decide.mpr ?_)
  cases w s with
  | none => exact iff_of_false (fun ⟨t, ht, _⟩ => nomatch ht) id
  | some t => simp [CharPtr.ofOption, CharPtr.Has]

theorem high_copy {dp : StringSlot → Option Addr} (h : Heap.Owns m (Sum.elim dp hp) (Sum.elim v w)) {s : StringSlot}
    {t : CStr} (ht : w s = some t) : m.copy (hp s) = some (m.put t, m.fresh) := by
  have hval : Sum.elim v w (.inr s) = some t := ht
  have hcopy := h.copy_eq hval
  exact hcopy

theorem overlayLongDescription_spec (h : Heap.Owns m (Sum.elim (slots long scripts acts) hp) (Sum.elim v w)) :
    ∃ m' long', overlayLongDescription m long (hp .longDescription) = some (m', long') ∧
      Heap.Owns m' (Sum.elim (slots long' scripts acts) hp)
        (Sum.elim (Function.update v .longDescription (overText (w .longDescription) (v .longDescription))) w) := by
  have hset := high_nonEmpty h .longDescription
  by_cases hhas : (CharPtr.ofOption (w .longDescription)).Has
  · obtain ⟨s, hs⟩ := exists_of_has hhas
    have hput := h.put (.inl .longDescription) s
    rw [Sum.update_elim_inl, Sum.update_elim_inl, slots_update_long, ← hs] at hput
    rw [decide_eq_true hhas] at hset
    refine ⟨m.put s, some m.fresh, ?_, ?_⟩
    · simp only [overlayLongDescription, hset, high_copy h hs, Option.bind_eq_bind, Option.bind_some, if_true]
    · rwa [overText, if_pos hhas]
  · rw [decide_eq_false hhas] at hset
    refine ⟨m, long, ?_, ?_⟩
    · simp only [overlayLongDescription, hset, Option.bind_eq_bind, Option.bind_some, Bool.false_eq_true, if_false]
    · rwa [overText, if_neg hhas, Function.update_eq_self]

/-- The scripts among the strings, as they read -/
def scriptTexts (v : StringSlot → Option CStr) (f : ScriptField) : CharPtr := .ofOption (v (.script f))

theorem scriptTexts_update (p : Option CStr) :
    scriptTexts (Function.update v (.script f) p) = Function.update (scriptTexts v) f (.ofOption p) := by
  funext g
  by_cases hg : g = f <;> simp [scriptTexts, hg]

theorem overlayScript_texts (hf : f.releases = f) :
    overlayScript (scriptTexts w) (scriptTexts v) f =
      .ok (scriptTexts (Function.update v (.script f) (overText (w (.script f)) (v (.script f))))) := by
  rw [overlayScript_self hf (CharPtr.ofOption_ne_freed _) (CharPtr.ofOption_ne_freed _), scriptTexts_update,
    ← CharPtr.ofOption_over]
  rfl

theorem overlayScriptPtr_self (h : Heap.Owns m (Sum.elim (slots long scripts acts) hp) (Sum.elim v w))
    (hf : f.releases = f) :
    ∃ m' scripts', overlayScriptPtr (fun f => hp (.script f)) (m, scripts) f = some (m', scripts') ∧
      Heap.Owns m' (Sum.elim (slots long scripts' acts) hp)
        (Sum.elim (Function.update v (.script f) (overText (w (.script f)) (v (.script f)))) w) := by
  have hset := high_nonEmpty h (.script f)
  by_cases hhas : (CharPtr.ofOption (w (.script f))).Has
  · obtain ⟨s, hs⟩ := exists_of_has hhas
    obtain ⟨m₁, hrelease, hown, -⟩ := h.release (.inl (.script f))
    have hrelease : m.release (scripts f) = some m₁ := hrelease
    rw [Sum.update_elim_inl, Sum.update_elim_inl, slots_update_script] at hown
    have hput := hown.put (.inl (.script f)) s
    rw [Sum.update_elim_inl, Sum.update_elim_inl, slots_update_script, Function.update_idem, Function.update_idem] at hput
    rw [decide_eq_true hhas] at hset
    refine ⟨m₁.put s, Function.update scripts f (some m₁.fresh), ?_, ?_⟩
    · simp only [overlayScriptPtr, hset, hf, hrelease, high_copy hown hs, Option.bind_eq_bind, Option.bind_some, if_true]
    · rwa [overText, if_pos hhas, hs]
  · rw [decide_eq_false hhas] at hset
    refine ⟨m, scripts, ?_, ?_⟩
    · simp only [overlayScriptPtr, hset, Option.bind_eq_bind, Option.bind_some, Bool.false_eq_true, if_false]
    · rwa [overText, if_neg hhas, Function.update_eq_self]

theorem overlayScriptPtrs_self (fs : List ScriptField) (hfs : ∀ f ∈ fs, f.releases = f)
    (h : Heap.Owns m (Sum.elim (slots long scripts acts) hp) (Sum.elim v w)) :
    ∃ m' scripts' v', fs.foldlM (overlayScriptPtr fun f => hp (.script f)) (m, scripts) = some (m', scripts') ∧
      Heap.Owns m' (Sum.elim (slots long scripts' acts) hp) (Sum.elim v' w) ∧
      fs.foldlM (overlayScript (scriptTexts w)) (scriptTexts v) = .ok (scriptTexts v') ∧
      ∀ s, (∀ f, s ≠ .script f) → v' s = v s := by
  induction fs generalizing m scripts v with
  | nil => exact ⟨m, scripts, v, rfl, h, rfl, fun _ _ => rfl⟩
  | cons f fs ih =>
    have hf := hfs f List.mem_cons_self
    obtain ⟨m₁, scripts₁, hstep, h₁⟩ := overlayScriptPtr_self h hf
    obtain ⟨m', scripts', v', hrun, h', hvalue, hframe⟩ := ih (fun g hg => hfs g (List.mem_cons_of_mem f hg)) h₁
    refine ⟨m', scripts', v', ?_, h', ?_, fun s hs => ?_⟩
    · rw [List.foldlM_cons, hstep]
      exact hrun
    · rw [List.foldlM_cons, overlayScript_texts hf]
      exact hvalue
    · rw [hframe s hs, Function.update_of_ne (hs f)]

theorem release_texts {m₁ : Heap} (h : Heap.Owns m (Sum.elim (slots long scripts acts) hp) (Sum.elim v w))
    (hgone : ∀ a, scripts f = some a → m₁.text a = none ∧ a < m₁.fresh) (s : CStr) :
    (scriptTexts v f).release = .ok (charPtr (m₁.put s) (scripts f)) ∧
      (scripts f = none ∨ charPtr (m₁.put s) (scripts f) = .freed) := by
  rcases h.cases (.inl (.script f)) with ⟨hptr, hval⟩ | ⟨a, t, hptr, hval, -⟩
  · have hptr : scripts f = none := hptr
    have hval : v (.script f) = none := hval
    rw [scriptTexts, hval, hptr]
    exact ⟨rfl, .inl rfl⟩
  · have hptr : scripts f = some a := hptr
    have hval : v (.script f) = some t := hval
    obtain ⟨htext, hlt⟩ := hgone a hptr
    have hfreed : charPtr (m₁.put s) (some a) = .freed := by
      simp only [charPtr, Heap.put_text (Nat.ne_of_lt hlt), htext]
    rw [scriptTexts, hval, hptr, hfreed]
    exact ⟨rfl, .inr rfl⟩

/-- Another script may be freed. Its pointer then dangles, and leads to none of the strings. -/
theorem overlayScriptPtr_spec (h : Heap.Owns m (Sum.elim (slots long scripts acts) hp) (Sum.elim v w)) (f : ScriptField) :
    ∃ m' scripts' owned v', overlayScriptPtr (fun f => hp (.script f)) (m, scripts) f = some (m', scripts') ∧
      Heap.Owns m' (Sum.elim (slots long owned acts) hp) (Sum.elim v' w) ∧
      overlayScript (scriptTexts w) (scriptTexts v) f = .ok (fun g => charPtr m' (scripts' g)) ∧
      (∀ g, scripts' g = owned g ∨ charPtr m' (scripts' g) = .freed) ∧
      ∀ s, (∀ g, s ≠ .script g) → v' s = v s := by
  have hset := high_nonEmpty h (.script f)
  by_cases hhas : (CharPtr.ofOption (w (.script f))).Has
  · obtain ⟨s, hs⟩ := exists_of_has hhas
    obtain ⟨m₁, hrelease, hown, hgone⟩ := h.release (.inl (.script f.releases))
    have hrelease : m.release (scripts f.releases) = some m₁ := hrelease
    rw [Sum.update_elim_inl, Sum.update_elim_inl, slots_update_script] at hown
    have hput := hown.put (.inl (.script f)) s
    rw [Sum.update_elim_inl, Sum.update_elim_inl, slots_update_script] at hput
    rw [decide_eq_true hhas] at hset
    obtain ⟨hreleased, hfreed⟩ := release_texts h hgone s
    have hother (g : ScriptField) (hg : g ≠ f) (hr : g ≠ f.releases) : charPtr (m₁.put s) (scripts g) = scriptTexts v g := by
      have hread : charPtr (m₁.put s) (Function.update (Function.update scripts f.releases none) f (some m₁.fresh) g) =
          scriptTexts (Function.update (Function.update v (.script f.releases) none) (.script f) (some s)) g :=
        charPtr_eq hput (.inl (.script g))
      rwa [scriptTexts_update, scriptTexts_update, Function.update_of_ne hg, Function.update_of_ne hr,
        Function.update_of_ne hg, Function.update_of_ne hr] at hread
    refine ⟨m₁.put s, Function.update scripts f (some m₁.fresh), _, _, ?_, hput, ?_, fun g => ?_, fun t ht => ?_⟩
    · simp only [overlayScriptPtr, hset, hrelease, high_copy hown hs, Option.bind_eq_bind, Option.bind_some, if_true]
    · rw [overlayScript_set hhas hreleased]
      refine congrArg Except.ok (funext fun g => ?_)
      by_cases hg : g = f
      · rw [hg, Function.update_self, Function.update_self, scriptTexts, hs]
        simp only [charPtr, Heap.put_text_fresh]
        rfl
      · rw [Function.update_of_ne hg, Function.update_of_ne hg]
        by_cases hr : g = f.releases
        · rw [hr, Function.update_self]
        · rw [Function.update_of_ne hr, hother g hg hr]
    · by_cases hg : g = f
      · rw [hg, Function.update_self, Function.update_self]
        exact .inl rfl
      · rw [Function.update_of_ne hg, Function.update_of_ne hg]
        by_cases hr : g = f.releases
        · rw [hr, Function.update_self]
          exact hfreed
        · rw [Function.update_of_ne hr]
          exact .inl rfl
    · rw [Function.update_of_ne (ht _), Function.update_of_ne (ht _)]
  · rw [decide_eq_false hhas] at hset
    refine ⟨m, scripts, scripts, v, ?_, h, ?_, fun _ => .inl rfl, fun _ _ => rfl⟩
    · simp only [overlayScriptPtr, hset, Option.bind_eq_bind, Option.bind_some, Bool.false_eq_true, if_false]
    · have hread : (fun g => charPtr m (scripts g)) = scriptTexts v := funext fun g => charPtr_eq h (.inl (.script g))
      rw [hread, overlayScript_unset (CharPtr.ofOption_ne_freed _) hhas]

theorem overlayPipes_spec (h : Heap.Owns m (Sum.elim (slots long scripts acts) hp) (Sum.elim v w)) :
    ∃ m' scripts' owned v', [.pipeStdoutScript, .pipeStderrScript].foldlM (overlayScriptPtr fun f => hp (.script f))
        (m, scripts) = some (m', scripts') ∧
      Heap.Owns m' (Sum.elim (slots long owned acts) hp) (Sum.elim v' w) ∧
      [.pipeStdoutScript, .pipeStderrScript].foldlM (overlayScript (scriptTexts w)) (scriptTexts v) =
        .ok (fun g => charPtr m' (scripts' g)) ∧
      (∀ g, scripts' g = owned g ∨ charPtr m' (scripts' g) = .freed) ∧
      ∀ s, (∀ g, s ≠ .script g) → v' s = v s := by
  obtain ⟨m₁, scripts₁, hstdout, hown₁⟩ := overlayScriptPtr_self (f := .pipeStdoutScript) h rfl
  obtain ⟨m', scripts', owned, v', hstderr, hown', hvalue, hdangles, hframe⟩ := overlayScriptPtr_spec hown₁ .pipeStderrScript
  refine ⟨m', scripts', owned, v', ?_, hown', ?_, hdangles, fun s hs => ?_⟩
  · simp only [List.foldlM_cons, hstdout, hstderr, List.foldlM_nil, Option.bind_eq_bind, Option.bind_some]
    rfl
  · rw [List.foldlM_cons, overlayScript_texts rfl]
    exact Wire.bind_eq_ok.mpr ⟨_, rfl, Wire.bind_eq_ok.mpr ⟨_, hvalue, rfl⟩⟩
  · rw [hframe s hs, Function.update_of_ne (hs _)]

end Strings

/-! ### Custom actions -/

section Actions

variable {m m' : Heap} {v w : StringSlot → Option CStr} {hp : StringSlot → Option Addr} {long : Option Addr}
  {scripts : ScriptField → Option Addr} {acts : List (Option Addr)} {D : UpkList ActObject} {ds vs : List ActObject}
  {a : ActObject}

/-- The slot behind it, among the custom actions -/
def StringSlot.succ : StringSlot → StringSlot
  | .action i => .action (i + 1)
  | s => s

theorem StringSlot.succ_injective : Function.Injective StringSlot.succ := by
  intro s t h
  cases s <;> cases t <;> simp_all [StringSlot.succ]

theorem map_succ_ne (s : StringSlot ⊕ StringSlot) : Sum.map StringSlot.succ id s ≠ .inl (.action 0) := by
  rcases s with (_ | _ | _) | _ <;> simp [StringSlot.succ]

theorem releaseActions (h : Heap.Owns m (Sum.elim (slots long scripts (vs.map ActObject.script)) hp) (Sum.elim v w)) :
    ∃ m' v', vs.foldlM (fun m v => m.release v.script) m = some m' ∧
      Heap.Owns m' (Sum.elim (slots long scripts []) hp) (Sum.elim v' w) ∧ ∀ s, (∀ i, s ≠ .action i) → v' s = v s := by
  induction vs generalizing m v with
  | nil => exact ⟨m, v, rfl, h, fun _ _ => rfl⟩
  | cons a vs ih =>
    obtain ⟨m₁, hrelease, hown, -⟩ := h.release (.inl (.action 0))
    have hrelease : m.release a.script = some m₁ := hrelease
    have hrest := hown.comp (f := Sum.map StringSlot.succ id) (StringSlot.succ_injective.sumMap Function.injective_id)
    have hptr : Function.update (Sum.elim (slots long scripts ((a :: vs).map ActObject.script)) hp) (.inl (.action 0)) none ∘
        Sum.map StringSlot.succ id = Sum.elim (slots long scripts (vs.map ActObject.script)) hp := by
      funext s
      rw [Function.comp_apply, Function.update_of_ne (map_succ_ne s)]
      rcases s with (_ | _ | _) | _ <;> rfl
    have hval : Function.update (Sum.elim v w) (.inl (.action 0)) none ∘ Sum.map StringSlot.succ id =
        Sum.elim (v ∘ StringSlot.succ) w := by
      funext s
      rw [Function.comp_apply, Function.update_of_ne (map_succ_ne s)]
      rcases s with _ | _ <;> rfl
    rw [hptr, hval] at hrest
    obtain ⟨m', v', hrun, hown', hframe⟩ := ih hrest
    refine ⟨m', v', ?_, hown', fun s hs => ?_⟩
    · rw [List.foldlM_cons, hrelease]
      exact hrun
    · rw [hframe s hs]
      cases s with
      | action i => exact absurd rfl (hs i)
      | _ => rfl

theorem dropActions_spec {dest : Option (UpkList ActObject)} (hd : Sound dest)
    (h : Heap.Owns m (Sum.elim (slots long scripts (actionScripts dest)) hp) (Sum.elim v w)) :
    ∃ m' v', dropActions m dest = some m' ∧
      Heap.Owns m' (Sum.elim (slots long scripts []) hp) (Sum.elim v' w) ∧ ∀ s, (∀ i, s ≠ .action i) → v' s = v s := by
  cases dest with
  | none => exact ⟨m, v, rfl, h, fun _ _ => rfl⟩
  | some d =>
    have hholds : d.Holds d.entries := hd.holds
    obtain ⟨m', v', hrun, hown, hframe⟩ := releaseActions h
    obtain ⟨d', hpass⟩ := UpkList.foreach_unlinking (f := fun m (v : ActObject) => Heap.release m v.script)
      (fun v => { v with script := none }) hholds (Nat.lt_succ_self d.fresh)
    refine ⟨m', v', ?_, hown, hframe⟩
    have hrun : d.entries.foldlM (fun m v => m.release v.script) m = some m' := hrun
    simp only [dropActions, hpass, hrun, Option.map_some, Option.bind_eq_bind, Option.bind_some]

theorem appendAction_null (hnull : a.script = none) :
    appendAction (m, D) a = (D.appendVal a).map (m, ·) := by
  simp only [appendAction, UpkList.appendVal, hnull, Option.bind_eq_bind]
  cases D.append with
  | none => rfl
  | some L => cases hL : L.modifyVal L.thisp fun _ => a <;> simp [hL]

theorem appendAction_copy {p q : Addr} (hscript : a.script = some p) (hcopy : m.copy (some p) = some (m', q)) :
    appendAction (m, D) a = (D.appendVal { a with script := some q }).map (m', ·) := by
  simp only [appendAction, UpkList.appendVal, hscript, hcopy, Option.bind_eq_bind, Option.bind_some]
  cases D.append with
  | none => rfl
  | some L =>
    have htwice : ((L.modifyVal L.thisp fun _ => a).bind fun M => M.modifyVal M.thisp fun v => { v with script := some q }) =
        L.modifyVal L.thisp fun _ => { a with script := some q } := L.modifyVal_modifyVal _ _
    simp only [Option.bind_some, ← htwice, Option.map_bind]
    refine congrArg (Option.bind _) (funext fun M => ?_)
    exact (Option.map_eq_bind).symm

theorem appendAction_spec (h : Heap.Owns m (Sum.elim (slots long scripts acts) hp) (Sum.elim v w))
    (hscript : hp (.action acts.length) = a.script) :
    ∃ m' p, Heap.Owns m' (Sum.elim (slots long scripts (acts ++ [p])) hp)
        (Sum.elim (Function.update v (.action acts.length) (w (.action acts.length))) w) ∧
      ∀ D, appendAction (m, D) a = (D.appendVal ⟨a.name, p⟩).map (m', ·) := by
  cases hw : w (.action acts.length) with
  | none =>
    have hnull : a.script = none := by
      rw [← hscript]
      exact (h.cases (.inr (.action acts.length))).elim And.left fun ⟨_, _, _, hs, _⟩ => absurd (hw.symm.trans hs) (by simp)
    have herase := h.erase (.inl (.action acts.length))
    rw [Sum.update_elim_inl, Sum.update_elim_inl, ← slots_concat] at herase
    refine ⟨m, none, herase, fun D => ?_⟩
    rw [appendAction_null hnull, ← hnull]
  | some s =>
    have hcopy := high_copy h hw
    rw [hscript] at hcopy
    have hput := h.put (.inl (.action acts.length)) s
    rw [Sum.update_elim_inl, Sum.update_elim_inl, ← slots_concat] at hput
    refine ⟨m.put s, some m.fresh, hput, fun D => ?_⟩
    cases hptr : a.script with
    | none =>
      rw [hptr] at hcopy
      exact absurd hcopy (by simp [Heap.copy])
    | some q => exact appendAction_copy hptr (hptr ▸ hcopy)

theorem appendActions_spec {as : List ActObject} (ds : List ActObject)
    (h : Heap.Owns m (Sum.elim (slots long scripts (ds.map ActObject.script)) hp) (Sum.elim v w))
    (hscript : ∀ k a, as[k]? = some a → hp (.action (ds.length + k)) = a.script)
    (hcopied : ∀ k < ds.length, v (.action k) = w (.action k)) (hD : D.Holds ds) (hnext : D.nextp = none)
    (hlen : ds.length + as.length < 2 ^ 32) :
    ∃ m' D' ds' v', as.foldlM appendAction (m, D) = some (m', D') ∧ D'.Holds ds' ∧
      ds'.map ActObject.name = (ds ++ as).map ActObject.name ∧
      Heap.Owns m' (Sum.elim (slots long scripts (ds'.map ActObject.script)) hp) (Sum.elim v' w) ∧
      (∀ k < ds'.length, v' (.action k) = w (.action k)) ∧ ∀ s, (∀ i, s ≠ .action i) → v' s = v s := by
  induction as generalizing m D ds v with
  | nil => exact ⟨m, D, ds, v, rfl, hD, by rw [List.append_nil], h, hcopied, fun _ _ => rfl⟩
  | cons a as ih =>
    rw [List.length_cons] at hlen
    have ha : hp (.action (ds.map ActObject.script).length) = a.script := by
      rw [List.length_map]
      exact hscript 0 a rfl
    obtain ⟨m₁, p, hown, hstep⟩ := appendAction_spec h ha
    obtain ⟨D₁, hD₁, hholds, hnext₁⟩ := hD.appendVal hnext (hD.count_ne_max (by omega)) ⟨a.name, p⟩
    rw [List.length_map, ← List.map_singleton (f := ActObject.script) (a := ⟨a.name, p⟩), ← List.map_append] at hown
    have hlength : (ds ++ [ActObject.mk a.name p]).length = ds.length + 1 := List.length_append
    have hrest (k : Nat) (b : ActObject) (hb : as[k]? = some b) :
        hp (.action ((ds ++ [ActObject.mk a.name p]).length + k)) = b.script := by
      rw [hlength, Nat.add_assoc, Nat.add_comm 1 k]
      exact hscript (k + 1) b hb
    have hcopied₁ (k : Nat) (hk : k < (ds ++ [ActObject.mk a.name p]).length) :
        Function.update v (.action ds.length) (w (.action ds.length)) (.action k) = w (.action k) := by
      by_cases hlast : k = ds.length
      · rw [hlast, Function.update_self]
      · rw [Function.update_of_ne (by simpa using hlast)]
        exact hcopied k (by omega)
    obtain ⟨m', D', ds', v', hrun, hholds', hnames, hown', hcopied', hframe⟩ :=
      ih (ds ++ [⟨a.name, p⟩]) hown hrest hcopied₁ hholds hnext₁ (by omega)
    refine ⟨m', D', ds', v', ?_, hholds', ?_, hown', hcopied', fun s hs => ?_⟩
    · rw [List.foldlM_cons, hstep D, hD₁]
      exact hrun
    · rw [hnames]
      simp
    · rw [hframe s hs, Function.update_of_ne (hs _)]

/-- The custom actions, by the texts of their scripts -/
def actionsWith (u : StringSlot → Option CStr) (L : Option (UpkList ActObject)) :
    Option (List (CharBuf upkMaxStringLen × CharPtr)) :=
  L.map fun L => L.entries.mapIdx fun k a => (a.name, .ofOption (u (.action k)))

theorem actionsOf_eq {ι : Type} {ptr : ι → Option Addr} {val : ι → Option CStr} {L : Option (UpkList ActObject)}
    (h : Heap.Owns m ptr val) (slot : StringSlot → ι) (hslot : ∀ k, ptr (slot (.action k)) = (actionScripts L)[k]?.join) :
    actionsOf m L = actionsWith (val ∘ slot) L := by
  cases L with
  | none => rfl
  | some L =>
    refine congrArg some (List.ext_getElem (by simp) fun k hk _ => ?_)
    have hread := charPtr_eq h (slot (.action k))
    rw [hslot, actionScripts, List.getElem?_map] at hread
    rw [List.length_map] at hk
    have hget : ((Option.map UpkList.entries (some L)).getD [])[k]? = some L.entries[k] := List.getElem?_eq_getElem hk
    rw [hget] at hread
    rw [List.getElem_map, List.getElem_mapIdx]
    exact congrArg _ hread

theorem actionsWith_congr {L L' : UpkList ActObject} (hnames : L.entries.map ActObject.name = L'.entries.map ActObject.name)
    (htexts : ∀ k < L.entries.length, v (.action k) = w (.action k)) : actionsWith v (some L) = actionsWith w (some L') := by
  have hlen := congrArg List.length hnames
  rw [List.length_map, List.length_map] at hlen
  refine congrArg some (List.ext_getElem (by simpa using hlen) fun k hk hk' => ?_)
  rw [List.length_mapIdx] at hk hk'
  rw [List.getElem_mapIdx, List.getElem_mapIdx, htexts k hk]
  have hname : (L.entries.map ActObject.name)[k]? = (L'.entries.map ActObject.name)[k]? := congrArg (·[k]?) hnames
  rw [List.getElem?_map, List.getElem?_map, List.getElem?_eq_getElem hk, List.getElem?_eq_getElem hk'] at hname
  exact congrArg (·, _) (Option.some.inj hname)

theorem overlayActions_spec {dest high : Option (UpkList ActObject)} (hd : Sound dest) (hh : Sound high)
    (h : Heap.Owns m (Sum.elim (slots long scripts (actionScripts dest)) hp) (Sum.elim v w))
    (hhigh : ∀ k, hp (.action k) = (actionScripts high)[k]?.join) :
    ∃ m' d g v', overlayActions m dest high = some (m', d, g) ∧ Sound d ∧ Sound g ∧
      g.map UpkList.entries = high.map UpkList.entries ∧
      Heap.Owns m' (Sum.elim (slots long scripts (actionScripts d)) hp) (Sum.elim v' w) ∧
      (∀ s, (∀ i, s ≠ .action i) → v' s = v s) ∧
      actionsWith v' d = overlayList (actionsWith w high) (actionsWith v dest) := by
  cases high with
  | none => exact ⟨m, dest, none, v, rfl, hd, hh, rfl, h, fun _ _ => rfl, rfl⟩
  | some g =>
    have hg : g.Holds g.entries := hh.holds
    by_cases hnil : g.entries = []
    · refine ⟨m, dest, some g, v, if_neg fun hpos => (count_pos_iff hg).mp hpos hnil, hd, hh, rfl, h, fun _ _ => rfl, ?_⟩
      exact (if_neg (by simp [actionsWith, hnil])).symm
    · obtain ⟨m₁, v₁, hdrop, h₁, hframe₁⟩ := dropActions_spec hd h
      have hscript (k : Nat) (a : ActObject) (ha : g.entries[k]? = some a) : hp (.action (0 + k)) = a.script := by
        have hget : ((Option.map UpkList.entries (some g)).getD [])[k]? = some a := ha
        rw [Nat.zero_add, hhigh, actionScripts, List.getElem?_map, hget]
        rfl
      have hlen : 0 + g.entries.length < 2 ^ 32 := by
        rw [Nat.zero_add, ← hg.count]
        exact g.count.toNat_lt
      obtain ⟨m', d, ds, v', hrun, hholds, hnames, hown, hcopied, hframe⟩ := appendActions_spec [] h₁ hscript
        (fun k hk => absurd hk (Nat.not_lt_zero k)) UpkList.holds_init rfl hlen
      obtain rfl := hholds.entries_eq
      obtain ⟨g', hg', -, -, hpass⟩ := UpkList.foreach_reading (f := appendAction) hg (Nat.lt_succ_self g.fresh)
      refine ⟨m', some d, some g', v', ?_, sound_some hholds, sound_some hg', ?_, ?_, fun s hs => ?_, ?_⟩
      · refine (if_pos ((count_pos_iff hg).mpr hnil)).trans ?_
        simp only [hdrop, hpass, hrun, Option.map_some, Option.bind_eq_bind, Option.bind_some]
      · rw [Option.map_some, hg'.entries_eq]
        rfl
      · exact hown
      · rw [hframe s hs, hframe₁ s hs]
      · have hpos : ((actionsWith w (some g)).getD []).length > 0 := by
          have hlength : ((actionsWith w (some g)).getD []).length = g.entries.length := List.length_mapIdx
          rw [hlength]
          exact List.length_pos_iff.mpr hnil
        rw [overlayList, if_pos hpos]
        exact actionsWith_congr hnames hcopied

end Actions

/-! ### The function, and what it does to the values -/

/-- The lists of the service are well formed. -/
structure SvcObject.Sound (d : SvcObject) : Prop where
  provides : Upkeeper.Sound d.provides
  prerequisites : Upkeeper.Sound d.prerequisites
  customActions : Upkeeper.Sound d.customActions

/-- The lists are well formed, and each string is one that only one pointer of the two services leads to. -/
structure Separate (m : Heap) (dest high : SvcObject) : Prop where
  lower : dest.Sound
  upper : high.Sound
  strings : ∃ val, Heap.Owns m (Sum.elim dest.strings high.strings) val

/-- The entries of `high` can be appended to the lists of `dest`. -/
def SvcObject.Appendable (dest high : SvcObject) : Prop :=
  Upkeeper.Appendable dest.provides high.provides ∧ Upkeeper.Appendable dest.prerequisites high.prerequisites

theorem overlayList_map {α β : Type} (g : α → β) (high dest : Option (List α)) :
    overlayList (high.map (List.map g)) (dest.map (List.map g)) = (overlayList high dest).map (List.map g) := by
  have hlen : ((high.map (List.map g)).getD []).length = (high.getD []).length := by cases high <;> simp
  simp only [overlayList, hlen]
  split <;> rfl

section Overlay

variable {m m' : Heap} {dest high : SvcObject} {v w : StringSlot → Option CStr}

/-- What has become of the strings -/
structure StringsOverlaid (m' : Heap) (dest high : SvcObject) (v w : StringSlot → Option CStr) (long : Option Addr)
    (scripts : ScriptField → Option Addr) (acts : Option (UpkList ActObject)) : Prop where
  owns : ∃ owned v', Heap.Owns m' (Sum.elim (slots long owned (actionScripts acts)) high.strings) (Sum.elim v' w) ∧
    ∀ g, scripts g = owned g ∨ charPtr m' (scripts g) = .freed
  longDescription : charPtr m' long = (CharPtr.ofOption (w .longDescription)).over (.ofOption (v .longDescription))
  scripts : scriptFields.foldlM (overlayScript (scriptTexts w)) (scriptTexts v) = .ok fun g => charPtr m' (scripts g)
  customActions : actionsOf m' acts = overlayList (actionsWith w high.customActions) (actionsWith v dest.customActions)

theorem actionsWith_agree {u u' : StringSlot → Option CStr} (h : ∀ k, u (.action k) = u' (.action k))
    (L : Option (UpkList ActObject)) : actionsWith u L = actionsWith u' L := by
  simp only [actionsWith, h]

theorem stringsOverlaid (hdest : Sound dest.customActions) (hhigh : Sound high.customActions)
    (h : Heap.Owns m (Sum.elim dest.strings high.strings) (Sum.elim v w)) :
    ∃ m₁ long m₂ scripts₂ m₃ acts highActs m' scripts',
      overlayLongDescription m dest.longDescription high.longDescription = some (m₁, long) ∧
      [.startScript, .stopScript, .reloadScript].foldlM (overlayScriptPtr high.scripts) (m₁, dest.scripts) =
        some (m₂, scripts₂) ∧
      overlayActions m₂ dest.customActions high.customActions = some (m₃, acts, highActs) ∧
      [.pipeStdoutScript, .pipeStderrScript].foldlM (overlayScriptPtr high.scripts) (m₃, scripts₂) =
        some (m', scripts') ∧
      Sound acts ∧ Sound highActs ∧ highActs.map UpkList.entries = high.customActions.map UpkList.entries ∧
      StringsOverlaid m' dest high v w long scripts' acts := by
  obtain ⟨m₁, long, hlong, h₁⟩ := overlayLongDescription_spec h
  obtain ⟨m₂, scripts₂, v₂, hscripts, h₂, hvalue₂, hframe₂⟩ :=
    overlayScriptPtrs_self [.startScript, .stopScript, .reloadScript] (by decide) h₁
  obtain ⟨m₃, acts, highActs, v₃, hactions, hacts, hhighActs, hsame, h₃, hframe₃, htexts⟩ :=
    overlayActions_spec hdest hhigh h₂ fun _ => rfl
  obtain ⟨m', scripts', owned, v', hpipes, h', hvalue', hdangles, hframe'⟩ := overlayPipes_spec h₃
  refine ⟨m₁, long, m₂, scripts₂, m₃, acts, highActs, m', scripts', hlong, hscripts, hactions, hpipes, hacts, hhighActs,
    hsame, ⟨owned, v', h', hdangles⟩, ?_, ?_, ?_⟩
  · rw [show charPtr m' long = .ofOption (v' .longDescription) from charPtr_eq h' (.inl .longDescription),
      hframe' _ (by simp), hframe₃ _ (by simp), hframe₂ _ (by simp), Function.update_self, CharPtr.ofOption_over]
  · have htexts₃ : scriptTexts v₃ = scriptTexts v₂ := funext fun f => congrArg CharPtr.ofOption (hframe₃ _ (by simp))
    rw [htexts₃] at hvalue'
    exact (List.foldlM_append (l := [.startScript, .stopScript, .reloadScript])).trans
      (Wire.bind_eq_ok.mpr ⟨_, hvalue₂, hvalue'⟩)
  · have hafter (k : Nat) : v' (.action k) = v₃ (.action k) := hframe' _ (by simp)
    have hbefore (k : Nat) : v₂ (.action k) = v (.action k) :=
      (hframe₂ _ (by simp)).trans (Function.update_of_ne (by simp) _ _)
    rw [actionsOf_eq h' .inl fun _ => rfl, Sum.elim_comp_inl, actionsWith_agree hafter, htexts, actionsWith_agree hbefore]

theorem actionsOf_congr {L L' : Option (UpkList ActObject)} (h : L.map UpkList.entries = L'.map UpkList.entries) :
    actionsOf m L = actionsOf m L' := by
  have hread (L : Option (UpkList ActObject)) :
      actionsOf m L = (L.map UpkList.entries).map (List.map fun v => (v.name, charPtr m v.script)) := by
    rw [Option.map_map]
    rfl
  rw [hread, hread, h]

/-- **What the function does in memory is what it does to the values**, and `high` reads as before. The strings are again
separate if no script has been freed. -/
theorem SvcObject.upkOverlaySvcconfValues_desc (h : Separate m dest high) (happ : dest.Appendable high) :
    ∃ m' dest' high', SvcObject.upkOverlaySvcconfValues m dest high = some (m', dest', high') ∧
      Upkeeper.upkOverlaySvcconfValues (dest.desc m) (high.desc m) = .ok (dest'.desc m') ∧
      high'.desc m' = high.desc m ∧
      actionsOf m' dest'.customActions = overlayList (actionsOf m high.customActions) (actionsOf m dest.customActions) ∧
      actionsOf m' high'.customActions = actionsOf m high.customActions ∧
      ((∀ f, charPtr m' (dest'.scripts f) ≠ .freed) → Separate m' dest' high') := by
  obtain ⟨val, hown⟩ := h.strings
  obtain ⟨v, w, rfl⟩ : ∃ v w, val = Sum.elim v w := ⟨val ∘ .inl, val ∘ .inr, (Sum.elim_comp_inl_inr val).symm⟩
  obtain ⟨provides, highProvides, hprovides, hd₁, hg₁, hentries₁, hsame₁⟩ :=
    overlaySvcids_spec h.lower.provides h.upper.provides happ.1
  obtain ⟨prerequisites, highPrerequisites, hprerequisites, hd₂, hg₂, hentries₂, hsame₂⟩ :=
    overlaySvcids_spec h.lower.prerequisites h.upper.prerequisites happ.2
  obtain ⟨m₁, long, m₂, scripts₂, m₃, acts, highActs, m', scripts', hlong, hscripts, hactions, hpipes, hd₃, hg₃, hsame₃,
    hall⟩ := stringsOverlaid h.lower.customActions h.upper.customActions hown
  obtain ⟨owned, v', hown', hdangles⟩ := hall.owns
  -- what the strings read as, before and after
  have hlow (s : StringSlot) : charPtr m (dest.strings s) = .ofOption (v s) := charPtr_eq hown (.inl s)
  have hup (s : StringSlot) : charPtr m (high.strings s) = .ofOption (w s) := charPtr_eq hown (.inr s)
  have hup' (s : StringSlot) : charPtr m' (high.strings s) = charPtr m (high.strings s) :=
    (charPtr_eq hown' (.inr s)).trans (hup s).symm
  have hlowActs : actionsOf m dest.customActions = actionsWith v dest.customActions := actionsOf_eq hown .inl fun _ => rfl
  have hupActs : actionsOf m high.customActions = actionsWith w high.customActions := actionsOf_eq hown .inr fun _ => rfl
  have hupActs' : actionsOf m' highActs = actionsOf m high.customActions := by
    rw [actionsOf_congr hsame₃, hupActs]
    exact actionsOf_eq hown' .inr fun _ => rfl
  have hacts : actionsOf m' acts = overlayList (actionsOf m high.customActions) (actionsOf m dest.customActions) := by
    rw [hall.customActions, hlowActs, hupActs]
  refine ⟨m', dest.overlaid high provides long prerequisites scripts' acts,
    high.withLists highProvides highPrerequisites highActs, ?_, ?_, ?_, hacts, hupActs', fun hlive => ?_⟩
  · simp only [SvcObject.upkOverlaySvcconfValues, hprovides, hlong, hprerequisites, hscripts, hactions, hpipes,
      Option.bind_eq_bind, Option.bind_some]
  · have hread : (high.desc m).longDescription = .ofOption (w .longDescription) := hup .longDescription
    have hlowScripts : (dest.desc m).scripts = scriptTexts v := funext fun f => hlow (.script f)
    have hupScripts : (high.desc m).scripts = scriptTexts w := funext fun f => hup (.script f)
    refine (upkOverlaySvcconfValues_ok (hread ▸ CharPtr.ofOption_ne_freed _)).mpr ⟨fun g => charPtr m' (scripts' g), ?_, ?_⟩
    · rw [hlowScripts, hupScripts, hall.scripts]
    · have hlongRead : charPtr m' long = (charPtr m high.longDescription).over (charPtr m dest.longDescription) := by
        rw [hall.longDescription, ← hlow, ← hup]
        rfl
      simp only [SvcObject.desc, SvcObject.overlaid, SvcDesc.overlaid, hentries₁, hentries₂, hlongRead, hacts,
        overlayList_map]
  · have hlongSame : charPtr m' high.longDescription = charPtr m high.longDescription := hup' .longDescription
    have hscriptsSame (f : ScriptField) : charPtr m' (high.scripts f) = charPtr m (high.scripts f) := hup' (.script f)
    simp only [SvcObject.desc, SvcObject.withLists, hsame₁, hsame₂, hlongSame, hscriptsSame, hupActs']
  · obtain rfl : scripts' = owned := funext fun g => (hdangles g).resolve_right (hlive g)
    have hstrings : (high.withLists highProvides highPrerequisites highActs).strings = high.strings := by
      simp only [SvcObject.strings, SvcObject.withLists, actionScripts, hsame₃]
    refine ⟨⟨hd₁, hd₂, hd₃⟩, ⟨hg₁, hg₂, hg₃⟩, Sum.elim v' w, ?_⟩
    rw [hstrings]
    exact hown'

end Overlay

end Upkeeper
