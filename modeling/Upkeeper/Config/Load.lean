import Upkeeper.Config.Meaning
import Upkeeper.Config.Overlay
/-!
# Loading the configuration of the controller (`upk_ctrl_load_config`)

The runtime configuration is the built-in one overlaid on nothing, with that of the file overlaid on it. A setting of
the file is to win over one that is built in, and a sentinel is no setting.
-/

namespace Upkeeper

/-! ### The three configurations -/

/-- `upk_default_configuration`, `upk_file_configuration` and `upk_runtime_configuration` -/
structure Configurations where
  default : ControllerConfig
  file : ControllerConfig
  runtime : ControllerConfig

/-- The path of a socket in `StateDir` -/
def socketPath (stateDir : CharBuf upkMaxPathLen) (name : String) : CharBuf upkMaxPathLen :=
  strncpyPath ((stateDir.take (upkMaxStringLen - 1)).append (cstr name))

/-- A configuration in which only the services' defaults have been cleared -/
def clearedConfiguration : ControllerConfig := { ControllerConfig.zero with serviceDefaults := upkSvcDescClear }

/-- A configuration in which nothing is set -/
def unsetConfiguration : ControllerConfig := { clearedConfiguration with buddyPollingInterval := dblMin }

/-- What `upk_ctrl_load_config` makes of `upk_file_configuration`. `contents` is the text of the file, if there is one
and it is not empty; a text may fail to parse. -/
def loadFileConfiguration (passwd : CStr → Option (UInt32 × UInt32)) (contents : Option (Option Json)) :
    Except Stop ControllerConfig :=
  let file := { ControllerConfig.zero with buddyPollingInterval := dblMin }
  match contents with
  | none => .ok file
  | some doc => upkCtrlconfPack passwd { file with serviceDefaults := upkSvcDescClear } doc

/-- `upk_ctrl_load_config`, at the start of a program -/
def upkCtrlLoadConfig (passwd : CStr → Option (UInt32 × UInt32)) (builtIn : Option Json) (contents : Option (Option Json)) :
    Except Stop Configurations := do
  let default ← upkCtrlconfPack passwd clearedConfiguration builtIn
  let default := { default with
    controllerSocket := socketPath (default.dirs .stateDir) "/.controler.sock"
    controllerBuddySock := socketPath (default.dirs .stateDir) "/.buddy.sock" }
  let file ← loadFileConfiguration passwd contents
  let runtime ← upkOverlayCtrlconfValues clearedConfiguration default
  let runtime ← upkOverlayCtrlconfValues runtime file
  .ok ⟨default, file, runtime⟩

/-! ### Settings -/

/-- The fields of a service that are no lists -/
inductive ScalarField
  | name
  | package
  | uuid
  | shortDescription
  | longDescription
  | restartAllDependencies
  | restartOnPrerequisiteRestart
  | startupDelay
  | int (f : IntField)
  | flag (f : FlagField)
  | setUID
  | setGID
  | ringbufferSize
  | path (f : PathField)
  | script (f : ScriptField)
  | initialState
  deriving DecidableEq

/-- The value of such a field -/
inductive Scalar
  | text (s : CStr)
  | uuid (u : Uuid)
  | bool (b : Bool)
  | int (i : Int32)
  | flag (i : Int8)
  | id (n : UInt32)
  | size (n : UInt64)
  | state (s : UpkState)
  deriving DecidableEq

/-- The text behind a pointer. That behind none is not told apart from the empty one. -/
def CharPtr.read : CharPtr → Option Scalar
  | .null => some (.text .empty)
  | .text s => some (.text s)
  | .freed => none

/-- A field of a service, unless its memory has been freed -/
def SvcDesc.scalar (d : SvcDesc) : ScalarField → Option Scalar
  | .name => some (.text d.name.toCStr)
  | .package => some (.text d.package.toCStr)
  | .uuid => some (.uuid d.uuid)
  | .shortDescription => some (.text d.shortDescription.toCStr)
  | .longDescription => d.longDescription.read
  | .restartAllDependencies => some (.bool d.restartAllDependencies)
  | .restartOnPrerequisiteRestart => some (.bool d.restartOnPrerequisiteRestart)
  | .startupDelay => some (.int d.startupDelay)
  | .int f => some (.int (d.ints f))
  | .flag f => some (.flag (d.flags f))
  | .setUID => some (.id d.setUID)
  | .setGID => some (.id d.setGID)
  | .ringbufferSize => some (.size d.ringbufferSize)
  | .path f => some (.text (d.paths f).toCStr)
  | .script f => (d.scripts f).read
  | .initialState => some (.state d.initialState)

/-- The service has a value for the field that is not its sentinel. -/
def SvcDesc.Sets (d : SvcDesc) (f : ScalarField) : Prop := d.scalar f ≠ upkSvcDescClear.scalar f

instance decidableSets (d : SvcDesc) (f : ScalarField) : Decidable (d.Sets f) := inferInstanceAs (Decidable (_ ≠ _))

/-- There is a `BuddyVerbosity` in a file. The field of the configuration has no sentinel. -/
def setsBuddyVerbosity : Json → Bool
  | .object es => es.any fun
    | (key, .int _) => matchKey ctrlIntKeys key = some .buddyVerbosity
    | _ => false
  | _ => false

/-- Every setting has the value of the file if the file sets it, and the built-in one otherwise. -/
structure Precedence (default file : ControllerConfig) (verbose : Bool) (runtime : ControllerConfig) : Prop where
  dirs : ∀ f, runtime.dirs f = if (file.dirs f).chars ≠ [] then file.dirs f else default.dirs f
  buddyVerbosity : runtime.buddyVerbosity = if verbose then file.buddyVerbosity else default.buddyVerbosity
  buddyPollingInterval : runtime.buddyPollingInterval =
    if file.buddyPollingInterval ≠ dblMin then file.buddyPollingInterval else default.buddyPollingInterval
  serviceDefaults : ∀ f, runtime.serviceDefaults.scalar f =
    if file.serviceDefaults.Sets f then file.serviceDefaults.scalar f else default.serviceDefaults.scalar f

/-! ### Overlaying scripts -/

/-- The text of a script, if there is any -/
def CharPtr.Has : CharPtr → Prop
  | .text s => s.chars ≠ []
  | _ => False

instance decidableHas : (p : CharPtr) → Decidable p.Has
  | .text s => inferInstanceAs (Decidable (s.chars ≠ []))
  | .null | .freed => .isFalse id

/-- A script over another -/
def CharPtr.over (high dest : CharPtr) : CharPtr := if high.Has then high else dest

namespace CharPtr

variable {p : CharPtr}

theorem nonEmpty_eq (h : p ≠ .freed) : p.nonEmpty = .ok (decide p.Has) := by
  cases p with
  | freed => exact absurd rfl h
  | null => rfl
  | text s =>
    refine congrArg Except.ok (decide_eq_decide.mpr ?_)
    exact List.length_pos_iff

theorem Has.ne_freed (h : p.Has) : p ≠ .freed := by
  rintro rfl
  exact h

theorem has_iff_read (h : p ≠ .freed) : p.Has ↔ p.read ≠ CharPtr.null.read := by
  cases p with
  | freed => exact absurd rfl h
  | null => simp [Has]
  | text s =>
    simp only [Has, read, ne_eq, Option.some.injEq, Scalar.text.injEq]
    exact not_congr ⟨fun h => CStr.ext h, congrArg CStr.chars⟩

end CharPtr

section

variable {high dest : ScriptField → CharPtr}

theorem overlayScript_set {f : ScriptField} {released : CharPtr} (hset : (high f).Has)
    (hreleased : (dest f.releases).release = .ok released) :
    overlayScript high dest f = .ok (Function.update (Function.update dest f.releases released) f (high f)) := by
  rw [overlayScript, CharPtr.nonEmpty_eq hset.ne_freed, decide_eq_true hset, hreleased]
  rfl

theorem overlayScript_unset {f : ScriptField} (hhigh : high f ≠ .freed) (hset : ¬ (high f).Has) :
    overlayScript high dest f = .ok dest := by
  rw [overlayScript, CharPtr.nonEmpty_eq hhigh, decide_eq_false hset]
  rfl

theorem overlayScript_self {f : ScriptField} (hf : f.releases = f) (hhigh : high f ≠ .freed) (hdest : dest f ≠ .freed) :
    overlayScript high dest f = .ok (Function.update dest f ((high f).over (dest f))) := by
  by_cases hset : (high f).Has
  · obtain ⟨released, hreleased⟩ : ∃ released, (dest f.releases).release = .ok released := by
      rw [hf]
      cases hp : dest f with
      | freed => exact absurd hp hdest
      | _ => exact ⟨_, rfl⟩
    rw [overlayScript_set hset hreleased, hf, Function.update_idem, CharPtr.over, if_pos hset]
  · rw [overlayScript_unset hhigh hset, CharPtr.over, if_neg hset, Function.update_eq_self]

theorem overlayScripts_cons {f : ScriptField} (fs : List ScriptField) (hf : f.releases = f) (hhigh : high f ≠ .freed)
    (hdest : dest f ≠ .freed) :
    (f :: fs).foldlM (overlayScript high) dest =
      fs.foldlM (overlayScript high) (Function.update dest f ((high f).over (dest f))) := by
  rw [List.foldlM_cons, overlayScript_self hf hhigh hdest]
  rfl

theorem overlayScripts_eq (hhigh : ∀ f, high f ≠ .freed) (hdest : ∀ f, dest f ≠ .freed) :
    scriptFields.foldlM (overlayScript high) dest =
      overlayScript high
        (fun f => if f = .pipeStderrScript then dest f else (high f).over (dest f)) .pipeStderrScript := by
  rw [scriptFields, overlayScripts_cons _ rfl (hhigh _) (hdest .startScript), overlayScripts_cons _ rfl (hhigh _),
    overlayScripts_cons _ rfl (hhigh _), overlayScripts_cons _ rfl (hhigh _), List.foldlM_cons]
  · refine (bind_pure _).trans (congrArg (overlayScript high · _) (funext fun f => ?_))
    cases f <;> rfl
  · exact hdest .pipeStdoutScript
  · exact hdest .reloadScript
  · exact hdest .stopScript

/-- A `PipeStdoutScript` that is in effect when a `PipeStderrScript` is overlaid -/
def FreesPipe (dest high : ScriptField → CharPtr) : Prop :=
  (high .pipeStderrScript).Has ∧ ((high .pipeStdoutScript).Has ∨ dest .pipeStdoutScript ≠ .null)

/-- Setting `PipeStderrScript` does not free anything. -/
theorem overlayScripts_ok (hhigh : ∀ f, high f ≠ .freed) (hdest : ∀ f, dest f ≠ .freed) (hpipe : ¬ FreesPipe dest high) :
    scriptFields.foldlM (overlayScript high) dest = .ok fun f => (high f).over (dest f) := by
  rw [overlayScripts_eq hhigh hdest]
  by_cases hset : (high .pipeStderrScript).Has
  · have hnone : ¬ (high .pipeStdoutScript).Has := fun h => hpipe ⟨hset, .inl h⟩
    have hnull : dest .pipeStdoutScript = .null := by_contra fun h => hpipe ⟨hset, .inr h⟩
    have hover : (high .pipeStdoutScript).over (dest .pipeStdoutScript) = .null := by
      rw [CharPtr.over, if_neg hnone, hnull]
    rw [overlayScript_set hset (congrArg CharPtr.release hover)]
    refine congrArg Except.ok (funext fun f => ?_)
    cases f with
    | pipeStdoutScript => exact hover.symm
    | pipeStderrScript => exact (if_pos hset).symm
    | _ => rfl
  · rw [overlayScript_unset (hhigh _) hset]
    refine congrArg Except.ok (funext fun f => ?_)
    cases f with
    | pipeStderrScript => exact (if_neg hset).symm
    | _ => rfl

/-- Setting `PipeStderrScript` frees the text of a `PipeStdoutScript` that is in effect. -/
theorem overlayScripts_conflict (hhigh : ∀ f, high f ≠ .freed) (hdest : ∀ f, dest f ≠ .freed)
    (hpipe : FreesPipe dest high) :
    ∃ scripts, scriptFields.foldlM (overlayScript high) dest = .ok scripts ∧ scripts .pipeStdoutScript = .freed := by
  have hover : ∃ s, (high .pipeStdoutScript).over (dest .pipeStdoutScript) = .text s := by
    unfold CharPtr.over
    split
    next h =>
      cases hp : high .pipeStdoutScript with
      | text s => exact ⟨s, rfl⟩
      | _ => simp [hp, CharPtr.Has] at h
    next h =>
      have hset := hpipe.2.resolve_left h
      cases hp : dest .pipeStdoutScript with
      | text s => exact ⟨s, rfl⟩
      | null => exact absurd hp hset
      | freed => exact absurd hp (hdest _)
  obtain ⟨s, hs⟩ := hover
  rw [overlayScripts_eq hhigh hdest, overlayScript_set hpipe.1 (congrArg CharPtr.release hs)]
  exact ⟨_, rfl, rfl⟩

/-- A `PipeStdoutScript` that has been freed is not set again. -/
theorem overlayScript_freed {f : ScriptField} {scripts : ScriptField → CharPtr}
    (hdest : dest .pipeStdoutScript = .freed) (h : overlayScript high dest f = .ok scripts) :
    scripts .pipeStdoutScript = .freed := by
  obtain ⟨b, -, h⟩ := Wire.bind_eq_ok.mp h
  cases b with
  | false =>
    obtain rfl := Except.ok.inj h
    exact hdest
  | true =>
    obtain ⟨released, hreleased, h⟩ := Wire.bind_eq_ok.mp h
    cases f with
    | pipeStdoutScript | pipeStderrScript =>
      simp only [ScriptField.releases, hdest] at hreleased
      exact nomatch hreleased
    | _ =>
      obtain rfl := Except.ok.inj h
      exact hdest

theorem overlayScripts_freed {fs : List ScriptField} {scripts : ScriptField → CharPtr}
    (hdest : dest .pipeStdoutScript = .freed) (h : fs.foldlM (overlayScript high) dest = .ok scripts) :
    scripts .pipeStdoutScript = .freed := by
  induction fs generalizing dest with
  | nil =>
    obtain rfl := Except.ok.inj h
    exact hdest
  | cons f fs ih =>
    rw [List.foldlM_cons] at h
    obtain ⟨scripts', hstep, h⟩ := Wire.bind_eq_ok.mp h
    exact ih (overlayScript_freed hdest hstep) h

end

/-! ### Overlaying services -/

/-- Nothing of the service has been freed, and what no handler sets has not been set. -/
structure SvcDesc.Clean (d : SvcDesc) : Prop where
  longDescription : d.longDescription ≠ .freed
  scripts : ∀ f, d.scripts f ≠ .freed
  restartAllDependencies : d.restartAllDependencies = false
  restartOnPrerequisiteRestart : d.restartOnPrerequisiteRestart = false
  startupDelay : d.startupDelay = 0

/-- Nothing of the service has been freed. -/
structure SvcDesc.Live (d : SvcDesc) : Prop where
  longDescription : d.longDescription ≠ .freed
  scripts : ∀ f, d.scripts f ≠ .freed

theorem SvcDesc.Clean.live {d : SvcDesc} (h : d.Clean) : d.Live := ⟨h.longDescription, h.scripts⟩

/-- No script of the service is empty. -/
def SvcDesc.Tidy (d : SvcDesc) : Prop := ∀ f, d.scripts f = .null ∨ (d.scripts f).Has

/-- A `PipeStderrScript` that is overlaid on a `PipeStdoutScript`, or along with one -/
def PipesConflict (dest high : SvcDesc) : Prop :=
  high.Sets (.script .pipeStderrScript) ∧
    (high.Sets (.script .pipeStdoutScript) ∨ dest.Sets (.script .pipeStdoutScript))

section

variable {d dest high : SvcDesc}

theorem SvcDesc.Clean.sets_script (h : d.Clean) (f : ScriptField) : d.Sets (.script f) ↔ (d.scripts f).Has :=
  (CharPtr.has_iff_read (h.scripts f)).symm

theorem SvcDesc.Tidy.has_iff (h : d.Tidy) (f : ScriptField) : (d.scripts f).Has ↔ d.scripts f ≠ .null := by
  refine ⟨?_, (h f).resolve_left⟩
  intro hset hnull
  rw [hnull] at hset
  exact hset

theorem pipesConflict_iff (hhigh : high.Clean) (hdest : dest.Clean) (htidy : dest.Tidy) :
    PipesConflict dest high ↔ FreesPipe dest.scripts high.scripts := by
  rw [PipesConflict, hhigh.sets_script, hhigh.sets_script, hdest.sets_script, htidy.has_iff, FreesPipe]

theorem exists_eq_left_ok {α ε : Type} {a : α} {p : α → Prop} :
    (∃ b, (Except.ok a : Except ε α) = .ok b ∧ p b) ↔ p a := by
  simp

/-- What one service overlaid on another is, with the scripts that come out -/
def SvcDesc.overlaid (dest high : SvcDesc) (scripts : ScriptField → CharPtr) : SvcDesc :=
  { dest with
    name := overlayBuf high.name dest.name
    package := overlayBuf high.package dest.package
    provides := overlayAppend high.provides dest.provides
    uuid := overlay .zero high.uuid dest.uuid
    shortDescription := overlayBuf high.shortDescription dest.shortDescription
    longDescription := high.longDescription.over dest.longDescription
    prerequisites := overlayAppend high.prerequisites dest.prerequisites
    ints := fun f => overlay int32Min (high.ints f) (dest.ints f)
    flags := fun f => overlay int8Min (high.flags f) (dest.flags f)
    setUID := overlay idUnset high.setUID dest.setUID
    setGID := overlay idUnset high.setGID dest.setGID
    ringbufferSize := overlay sizeUnset high.ringbufferSize dest.ringbufferSize
    paths := fun f => overlayBuf (high.paths f) (dest.paths f)
    scripts
    customActions := overlayList high.customActions dest.customActions
    initialState := overlay .undefined high.initialState dest.initialState }

theorem upkOverlaySvcconfValues_ok (hhigh : high.longDescription ≠ .freed) {d : SvcDesc} :
    upkOverlaySvcconfValues dest high = .ok d ↔
      ∃ scripts, scriptFields.foldlM (overlayScript high.scripts) dest.scripts = .ok scripts ∧
        d = dest.overlaid high scripts := by
  rw [upkOverlaySvcconfValues, CharPtr.nonEmpty_eq hhigh]
  refine Wire.bind_eq_ok.trans ?_
  rw [exists_eq_left_ok]
  refine Wire.bind_eq_ok.trans ?_
  refine exists_congr fun scripts => and_congr_right fun _ => ?_
  simp only [Except.ok.injEq, decide_eq_true_eq, SvcDesc.overlaid, CharPtr.over]
  exact eq_comm

theorem overlay_scalar {α : Type} [DecidableEq α] {c : α → Scalar} (hc : Function.Injective c) (unset high dest : α) :
    some (c (overlay unset high dest)) = if some (c high) ≠ some (c unset) then some (c high) else some (c dest) := by
  by_cases h : high = unset
  · simp [overlay, h]
  · rw [overlay, if_pos h, if_pos fun heq => h (hc (Option.some.inj heq))]

theorem overlayBuf_scalar {n : Nat} (high dest : CharBuf n) :
    some (Scalar.text (overlayBuf high dest).toCStr) =
      if some (Scalar.text high.toCStr) ≠ some (.text .empty) then some (.text high.toCStr)
      else some (.text dest.toCStr) := by
  by_cases h : high.chars = []
  · have hempty : high.toCStr = .empty := CStr.ext h
    rw [overlayBuf, if_neg (by simp [h]), if_neg (by simp [hempty])]
  · have hne : high.toCStr ≠ .empty := fun heq => h (congrArg CStr.chars heq)
    rw [overlayBuf, if_pos (List.length_pos_iff.mpr h), if_pos (by simpa using hne)]

theorem over_read {high dest : CharPtr} (h : high ≠ .freed) :
    (high.over dest).read = if high.read ≠ CharPtr.null.read then high.read else dest.read := by
  by_cases hset : high.Has
  · rw [CharPtr.over, if_pos hset, if_pos ((CharPtr.has_iff_read h).mp hset)]
  · rw [CharPtr.over, if_neg hset, if_neg (mt (CharPtr.has_iff_read h).mpr hset)]

/-- The fields that are marked `TODO`: nothing sets them, and nothing overlays them. -/
def ScalarField.todo : List ScalarField := [.restartAllDependencies, .restartOnPrerequisiteRestart, .startupDelay]

theorem overlaid_scalar (hlong : high.longDescription ≠ .freed) (hscripts : ∀ f, high.scripts f ≠ .freed) {f : ScalarField}
    (hf : f ∉ ScalarField.todo) :
    (dest.overlaid high fun f => (high.scripts f).over (dest.scripts f)).scalar f =
      if high.Sets f then high.scalar f else dest.scalar f := by
  cases f with
  | restartAllDependencies | restartOnPrerequisiteRestart | startupDelay => exact absurd (by decide) hf
  | name => exact overlayBuf_scalar high.name dest.name
  | package => exact overlayBuf_scalar high.package dest.package
  | uuid => exact overlay_scalar (fun _ _ => Scalar.uuid.inj) .zero high.uuid dest.uuid
  | shortDescription => exact overlayBuf_scalar high.shortDescription dest.shortDescription
  | longDescription => exact over_read hlong
  | int f => exact overlay_scalar (fun _ _ => Scalar.int.inj) int32Min (high.ints f) (dest.ints f)
  | flag f => exact overlay_scalar (fun _ _ => Scalar.flag.inj) int8Min (high.flags f) (dest.flags f)
  | setUID => exact overlay_scalar (fun _ _ => Scalar.id.inj) idUnset high.setUID dest.setUID
  | setGID => exact overlay_scalar (fun _ _ => Scalar.id.inj) idUnset high.setGID dest.setGID
  | ringbufferSize =>
    exact overlay_scalar (fun _ _ => Scalar.size.inj) sizeUnset high.ringbufferSize dest.ringbufferSize
  | path f => exact overlayBuf_scalar (high.paths f) (dest.paths f)
  | script f => exact over_read (hscripts f)
  | initialState => exact overlay_scalar (fun _ _ => Scalar.state.inj) .undefined high.initialState dest.initialState

theorem overlaid_todo {scripts : ScriptField → CharPtr} {f : ScalarField} (hf : f ∈ ScalarField.todo) :
    (dest.overlaid high scripts).scalar f = dest.scalar f := by
  simp only [ScalarField.todo, List.mem_cons, List.not_mem_nil, or_false] at hf
  rcases hf with rfl | rfl | rfl <;> rfl

theorem SvcDesc.Clean.not_sets_todo (h : d.Clean) {f : ScalarField} (hf : f ∈ ScalarField.todo) : ¬ d.Sets f := by
  refine not_not.mpr ?_
  simp only [ScalarField.todo, List.mem_cons, List.not_mem_nil, or_false] at hf
  rcases hf with rfl | rfl | rfl
  · exact congrArg (some ∘ Scalar.bool) h.restartAllDependencies
  · exact congrArg (some ∘ Scalar.bool) h.restartOnPrerequisiteRestart
  · exact congrArg (some ∘ Scalar.int) h.startupDelay

theorem upkOverlaySvcconfValues_scalar (hhigh : high.Clean) (hdest : dest.Clean) (htidy : dest.Tidy)
    (hpipe : ¬ PipesConflict dest high) :
    ∃ d, upkOverlaySvcconfValues dest high = .ok d ∧ d.Clean ∧ d.Tidy ∧
      ∀ f, d.scalar f = if high.Sets f then high.scalar f else dest.scalar f := by
  rw [pipesConflict_iff hhigh hdest htidy] at hpipe
  have hscripts := overlayScripts_ok hhigh.scripts hdest.scripts hpipe
  refine ⟨_, (upkOverlaySvcconfValues_ok hhigh.longDescription).mpr ⟨_, hscripts, rfl⟩, ?_, ?_, ?_⟩
  · refine ⟨?_, ?_, hdest.restartAllDependencies, hdest.restartOnPrerequisiteRestart, hdest.startupDelay⟩
    · simp only [SvcDesc.overlaid, CharPtr.over]
      split
      · exact hhigh.longDescription
      · exact hdest.longDescription
    · intro f
      simp only [SvcDesc.overlaid, CharPtr.over]
      split
      · exact hhigh.scripts f
      · exact hdest.scripts f
  · intro f
    simp only [SvcDesc.overlaid, CharPtr.over]
    split
    next h => exact .inr h
    next => exact htidy f
  · intro f
    by_cases hf : f ∈ ScalarField.todo
    · rw [overlaid_todo hf, if_neg (hhigh.not_sets_todo hf)]
    · exact overlaid_scalar hhigh.longDescription hhigh.scripts hf

theorem upkOverlaySvcconfValues_conflict (hhigh : high.Clean) (hdest : dest.Clean) (htidy : dest.Tidy)
    (hpipe : PipesConflict dest high) :
    ∃ d, upkOverlaySvcconfValues dest high = .ok d ∧ d.scripts .pipeStdoutScript = .freed := by
  rw [pipesConflict_iff hhigh hdest htidy] at hpipe
  obtain ⟨scripts, hscripts, hfreed⟩ := overlayScripts_conflict hhigh.scripts hdest.scripts hpipe
  exact ⟨_, (upkOverlaySvcconfValues_ok hhigh.longDescription).mpr ⟨scripts, hscripts, rfl⟩, hfreed⟩

theorem upkOverlaySvcconfValues_freed (hhigh : high.longDescription ≠ .freed)
    (hdest : dest.scripts .pipeStdoutScript = .freed) (h : upkOverlaySvcconfValues dest high = .ok d) :
    d.scripts .pipeStdoutScript = .freed := by
  obtain ⟨scripts, hscripts, rfl⟩ := (upkOverlaySvcconfValues_ok hhigh).mp h
  exact overlayScripts_freed hdest hscripts

end

/-! ### What a file makes of a configuration -/

namespace SvcDesc.Clean

variable {d : SvcDesc} {passwd : CStr → Option (UInt32 × UInt32)}

theorem clear : upkSvcDescClear.Clean := by
  refine ⟨?_, fun f => ?_, rfl, rfl, rfl⟩
  · exact fun h => nomatch h
  · exact fun h => nomatch h

theorem modifySvcids (h : d.Clean) (l : SvcidField) (f : Option (List SvcId) → Option (List SvcId)) :
    (d.modifySvcids l f).Clean := by
  cases l <;> exact { h with }

theorem parseSvcId (h : d.Clean) (key : CStr) : (upkParseSvcId key d).Clean := by
  unfold upkParseSvcId
  split <;> exact { h with }

theorem boolHandler (h : d.Clean) (key : CStr) (b : Bool) : (upkSvcconfBoolHandler key b d).Clean := by
  unfold upkSvcconfBoolHandler
  split <;> exact { h with }

theorem intHandler (h : d.Clean) (key : CStr) (i : Int32) : (upkSvcconfIntHandler key i d).Clean := by
  unfold upkSvcconfIntHandler
  split <;> exact { h with }

theorem stringHandler (h : d.Clean) {key s : CStr} {f : SvcDesc → SvcDesc}
    (hf : upkSvcconfStringHandler passwd key s = .ok f) : (f d).Clean := by
  unfold upkSvcconfStringHandler at hf
  cases hkey : matchKey svcStringKeys key with
  | none =>
    rw [hkey] at hf
    obtain rfl := Except.ok.inj hf
    exact h
  | some k =>
    rw [hkey] at hf
    cases k with
    | longDescription =>
      by_cases hlen : s.chars.length ≤ longDescriptionMax
      · simp only [if_pos hlen] at hf
        obtain rfl := Except.ok.inj hf
        exact { h with longDescription := fun h => nomatch h }
      · simp only [if_neg hlen] at hf
        exact nomatch hf
    | script f' =>
      obtain rfl := Except.ok.inj hf
      refine { h with scripts := fun f => ?_ }
      by_cases heq : f = f'
      · subst heq
        simp
      · simpa [Function.update_of_ne heq] using h.scripts f
    | _ =>
      obtain rfl := Except.ok.inj hf
      exact { h with }

theorem applyServiceEntry (h : d.Clean) (e : CStr × Json) : (applyServiceEntry passwd d e).Clean :=
  applyServiceEntry_keeps (fun key b _ hd => hd.boolHandler key b) (fun key i _ hd => hd.intHandler key i)
    (fun _ _ _ _ hf hd => hd.stringHandler hf) (fun l f _ hd => hd.modifySvcids l f) (fun _ _ hd => { hd with }) h e

theorem applyCtrlEntry {cfg : ControllerConfig} (h : cfg.serviceDefaults.Clean) (e : CStr × Json) :
    (applyCtrlEntry passwd cfg e).serviceDefaults.Clean := by
  obtain ⟨key, v⟩ := e
  cases v with
  | null | bool | array => exact h
  | double dbl =>
    simp only [Upkeeper.applyCtrlEntry, upkCtrlconfDoubleHandler]
    split <;> exact h
  | int i =>
    simp only [Upkeeper.applyCtrlEntry, upkCtrlconfIntHandler]
    split <;> exact h
  | string s =>
    simp only [Upkeeper.applyCtrlEntry, upkCtrlconfStringHandler]
    split <;> exact h
  | object es =>
    simp only [Upkeeper.applyCtrlEntry]
    split
    · exact List.foldlRecOn es _ (h.parseSvcId key) fun d hd e _ => hd.applyServiceEntry e
    · exact h

theorem upkCtrlconfPack {cfg cfg' : ControllerConfig} {doc : Option Json} (hcfg : cfg.serviceDefaults.Clean)
    (h : upkCtrlconfPack passwd cfg doc = .ok cfg') : cfg'.serviceDefaults.Clean := by
  cases doc with
  | none =>
    obtain rfl := Except.ok.inj h
    exact hcfg
  | some doc =>
    rw [upkCtrlconfPack_eq (kept_of_upkCtrlconfPack h)] at h
    obtain rfl := Except.ok.inj h
    cases doc with
    | object es =>
      exact List.foldlRecOn (motive := fun cfg : ControllerConfig => cfg.serviceDefaults.Clean) es _ hcfg
        fun cfg hcfg e _ => applyCtrlEntry hcfg e
    | _ => exact hcfg

end SvcDesc.Clean

theorem setsBuddyVerbosity_of_not {passwd : CStr → Option (UInt32 × UInt32)} {doc : Json}
    (h : setsBuddyVerbosity doc = false) (cfg : ControllerConfig) :
    (applyCtrlconf passwd cfg doc).buddyVerbosity = cfg.buddyVerbosity := by
  cases doc with
  | object es =>
    refine List.foldlRecOn (motive := fun c : ControllerConfig => c.buddyVerbosity = cfg.buddyVerbosity) es _ rfl
      fun c hc e he => ?_
    have hnot := List.any_eq_false.mp h e he
    obtain ⟨key, v⟩ := e
    refine Eq.trans ?_ hc
    cases v with
    | null | bool | array => rfl
    | double dbl =>
      simp only [applyCtrlEntry, upkCtrlconfDoubleHandler]
      split <;> rfl
    | int i =>
      simp only [applyCtrlEntry, upkCtrlconfIntHandler]
      split
      next hkey => simp [hkey] at hnot
      all_goals rfl
    | string s =>
      simp only [applyCtrlEntry, upkCtrlconfStringHandler]
      split <;> rfl
    | object es =>
      simp only [applyCtrlEntry]
      split <;> rfl
  | _ => rfl

/-! ### When the file has precedence -/

/-- The services' defaults of the configuration are overlaid. -/
def ControllerConfig.Named (cfg : ControllerConfig) : Prop := cfg.serviceDefaults.name.chars ≠ []

instance decidableNamed (cfg : ControllerConfig) : Decidable cfg.Named := inferInstanceAs (Decidable (_ ≠ _))

/-- The configurations for which the file has precedence -/
structure Compatible (default file : ControllerConfig) (verbose : Bool) : Prop where
  /-- `BuddyVerbosity` is not overlaid. -/
  buddyVerbosity : (if verbose then file.buddyVerbosity else default.buddyVerbosity) = 0
  /-- The sentinel itself is not a value of `BuddyPollingInterval`. -/
  buddyPollingInterval : ¬ (file.buddyPollingInterval = dblMin ∧ default.buddyPollingInterval = dblMin)
  /-- Without a name in the file, the services' defaults that it sets are those that are built in. -/
  fileNamed : ¬ file.Named → ∀ f, file.serviceDefaults.Sets f →
    default.Named ∧ file.serviceDefaults.scalar f = default.serviceDefaults.scalar f
  /-- Without a name in the built-in configuration, the file sets all services' defaults that it sets. -/
  defaultNamed : ¬ default.Named → ∀ f, default.serviceDefaults.Sets f → file.serviceDefaults.Sets f
  /-- No `PipeStderrScript` is overlaid on a `PipeStdoutScript` of the built-in configuration. -/
  defaultPipes : default.Named → ¬ PipesConflict upkSvcDescClear default.serviceDefaults
  /-- No `PipeStderrScript` of the file is overlaid on a `PipeStdoutScript`. -/
  filePipes : file.Named → ¬ (file.serviceDefaults.Sets (.script .pipeStderrScript) ∧
    (file.serviceDefaults.Sets (.script .pipeStdoutScript) ∨
      default.Named ∧ default.serviceDefaults.Sets (.script .pipeStdoutScript)))

/-- The services' defaults of one configuration overlaid on others -/
def overlayNamed (dest : SvcDesc) (high : ControllerConfig) : Except Stop SvcDesc :=
  if high.Named then upkOverlaySvcconfValues dest high.serviceDefaults else .ok dest

theorem upkOverlayCtrlconfValues_eq (dest high : ControllerConfig) :
    upkOverlayCtrlconfValues dest high = overlayNamed dest.serviceDefaults high >>= fun serviceDefaults =>
      .ok { dest with
        dirs := fun f => overlayBuf (high.dirs f) (dest.dirs f)
        buddyPollingInterval := overlay dblMin high.buddyPollingInterval dest.buddyPollingInterval
        controllerSocket := overlayBuf high.controllerSocket dest.controllerSocket
        controllerBuddySock := overlayBuf high.controllerBuddySock dest.controllerBuddySock
        serviceDefaults
        svclist := overlayList high.svclist dest.svclist } := by
  have hnamed : high.serviceDefaults.name.chars.length > 0 ↔ high.Named := List.length_pos_iff
  by_cases h : high.Named
  · simp only [upkOverlayCtrlconfValues, overlayNamed, if_pos (hnamed.mpr h), if_pos h]
  · simp only [upkOverlayCtrlconfValues, overlayNamed, if_neg (mt hnamed.mp h), if_neg h]

section

variable {default file : ControllerConfig} {dest d : SvcDesc}

theorem overlayNamed_scalar {high : ControllerConfig} (hhigh : high.serviceDefaults.Clean) (hdest : dest.Clean)
    (htidy : dest.Tidy) (hpipe : high.Named → ¬ PipesConflict dest high.serviceDefaults) :
    ∃ d, overlayNamed dest high = .ok d ∧ d.Clean ∧ d.Tidy ∧ ∀ f, d.scalar f =
      if high.Named ∧ high.serviceDefaults.Sets f then high.serviceDefaults.scalar f else dest.scalar f := by
  by_cases hnamed : high.Named
  · obtain ⟨d, hd, hclean, hd_tidy, hscalar⟩ := upkOverlaySvcconfValues_scalar hhigh hdest htidy (hpipe hnamed)
    refine ⟨d, (if_pos hnamed).trans hd, hclean, hd_tidy, ?_⟩
    simpa only [hnamed, true_and] using hscalar
  · refine ⟨dest, if_neg hnamed, hdest, htidy, ?_⟩
    simp only [hnamed, false_and, if_false, implies_true]

theorem overlayNamed_conflict {high : ControllerConfig} (hhigh : high.serviceDefaults.Clean) (hdest : dest.Clean)
    (htidy : dest.Tidy) (hpipe : ¬ (high.Named → ¬ PipesConflict dest high.serviceDefaults))
    (h : overlayNamed dest high = .ok d) : d.scripts .pipeStdoutScript = .freed := by
  push Not at hpipe
  obtain ⟨d', hd', hfreed⟩ := upkOverlaySvcconfValues_conflict hhigh hdest htidy hpipe.2
  rw [overlayNamed, if_pos hpipe.1] at h
  obtain rfl := Except.ok.inj (hd'.symm.trans h)
  exact hfreed

theorem overlayNamed_freed {high : ControllerConfig} (hhigh : high.serviceDefaults.Clean)
    (hdest : dest.scripts .pipeStdoutScript = .freed) (h : overlayNamed dest high = .ok d) :
    d.scripts .pipeStdoutScript = .freed := by
  by_cases hnamed : high.Named
  · rw [overlayNamed, if_pos hnamed] at h
    exact upkOverlaySvcconfValues_freed hhigh.longDescription hdest h
  · rw [overlayNamed, if_neg hnamed] at h
    obtain rfl := Except.ok.inj h
    exact hdest

theorem SvcDesc.Live.scalar_ne_none (h : d.Live) (f : ScalarField) : d.scalar f ≠ none := by
  have hread : ∀ {p : CharPtr}, p ≠ .freed → p.read ≠ none := by
    intro p hp
    cases p with
    | freed => exact absurd rfl hp
    | _ => exact Option.some_ne_none _
  cases f with
  | longDescription => exact hread h.longDescription
  | script f => exact hread (h.scripts f)
  | _ => exact Option.some_ne_none _

/-- What the services' defaults are to be -/
def expectedScalar (default file : ControllerConfig) (f : ScalarField) : Option Scalar :=
  if file.serviceDefaults.Sets f then file.serviceDefaults.scalar f else default.serviceDefaults.scalar f

theorem not_expected_of_freed (hdefault : default.serviceDefaults.Clean) (hfile : file.serviceDefaults.Clean)
    (hfreed : d.scripts .pipeStdoutScript = .freed) : ¬ ∀ f, d.scalar f = expectedScalar default file f := by
  intro h
  have hnone : d.scalar (.script .pipeStdoutScript) = none := by rw [SvcDesc.scalar, hfreed, CharPtr.read]
  rw [h, expectedScalar] at hnone
  split at hnone
  · exact hfile.live.scalar_ne_none _ hnone
  · exact hdefault.live.scalar_ne_none _ hnone

theorem overlayNamed_expected
    (hscalar : ∀ f, d.scalar f = if file.Named ∧ file.serviceDefaults.Sets f then file.serviceDefaults.scalar f
      else if default.Named ∧ default.serviceDefaults.Sets f then default.serviceDefaults.scalar f
      else upkSvcDescClear.scalar f) :
    (∀ f, d.scalar f = expectedScalar default file f) ↔
      (¬ file.Named → ∀ f, file.serviceDefaults.Sets f →
        default.Named ∧ file.serviceDefaults.scalar f = default.serviceDefaults.scalar f) ∧
      (¬ default.Named → ∀ f, default.serviceDefaults.Sets f → file.serviceDefaults.Sets f) := by
  have hunset : ∀ {c : SvcDesc} {f}, ¬ c.Sets f → c.scalar f = upkSvcDescClear.scalar f := fun h => not_not.mp h
  constructor
  · intro h
    constructor
    · intro hnamed f hsets
      have hvalue := (hscalar f).symm.trans (h f)
      simp only [hnamed, false_and, if_false, expectedScalar, hsets, if_true] at hvalue
      split at hvalue
      next hboth => exact ⟨hboth.1, hvalue.symm⟩
      next => exact absurd hvalue.symm hsets
    · intro hnamed f hsets
      by_contra hfile
      have hvalue := (hscalar f).symm.trans (h f)
      simp only [hfile, and_false, if_false, hnamed, false_and, expectedScalar] at hvalue
      exact hsets hvalue.symm
  · intro ⟨hfileNamed, hdefaultNamed⟩ f
    rw [hscalar, expectedScalar]
    by_cases hsets : file.serviceDefaults.Sets f
    · by_cases hnamed : file.Named
      · simp only [hnamed, hsets, and_self, if_true]
      · obtain ⟨hdefaultNamed, heq⟩ := hfileNamed hnamed f hsets
        have hdefaultSets : default.serviceDefaults.Sets f := fun hclear => hsets (heq.trans hclear)
        simp only [hnamed, false_and, if_false, hdefaultNamed, hdefaultSets, and_self, if_true, hsets, heq]
    · simp only [hsets, and_false, if_false]
      by_cases hdefaultSets : default.serviceDefaults.Sets f
      · have hnamed : default.Named := by
          by_contra hnamed
          exact hsets (hdefaultNamed hnamed f hdefaultSets)
        simp only [hnamed, hdefaultSets, and_self, if_true]
      · simp only [hdefaultSets, and_false, if_false, hunset hdefaultSets]

theorem overlayNamed_iff (hdefault : default.serviceDefaults.Clean) (hfile : file.serviceDefaults.Clean) :
    (∃ d₁, overlayNamed upkSvcDescClear default = .ok d₁ ∧ ∃ d₂, overlayNamed d₁ file = .ok d₂ ∧
        ∀ f, d₂.scalar f = expectedScalar default file f) ↔
      ((¬ file.Named → ∀ f, file.serviceDefaults.Sets f →
        default.Named ∧ file.serviceDefaults.scalar f = default.serviceDefaults.scalar f) ∧
      (¬ default.Named → ∀ f, default.serviceDefaults.Sets f → file.serviceDefaults.Sets f)) ∧
      (default.Named → ¬ PipesConflict upkSvcDescClear default.serviceDefaults) ∧
      (file.Named → ¬ (file.serviceDefaults.Sets (.script .pipeStderrScript) ∧
        (file.serviceDefaults.Sets (.script .pipeStdoutScript) ∨
          default.Named ∧ default.serviceDefaults.Sets (.script .pipeStdoutScript)))) := by
  have htidy : upkSvcDescClear.Tidy := fun f => .inl rfl
  by_cases hdefaultPipes : default.Named → ¬ PipesConflict upkSvcDescClear default.serviceDefaults
  · obtain ⟨d₁, hd₁, hclean₁, htidy₁, hscalar₁⟩ :=
      overlayNamed_scalar hdefault SvcDesc.Clean.clear htidy hdefaultPipes
    have hsets₁ : d₁.Sets (.script .pipeStdoutScript) ↔
        default.Named ∧ default.serviceDefaults.Sets (.script .pipeStdoutScript) := by
      rw [SvcDesc.Sets, hscalar₁]
      split
      next h => exact iff_of_true h.2 h
      next h => exact iff_of_false (fun hne => hne rfl) h
    rw [← hsets₁]
    by_cases hfilePipes : file.Named → ¬ PipesConflict d₁ file.serviceDefaults
    · obtain ⟨d₂, hd₂, -, -, hscalar₂⟩ := overlayNamed_scalar hfile hclean₁ htidy₁ hfilePipes
      have hexpected := overlayNamed_expected (d := d₂) fun f => by rw [hscalar₂, hscalar₁]
      rw [← hexpected]
      constructor
      · rintro ⟨d₁', hd₁', d₂', hd₂', h⟩
        obtain rfl := Except.ok.inj (hd₁.symm.trans hd₁')
        obtain rfl := Except.ok.inj (hd₂.symm.trans hd₂')
        exact ⟨h, hdefaultPipes, hfilePipes⟩
      · intro h
        exact ⟨d₁, hd₁, d₂, hd₂, h.1⟩
    · refine iff_of_false ?_ fun h => hfilePipes h.2.2
      rintro ⟨d₁', hd₁', d₂, hd₂, h⟩
      obtain rfl := Except.ok.inj (hd₁.symm.trans hd₁')
      exact not_expected_of_freed hdefault hfile (overlayNamed_conflict hfile hclean₁ htidy₁ hfilePipes hd₂) h
  · refine iff_of_false ?_ fun h => hdefaultPipes h.2.1
    rintro ⟨d₁, hd₁, d₂, hd₂, h⟩
    have hfreed := overlayNamed_conflict hdefault SvcDesc.Clean.clear htidy hdefaultPipes hd₁
    exact not_expected_of_freed hdefault hfile (overlayNamed_freed hfile hfreed hd₂) h

end

section

variable {passwd : CStr → Option (UInt32 × UInt32)} {builtIn : Option Json} {contents : Option (Option Json)}
  {default file : ControllerConfig}

theorem loadedFile (hfile : upkCtrlconfPack passwd unsetConfiguration contents.join = .ok file) :
    ∃ file', loadFileConfiguration passwd contents = .ok file' ∧
      (∀ d, overlayNamed d file' = overlayNamed d file) ∧ file'.dirs = file.dirs ∧
      file'.buddyPollingInterval = file.buddyPollingInterval := by
  cases contents with
  | none =>
    obtain rfl := Except.ok.inj hfile
    refine ⟨_, rfl, fun d => ?_, rfl, rfl⟩
    rw [overlayNamed, if_neg fun h => h rfl, overlayNamed, if_neg fun h => h rfl]
  | some doc => exact ⟨file, hfile, fun _ => rfl, rfl, rfl⟩

theorem upkCtrlLoadConfig_iff (hdefault : upkCtrlconfPack passwd clearedConfiguration builtIn = .ok default)
    (hfile : upkCtrlconfPack passwd unsetConfiguration contents.join = .ok file)
    (p : (DirField → CharBuf upkMaxPathLen) → UInt32 → Double → SvcDesc → Prop) :
    (∃ loaded, upkCtrlLoadConfig passwd builtIn contents = .ok loaded ∧
        p loaded.runtime.dirs loaded.runtime.buddyVerbosity loaded.runtime.buddyPollingInterval
          loaded.runtime.serviceDefaults) ↔
      ∃ d₁, overlayNamed upkSvcDescClear default = .ok d₁ ∧ ∃ d₂, overlayNamed d₁ file = .ok d₂ ∧
        p (fun f => overlayBuf (file.dirs f) (overlayBuf (default.dirs f) .zero)) 0
          (overlay dblMin file.buddyPollingInterval (overlay dblMin default.buddyPollingInterval ⟨0⟩)) d₂ := by
  obtain ⟨file', hfile', hnamed, hdirs, hinterval⟩ := loadedFile hfile
  rw [← hdirs, ← hinterval]
  constructor
  · rintro ⟨loaded, hload, hp⟩
    obtain ⟨default', hdefault', hload⟩ := Wire.bind_eq_ok.mp hload
    obtain rfl := Except.ok.inj (hdefault.symm.trans hdefault')
    obtain ⟨file'', hfile'', hload⟩ := Wire.bind_eq_ok.mp hload
    obtain rfl := Except.ok.inj (hfile'.symm.trans hfile'')
    obtain ⟨runtime₁, hruntime₁, hload⟩ := Wire.bind_eq_ok.mp hload
    obtain ⟨runtime₂, hruntime₂, hload⟩ := Wire.bind_eq_ok.mp hload
    obtain rfl := Except.ok.inj hload
    rw [upkOverlayCtrlconfValues_eq] at hruntime₁ hruntime₂
    obtain ⟨d₁, hd₁, hruntime₁⟩ := Wire.bind_eq_ok.mp hruntime₁
    obtain rfl := Except.ok.inj hruntime₁
    obtain ⟨d₂, hd₂, hruntime₂⟩ := Wire.bind_eq_ok.mp hruntime₂
    obtain rfl := Except.ok.inj hruntime₂
    exact ⟨d₁, hd₁, d₂, (hnamed d₁).symm.trans hd₂, hp⟩
  · rintro ⟨d₁, hd₁, d₂, hd₂, hp⟩
    let default' : ControllerConfig := { default with
      controllerSocket := socketPath (default.dirs .stateDir) "/.controler.sock"
      controllerBuddySock := socketPath (default.dirs .stateDir) "/.buddy.sock" }
    have hdefault' : ∃ runtime, upkOverlayCtrlconfValues clearedConfiguration default' = .ok runtime ∧
        runtime.serviceDefaults = d₁ ∧ runtime.buddyVerbosity = 0 ∧
        runtime.dirs = (fun f => overlayBuf (default.dirs f) .zero) ∧
        runtime.buddyPollingInterval = overlay dblMin default.buddyPollingInterval ⟨0⟩ := by
      rw [upkOverlayCtrlconfValues_eq, show overlayNamed clearedConfiguration.serviceDefaults default' = _ from hd₁]
      exact ⟨_, rfl, rfl, rfl, rfl, rfl⟩
    obtain ⟨runtime₁, hruntime₁, rfl, hverbosity, hdirs₁, hinterval₁⟩ := hdefault'
    have hruntime₂ := upkOverlayCtrlconfValues_eq runtime₁ file'
    rw [(hnamed _).trans hd₂] at hruntime₂
    refine ⟨_, Wire.bind_eq_ok.mpr ⟨default, hdefault, Wire.bind_eq_ok.mpr ⟨file', hfile', Wire.bind_eq_ok.mpr
      ⟨runtime₁, hruntime₁, Wire.bind_eq_ok.mpr ⟨_, hruntime₂, rfl⟩⟩⟩⟩, ?_⟩
    simp only [hverbosity, hdirs₁, hinterval₁]
    exact hp

theorem overlayBuf_eq {n : Nat} (high dest : CharBuf n) :
    overlayBuf high dest = if high.chars ≠ [] then high else dest := by
  rw [overlayBuf]
  simp only [gt_iff_lt, List.length_pos_iff]

/-- **The file has precedence** over what is built in, exactly when the two configurations are compatible. -/
theorem precedence_iff (passwd : CStr → Option (UInt32 × UInt32)) (builtIn : Option Json)
    (contents : Option (Option Json)) (default file : ControllerConfig)
    (hdefault : upkCtrlconfPack passwd clearedConfiguration builtIn = .ok default)
    (hfile : upkCtrlconfPack passwd unsetConfiguration contents.join = .ok file) :
    (∃ loaded, upkCtrlLoadConfig passwd builtIn contents = .ok loaded ∧
        Precedence default file (contents.join.any setsBuddyVerbosity) loaded.runtime) ↔
      Compatible default file (contents.join.any setsBuddyVerbosity) := by
  generalize contents.join.any setsBuddyVerbosity = verbose
  have hdefaultClean := SvcDesc.Clean.upkCtrlconfPack SvcDesc.Clean.clear hdefault
  have hfileClean := SvcDesc.Clean.upkCtrlconfPack SvcDesc.Clean.clear hfile
  have hloaded := upkCtrlLoadConfig_iff hdefault hfile fun dirs buddyVerbosity buddyPollingInterval serviceDefaults =>
    Precedence default file verbose
      { ControllerConfig.zero with dirs, buddyVerbosity, buddyPollingInterval, serviceDefaults }
  have hservices := overlayNamed_iff hdefaultClean hfileClean
  have hinterval : overlay dblMin file.buddyPollingInterval (overlay dblMin default.buddyPollingInterval ⟨0⟩) =
      (if file.buddyPollingInterval ≠ dblMin then file.buddyPollingInterval else default.buddyPollingInterval) ↔
      ¬ (file.buddyPollingInterval = dblMin ∧ default.buddyPollingInterval = dblMin) := by
    by_cases hf : file.buddyPollingInterval = dblMin
    · by_cases hd : default.buddyPollingInterval = dblMin
      · simp [overlay, hf, hd, dblMin]
      · simp [overlay, hf, hd]
    · simp [overlay, hf]
  constructor
  · rintro ⟨loaded, hload, hp⟩
    obtain ⟨d₁, hd₁, d₂, hd₂, hp⟩ := hloaded.mp ⟨loaded, hload, ⟨hp.1, hp.2, hp.3, hp.4⟩⟩
    obtain ⟨⟨hfileNamed, hdefaultNamed⟩, hdefaultPipes, hfilePipes⟩ :=
      hservices.mp ⟨d₁, hd₁, d₂, hd₂, hp.serviceDefaults⟩
    exact ⟨hp.buddyVerbosity.symm, hinterval.mp hp.buddyPollingInterval, hfileNamed, hdefaultNamed, hdefaultPipes,
      hfilePipes⟩
  · intro h
    obtain ⟨d₁, hd₁, d₂, hd₂, hscalar⟩ :=
      hservices.mpr ⟨⟨h.fileNamed, h.defaultNamed⟩, h.defaultPipes, h.filePipes⟩
    refine (hloaded.mpr ⟨d₁, hd₁, d₂, hd₂, ⟨fun f => ?_, h.buddyVerbosity.symm, hinterval.mpr h.buddyPollingInterval,
      hscalar⟩⟩).imp fun loaded hl => ⟨hl.1, ⟨hl.2.1, hl.2.2, hl.2.3, hl.2.4⟩⟩
    show overlayBuf (file.dirs f) (overlayBuf (default.dirs f) .zero) = _
    rw [overlayBuf_eq, overlayBuf_eq]
    by_cases hdir : (default.dirs f).chars = []
    · rw [if_neg (not_not.mpr hdir), show default.dirs f = .zero from CharBuf.ext hdir]
    · rw [if_pos hdir]

/-- A `KillTimeout` that is built in, and one in the file -/
theorem precedence_iff_killTimeout :
    let doc (i : Int32) : Json := .object [(cstr "ServiceDefaults", .object [(cstr "KillTimeout", .int i)])]
    let default := applyCtrlconf (fun _ => none) clearedConfiguration (doc 60)
    let file := applyCtrlconf (fun _ => none) unsetConfiguration (doc 10)
    (∃ loaded, upkCtrlLoadConfig (fun _ => none) (some (doc 60)) (some (some (doc 10))) = .ok loaded ∧
        Precedence default file false loaded.runtime) ↔ Compatible default file false :=
  precedence_iff (fun _ => none) _ (some (some _)) _ _ (upkCtrlconfPack_eq rfl _) (upkCtrlconfPack_eq rfl _)

/-- A `BuddyVerbosity` that is built in does not reach the runtime configuration. -/
theorem not_precedence_buddyVerbosity :
    ¬ ∀ passwd builtIn contents default file, upkCtrlconfPack passwd clearedConfiguration builtIn = .ok default →
      upkCtrlconfPack passwd unsetConfiguration contents.join = .ok file →
      ∃ loaded, upkCtrlLoadConfig passwd builtIn contents = .ok loaded ∧
        Precedence default file (contents.join.any setsBuddyVerbosity) loaded.runtime := by
  intro h
  obtain ⟨loaded, hload, hp⟩ := h (fun _ => none) (some (.object [(cstr "BuddyVerbosity", .int 1)])) none
    (applyCtrlconf (fun _ => none) clearedConfiguration (.object [(cstr "BuddyVerbosity", .int 1)])) unsetConfiguration
    (upkCtrlconfPack_eq rfl _) rfl
  have hzero : (upkCtrlLoadConfig (fun _ => none) (some (.object [(cstr "BuddyVerbosity", .int 1)])) none).map
      (·.runtime.buddyVerbosity) = .ok 0 := rfl
  rw [hload] at hzero
  have hone : loaded.runtime.buddyVerbosity = 1 := hp.buddyVerbosity.trans rfl
  have hruntime : loaded.runtime.buddyVerbosity = 0 := Except.ok.inj hzero
  exact absurd (hone.symm.trans hruntime) (by decide)

end

end Upkeeper
