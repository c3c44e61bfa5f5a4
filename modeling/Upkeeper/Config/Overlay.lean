import Upkeeper.Config.Json
/-!
# Overlaying one configuration on another (`upk_config.c`)

A setting of the upper configuration that is not the sentinel of its field replaces that of the lower one.
-/

namespace Upkeeper

/-! ### Scripts -/

namespace CharPtr

/-- `p && strlen(p) > 0` -/
def nonEmpty : CharPtr → Except Stop Bool
  | .null => .ok false
  | .text s => .ok (decide (s.chars.length > 0))
  | .freed => .error (.fault .useAfterFree)

/-- What `p` is after `if(p) free(p)` -/
def release : CharPtr → Except Stop CharPtr
  | .null => .ok .null
  | .text _ => .ok .freed
  | .freed => .error (.fault .useAfterFree)

end CharPtr

/-- The script that is freed before the script `f` is set -/
def ScriptField.releases : ScriptField → ScriptField
  | .startScript => .startScript
  | .stopScript => .stopScript
  | .reloadScript => .reloadScript
  | .pipeStdoutScript => .pipeStdoutScript
  | .pipeStderrScript => .pipeStdoutScript

/-- The block of one script, in `upk_overlay_svcconf_values` -/
def overlayScript (high : ScriptField → CharPtr) (dest : ScriptField → CharPtr) (f : ScriptField) :
    Except Stop (ScriptField → CharPtr) := do
  if ← (high f).nonEmpty then
    let released ← (dest f.releases).release
    .ok (Function.update (Function.update dest f.releases released) f (high f))
  else .ok dest

/-- The scripts, in the order in which they are overlaid -/
def scriptFields : List ScriptField :=
  [.startScript, .stopScript, .reloadScript, .pipeStdoutScript, .pipeStderrScript]

/-! ### Services -/

/-- `if(high->x != unset) dest->x = high->x` -/
def overlay {α : Type} [DecidableEq α] (unset high dest : α) : α := if high ≠ unset then high else dest

/-- `if(strlen(high->x) > 0)`, `memset` and `strncpy` of all of it -/
def overlayBuf {n : Nat} (high dest : CharBuf n) : CharBuf n := if high.chars.length > 0 then high else dest

/-- The entries of a list are added to another. -/
def overlayAppend {α : Type} (high dest : Option (List α)) : Option (List α) :=
  if (high.getD []).length > 0 then some (dest.getD [] ++ high.getD []) else dest

/-- A list takes the place of another. -/
def overlayList {α : Type} (high dest : Option (List α)) : Option (List α) :=
  if (high.getD []).length > 0 then high else dest

/-- `upk_overlay_svcconf_values` -/
def upkOverlaySvcconfValues (dest high : SvcDesc) : Except Stop SvcDesc := do
  let longDescription := if ← high.longDescription.nonEmpty then high.longDescription else dest.longDescription
  let scripts ← scriptFields.foldlM (overlayScript high.scripts) dest.scripts
  .ok { dest with
    name := overlayBuf high.name dest.name
    package := overlayBuf high.package dest.package
    provides := overlayAppend high.provides dest.provides
    uuid := overlay .zero high.uuid dest.uuid
    shortDescription := overlayBuf high.shortDescription dest.shortDescription
    longDescription
    prerequisites := overlayAppend high.prerequisites dest.prerequisites
    ints := fun f => overlay int32Min (high.ints f) (dest.ints f)
    flags := fun f => overlay int8Min (high.flags f) (dest.flags f)
    setUID := overlay idUnset high.setUID dest.setUID
    setGID := overlay idUnset high.setGID dest.setGID
    ringbufferSize := overlay sizeUnset high.ringbufferSize dest.ringbufferSize
    paths := fun f => overlayBuf (high.paths f) (dest.paths f)
    scripts
    customActions := overlayList high.customActions dest.customActions
    initialState := overlay .undefined high.initialState dest.initialState }

/-- `upk_overlay_ctrlconf_values` -/
def upkOverlayCtrlconfValues (dest high : ControllerConfig) : Except Stop ControllerConfig := do
  let serviceDefaults ←
    if high.serviceDefaults.name.chars.length > 0 then
      upkOverlaySvcconfValues dest.serviceDefaults high.serviceDefaults
    else .ok dest.serviceDefaults
  .ok { dest with
    dirs := fun f => overlayBuf (high.dirs f) (dest.dirs f)
    buddyPollingInterval := overlay dblMin high.buddyPollingInterval dest.buddyPollingInterval
    controllerSocket := overlayBuf high.controllerSocket dest.controllerSocket
    controllerBuddySock := overlayBuf high.controllerBuddySock dest.controllerBuddySock
    serviceDefaults
    svclist := overlayList high.svclist dest.svclist }

end Upkeeper
