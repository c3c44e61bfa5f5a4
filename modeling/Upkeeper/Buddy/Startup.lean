import Upkeeper.Config.Uuid
import Upkeeper.Library.Getopt
import Upkeeper.Library.Path
import Upkeeper.Util.Values
/-!
# The start of buddy (`buddy_main.c`: `opt_parse`; `buddy.c`: `buddy_init_paths`, `buddy_path`, `buddy_init_socket`)

Buddy takes its root path and its UUID from options, and the name of its service from the first operand. Its paths are
the root path, the name and a suffix. What is printed is left out.
-/

namespace Upkeeper

open Getopt (LongOption Event)

/-! ### Numbers -/

/-- `numeric_string` -/
def numericString (string : CStr) : Option Int64 := do
  let base := if strncmpEq 1 string.chars (cstr "0").chars then 8 else 10
  let base := if strncmpEq 2 string.chars (cstr "0x").chars then 16 else base
  let (n, erange) ← strtoul base string.chars
  let num := n.toInt64
  if erange ∧ (num = Int64.maxValue ∨ num = Int64.minValue) ∨ num ≤ 0 then none else some num

theorem numericString_eq (string : CStr) :
    numericString string = if (upkNumericString string).1 then some (upkNumericString string).2 else none := by
  cases hread : strtoul (numericBase string) string.chars with
  | none =>
    simp only [numericString, upkNumericString, ← numericBase.eq_1, hread]
    rfl
  | some read =>
    simp only [numericString, upkNumericString, ← numericBase.eq_1, hread, Option.bind_eq_bind, Option.bind_some]
    split_ifs <;> simp_all

/-! ### Options -/

/-- The variables that the options set -/
structure BuddyOptions where
  buddyUuid : Uuid
  buddyServiceName : Option CStr
  buddyRootPath : CharBuf upkMaxPathLen
  buddySetuid : UInt32
  buddySetgid : UInt32
  ringbufferSize : UInt64
  reconnectRetries : Int64
  initializeSupplementalGroups : Bool
  clearSupplementalGroups : Bool
  runawayRatelimit : UInt32
  userRatelimit : UInt32
  userMaxRestarts : UInt32
  userRestartWindow : UInt32
  killTimeout : Int32
  upkDiagVerbosity : Int32

/-- What `main` starts from -/
def BuddyOptions.initial : BuddyOptions where
  buddyUuid := .zero
  buddyServiceName := none
  buddyRootPath := strncpyPath .empty
  buddySetuid := 0
  buddySetgid := 0
  ringbufferSize := 32
  reconnectRetries := 5
  initializeSupplementalGroups := false
  clearSupplementalGroups := false
  runawayRatelimit := 300
  userRatelimit := 0
  userMaxRestarts := 10
  userRestartWindow := 5
  killTimeout := -1
  upkDiagVerbosity := 5

/-- `long_options` -/
def longOptions : List LongOption :=
  [⟨cstr "quiet", false, 113⟩,
   ⟨cstr "verbose", false, 118⟩,
   ⟨cstr "version", false, 86⟩,
   ⟨cstr "help", false, 104⟩,
   ⟨cstr "ringbuffer_size", true, 82⟩,
   ⟨cstr "rb_size", true, 82⟩,
   ⟨cstr "retries", true, 114⟩,
   ⟨cstr "setuid", true, 117⟩,
   ⟨cstr "setgid", true, 103⟩,
   ⟨cstr "respawn_ratelimit", true, 108⟩,
   ⟨cstr "restart_window", true, 119⟩,
   ⟨cstr "max_restarts", true, 77⟩,
   ⟨cstr "runaway_ratelimit", true, 76⟩,
   ⟨cstr "buddy_path", true, 0⟩,
   ⟨cstr "buddy_uuid", true, 0⟩,
   ⟨cstr "kill_timeout", true, 107⟩,
   ⟨cstr "initialize_supplemental_groups", false, 105⟩,
   ⟨cstr "init_sup_groups", false, 105⟩,
   ⟨cstr "isg", false, 105⟩,
   ⟨cstr "clear_supplemental_groups", false, 99⟩,
   ⟨cstr "clear_sup_groups", false, 99⟩,
   ⟨cstr "csg", false, 99⟩]

/-- The variables of `opt_parse` that outlive an option -/
structure OptState where
  options : BuddyOptions
  optionIndex : Nat
  valid : Bool

/-- An option with a number. A number that is read makes the command line valid, whatever came before it. -/
def numericOption (set : Int64 → BuddyOptions → BuddyOptions) (optarg : CStr) (s : OptState) : OptState :=
  match numericString optarg with
  | none => { s with valid := false }
  | some num => { s with options := set num s.options, valid := true }

/-- An option of value 0 -/
def namedOption (optarg : CStr) (s : OptState) : OptState :=
  let name := ((longOptions[s.optionIndex]?).map LongOption.name).getD .empty
  if strncmpEq 10 (cstr "buddy_path").chars name.chars then
    { s with options := { s.options with buddyRootPath := strncpyPath optarg } }
  else if strncmpEq 10 (cstr "buddy_uuid").chars name.chars ∧ isValidUpkUuidString optarg then
    { s with options := { s.options with buddyUuid := upkStringToUuid s.options.buddyUuid optarg } }
  else { s with valid := false }

/-- The body of the loop. Each option that reads `optarg` takes an argument. -/
def optStep (s : OptState) (e : Event) : OptState :=
  let s := { s with optionIndex := e.index.getD s.optionIndex }
  let optarg := e.optarg.getD .empty
  match e.val with
  | 0 => namedOption optarg s
  | 113 => { s with options := { s.options with upkDiagVerbosity := s.options.upkDiagVerbosity - 1 } }
  | 118 => { s with options := { s.options with upkDiagVerbosity := s.options.upkDiagVerbosity + 1 } }
  | 82 => numericOption (fun num o => { o with ringbufferSize := num.toUInt64 }) optarg s
  | 114 => numericOption (fun num o => { o with reconnectRetries := num }) optarg s
  | 117 => numericOption (fun num o => { o with buddySetuid := num.toUInt64.toUInt32 }) optarg s
  | 103 => numericOption (fun num o => { o with buddySetgid := num.toUInt64.toUInt32 }) optarg s
  | 108 => numericOption (fun num o => { o with userRatelimit := num.toUInt64.toUInt32 }) optarg s
  | 119 => numericOption (fun num o => { o with userRestartWindow := num.toUInt64.toUInt32 }) optarg s
  | 77 => numericOption (fun num o => { o with userMaxRestarts := num.toUInt64.toUInt32 }) optarg s
  | 76 => numericOption (fun num o => { o with runawayRatelimit := num.toUInt64.toUInt32 }) optarg s
  | 105 => { s with options := { s.options with initializeSupplementalGroups := true } }
  | 99 => { s with options := { s.options with clearSupplementalGroups := true } }
  | 107 => numericOption (fun num o => { o with killTimeout := num.toInt32 }) optarg s
  | _ => { s with valid := false }

/-- The end of `opt_parse`: `argv[optind]` is the name of the service. -/
def parseServiceName (operands : List CStr) (s : OptState) : OptState :=
  let operands := if operands.head? = some (cstr "--") then operands.drop 1 else operands
  match operands with
  | [] => { s with valid := false }
  | name :: _ => { s with options := { s.options with buddyServiceName := some (name.take upkMaxStringLen) } }

/-- `opt_parse`, on the words behind `argv[0]`: what it returns, and the variables that it leaves -/
def optParse (options : BuddyOptions) (argv : List CStr) : Bool × BuddyOptions :=
  let scan := Getopt.getoptLong (cstr "qhvR:r:u:g:") longOptions argv
  let s := parseServiceName scan.operands (scan.events.foldl optStep ⟨options, 0, true⟩)
  (s.valid, s.options)

/-! ### Paths -/

/-- `buddy_init_paths`: `buddy_path_prefix`, unless it gives up -/
def buddyInitPaths (o : BuddyOptions) : Option CStr := do
  let name ← o.buddyServiceName
  let root := o.buddyRootPath.strnlen upkMaxPathLen
  if root = upkMaxPathLen ∨ name.strnlen upkMaxStringLen > upkMaxStringLen ∨
      root + name.strnlen upkMaxStringLen > upkMaxPathLen ∨
      root + name.strnlen upkMaxStringLen + (cstr "actions/reload").chars.length > upkMaxPathLen then none
  else some ((CStr.concat [o.buddyRootPath.toCStr, cstr "/", name]).take (upkMaxPathLen - 2))

/-- `buddy_path`; `snprintf` leaves room for two terminators. -/
def buddyPath (buddyPathPrefix suffix : CStr) : CStr :=
  (CStr.concat [buddyPathPrefix, cstr "/", suffix.take (upkMaxPathLen - 2)]).take (upkMaxPathLen - 2)

theorem buddyInitPaths_eq {o : BuddyOptions} {name : CStr} (hname : o.buddyServiceName = some name)
    (hlen : o.buddyRootPath.chars.length + name.chars.length + 14 ≤ upkMaxPathLen) :
    buddyInitPaths o = some (CStr.concat [o.buddyRootPath.toCStr, cstr "/", name]) := by
  have hlen : o.buddyRootPath.chars.length + name.chars.length + 14 ≤ 8192 := hlen
  have hreload : (cstr "actions/reload").chars.length = 14 := by decide
  have htake : (CStr.concat [o.buddyRootPath.toCStr, cstr "/", name]).take (upkMaxPathLen - 2) =
      CStr.concat [o.buddyRootPath.toCStr, cstr "/", name] := by
    refine CStr.ext (List.take_of_length_le ?_)
    rw [Path.length_concat_slash]
    show _ ≤ 8190
    omega
  rw [buddyInitPaths, hname, Option.bind_eq_bind, Option.bind_some, htake]
  refine if_neg ?_
  rw [hreload]
  simp only [CStr.strnlen, upkMaxPathLen, upkMaxStringLen]
  omega

theorem buddyPath_eq {buddyPathPrefix suffix : CStr}
    (hlen : buddyPathPrefix.chars.length + suffix.chars.length + 1 ≤ upkMaxPathLen - 2) :
    buddyPath buddyPathPrefix suffix = CStr.concat [buddyPathPrefix, cstr "/", suffix] := by
  have hsuffix : suffix.take (upkMaxPathLen - 2) = suffix := CStr.ext (List.take_of_length_le (by omega))
  rw [buddyPath, hsuffix]
  exact CStr.ext (List.take_of_length_le (by rwa [Path.length_concat_slash]))

/-- The path of the socket of a buddy with these arguments, if it gets so far -/
def buddySocket (argv : List CStr) : Option CStr := do
  let (valid, options) := optParse .initial argv
  if valid then
    let buddyPathPrefix ← buddyInitPaths options
    some (buddyPath buddyPathPrefix (cstr "buddy.sock"))
  else none

/-- `sizeof(buddy_sockaddr.sun_path)` -/
def sizeofSunPath : Nat := 108

/-- `buddy_init_socket`: the `sun_path` of the socket -/
def buddyInitSocket (path : CStr) : CStr := path.take (sizeofSunPath - 1)

theorem buddyInitSocket_eq {path : CStr} (h : path.chars.length < sizeofSunPath) : buddyInitSocket path = path :=
  CStr.ext (List.take_of_length_le (Nat.le_sub_one_of_lt h))

end Upkeeper
