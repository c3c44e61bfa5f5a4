import Upkeeper.Buddy.Startup
import Upkeeper.Controller.Sockets
import Upkeeper.Library.Names
/-!
# Spawning buddies (`ctrl_buddy.c`: `spawn_buddy`)

The controller and a buddy derive the path of the socket separately: the controller from `SvcRunPath` and the name of
the service, the buddy from its arguments. Buddy takes the path of the service for the root path, and appends the first
operand. That is the verbosity itself if it is empty or a single dash, and otherwise the name, a second time. So the two
agree without any verbosity, and else only if a name that is repeated leads nowhere (`agreeOnSocket_iff`).
-/

namespace Upkeeper

open Path (SameFile Names components dot dotdot)

/-- `buddy_verbosity`: a dash, and as many `v` as are left and as fit into 15 characters -/
def verbosityArg (buddyVerbosity : UInt32) : CStr :=
  if buddyVerbosity > 0 then .ofChars (45 :: List.replicate (min buddyVerbosity.toNat 15 - 1) 118) else .empty

/-- The arguments that `spawn_buddy` gives to buddy, if the path fits into `buddy_path` -/
def spawnBuddyArgv (cfg : ControllerConfig) (buddy : SvcDesc) : Option (List CStr) :=
  let buddyPath := CStr.concat [(cfg.dirs .svcRunPath).toCStr, cstr "/", buddy.name.toCStr]
  if buddyPath.chars.length < upkMaxPathLen then
    some [verbosityArg cfg.buddyVerbosity, cstr "--buddy_uuid", upkUuidToString buddy.uuid, cstr "--buddy_path",
      buddyPath, buddy.name.toCStr]
  else none

/-- A plain file name that `getopt` does not take for an option -/
structure ServiceName (name : CStr) : Prop where
  nonempty : name.chars ≠ []
  noSlash : Path.slash ∉ name.chars
  noDash : name.chars.head? ≠ some 45

/-- **Controller and buddy agree** on the socket of the service. -/
def AgreeOnSocket (cfg : ControllerConfig) (buddy : SvcDesc) : Prop :=
  ∃ argv ∈ spawnBuddyArgv cfg buddy, ∃ sock ∈ buddySocket argv,
    ∃ path ∈ buddySockPathbuf (cfg.dirs .svcRunPath) buddy.name, SameFile sock path

variable {cfg : ControllerConfig} {buddy : SvcDesc} {v : UInt32} {name path uuid : CStr} {s : OptState}

/-! ### The arguments -/

/-- What buddy takes for the name of its service -/
def operandOf (v : UInt32) (name : CStr) : CStr := if v = 0 then .empty else if v = 1 then cstr "-" else name

theorem verbosityArg_chars (h : v ≠ 0) : (verbosityArg v).chars = 45 :: List.replicate (min v.toNat 15 - 1) 118 := by
  rw [verbosityArg, if_pos (UInt32.pos_iff_ne_zero.mpr h), CStr.ofChars_chars]
  simp [List.mem_replicate]

/-- No verbosity, or a single dash, is no option. -/
theorem word_verbosity_operand (h : v = 0 ∨ v = 1) :
    Getopt.word (Getopt.shortOptions (cstr "qhvR:r:u:g:").chars) longOptions (verbosityArg v) = .operand := by
  rcases h with rfl | rfl <;> rfl

theorem word_verbosity_options (h0 : v ≠ 0) (h1 : v ≠ 1) :
    Getopt.word (Getopt.shortOptions (cstr "qhvR:r:u:g:").chars) longOptions (verbosityArg v) =
      .options (List.replicate (min v.toNat 15 - 1) ⟨118, none, none⟩) none := by
  obtain ⟨k, hk⟩ : ∃ k, min v.toNat 15 - 1 = k + 1 := by
    have h0' : v.toNat ≠ 0 := fun h => h0 (UInt32.toNat_inj.mp h)
    have h1' : v.toNat ≠ 1 := fun h => h1 (UInt32.toNat_inj.mp h)
    exact ⟨min v.toNat 15 - 2, by omega⟩
  have hchars := verbosityArg_chars h0
  rw [hk, List.replicate_succ] at hchars
  have hcluster : Getopt.cluster (Getopt.shortOptions (cstr "qhvR:r:u:g:").chars) (118 :: List.replicate k 118) = _ :=
    Getopt.cluster_replicate rfl (k + 1)
  rw [Getopt.word_cluster hchars (by decide), hcluster, hk]

theorem scan_options_argv (hname : name.chars.head? ≠ some 45) :
    Getopt.scan (Getopt.shortOptions (cstr "qhvR:r:u:g:").chars) longOptions none
        [cstr "--buddy_uuid", uuid, cstr "--buddy_path", path, name] =
      ⟨[⟨0, some 14, some uuid⟩, ⟨0, some 13, some path⟩], [name]⟩ := by
  have huuid : Getopt.word (Getopt.shortOptions (cstr "qhvR:r:u:g:").chars) longOptions (cstr "--buddy_uuid") =
      .options [] (some ⟨0, some 14, none⟩) := rfl
  have hpath : Getopt.word (Getopt.shortOptions (cstr "qhvR:r:u:g:").chars) longOptions (cstr "--buddy_path") =
      .options [] (some ⟨0, some 13, none⟩) := rfl
  rw [Getopt.scan_options huuid, Getopt.scan_waiting, Getopt.scan_options hpath, Getopt.scan_waiting,
    Getopt.scan_operand (Getopt.word_operand hname)]
  rfl

/-- **The arguments as buddy reads them:** the first operand is the name only if the verbosity is an option. -/
theorem getoptLong_argv (v : UInt32) (hname : name.chars.head? ≠ some 45) :
    ∃ k operands,
      Getopt.getoptLong (cstr "qhvR:r:u:g:") longOptions
          [verbosityArg v, cstr "--buddy_uuid", uuid, cstr "--buddy_path", path, name] =
        ⟨List.replicate k ⟨118, none, none⟩ ++ [⟨0, some 14, some uuid⟩, ⟨0, some 13, some path⟩],
          operandOf v name :: operands⟩ := by
  unfold Getopt.getoptLong
  by_cases h : v = 0 ∨ v = 1
  · have hoperand : verbosityArg v = operandOf v name := by
      rcases h with rfl | rfl <;> rfl
    refine ⟨0, [name], ?_⟩
    rw [Getopt.scan_operand (word_verbosity_operand h), scan_options_argv hname, hoperand]
    rfl
  · rw [not_or] at h
    refine ⟨min v.toNat 15 - 1, [], ?_⟩
    rw [Getopt.scan_options (word_verbosity_options h.1 h.2), scan_options_argv hname, operandOf, if_neg h.1,
      if_neg h.2]

/-! ### The options -/

theorem foldl_optStep_verbose (k : Nat) (s : OptState) :
    ∃ d, (List.replicate k ⟨118, none, none⟩).foldl optStep s =
      { s with options := { s.options with upkDiagVerbosity := d } } := by
  induction k generalizing s with
  | zero => exact ⟨_, rfl⟩
  | succ k ih =>
    obtain ⟨d, hd⟩ := ih (optStep s ⟨118, none, none⟩)
    exact ⟨d, hd⟩

theorem optStep_uuid (h : isValidUpkUuidString uuid = true) : optStep s ⟨0, some 14, some uuid⟩ =
    { s with
      options := { s.options with buddyUuid := upkStringToUuid s.options.buddyUuid uuid }
      optionIndex := 14 } := by
  have hpath : strncmpEq 10 (cstr "buddy_path").chars (cstr "buddy_uuid").chars = false := by decide
  have huuid : strncmpEq 10 (cstr "buddy_uuid").chars (cstr "buddy_uuid").chars = true := by decide
  show namedOption uuid { s with optionIndex := 14 } = _
  unfold namedOption
  show (if strncmpEq 10 (cstr "buddy_path").chars (cstr "buddy_uuid").chars then _ else
    if strncmpEq 10 (cstr "buddy_uuid").chars (cstr "buddy_uuid").chars ∧ isValidUpkUuidString uuid then _ else _) = _
  rw [if_neg (by rw [hpath]; decide), if_pos ⟨huuid, h⟩]

theorem optStep_path : optStep s ⟨0, some 13, some path⟩ =
    { s with options := { s.options with buddyRootPath := strncpyPath path }, optionIndex := 13 } := by
  have hpath : strncmpEq 10 (cstr "buddy_path").chars (cstr "buddy_path").chars = true := by decide
  show namedOption path { s with optionIndex := 13 } = _
  unfold namedOption
  exact if_pos hpath

theorem optParse_argv (v : UInt32) (hname : name.chars.head? ≠ some 45) (hlen : name.chars.length ≤ upkMaxStringLen)
    (huuid : isValidUpkUuidString uuid = true) :
    ∃ o, optParse .initial [verbosityArg v, cstr "--buddy_uuid", uuid, cstr "--buddy_path", path, name] = (true, o) ∧
      o.buddyRootPath = strncpyPath path ∧ o.buddyServiceName = some (operandOf v name) := by
  obtain ⟨k, operands, hscan⟩ := @getoptLong_argv name path uuid v hname
  obtain ⟨d, hverbose⟩ := foldl_optStep_verbose k ⟨.initial, 0, true⟩
  have hoperand : operandOf v name ≠ cstr "--" := by
    unfold operandOf
    split_ifs
    · decide
    · decide
    · rintro rfl
      exact hname rfl
  have htake : (operandOf v name).take upkMaxStringLen = operandOf v name := by
    refine CStr.ext (List.take_of_length_le ?_)
    unfold operandOf
    split_ifs
    · decide
    · decide
    · exact hlen
  unfold optParse
  simp only [hscan, List.foldl_append, hverbose, List.foldl_cons, List.foldl_nil, optStep_uuid huuid, optStep_path,
    parseServiceName, List.head?_cons, Option.some.injEq, hoperand, if_false, htake]
  exact ⟨_, rfl, rfl, rfl⟩

/-! ### The paths -/

theorem length_operandOf (v : UInt32) (h : name.chars ≠ []) : (operandOf v name).chars.length ≤ name.chars.length := by
  have hpos : 1 ≤ name.chars.length := List.length_pos_iff.mpr h
  unfold operandOf
  split_ifs
  · exact Nat.zero_le _
  · exact hpos
  · exact Nat.le_refl _

theorem buddySocket_argv (v : UInt32) {run : CStr} (h : ServiceName name) (huuid : isValidUpkUuidString uuid = true)
    (hlen : run.chars.length + name.chars.length + 12 < sizeofSunPath) :
    ∃ sock,
      buddySocket [verbosityArg v, cstr "--buddy_uuid", uuid, cstr "--buddy_path", CStr.concat [run, cstr "/", name],
        name] = some sock ∧
      sock.chars = run.chars ++ Path.slash :: (name.chars ++ Path.slash ::
        ((operandOf v name).chars ++ Path.slash :: (cstr "buddy.sock").chars)) := by
  have hlen : run.chars.length + name.chars.length + 12 < 108 := hlen
  have hoperand := length_operandOf v h.nonempty
  have hroot := Path.length_concat_slash run name
  obtain ⟨o, hparse, hrootPath, hservice⟩ := @optParse_argv name (CStr.concat [run, cstr "/", name]) uuid v h.noDash
    (by show _ ≤ 2048; omega) huuid
  have hcopy : o.buddyRootPath.toCStr = CStr.concat [run, cstr "/", name] := by
    rw [hrootPath]
    exact CharBuf.strncpy_eq (by show _ ≤ 8191; omega)
  have hpaths := buddyInitPaths_eq hservice (by rw [hcopy]; show _ ≤ 8192; omega)
  have hprefix := Path.length_concat_slash (CStr.concat [run, cstr "/", name]) (operandOf v name)
  have hsock : (cstr "buddy.sock").chars.length = 10 := by decide
  refine ⟨CStr.concat [CStr.concat [CStr.concat [run, cstr "/", name], cstr "/", operandOf v name], cstr "/",
    cstr "buddy.sock"], ?_, ?_⟩
  · unfold buddySocket
    simp only [hparse, if_true, hpaths, hcopy, Option.bind_eq_bind, Option.bind_some]
    rw [buddyPath_eq (by show _ ≤ 8190; omega)]
  · simp only [Path.concat_slash, List.append_assoc, List.cons_append]

theorem buddySocket_bound (v : UInt32) {run : CStr} (h : ServiceName name) (huuid : isValidUpkUuidString uuid = true)
    (hlen : run.chars.length + 2 * name.chars.length + 13 < sizeofSunPath) :
    ∃ sock,
      buddySocket [verbosityArg v, cstr "--buddy_uuid", uuid, cstr "--buddy_path", CStr.concat [run, cstr "/", name],
        name] = some sock ∧ buddyInitSocket sock = sock := by
  have hpos : 1 ≤ name.chars.length := List.length_pos_iff.mpr h.nonempty
  have hoperand := @length_operandOf name v h.nonempty
  have hshort : run.chars.length + name.chars.length + 12 < sizeofSunPath := by omega
  obtain ⟨sock, hsock, hchars⟩ := buddySocket_argv v h huuid hshort
  refine ⟨sock, hsock, buddyInitSocket_eq ?_⟩
  have hfile : (cstr "buddy.sock").chars.length = 10 := by decide
  simp only [hchars, List.length_append, List.length_cons, hfile]
  omega

theorem buddySockPath_eq {svcRunPath : CharBuf upkMaxPathLen} {name : CharBuf upkMaxStringLen}
    (hlen : svcRunPath.chars.length + name.chars.length + 12 < sizeofSunPath) :
    ∃ path, buddySockPathbuf svcRunPath name = some path ∧
      path.chars = svcRunPath.chars ++ Path.slash :: (name.chars ++ Path.slash :: (cstr "buddy.sock").chars) := by
  have hlen : svcRunPath.chars.length + name.chars.length + 12 < 108 := hlen
  have hchars : (CStr.concat [svcRunPath.toCStr, cstr "/", name.toCStr, cstr "/buddy.sock"]).chars =
      svcRunPath.chars ++ Path.slash :: (name.chars ++ Path.slash :: (cstr "buddy.sock").chars) := by
    rw [CStr.concat_chars, List.flatMap_cons, List.flatMap_cons, List.flatMap_cons, List.flatMap_singleton]
    rfl
  refine ⟨_, if_pos ?_, hchars⟩
  have hsock : (cstr "buddy.sock").chars.length = 10 := by decide
  rw [hchars, List.length_append, List.length_cons, List.length_append, List.length_cons, hsock]
  show _ < 8192
  omega

/-! ### Agreement -/

theorem file_components : components (cstr "buddy.sock").chars = [(cstr "buddy.sock").chars] := by decide

theorem file_plain : (cstr "buddy.sock").chars ≠ dot ∧ (cstr "buddy.sock").chars ≠ dotdot := by decide

theorem agreeOnSocket_components (hname : ServiceName buddy.name.toCStr)
    (hlen : (cfg.dirs .svcRunPath).chars.length + buddy.name.chars.length + 12 < sizeofSunPath) :
    ∃ sock path, (AgreeOnSocket cfg buddy ↔ SameFile sock path) ∧
      components sock.chars = components (cfg.dirs .svcRunPath).chars ++ (buddy.name.chars ::
        (components (operandOf cfg.buddyVerbosity buddy.name.toCStr).chars ++ [(cstr "buddy.sock").chars])) ∧
      components path.chars =
        components (cfg.dirs .svcRunPath).chars ++ [buddy.name.chars, (cstr "buddy.sock").chars] := by
  obtain ⟨sock, hsock, hsockChars⟩ := buddySocket_argv (v := cfg.buddyVerbosity) hname
    (isValidUpkUuidString_toString buddy.uuid) hlen
  obtain ⟨path, hpath, hpathChars⟩ := buddySockPath_eq hlen
  have hargv : spawnBuddyArgv cfg buddy = some [verbosityArg cfg.buddyVerbosity, cstr "--buddy_uuid",
      upkUuidToString buddy.uuid, cstr "--buddy_path",
      CStr.concat [(cfg.dirs .svcRunPath).toCStr, cstr "/", buddy.name.toCStr], buddy.name.toCStr] := by
    have hlen : (cfg.dirs .svcRunPath).chars.length + buddy.name.chars.length + 12 < 108 := hlen
    refine if_pos ?_
    rw [Path.length_concat_slash]
    show _ < 8192
    omega
  have hn : components buddy.name.chars = [buddy.name.chars] := Path.components_name hname.nonempty hname.noSlash
  refine ⟨sock, path, ?_, ?_, ?_⟩
  · simp only [AgreeOnSocket, hargv, hsock, hpath, Option.mem_some_iff, exists_eq_left']
  · rw [hsockChars, Path.components_append, Path.components_append, Path.components_append, hn, file_components]
    rfl
  · rw [hpathChars, Path.components_append, Path.components_append, hn, file_components]
    rfl

/-- With the dash for the name of its service, buddy is elsewhere. -/
theorem not_agreeOnSocket (hname : ServiceName buddy.name.toCStr)
    (hlen : (cfg.dirs .svcRunPath).chars.length + buddy.name.chars.length + 12 < sizeofSunPath)
    (h : cfg.buddyVerbosity = 1) : ¬ AgreeOnSocket cfg buddy := by
  obtain ⟨sock, path, hagree, hsock, hpath⟩ := agreeOnSocket_components hname hlen
  rw [h] at hsock
  rw [hagree]
  exact Path.not_sameFile_insert (x := (cstr "-").chars) (by decide) file_plain hsock hpath

/-- **The two agree exactly without any verbosity, or if the verbosity is an option and the name, given twice, leads
where it leads once.** -/
theorem agreeOnSocket_iff (cfg : ControllerConfig) (buddy : SvcDesc) (hname : ServiceName buddy.name.toCStr)
    (hlen : (cfg.dirs .svcRunPath).chars.length + buddy.name.chars.length + 12 < sizeofSunPath) :
    AgreeOnSocket cfg buddy ↔ cfg.buddyVerbosity = 0 ∨
      2 ≤ cfg.buddyVerbosity ∧ (buddy.name.chars = dot ∨
        buddy.name.chars = dotdot ∧ ∀ c ∈ components (cfg.dirs .svcRunPath).chars, c = dot ∨ c = dotdot) := by
  by_cases h1 : cfg.buddyVerbosity = 1
  · refine iff_of_false (not_agreeOnSocket hname hlen h1) ?_
    rw [h1]
    rintro (h | ⟨h, -⟩) <;> exact absurd h (by decide)
  obtain ⟨sock, path, hagree, hsock, hpath⟩ := agreeOnSocket_components hname hlen
  rw [hagree]
  by_cases h0 : cfg.buddyVerbosity = 0
  · -- the empty operand
    rw [operandOf, if_pos h0] at hsock
    exact iff_of_true (Path.sameFile_of_components (hsock.trans hpath.symm)) (Or.inl h0)
  · -- the name once more
    have htwo : 2 ≤ cfg.buddyVerbosity := by
      have h0' : cfg.buddyVerbosity.toNat ≠ 0 := fun h => h0 (UInt32.toNat_inj.mp h)
      have h1' : cfg.buddyVerbosity.toNat ≠ 1 := fun h => h1 (UInt32.toNat_inj.mp h)
      rw [UInt32.le_iff_toNat_le]
      show 2 ≤ _
      omega
    rw [operandOf, if_neg h0, if_neg h1, Path.components_name hname.nonempty hname.noSlash] at hsock
    rw [Path.sameFile_repeat_iff file_plain hsock hpath, or_iff_right h0, and_iff_right htwo]

/-- A configuration with this verbosity -/
def runConfig (verbosity : UInt32) : ControllerConfig :=
  { ControllerConfig.zero with dirs := fun _ => strncpyPath (cstr "/var/run/upkeeper"), buddyVerbosity := verbosity }

/-- A service to spawn a buddy for -/
def webService : SvcDesc := { SvcDesc.zero with name := strncpyString (cstr "web") }

theorem agreeOnSocket_quiet : AgreeOnSocket (runConfig 0) webService :=
  (agreeOnSocket_iff (runConfig 0) webService ⟨by decide, by decide, by decide⟩ (by decide)).mpr (Or.inl rfl)

/-- With a verbosity of one, as in the configuration that comes with the program, buddy listens in another directory. -/
theorem not_agreeOnSocket_default : ¬ AgreeOnSocket (runConfig 1) webService :=
  not_agreeOnSocket ⟨by decide, by decide, by decide⟩ (by decide) rfl

end Upkeeper
