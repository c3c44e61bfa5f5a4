import Upkeeper.Buddy.Startup
import Upkeeper.Controller.Cleanup
import Upkeeper.Library.Files
/-!
# The state directory of a buddy (`ctrl_buddy.c`: `create_buddy_statedir`)

The controller writes the scripts of a service into files, and makes a link for each action that leads to its script.
When buddy is told to take an action, it runs what the link leads to. The two agree on the names of the links.

The state directory outlives the controller. A link that is there already is not made again, but a script is written
over. So an action of buddy runs what was last written into the script for which its link was made first
(`actions_run_iff`). While the actions of a service keep their names, this is the script that is configured for it
exactly if no two actions of one name have different scripts (`actions_run_iff_namesAgree`).
-/

namespace Upkeeper

open FileTree (Name Proper)
open Files (Tree Place Node)

/-! ### The controller -/

/-- An action: the name of its link, the name of its script, and the text of that -/
structure ActionScript where
  link : Name
  script : Name
  text : CharPtr

/-- The actions of a service, in the order in which they are created -/
def svcActions (buddy : SvcDesc) : List ActionScript :=
  [⟨(cstr "start").chars, (cstr "start").chars, buddy.scripts .startScript⟩,
   ⟨(cstr "stop").chars, (cstr "stop").chars, buddy.scripts .stopScript⟩,
   ⟨(cstr "reload").chars, (cstr "reload").chars, buddy.scripts .reloadScript⟩] ++
  (buddy.customActions.getD []).zipIdx.map fun (action, n) => ⟨twoDigits n, action.name.chars, .text action.script⟩

/-- The text that a pointer leads to, for `fprintf` -/
def CharPtr.text? : CharPtr → Option CStr
  | .text s => some s
  | _ => none

/-- `fopen`, `fchmod`, `fprintf` and `fclose`: the file is a script with this text. A file that could not be opened is a
fault. -/
def writeScript (files : Tree) (cwd : Place) (path : List UInt8) (text : CharPtr) : Option Tree := do
  let p ← Files.openWrite files cwd path
  let text ← text.text?
  some (Function.update files p (some (.file text.chars true)))

/-- The script and the link of an action. The path of the script is what the link leads to. -/
def createAction (cwd : Place) (path : List UInt8) (files : Tree) (a : ActionScript) : Option Tree :=
  if (actionPath path a.link).length < upkMaxPathLen ∧ (scriptPath path a.script).length < upkMaxPathLen then do
    let files ← writeScript files cwd (scriptPath path a.script) a.text
    some (Files.symlink files cwd (scriptPath path a.script) (actionPath path a.link))
  else none

/-- The directories in a state directory -/
def stateDirs : List Name := [(cstr "actions").chars, (cstr "scripts").chars, (cstr "log").chars]

/-- `create_buddy_statedir`. What `mkdir` and `symlink` return is not looked at. -/
def createBuddyStatedir (cwd : Place) (svcRunPath : List UInt8) (controllerSocket : CStr) (buddy : SvcDesc)
    (files : Tree) : Option Tree :=
  let path := childPath svcRunPath buddy.name.chars
  if (childPath path (cstr "controller.sock").chars).length < upkMaxPathLen then do
    let files := Files.mkdir files cwd svcRunPath
    let files := Files.mkdir files cwd path
    let files := stateDirs.foldl (fun files sub => Files.mkdir files cwd (childPath path sub)) files
    let files ← (svcActions buddy).foldlM (createAction cwd path) files
    some (Files.symlink files cwd controllerSocket.chars (childPath path (cstr "controller.sock").chars))
  else none

/-! ### Buddy -/

/-- What buddy runs a script for -/
inductive BuddyAction
  | start
  | stop
  | reload
  | cust (actNum : Nat)

/-- The path below its own at which buddy looks for the script -/
def BuddyAction.suffix : BuddyAction → CStr
  | .start => cstr "actions/start"
  | .stop => cstr "actions/stop"
  | .reload => cstr "actions/reload"
  | .cust actNum => (cstr "actions/").append (.ofChars (twoDigits actNum))

/-! ### What they are for -/

/-- The script that is configured for an action of buddy: the name of the action, and the text -/
def BuddyAction.configured (buddy : SvcDesc) : BuddyAction → Option (Name × CharPtr)
  | .start => some ((cstr "start").chars, buddy.scripts .startScript)
  | .stop => some ((cstr "stop").chars, buddy.scripts .stopScript)
  | .reload => some ((cstr "reload").chars, buddy.scripts .reloadScript)
  | .cust actNum =>
    (buddy.customActions.getD [])[actNum]?.map fun action => (action.name.chars, .text action.script)

/-- **Each action runs the script that is configured for it**, wherever buddy is. -/
def ActionsRun (files : Tree) (buddyPathPrefix : CStr) (buddy : SvcDesc) : Prop :=
  ∀ cwd (action : BuddyAction) name (text : CStr), action.configured buddy = some (name, .text text) →
    Files.stat files cwd (buddyPath buddyPathPrefix action.suffix).chars = some (.file text.chars true)

/-- The text of the last script with this name -/
def scriptText (done : List ActionScript) (script : Name) : Option (List UInt8) :=
  (done.filter fun a => a.script = script).getLast?.map fun a => (a.text.text?.getD .empty).chars

/-- The script that a link leads to: that of the first action with this link -/
def linkScript (done : List ActionScript) (link : Name) : Option Name :=
  (done.find? fun a => a.link = link).map ActionScript.script

/-- The text that a link leads to -/
def linkText (done : List ActionScript) (link : Name) : Option (List UInt8) :=
  (linkScript done link).bind (scriptText done)

/-- Actions of one name have one script. -/
def NamesAgree (buddy : SvcDesc) : Prop :=
  ∀ a ∈ svcActions buddy, ∀ a' ∈ svcActions buddy, a.script = a'.script → a.text = a'.text

/-- The links of a service, and the names of the scripts that they are for -/
def actionNames (buddy : SvcDesc) : List (Name × Name) := (svcActions buddy).map fun a => (a.link, a.script)

/-- An action that can be created: its name is a plain file name, it has a script, and the paths fit. -/
structure Creatable (path : List UInt8) (a : ActionScript) : Prop where
  script : Proper a.script
  text : ∃ text, a.text = .text text
  linkFits : (actionPath path a.link).length < upkMaxPathLen
  scriptFits : (scriptPath path a.script).length < upkMaxPathLen

/-- A service of this name whose state directory can be created -/
structure Installable (svcRunPath : List UInt8) (n : Name) (buddy : SvcDesc) : Prop where
  name : buddy.name.chars = n
  actions : ∀ a ∈ svcActions buddy, Creatable (childPath svcRunPath n) a
  sockFits : (childPath (childPath svcRunPath n) (cstr "controller.sock").chars).length < upkMaxPathLen

/-- A path by which buddy finds the state directory, with room for the links -/
structure BuddyPrefix (path : List UInt8) (buddy : SvcDesc) (buddyPathPrefix : CStr) : Prop where
  absolute : buddyPathPrefix.chars.head? = some Path.slash
  components : Path.components buddyPathPrefix.chars = Path.components path
  fits : ∀ a ∈ svcActions buddy, buddyPathPrefix.chars.length + a.link.length + 9 ≤ upkMaxPathLen - 2

/-- Nothing is there, or below. -/
def Fresh (files : Tree) (p : Place) : Prop := ∀ q, p <:+ q → files q = none

/-! ### The names of the links -/

theorem twoDigits_injective : Function.Injective twoDigits := by
  have hvalue (n : Nat) : Nat.ofDigits 10 ((twoDigits n).map fun c => c.toNat - 48).reverse = n := by
    unfold twoDigits
    split
    · rw [List.map_cons, List.reverse_cons, Nat.ofDigits_append, Decimal.ofDigits_digits]
      simp [Nat.ofDigits]
    · exact Decimal.ofDigits_digits n
  intro m n h
  rw [← hvalue m, ← hvalue n, h]

theorem twoDigits_ne_word {n : Nat} {s : CStr} (hs : ∃ c ∈ s.chars, ¬Decimal.IsDigit c) : twoDigits n ≠ s.chars := by
  obtain ⟨c, hc, hdigit⟩ := hs
  intro heq
  rw [← heq] at hc
  unfold twoDigits at hc
  split at hc
  · rcases List.mem_cons.mp hc with rfl | hc
    · exact hdigit (by decide)
    · exact hdigit (Decimal.isDigit_of_mem c hc)
  · exact hdigit (Decimal.isDigit_of_mem c hc)

theorem svcActions_link_nodup (buddy : SvcDesc) : ((svcActions buddy).map ActionScript.link).Nodup := by
  have hcustom : ((buddy.customActions.getD []).zipIdx.map fun (action, n) =>
      (⟨twoDigits n, action.name.chars, .text action.script⟩ : ActionScript)).map ActionScript.link =
        (List.range' 0 (buddy.customActions.getD []).length).map twoDigits := by
    rw [List.map_map, ← List.zipIdx_map_snd 0 (buddy.customActions.getD []), List.map_map]
    rfl
  rw [svcActions, List.map_append, hcustom]
  refine List.Nodup.append ?_ ?_ ?_
  · show [(cstr "start").chars, (cstr "stop").chars, (cstr "reload").chars].Nodup
    decide
  · exact (List.nodup_range').map twoDigits_injective
  · intro name hname hdigits
    obtain ⟨n, -, rfl⟩ := List.mem_map.mp hdigits
    simp only [List.map_cons, List.map_nil, List.mem_cons, List.not_mem_nil, or_false] at hname
    rcases hname with h | h | h <;> exact twoDigits_ne_word (by decide) h

theorem suffix_cust (n : Nat) :
    (BuddyAction.cust n).suffix.chars = (cstr "actions").chars ++ Path.slash :: twoDigits n := by
  have hzero : (0 : UInt8) ∉ twoDigits n := by
    intro h
    unfold twoDigits at h
    split at h
    · rcases List.mem_cons.mp h with h | h
      · exact absurd h (by decide)
      · exact absurd (Decimal.isDigit_of_mem 0 h) (by decide)
    · exact absurd (Decimal.isDigit_of_mem 0 h) (by decide)
  show (cstr "actions/").chars ++ (CStr.ofChars (twoDigits n)).chars = _
  rw [CStr.ofChars_chars hzero]
  rfl

theorem mem_of_configured {buddy : SvcDesc} {action : BuddyAction} {name : Name} {text : CharPtr}
    (h : action.configured buddy = some (name, text)) : ∃ a ∈ svcActions buddy,
      a.script = name ∧ a.text = text ∧ action.suffix.chars = (cstr "actions").chars ++ Path.slash :: a.link := by
  cases action with
  | start =>
    obtain ⟨rfl, rfl⟩ := Prod.mk.inj (Option.some.inj h)
    exact ⟨⟨_, _, _⟩, List.mem_append_left _ List.mem_cons_self, rfl, rfl, rfl⟩
  | stop =>
    obtain ⟨rfl, rfl⟩ := Prod.mk.inj (Option.some.inj h)
    exact ⟨⟨_, _, _⟩, List.mem_append_left _ (List.mem_cons_of_mem _ List.mem_cons_self), rfl, rfl, rfl⟩
  | reload =>
    obtain ⟨rfl, rfl⟩ := Prod.mk.inj (Option.some.inj h)
    exact ⟨⟨_, _, _⟩, List.mem_append_left _ (List.mem_of_getLast? rfl), rfl, rfl, rfl⟩
  | cust n =>
    obtain ⟨action, haction, heq⟩ := Option.map_eq_some_iff.mp h
    obtain ⟨rfl, rfl⟩ := Prod.mk.inj heq
    refine ⟨⟨twoDigits n, action.name.chars, .text action.script⟩, List.mem_append_right _ ?_, rfl, rfl, ?_⟩
    · exact List.mem_map.mpr ⟨(action, n), List.mk_mem_zipIdx_iff_getElem?.mpr haction, rfl⟩
    · exact suffix_cust n

theorem configured_of_mem {buddy : SvcDesc} {a : ActionScript} (h : a ∈ svcActions buddy) :
    ∃ action : BuddyAction, action.configured buddy = some (a.script, a.text) ∧
      action.suffix.chars = (cstr "actions").chars ++ Path.slash :: a.link := by
  rcases List.mem_append.mp h with h | h
  · simp only [List.mem_cons, List.not_mem_nil, or_false] at h
    rcases h with rfl | rfl | rfl
    · exact ⟨.start, rfl, rfl⟩
    · exact ⟨.stop, rfl, rfl⟩
    · exact ⟨.reload, rfl, rfl⟩
  · obtain ⟨⟨action, n⟩, hmem, rfl⟩ := List.mem_map.mp h
    refine ⟨.cust n, ?_, suffix_cust n⟩
    rw [BuddyAction.configured, List.mk_mem_zipIdx_iff_getElem?.mp hmem]
    rfl

/-! ### The directories -/

/-- The state directory after the actions that are `done`, and all else as it was -/
structure Built (files₀ files : Tree) (path : List UInt8) (links : Nat) (p : Place) (done : List ActionScript) :
    Prop where
  outside : ∀ q, ¬p <:+ q → files q = files₀ q
  leads : Files.Leads files path links p
  actions : files ((cstr "actions").chars :: p) = some .dir
  scripts : files ((cstr "scripts").chars :: p) = some .dir
  log : files ((cstr "log").chars :: p) = some .dir
  script : ∀ n, files (n :: (cstr "scripts").chars :: p) = (scriptText done n).map fun text => .file text true
  link : ∀ n, files (n :: (cstr "actions").chars :: p) =
    (linkScript done n).map fun script => .link (scriptPath path script)

variable {files₀ files : Tree} {path run : List UInt8} {links : Nat} {d p q : Place} {n sub : Name} {cwd : Place}
  {done done' : List ActionScript} {a : ActionScript} {buddy : SvcDesc} {text sock : CStr}

theorem keeps_of_outside (hfresh : Fresh files₀ p) (h : ∀ q, ¬p <:+ q → files q = files₀ q) :
    Files.Keeps files₀ files := by
  have hsame {q : Place} {x : Node} (hq : files₀ q = some x) : files q = some x := by
    rw [h q, hq]
    intro hsuffix
    rw [hfresh q hsuffix] at hq
    cases hq
  exact ⟨fun q hq => hsame hq, fun q target hq => hsame hq, fun q text x hq => ⟨text, x, hsame hq⟩⟩

/-- The tree with a new directory at `p`, and directories with these names in it -/
def withDirs (files : Tree) (p : Place) (subs : List Name) : Tree := fun q =>
  if q ∈ p :: subs.map fun sub => sub :: p then some .dir else files q

theorem withDirs_root (files : Tree) (p : Place) (subs : List Name) : withDirs files p subs p = some .dir :=
  if_pos List.mem_cons_self

theorem withDirs_mem {subs : List Name} (h : sub ∈ subs) : withDirs files p subs (sub :: p) = some .dir :=
  if_pos (List.mem_cons_of_mem _ (List.mem_map_of_mem h))

theorem withDirs_notMem {subs : List Name} (hp : q ≠ p) (h : ∀ sub ∈ subs, q ≠ sub :: p) :
    withDirs files p subs q = files q := by
  refine if_neg fun hmem => ?_
  rcases List.mem_cons.mp hmem with heq | hmem
  · exact hp heq
  · obtain ⟨sub, hsub, heq⟩ := List.mem_map.mp hmem
    exact h sub hsub heq.symm

theorem withDirs_outside {subs : List Name} (h : ¬p <:+ q) : withDirs files p subs q = files q := by
  refine withDirs_notMem ?_ fun sub _ => ?_
  · rintro rfl
    exact h List.suffix_rfl
  · rintro rfl
    exact h (List.suffix_cons _ _)

theorem update_withDirs (subs : List Name) :
    Function.update (withDirs files p subs) (sub :: p) (some .dir) = withDirs files p (subs ++ [sub]) := by
  funext q
  by_cases hq : q = sub :: p
  · rw [hq, Function.update_self, withDirs_mem (by simp)]
  · rw [Function.update_of_ne hq]
    simp only [withDirs, List.map_append, List.mem_cons, List.mem_append, List.map_cons, List.map_nil,
      List.not_mem_nil, or_false, hq]

theorem leads_withDirs (hrun : Files.Leads files₀ run links d) (hn : Proper n) (hfresh : Fresh files₀ (n :: d))
    (subs : List Name) : Files.Leads (withDirs files₀ (n :: d) subs) (childPath run n) links (n :: d) :=
  (hrun.keeps (keeps_of_outside hfresh fun _ => withDirs_outside)).child hn (withDirs_root _ _ _)

theorem foldl_mkdir {subs made : List Name} (hrun : Files.Leads files₀ run links d) (hlinks : links ≤ Files.maxLinks)
    (hn : Proper n) (hfresh : Fresh files₀ (n :: d)) (hsubs : ∀ sub ∈ subs, Proper sub)
    (hnodup : (made ++ subs).Nodup) :
    subs.foldl (fun files sub => Files.mkdir files cwd (childPath (childPath run n) sub))
      (withDirs files₀ (n :: d) made) = withDirs files₀ (n :: d) (made ++ subs) := by
  induction subs generalizing made with
  | nil => rw [List.foldl_nil, List.append_nil]
  | cons sub subs ih =>
    have hnot : sub ∉ made := fun hmem =>
      (List.nodup_append.mp hnodup).2.2 sub hmem sub List.mem_cons_self rfl
    have hnone : withDirs files₀ (n :: d) made (sub :: n :: d) = none := by
      rw [withDirs_notMem (List.cons_ne_self _ _) fun sub' hsub' heq => hnot (by rwa [(List.cons.inj heq).1])]
      exact hfresh _ (List.suffix_cons _ _)
    have hstep : Files.mkdir (withDirs files₀ (n :: d) made) cwd (childPath (childPath run n) sub) =
        withDirs files₀ (n :: d) (made ++ [sub]) := by
      rw [← update_withDirs]
      exact (leads_withDirs hrun hn hfresh made).mkdir_child hlinks (hsubs sub List.mem_cons_self) hnone
    rw [List.append_cons] at hnodup
    rw [List.foldl_cons, hstep, List.append_cons made sub subs]
    exact ih (fun sub' hsub' => hsubs sub' (List.mem_cons_of_mem _ hsub')) hnodup

theorem proper_stateDirs : ∀ sub ∈ stateDirs, Proper sub := by
  simp only [stateDirs, List.mem_cons, List.not_mem_nil, or_false]
  rintro sub (rfl | rfl | rfl) <;> exact proper_word (by simp)

/-- What is two names below a directory is not what is one name below. -/
theorem ne_of_length {q q' : Place} (h : q.length ≠ q'.length) : q ≠ q' := fun heq => h (by rw [heq])

/-- The state directory with the directories in it, made by the system calls of `create_buddy_statedir` -/
def makeDirs (cwd : Place) (path : List UInt8) (files : Tree) : Tree :=
  stateDirs.foldl (fun files sub => Files.mkdir files cwd (childPath path sub)) (Files.mkdir files cwd path)

/-- **The directories are made** where there is nothing. -/
theorem built_fresh (hrun : Files.Leads files₀ run links d) (hlinks : links ≤ Files.maxLinks) (hn : Proper n)
    (hfresh : Fresh files₀ (n :: d)) :
    Built files₀ (makeDirs cwd (childPath run n) files₀) (childPath run n) links (n :: d) [] := by
  have hroot : Files.mkdir files₀ cwd (childPath run n) = withDirs files₀ (n :: d) [] := by
    rw [childPath, hrun.mkdir_child hlinks hn (hfresh _ List.suffix_rfl)]
    funext q
    by_cases hq : q = n :: d
    · rw [hq, Function.update_self, withDirs_root]
    · rw [Function.update_of_ne hq, withDirs_notMem hq (by simp)]
  rw [makeDirs, hroot, foldl_mkdir hrun hlinks hn hfresh proper_stateDirs (by decide), List.nil_append]
  have hdeep (m sub : Name) : withDirs files₀ (n :: d) stateDirs (m :: sub :: n :: d) = none := by
    have hlength (q : Place) (hq : q.length ≤ (n :: d).length + 1) : m :: sub :: n :: d ≠ q :=
      ne_of_length (by simp only [List.length_cons] at hq ⊢; omega)
    rw [withDirs_notMem (hlength _ (Nat.le_succ _)) fun sub' _ => hlength _ le_rfl]
    exact hfresh _ ((List.suffix_cons _ _).trans (List.suffix_cons _ _))
  exact ⟨fun q => withDirs_outside, leads_withDirs hrun hn hfresh _, withDirs_mem (by decide), withDirs_mem (by decide),
    withDirs_mem (by decide), fun m => hdeep m _, fun m => hdeep m _⟩

theorem Built.makeDirs_eq (h : Built files₀ files path links p done) (hlinks : links ≤ Files.maxLinks) :
    makeDirs cwd path files = files := by
  have hsub (sub : Name) (hsub : sub ∈ stateDirs) : Files.mkdir files cwd (childPath path sub) = files := by
    have hproper := proper_stateDirs sub hsub
    simp only [stateDirs, List.mem_cons, List.not_mem_nil, or_false] at hsub
    rcases hsub with rfl | rfl | rfl
    · exact (h.leads.child hproper h.actions).mkdir_self hlinks
    · exact (h.leads.child hproper h.scripts).mkdir_self hlinks
    · exact (h.leads.child hproper h.log).mkdir_self hlinks
  rw [makeDirs, h.leads.mkdir_self hlinks, stateDirs, List.foldl_cons, hsub _ (by decide), List.foldl_cons,
    hsub _ (by decide), List.foldl_cons, hsub _ (by decide), List.foldl_nil]

/-! ### The actions -/

theorem scriptText_append (done done' : List ActionScript) (n : Name) :
    scriptText (done ++ done') n = (scriptText done' n).or (scriptText done n) := by
  rw [scriptText, List.filter_append, List.getLast?_append, Option.map_or]
  rfl

theorem linkScript_append (done done' : List ActionScript) (n : Name) :
    linkScript (done ++ done') n = (linkScript done n).or (linkScript done' n) := by
  rw [linkScript, List.find?_append, Option.map_or]
  rfl

theorem scriptText_singleton (a : ActionScript) (n : Name) :
    scriptText [a] n = if a.script = n then some (a.text.text?.getD .empty).chars else none := by
  unfold scriptText
  by_cases h : a.script = n
  · rw [if_pos h, List.filter_cons_of_pos (by simpa using h)]
    rfl
  · rw [if_neg h, List.filter_cons_of_neg (by simpa using h)]
    rfl

theorem linkScript_singleton (a : ActionScript) (n : Name) :
    linkScript [a] n = if a.link = n then some a.script else none := by
  rw [linkScript, List.find?_singleton]
  by_cases h : a.link = n
  · rw [if_pos h, if_pos (by simpa using h)]
    rfl
  · rw [if_neg h, if_neg (by simpa using h)]
    rfl

theorem Built.script_notLink (h : Built files₀ files path links p done) (n : Name) :
    ∀ target, files (n :: (cstr "scripts").chars :: p) ≠ some (.link target) := by
  rw [h.script]
  cases scriptText done n <;> simp

theorem Built.script_notDir (h : Built files₀ files path links p done) (n : Name) :
    files (n :: (cstr "scripts").chars :: p) ≠ some .dir := by
  rw [h.script]
  cases scriptText done n <;> simp

theorem Built.writeScript (h : Built files₀ files path links p done) (hlinks : links ≤ Files.maxLinks)
    {script : Name} (hscript : Proper script) :
    writeScript files cwd (scriptPath path script) (.text text) =
        some (Function.update files (script :: (cstr "scripts").chars :: p) (some (.file text.chars true))) ∧
      Files.Keeps files
        (Function.update files (script :: (cstr "scripts").chars :: p) (some (.file text.chars true))) := by
  have hleads := h.leads.child (proper_word (by simp)) h.scripts
  have hdir := h.script_notDir script
  have hlink := h.script_notLink script
  refine ⟨?_, Files.keeps_write hdir hlink⟩
  rw [Upkeeper.writeScript, scriptPath, childPath, childPath, hleads.openWrite_child hlinks hscript hdir hlink]
  rfl

/-- **One action more** -/
theorem Built.createAction (h : Built files₀ files path links p done) (hlinks : links ≤ Files.maxLinks)
    (hlink : Proper a.link) (ha : Creatable path a) :
    ∃ files', createAction cwd path files a = some files' ∧ Built files₀ files' path links p (done ++ [a]) := by
  obtain ⟨text, htext⟩ := ha.text
  obtain ⟨hwrite, hkeeps₁⟩ := @Built.writeScript _ _ _ _ _ cwd _ text h hlinks _ ha.script
  let at₁ : Place := a.script :: (cstr "scripts").chars :: p
  let at₂ : Place := a.link :: (cstr "actions").chars :: p
  let files₁ : Tree := Function.update files at₁ (some (.file text.chars true))
  let files₂ : Tree := Files.add files₁ (.link (scriptPath path a.script)) (some at₂)
  have hsub : (cstr "scripts").chars ≠ (cstr "actions").chars := by decide
  have hscripts (m : Name) : m :: (cstr "scripts").chars :: p ≠ at₂ := fun heq =>
    hsub (List.cons.inj (List.cons.inj heq).2).1
  have hactions (m : Name) : m :: (cstr "actions").chars :: p ≠ at₁ := fun heq =>
    hsub (List.cons.inj (List.cons.inj heq).2).1.symm
  have helse₁ {q : Place} (hq : q ≠ at₁) : files₁ q = files q := Function.update_of_ne hq _ _
  have helse₂ {q : Place} (hq : q ≠ at₂) : files₂ q = files₁ q := Files.add_of_ne hq
  have hsymlink : Files.symlink files₁ cwd (scriptPath path a.script) (actionPath path a.link) = files₂ :=
    ((h.leads.keeps hkeeps₁).child (proper_word (by simp)) (hkeeps₁.dir _ h.actions)).symlink_child hlinks hlink
      (childPath_ne_nil _ _)
  have hkeeps : Files.Keeps files files₂ := hkeeps₁.trans (Files.keeps_add _ _ _)
  refine ⟨files₂, ?_, ?_⟩
  · rw [Upkeeper.createAction, if_pos ⟨ha.linkFits, ha.scriptFits⟩, htext, hwrite, Option.bind_eq_bind,
      Option.bind_some, hsymlink]
  refine ⟨fun q hq => ?_, h.leads.keeps hkeeps, hkeeps.dir _ h.actions, hkeeps.dir _ h.scripts, hkeeps.dir _ h.log,
    fun m => ?_, fun m => ?_⟩
  · have hne (m sub : Name) : q ≠ m :: sub :: p := by
      rintro rfl
      exact hq ((List.suffix_cons _ _).trans (List.suffix_cons _ _))
    rw [helse₂ (hne _ _), helse₁ (hne _ _), h.outside q hq]
  · -- what is written last is in the script
    rw [helse₂ (hscripts m), scriptText_append, scriptText_singleton]
    by_cases hm : a.script = m
    · subst hm
      rw [if_pos rfl, htext]
      exact Function.update_self _ _ _
    · have hne : m :: (cstr "scripts").chars :: p ≠ at₁ := fun heq => hm (List.cons.inj heq).1.symm
      rw [if_neg hm, helse₁ hne, h.script, Option.none_or]
  · -- a link that is there stays
    rw [linkScript_append, linkScript_singleton]
    by_cases hm : a.link = m
    · subst hm
      rw [if_pos rfl]
      have hnode : files₂ at₂ = some ((files at₂).getD (.link (scriptPath path a.script))) := by
        rw [← helse₁ (hactions _)]
        exact Files.add_self
      rw [hnode, h.link]
      cases linkScript done a.link <;> rfl
    · have hne : m :: (cstr "actions").chars :: p ≠ at₂ := fun heq => hm (List.cons.inj heq).1.symm
      rw [if_neg hm, helse₂ hne, helse₁ (hactions m), h.link, Option.or_none]

theorem Built.createActions {todo : List ActionScript} (h : Built files₀ files path links p done)
    (hlinks : links ≤ Files.maxLinks) (htodo : ∀ a ∈ todo, Proper a.link ∧ Creatable path a) :
    ∃ files', todo.foldlM (Upkeeper.createAction cwd path) files = some files' ∧
      Built files₀ files' path links p (done ++ todo) := by
  induction todo generalizing files done with
  | nil => exact ⟨files, rfl, by rwa [List.append_nil]⟩
  | cons a todo ih =>
    obtain ⟨hlink, ha⟩ := htodo a List.mem_cons_self
    obtain ⟨files₁, hfiles₁, h₁⟩ := @Built.createAction _ _ _ _ _ cwd _ _ h hlinks hlink ha
    obtain ⟨files', hfiles', h'⟩ := ih h₁ fun b hb => htodo b (List.mem_cons_of_mem _ hb)
    refine ⟨files', ?_, by rwa [List.append_cons]⟩
    rw [List.foldlM_cons, hfiles₁, Option.bind_eq_bind, Option.bind_some, hfiles']

theorem proper_svcActions_link (h : a ∈ svcActions buddy) : Proper a.link := by
  rcases List.mem_append.mp h with h | h
  · simp only [List.mem_cons, List.not_mem_nil, or_false] at h
    rcases h with rfl | rfl | rfl <;> exact proper_word (by simp)
  · obtain ⟨⟨action, n⟩, -, rfl⟩ := List.mem_map.mp h
    exact proper_twoDigits n

/-- The link to the socket of the controller is none of an action. -/
theorem Built.symlink_sock (h : Built files₀ files path links p done) (hlinks : links ≤ Files.maxLinks)
    (target : List UInt8) :
    Built files₀ (Files.symlink files cwd target (childPath path (cstr "controller.sock").chars)) path links p
      done := by
  by_cases htarget : target = []
  · rw [htarget]
    exact h
  · rw [childPath, h.leads.symlink_child hlinks (proper_word (by simp)) htarget]
    have hkeeps := Files.keeps_add files (.link target) ((cstr "controller.sock").chars :: p)
    refine ⟨fun q hq => ?_, h.leads.keeps hkeeps, hkeeps.dir _ h.actions, hkeeps.dir _ h.scripts, hkeeps.dir _ h.log,
      fun m => ?_, fun m => ?_⟩
    · rw [Files.add_of_ne, h.outside q hq]
      rintro rfl
      exact hq (List.suffix_cons _ _)
    · rw [Files.add_of_ne (ne_of_length (by simp)), h.script]
    · rw [Files.add_of_ne (ne_of_length (by simp)), h.link]

/-! ### Generations -/

theorem createBuddyStatedir_of_built (hinstall : Installable run n buddy) (hlinks : links ≤ Files.maxLinks)
    (h : Built files₀ (makeDirs cwd (childPath run n) (Files.mkdir files cwd run)) (childPath run n) links p done) :
    ∃ files', createBuddyStatedir cwd run sock buddy files = some files' ∧
      Built files₀ files' (childPath run n) links p (done ++ svcActions buddy) := by
  obtain ⟨files₁, hfiles₁, h₁⟩ := @Built.createActions _ _ _ _ _ cwd _ _ h hlinks fun a ha =>
    ⟨proper_svcActions_link ha, hinstall.actions a ha⟩
  refine ⟨Files.symlink files₁ cwd sock.chars (childPath (childPath run n) (cstr "controller.sock").chars), ?_,
    h₁.symlink_sock hlinks sock.chars⟩
  rw [createBuddyStatedir, hinstall.name, if_pos hinstall.sockFits]
  show Option.bind ((svcActions buddy).foldlM (Upkeeper.createAction cwd (childPath run n))
    (makeDirs cwd (childPath run n) (Files.mkdir files cwd run))) _ = _
  rw [hfiles₁]
  rfl

theorem Built.generation (h : Built files₀ files (childPath run n) links (n :: d) done)
    (hrun : Files.Leads files₀ run links d) (hfresh : Fresh files₀ (n :: d)) (hlinks : links ≤ Files.maxLinks)
    (hinstall : Installable run n buddy) :
    ∃ files', createBuddyStatedir cwd run sock buddy files = some files' ∧
      Built files₀ files' (childPath run n) links (n :: d) (done ++ svcActions buddy) := by
  refine createBuddyStatedir_of_built hinstall hlinks ?_
  rw [(hrun.keeps (keeps_of_outside hfresh h.outside)).mkdir_self hlinks, h.makeDirs_eq hlinks]
  exact h

theorem Built.generations {gens : List SvcDesc} (h : Built files₀ files (childPath run n) links (n :: d) done)
    (hrun : Files.Leads files₀ run links d) (hfresh : Fresh files₀ (n :: d)) (hlinks : links ≤ Files.maxLinks)
    (hgens : ∀ b ∈ gens, Installable run n b) :
    ∃ files', gens.foldlM (fun files b => createBuddyStatedir cwd run sock b files) files = some files' ∧
      Built files₀ files' (childPath run n) links (n :: d) (done ++ gens.flatMap svcActions) := by
  induction gens generalizing files done with
  | nil => exact ⟨files, rfl, by rwa [List.flatMap_nil, List.append_nil]⟩
  | cons b gens ih =>
    obtain ⟨files₁, hfiles₁, h₁⟩ := @Built.generation _ _ _ _ _ _ cwd _ _ sock h hrun hfresh hlinks
      (hgens b List.mem_cons_self)
    obtain ⟨files', hfiles', h'⟩ := ih h₁ fun b' hb' => hgens b' (List.mem_cons_of_mem _ hb')
    refine ⟨files', ?_, by rwa [List.flatMap_cons, ← List.append_assoc]⟩
    rw [List.foldlM_cons, hfiles₁, Option.bind_eq_bind, Option.bind_some, hfiles']

/-- **Every history of a state directory** is one of what was created in it. -/
theorem built_generations {gens : List SvcDesc} (hne : gens ≠ [])
    (hrun : Files.Leads (Files.mkdir files cwd run) run links d) (hlinks : links ≤ Files.maxLinks) (hn : Proper n)
    (hfresh : Fresh (Files.mkdir files cwd run) (n :: d)) (hgens : ∀ b ∈ gens, Installable run n b) :
    ∃ files', gens.foldlM (fun files b => createBuddyStatedir cwd run sock b files) files = some files' ∧
      Built (Files.mkdir files cwd run) files' (childPath run n) links (n :: d) (gens.flatMap svcActions) := by
  obtain ⟨b, gens, rfl⟩ := List.exists_cons_of_ne_nil hne
  obtain ⟨files₁, hfiles₁, h₁⟩ := @createBuddyStatedir_of_built _ files _ _ _ _ cwd _ b sock
    (hgens b List.mem_cons_self) hlinks (built_fresh hrun hlinks hn hfresh)
  obtain ⟨files', hfiles', h'⟩ := @Built.generations _ _ _ _ _ _ cwd _ sock gens h₁ hrun hfresh hlinks
    fun b' hb' => hgens b' (List.mem_cons_of_mem _ hb')
  refine ⟨files', ?_, h'⟩
  rw [List.foldlM_cons, hfiles₁, Option.bind_eq_bind, Option.bind_some, hfiles']

theorem creatable_generations {gens : List SvcDesc} (hgens : ∀ b ∈ gens, Installable run n b) :
    ∀ a ∈ gens.flatMap svcActions, Creatable (childPath run n) a := by
  intro a ha
  obtain ⟨b, hb, ha⟩ := List.mem_flatMap.mp ha
  exact (hgens b hb).actions a ha

theorem mem_generations {earlier : List SvcDesc} (ha : a ∈ svcActions buddy) :
    a ∈ (earlier ++ [buddy]).flatMap svcActions :=
  List.mem_flatMap.mpr ⟨buddy, by simp, ha⟩

/-! ### What buddy runs -/

theorem Built.stat_action {buddyPathPrefix : CStr} (h : Built files₀ files path links p done)
    (hlinks : links + (links + 1) ≤ Files.maxLinks) (hfinds : BuddyPrefix path buddy buddyPathPrefix)
    (ha : a ∈ svcActions buddy) {suffix : CStr}
    (hsuffix : suffix.chars = (cstr "actions").chars ++ Path.slash :: a.link) {script : Name} (hscript : Proper script)
    (hlink : linkScript done a.link = some script) :
    Files.stat files cwd (buddyPath buddyPathPrefix suffix).chars =
      (linkText done a.link).map fun text => .file text true := by
  have hpath : (buddyPath buddyPathPrefix suffix).chars =
      (buddyPathPrefix.chars ++ Path.slash :: (cstr "actions").chars) ++ Path.slash :: a.link := by
    have hlength : suffix.chars.length = a.link.length + 8 := by
      rw [hsuffix, List.length_append, List.length_cons]
      show 7 + (a.link.length + 1) = _
      omega
    have hfits := hfinds.fits a ha
    rw [buddyPath_eq (by omega)]
    simp only [CStr.concat_chars, List.flatMap_cons, List.flatMap_nil, List.append_nil, hsuffix]
    simp only [List.append_assoc]
    rfl
  have hleads : Files.Leads files buddyPathPrefix.chars links p := by
    refine ⟨hfinds.absolute, ?_, h.leads.dir⟩
    rw [hfinds.components]
    exact h.leads.resolves
  have hnode := h.link a.link
  rw [hlink] at hnode
  rw [hpath, (hleads.child (proper_word (by simp)) h.actions).stat_link (proper_svcActions_link ha) hnode hscript rfl
    (h.leads.child (proper_word (by simp)) h.scripts) (h.script_notLink script) hlinks, h.script, linkText, hlink,
    Option.bind_some]

theorem exists_linkScript (ha : a ∈ done) : ∃ b ∈ done, b.link = a.link ∧ linkScript done a.link = some b.script := by
  cases hfind : done.find? fun b => b.link = a.link with
  | none => exact absurd (List.find?_eq_none.mp hfind a ha) (by simp)
  | some b =>
    refine ⟨b, List.mem_of_find?_eq_some hfind, by simpa using List.find?_some hfind, ?_⟩
    rw [linkScript, hfind]
    rfl

theorem Built.actionsRun_iff {buddyPathPrefix : CStr} (h : Built files₀ files path links p done)
    (hlinks : links + (links + 1) ≤ Files.maxLinks) (hfinds : BuddyPrefix path buddy buddyPathPrefix)
    (hdone : ∀ a ∈ done, Creatable path a) (hsub : ∀ a ∈ svcActions buddy, a ∈ done) :
    ActionsRun files buddyPathPrefix buddy ↔
      ∀ a ∈ svcActions buddy, linkText done a.link = a.text.text?.map CStr.chars := by
  have hstat (cwd : Place) {a : ActionScript} (ha : a ∈ svcActions buddy) {suffix : CStr}
      (hsuffix : suffix.chars = (cstr "actions").chars ++ Path.slash :: a.link) :
      Files.stat files cwd (buddyPath buddyPathPrefix suffix).chars =
        (linkText done a.link).map fun text => .file text true := by
    obtain ⟨b, hb, -, hlink⟩ := exists_linkScript (hsub a ha)
    exact h.stat_action hlinks hfinds ha hsuffix (hdone b hb).script hlink
  constructor
  · intro hrun a ha
    obtain ⟨action, hconfigured, hsuffix⟩ := configured_of_mem ha
    obtain ⟨text, htext⟩ := (hdone a (hsub a ha)).text
    rw [htext] at hconfigured
    have hfile := hrun [] action a.script text hconfigured
    rw [hstat [] ha hsuffix] at hfile
    obtain ⟨text', htext', heq⟩ := Option.map_eq_some_iff.mp hfile
    rw [htext', htext, (Node.file.inj heq).1]
    rfl
  · intro htexts cwd action name text hconfigured
    obtain ⟨a, ha, -, htext, hsuffix⟩ := mem_of_configured hconfigured
    rw [hstat cwd ha hsuffix, htexts a ha, htext]
    rfl

theorem exists_scriptText (ha : a ∈ done) : ∃ b ∈ done, b.script = a.script ∧
    scriptText done a.script = some (b.text.text?.getD .empty).chars := by
  have hne : done.filter (fun b => b.script = a.script) ≠ [] :=
    List.ne_nil_of_mem (List.mem_filter.mpr ⟨ha, by simp⟩)
  obtain ⟨hmem, hscript⟩ := List.mem_filter.mp (List.getLast_mem hne)
  refine ⟨_, hmem, by simpa using hscript, ?_⟩
  rw [scriptText, List.getLast?_eq_some_getLast hne]
  rfl

theorem linkText_of_names {earlier : List SvcDesc} (hsame : ∀ b ∈ earlier, actionNames b = actionNames buddy)
    (ha : a ∈ svcActions buddy) :
    linkText ((earlier ++ [buddy]).flatMap svcActions) a.link = scriptText (svcActions buddy) a.script := by
  obtain ⟨b, hb, hlink, hscript⟩ := exists_linkScript (mem_generations ha)
  obtain ⟨gen, hgen, hb⟩ := List.mem_flatMap.mp hb
  have hnames : actionNames gen = actionNames buddy := by
    rcases List.mem_append.mp hgen with hgen | hgen
    · exact hsame gen hgen
    · rw [List.mem_singleton.mp hgen]
  -- the action for which the link was made has the names of one of the last generation, and so of this one
  have hpair : (b.link, b.script) ∈ actionNames buddy := hnames ▸ List.mem_map_of_mem hb
  obtain ⟨a', ha', heq⟩ := List.mem_map.mp hpair
  obtain ⟨hlink', hscript'⟩ := Prod.mk.inj heq
  have haa' : a' = a := List.inj_on_of_nodup_map (svcActions_link_nodup buddy) ha' ha (hlink'.trans hlink)
  subst haa'
  obtain ⟨last, -, -, htext⟩ := exists_scriptText ha
  rw [linkText, hscript, Option.bind_some, ← hscript', List.flatMap_append, scriptText_append, List.flatMap_singleton,
    htext]
  rfl

theorem scriptText_iff_namesAgree (htexts : ∀ a ∈ svcActions buddy, ∃ text, a.text = .text text) :
    (∀ a ∈ svcActions buddy, scriptText (svcActions buddy) a.script = a.text.text?.map CStr.chars) ↔
      NamesAgree buddy := by
  constructor
  · intro h a ha a' ha' hscript
    obtain ⟨text, htext⟩ := htexts a ha
    obtain ⟨text', htext'⟩ := htexts a' ha'
    have heq := h a ha
    rw [hscript, h a' ha', htext, htext'] at heq
    rw [htext, htext', CStr.ext (Option.some.inj heq)]
  · intro h a ha
    obtain ⟨b, hb, hscript, htext⟩ := exists_scriptText ha
    obtain ⟨text, heq⟩ := htexts a ha
    rw [htext, h b hb a ha hscript, heq]
    rfl

/-! ### A service with a custom action -/

/-- A generation of `web` -/
def webGeneration (action script : CStr) : SvcDesc :=
  { SvcDesc.zero with
    name := strncpyString (cstr "web")
    scripts := fun _ => .text (cstr "true")
    customActions := some [⟨strncpyString action, script⟩] }

/-- Nothing but the root -/
def rootOnly : Tree := fun q => if q = [] then some .dir else none

theorem mkdir_rootOnly : Files.mkdir rootOnly [] (cstr "/r").chars =
    Function.update rootOnly [(cstr "r").chars] (some .dir) := by
  have hplace : Files.lastPlace rootOnly [] (cstr "/r").chars = some [(cstr "r").chars] :=
    Files.lastPlace_eq (show Path.components (cstr "/r").chars = [] ++ [(cstr "r").chars] by decide) (.nil 0 _)
      (Nat.zero_le _) rfl ⟨by decide, by decide, by decide, by decide⟩
  rw [Files.mkdir, hplace]
  rfl

theorem leads_rootOnly : Files.Leads (Files.mkdir rootOnly [] (cstr "/r").chars) (cstr "/r").chars 0
    [(cstr "r").chars] := by
  have hdir : Files.mkdir rootOnly [] (cstr "/r").chars [(cstr "r").chars] = some .dir := by
    rw [mkdir_rootOnly, Function.update_self]
  refine ⟨by decide, ?_, hdir⟩
  rw [show Path.components (cstr "/r").chars = [(cstr "r").chars] by decide]
  refine .name (Files.entry_proper ?_ ⟨by decide, by decide, by decide, by decide⟩) (by rw [hdir]; simp) (.nil 0 _)
  rw [mkdir_rootOnly]
  rfl

theorem fresh_rootOnly : Fresh (Files.mkdir rootOnly [] (cstr "/r").chars) [(cstr "web").chars, (cstr "r").chars] := by
  rintro q ⟨q', rfl⟩
  rw [mkdir_rootOnly, Function.update_of_ne (ne_of_length (by simp))]
  exact if_neg (by simp)

theorem mem_svcActions_webGeneration {action script : CStr} {a : ActionScript}
    (ha : a ∈ svcActions (webGeneration action script)) :
    (∃ word ∈ [cstr "start", cstr "stop", cstr "reload"], a = ⟨word.chars, word.chars, .text (cstr "true")⟩) ∨
      a = ⟨twoDigits 0, (strncpyString action).chars, .text script⟩ := by
  rcases List.mem_append.mp ha with ha | ha
  · simp only [List.mem_cons, List.not_mem_nil, or_false] at ha
    rcases ha with rfl | rfl | rfl
    · exact Or.inl ⟨cstr "start", by simp, rfl⟩
    · exact Or.inl ⟨cstr "stop", by simp, rfl⟩
    · exact Or.inl ⟨cstr "reload", by simp, rfl⟩
  · exact Or.inr (List.mem_singleton.mp ha)

theorem installable_webGeneration {action script : CStr} (h : action ∈ [cstr "dump", cstr "backup"]) :
    Installable (cstr "/r").chars (cstr "web").chars (webGeneration action script) := by
  refine ⟨rfl, fun a ha => ?_, by decide⟩
  simp only [List.mem_cons, List.not_mem_nil, or_false] at h
  rcases mem_svcActions_webGeneration ha with ⟨word, hword, rfl⟩ | rfl
  · simp only [List.mem_cons, List.not_mem_nil, or_false] at hword
    rcases hword with rfl | rfl | rfl <;> exact ⟨proper_word (by simp), ⟨_, rfl⟩, by decide, by decide⟩
  · rcases h with rfl | rfl <;>
      refine ⟨⟨?_, ?_, ?_, ?_⟩, ⟨_, rfl⟩, ?_, ?_⟩ <;> dsimp only <;> decide

theorem word_ne_dump {word : CStr} (h : word ∈ [cstr "start", cstr "stop", cstr "reload"]) :
    word.chars ≠ (strncpyString (cstr "dump")).chars := by
  simp only [List.mem_cons, List.not_mem_nil, or_false] at h
  rcases h with rfl | rfl | rfl <;> decide

theorem installable_generations {action action' script script' : CStr} (h : action ∈ [cstr "dump", cstr "backup"])
    (h' : action' ∈ [cstr "dump", cstr "backup"]) : ∀ b ∈ [webGeneration action script] ++
      [webGeneration action' script'], Installable (cstr "/r").chars (cstr "web").chars b := by
  intro b hb
  simp only [List.cons_append, List.nil_append, List.mem_cons, List.not_mem_nil, or_false] at hb
  rcases hb with rfl | rfl
  · exact installable_webGeneration h
  · exact installable_webGeneration h'

theorem buddyPrefix_webGeneration (action script : CStr) :
    BuddyPrefix (childPath (cstr "/r").chars (cstr "web").chars) (webGeneration action script) (cstr "/r/web") := by
  refine ⟨by decide, rfl, fun a ha => ?_⟩
  rcases mem_svcActions_webGeneration ha with ⟨word, hword, rfl⟩ | rfl
  · simp only [List.mem_cons, List.not_mem_nil, or_false] at hword
    rcases hword with rfl | rfl | rfl <;> decide
  · dsimp only
    decide

/-! ### Histories of a state directory -/

section

variable {earlier : List SvcDesc} {buddyPathPrefix : CStr}

/-- **What the actions run after every history of a state directory**: the service is created again and again, each
time in another generation. Nothing changes outside of the directory, and the actions of the last generation run their
scripts exactly if the scripts that their links were made for were last written with those texts. -/
theorem actions_run_iff (hrun : Files.Leads (Files.mkdir files cwd run) run links d)
    (hlinks : links + (links + 1) ≤ Files.maxLinks) (hn : Proper n)
    (hfresh : Fresh (Files.mkdir files cwd run) (n :: d)) (hgens : ∀ b ∈ earlier ++ [buddy], Installable run n b)
    (hfinds : BuddyPrefix (childPath run n) buddy buddyPathPrefix) :
    ∃ files',
      (earlier ++ [buddy]).foldlM (fun files b => createBuddyStatedir cwd run sock b files) files = some files' ∧
      (∀ q, ¬(n :: d) <:+ q → files' q = Files.mkdir files cwd run q) ∧
      (ActionsRun files' buddyPathPrefix buddy ↔ ∀ a ∈ svcActions buddy,
        linkText ((earlier ++ [buddy]).flatMap svcActions) a.link = a.text.text?.map CStr.chars) := by
  obtain ⟨files', hfiles', hbuilt⟩ := @built_generations _ _ _ _ _ cwd sock (earlier ++ [buddy]) (by simp) hrun
    ((Nat.le_add_right _ _).trans hlinks) hn hfresh hgens
  exact ⟨files', hfiles', hbuilt.outside,
    hbuilt.actionsRun_iff hlinks hfinds (creatable_generations hgens) fun _ => mem_generations⟩

/-- Action `00` is renamed: its link leads to the script of the old name, with the old text. -/
theorem not_actions_run_renamed : ∃ files',
    ([webGeneration (cstr "dump") (cstr "old")] ++ [webGeneration (cstr "backup") (cstr "new")]).foldlM
      (fun files b => createBuddyStatedir [] (cstr "/r").chars (cstr "/s") b files) rootOnly = some files' ∧
    ¬ActionsRun files' (cstr "/r/web") (webGeneration (cstr "backup") (cstr "new")) := by
  obtain ⟨files', hfiles', -, hiff⟩ := @actions_run_iff _ _ _ _ _ _ _ (cstr "/s") _ _ leads_rootOnly (by decide)
    ⟨by decide, by decide, by decide, by decide⟩ fresh_rootOnly
    (@installable_generations (cstr "dump") (cstr "backup") (cstr "old") (cstr "new") (by simp) (by simp))
    (buddyPrefix_webGeneration _ _)
  refine ⟨files', hfiles', fun hrun => ?_⟩
  have htext := hiff.mp hrun ⟨twoDigits 0, (strncpyString (cstr "backup")).chars, .text (cstr "new")⟩
    (List.mem_append_right _ List.mem_cons_self)
  exact absurd htext (by decide)

/-- **While the actions keep their names**, the scripts that they run are those of the last generation, exactly if no
two actions of one name have different scripts. -/
theorem actions_run_iff_namesAgree (hrun : Files.Leads (Files.mkdir files cwd run) run links d)
    (hlinks : links + (links + 1) ≤ Files.maxLinks) (hn : Proper n)
    (hfresh : Fresh (Files.mkdir files cwd run) (n :: d)) (hgens : ∀ b ∈ earlier ++ [buddy], Installable run n b)
    (hfinds : BuddyPrefix (childPath run n) buddy buddyPathPrefix)
    (hsame : ∀ b ∈ earlier, actionNames b = actionNames buddy) :
    ∃ files',
      (earlier ++ [buddy]).foldlM (fun files b => createBuddyStatedir cwd run sock b files) files = some files' ∧
      (ActionsRun files' buddyPathPrefix buddy ↔ NamesAgree buddy) := by
  obtain ⟨files', hfiles', hbuilt⟩ := @built_generations _ _ _ _ _ cwd sock (earlier ++ [buddy]) (by simp) hrun
    ((Nat.le_add_right _ _).trans hlinks) hn hfresh hgens
  have hlast := (hgens buddy (by simp)).actions
  refine ⟨files', hfiles', ?_⟩
  rw [← scriptText_iff_namesAgree fun a ha => (hlast a ha).text,
    hbuilt.actionsRun_iff hlinks hfinds (creatable_generations hgens) fun _ => mem_generations]
  refine forall₂_congr fun a ha => ?_
  rw [linkText_of_names hsame ha]

/-- Action `00` gets another script, and runs it. -/
theorem actions_run_rewritten : ∃ files',
    ([webGeneration (cstr "dump") (cstr "old")] ++ [webGeneration (cstr "dump") (cstr "new")]).foldlM
      (fun files b => createBuddyStatedir [] (cstr "/r").chars (cstr "/s") b files) rootOnly = some files' ∧
    ActionsRun files' (cstr "/r/web") (webGeneration (cstr "dump") (cstr "new")) := by
  obtain ⟨files', hfiles', hiff⟩ := @actions_run_iff_namesAgree _ _ _ _ _ _ _ (cstr "/s") _ _ leads_rootOnly (by decide)
    ⟨by decide, by decide, by decide, by decide⟩ fresh_rootOnly
    (@installable_generations (cstr "dump") (cstr "dump") (cstr "old") (cstr "new") (by simp) (by simp))
    (buddyPrefix_webGeneration _ _) (by simp; rfl)
  refine ⟨files', hfiles', hiff.mpr fun a ha a' ha' hscript => ?_⟩
  rcases mem_svcActions_webGeneration ha with ⟨word, hword, rfl⟩ | rfl <;>
    rcases mem_svcActions_webGeneration ha' with ⟨word', hword', rfl⟩ | rfl
  · rfl
  · exact absurd hscript (word_ne_dump hword)
  · exact absurd hscript.symm (word_ne_dump hword')
  · rfl

end

end Upkeeper
