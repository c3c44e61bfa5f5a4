import Mathlib.Algebra.BigOperators.Group.Finset.Basic
import Mathlib.Algebra.Order.BigOperators.Group.Finset
import Upkeeper.Controller.Actions
import Upkeeper.Library.Decimal
import Upkeeper.Util.Remove
/-!
# Cleaning up after buddies (`ctrl_buddy.c`: `remove_buddy_statedir`, `handle_buddies`)

The state directory of a buddy has links in it: one to each script, and one to the socket of the controller. As
`upk_rm_rf` may stumble over links, `remove_buddy_statedir` unlinks them first, one by one. So it removes the directory
whatever else has come into it, if there are no links but those (`removeBuddyStatedir_eq`).

In each turn of the event loop, `handle_buddies` tries to connect to each buddy that has a state directory. It removes
the directories of those that do not answer, and touches nothing else (`handleBuddies_clears`).
-/

namespace Upkeeper

open FileTree (Name DirEntry Proper FileSystem)

/-! ### The state directory of a buddy -/

/-- `%02d` -/
def twoDigits (n : Nat) : Name := if n < 10 then 48 :: Decimal.digits n else Decimal.digits n

/-- The path of the link to an action -/
def actionPath (path : List UInt8) (action : Name) : List UInt8 :=
  childPath (childPath path (cstr "actions").chars) action

/-- The path of a script -/
def scriptPath (path : List UInt8) (script : Name) : List UInt8 :=
  childPath (childPath path (cstr "scripts").chars) script

/-- The custom actions: the names of the links, and those of the scripts -/
def customLinks (buddy : SvcDesc) : List (Name × Name) :=
  (buddy.customActions.getD []).zipIdx.map fun (action, n) => (twoDigits n, action.name.chars)

/-- All actions, in the order in which they are removed -/
def actionLinks (buddy : SvcDesc) : List (Name × Name) :=
  customLinks buddy ++ [(cstr "reload").chars, (cstr "start").chars, (cstr "stop").chars].map fun name => (name, name)

/-- The paths that `remove_buddy_statedir` unlinks, one after another -/
def statePaths (path : List UInt8) (buddy : SvcDesc) : List (List UInt8) :=
  childPath path (cstr "controller.sock").chars ::
    (actionLinks buddy).flatMap fun (action, script) => [actionPath path action, scriptPath path script]

section

variable {ι : Type} [DecidableEq ι] (fs : FileSystem ι) (rd : Reading)

/-- `unlink`, of a path that fits. Whether it has removed anything is not looked at. -/
def unlinkPath (es : Finset (DirEntry ι)) (path : List UInt8) : Option (Finset (DirEntry ι)) :=
  if path.length < upkMaxPathLen then some ((fs.unlink es path).getD es) else none

/-- `rmdir`, of a path that fits -/
def rmdirPath (es : Finset (DirEntry ι)) (path : List UInt8) : Option (Finset (DirEntry ι)) :=
  if path.length < upkMaxPathLen then some ((fs.rmdir es path).getD es) else none

/-- The loop over the log directory, which appends each name to the path and removes nothing -/
def logNode (path : List UInt8) (name : Name) : Option (List UInt8) :=
  if name.head? = some 46 then some path
  else if (path ++ name).length < upkMaxPathLen then some (path ++ name)
  else none

/-- `remove_buddy_statedir`. `closedir` of a directory that could not be opened is a fault. -/
def removeBuddyStatedir (svcRunPath : List UInt8) (buddy : SvcDesc) (es : Finset (DirEntry ι)) :
    Option (Finset (DirEntry ι)) := do
  let path := childPath svcRunPath buddy.name.chars
  let es ← (statePaths path buddy).foldlM (unlinkPath fs) es
  let log := childPath (childPath path (cstr "log").chars) []
  let names ← fs.opendir es log
  let _ ← (rd.readdir log names).foldlM logNode log
  let es ← rmdirPath fs es log
  let es ← rmdirPath fs es (childPath (childPath path (cstr "scripts").chars) [])
  let es ← rmdirPath fs es (childPath (childPath path (cstr "actions").chars) [])
  let es ← rmdirPath fs es path
  let (_, es) ← upkRmRf fs rd upkMaxPathLen path es
  some es

/-- `lookup_buddy_from_path`, of a name in a directory, which is its own `basename` -/
def lookupBuddyFromPath (svclist : List SvcDesc) (name : Name) : Option SvcDesc :=
  svclist.find? fun buddy => buddy.name.chars == name

/-- The path at which `handle_buddies` looks for a buddy -/
def buddySockOf (b : Buddies) (name : Name) : List UInt8 :=
  childPath (childPath b.svcRunPath.chars name) (cstr "buddy.sock").chars

/-- The body of the loop. A buddy that answers is asked for its state, and the one of a service that does not is told to
shut down, in case it answers after all (`remove_buddy`, `kill_buddy`); neither touches a file. -/
def handleBuddy (b : Buddies) (svclist : List SvcDesc) (es : Finset (DirEntry ι)) (name : Name) :
    Option (Finset (DirEntry ι)) :=
  if name.head? = some 46 then some es
  else if upkMaxPathLen ≤ (buddySockOf b name).length then none
  else if 0 ≤ buddyConnect b (.ofChars (buddySockOf b name)) then some es
  else
    match lookupBuddyFromPath svclist name with
    | some buddy => removeBuddyStatedir fs rd b.svcRunPath.chars buddy es
    | none => (upkRmRf fs rd upkMaxPathLen (childPath b.svcRunPath.chars name) es).map Prod.snd

/-- `handle_buddies` -/
def handleBuddies (b : Buddies) (svclist : List SvcDesc) (es : Finset (DirEntry ι)) : Option (Finset (DirEntry ι)) :=
  match fs.opendir es (childPath b.svcRunPath.chars []) with
  | none => some es
  | some names => (rd.readdir b.svcRunPath.chars names).foldlM (handleBuddy fs rd b svclist) es

end

/-! ### What they are for -/

/-- The links in the state directory `x` -/
inductive StateLink {ι : Type} (fs : FileSystem ι) (es : Finset (DirEntry ι)) (buddy : SvcDesc) (x : ι) :
    DirEntry ι → Prop
  | controller : StateLink fs es buddy x (x, (cstr "controller.sock").chars)
  | action (link : Name × Name) (hlink : link ∈ actionLinks buddy) (hactions : (x, (cstr "actions").chars) ∈ es) :
    StateLink fs es buddy x (fs.node (x, (cstr "actions").chars), link.1)

section

variable {ι : Type} [DecidableEq ι] (fs : FileSystem ι)

/-- The directory that `e` stands for is the state directory of a buddy: the actions have plain names, it has a log, its
links are those of the buddy, and the paths that come up fit. -/
structure StateDir (es : Finset (DirEntry ι)) (path : List UInt8) (e : DirEntry ι) (buddy : SvcDesc) : Prop where
  dir : fs.kind (fs.node e) = .dir
  names : ∀ action ∈ buddy.customActions.getD [], Proper action.name.chars
  log : (fs.node e, (cstr "log").chars) ∈ es
  logDir : fs.kind (fs.node (fs.node e, (cstr "log").chars)) = .dir
  links : ∀ a ∈ es, fs.Below (fs.node e) a.1 → fs.kind (fs.node a) = .link → StateLink fs es buddy (fs.node e) a
  fits : ∀ q ∈ statePaths path buddy, q.length < upkMaxPathLen
  fitsBelow : ∀ q, Extends path q → (fs.stat es q).isSome → q.length + 1 < upkMaxPathLen
  fitsDirs : path.length + 9 < upkMaxPathLen
  fitsLog : path.length + 5 + ∑ n ∈ FileSystem.names es (fs.node (fs.node e, (cstr "log").chars)), n.length
    < upkMaxPathLen

/-- What `handle_buddies` meets under a name whose buddy does not answer: the state directory of a service, or otherwise
a file, or a directory without links -/
def Cleanable (b : Buddies) (svclist : List SvcDesc) (es : Finset (DirEntry ι)) (e : DirEntry ι) : Prop :=
  let path := childPath b.svcRunPath.chars e.2
  match lookupBuddyFromPath svclist e.2 with
  | some buddy => StateDir fs es path e buddy
  | none => fs.kind (fs.node e) = .file ∨
    fs.kind (fs.node e) = .dir ∧ (∀ a ∈ es, fs.Below (fs.node e) a.1 → fs.kind (fs.node a) ≠ .link) ∧
      ∀ q, Extends path q → (fs.stat es q).isSome → q.length + 1 < upkMaxPathLen

end

/-! ### Names -/

theorem proper_of_digits {n : Name} (hne : n ≠ []) (hn : ∀ c ∈ n, Decimal.IsDigit c) : Proper n := by
  have hno (c : UInt8) (hc : ¬Decimal.IsDigit c) : c ∉ n := fun hmem => hc (hn c hmem)
  refine ⟨hne, hno _ (by decide), ?_, ?_⟩
  · rintro rfl
    exact hno 46 (by decide) (by decide)
  · rintro rfl
    exact hno 46 (by decide) (by decide)

theorem proper_twoDigits (n : Nat) : Proper (twoDigits n) := by
  unfold twoDigits
  split
  · refine proper_of_digits (by simp) fun c hc => ?_
    rcases List.mem_cons.mp hc with rfl | hc
    · decide
    · exact Decimal.isDigit_of_mem c hc
  · exact proper_of_digits (Decimal.digits_ne_nil n) Decimal.isDigit_of_mem

theorem proper_word {s : CStr} (h : s.chars ∈ [(cstr "reload").chars, (cstr "start").chars, (cstr "stop").chars,
    (cstr "controller.sock").chars, (cstr "actions").chars, (cstr "scripts").chars, (cstr "log").chars]) :
    Proper s.chars := by
  simp only [List.mem_cons, List.not_mem_nil, or_false] at h
  rcases h with h | h | h | h | h | h | h <;> rw [h] <;> exact ⟨by decide, by decide, by decide, by decide⟩

theorem proper_actionLinks {buddy : SvcDesc} (h : ∀ action ∈ buddy.customActions.getD [], Proper action.name.chars)
    {link : Name × Name} (hlink : link ∈ actionLinks buddy) : Proper link.1 ∧ Proper link.2 := by
  rcases List.mem_append.mp hlink with hlink | hlink
  · obtain ⟨⟨action, n⟩, hmem, rfl⟩ := List.mem_map.mp hlink
    exact ⟨proper_twoDigits n, h action (List.fst_mem_of_mem_zipIdx hmem)⟩
  · obtain ⟨name, hmem, rfl⟩ := List.mem_map.mp hlink
    have hname : Proper name := by
      simp only [List.mem_cons, List.not_mem_nil, or_false] at hmem
      rcases hmem with rfl | rfl | rfl <;> exact proper_word (by simp)
    exact ⟨hname, hname⟩

/-! ### Removing a state directory -/

section

variable {ι : Type} [DecidableEq ι] {fs : FileSystem ι} {rd : Reading} {es es' : Finset (DirEntry ι)} {e : DirEntry ι}
  {path : List UInt8} {n sub : Name} {x : ι} {buddy : SvcDesc}

theorem unlinkPath_within (h : fs.Within es x es') (hfits : path.length < upkMaxPathLen)
    (hpath : ∀ a, fs.lastEntry es' path = some a → fs.Below x a.1) :
    ∃ out, unlinkPath fs es' path = some out ∧ fs.Within es x out ∧ out ⊆ es' ∧
      (∀ a ∈ es', fs.kind (fs.node a) = .dir → a ∈ out) ∧
      ∀ a, fs.lastEntry es' path = some a → fs.kind (fs.node a) ≠ .dir → a ∉ out := by
  refine ⟨_, if_pos hfits, h.unlink hpath, ?_, fun a ha hdir => ?_, fun a hlast hkind => ?_⟩
  · cases hout : fs.unlink es' path with
    | none => exact Finset.Subset.refl _
    | some out => exact (h.wf.unlink hout).1
  · cases hout : fs.unlink es' path with
    | none => exact ha
    | some out =>
      obtain ⟨a', -, hkind, rfl⟩ := FileSystem.unlink_eq_some.mp hout
      refine Finset.mem_erase.mpr ⟨?_, ha⟩
      rintro rfl
      exact hkind hdir
  · have hout : fs.unlink es' path = some (es'.erase a) := FileSystem.unlink_eq_some.mpr ⟨a, hlast, hkind, rfl⟩
    rw [hout]
    exact Finset.notMem_erase _ _

/-- **Unlinking paths to what is below `x`**: nothing else goes, and what they stand for does, unless it is a
directory. -/
theorem foldlM_unlinkPath {qs : List (List UInt8)} (h : fs.Within es x es')
    (hqs : ∀ q ∈ qs, q.length < upkMaxPathLen ∧
      ∀ cur a, fs.Within es x cur → fs.lastEntry cur q = some a → fs.Below x a.1) :
    ∃ out, qs.foldlM (unlinkPath fs) es' = some out ∧ fs.Within es x out ∧ out ⊆ es' ∧
      (∀ a ∈ es', fs.kind (fs.node a) = .dir → a ∈ out) ∧
      ∀ q ∈ qs, ∀ a, (∀ cur, fs.Within es x cur → a ∈ cur → fs.lastEntry cur q = some a) →
        fs.kind (fs.node a) ≠ .dir → a ∉ out := by
  induction qs generalizing es' with
  | nil => exact ⟨es', rfl, h, Finset.Subset.refl _, fun _ ha _ => ha, by simp⟩
  | cons q qs ih =>
    obtain ⟨hfits, hbelow⟩ := hqs q List.mem_cons_self
    obtain ⟨es₁, hstep, h₁, hsub₁, hdirs₁, hgone₁⟩ := unlinkPath_within h hfits fun a ha => hbelow es' a h ha
    obtain ⟨out, hrun, hout, hsub, hdirs, hgone⟩ := ih h₁ fun q hq => hqs q (List.mem_cons_of_mem _ hq)
    refine ⟨out, ?_, hout, hsub.trans hsub₁, fun a ha hdir => hdirs a (hdirs₁ a ha hdir) hdir,
      fun q' hq' a ha hkind hmem => ?_⟩
    · rw [List.foldlM_cons, hstep]
      exact hrun
    · rcases List.mem_cons.mp hq' with rfl | hq'
      · exact hgone₁ a (ha es' h (hsub₁ (hsub hmem))) hkind (hsub hmem)
      · exact hgone q' hq' a ha hkind hmem

theorem reached_of_lastEntry (hes : fs.WellFormed es) (hdir : fs.kind (fs.node e) = .dir)
    (hlast : fs.lastEntry (fs.prune es (fs.node e)) path = some e) :
    path ≠ [] ∧ fs.stat (fs.prune es (fs.node e)) path = some (fs.node e) := by
  refine ⟨?_, ?_⟩
  · rintro rfl
    cases hlast
  · rw [(hes.prune _).stat_of_lastEntry hlast, FileSystem.target_dir _ hdir]

/-- **A removable directory is removed, with what is below it and nothing else.** -/
theorem upkRmRf_removable (hes : fs.WellFormed es) (hdir : fs.kind (fs.node e) = .dir)
    (h : Removable fs rd es path e) :
    ∃ count, upkRmRf fs rd upkMaxPathLen path es = some (count, fs.clearEntry es e) := by
  obtain ⟨hpath, hreached⟩ := reached_of_lastEntry hes hdir h.reached
  have hstat := FileSystem.stat_of_subset (Finset.filter_subset _ es) hreached
  obtain ⟨fuel, hfuel⟩ : ∃ fuel, upkMaxPathLen = fuel + 1 := ⟨_, rfl⟩
  have henough : upkMaxPathLen ≤ path.length + 1 + fuel := by omega
  obtain ⟨count, isDir, hloop⟩ := h.harmless.loop hes hpath hreached henough 0
  rw [hes.clear_eq_prune fun n hn => rd.mem _ _ n (FileSystem.mem_names.mpr hn)] at hloop
  have hrun := upkRmRf_of_loop hpath h.fits hdir hstat hloop h.reached
  rw [← hfuel] at hrun
  exact ⟨_, hrun⟩

theorem upkRmRf_notDir (hpath : path ≠ []) (hfits : path.length + 1 < upkMaxPathLen)
    (hopen : fs.opendir es path = none) : upkRmRf fs rd upkMaxPathLen path es = some (0, es) := by
  obtain ⟨fuel, hfuel⟩ : ∃ fuel, upkMaxPathLen = fuel + 1 := ⟨_, rfl⟩
  rw [hfuel, upkRmRf, if_neg hpath, if_neg (not_le.mpr hfits), childPath_nil_opendir es hpath, hopen]

theorem lastEntry_within (hpath : path ≠ []) (hreached : fs.stat (fs.prune es x) path = some x)
    (h : fs.Within es x es') (hn : Proper n) :
    fs.lastEntry es' (childPath path n) = if (x, n) ∈ es' then some (x, n) else none := by
  rw [childPath, FileSystem.lastEntry_child es' hpath hn, h.stat hreached]
  rfl

theorem lastEntry_within_sub (hpath : path ≠ []) (hreached : fs.stat (fs.prune es x) path = some x)
    (h : fs.Within es x es') (hsub : Proper sub) (hn : Proper n)
    (hlink : (x, sub) ∈ es' → fs.kind (fs.node (x, sub)) ≠ .link) :
    fs.lastEntry es' (childPath (childPath path sub) n) =
      if (x, sub) ∈ es' ∧ (fs.node (x, sub), n) ∈ es' then some (fs.node (x, sub), n) else none := by
  rw [childPath, FileSystem.lastEntry_child es' (childPath_ne_nil _ _) hn, childPath,
    FileSystem.stat_child es' hpath hsub, h.stat hreached, Option.bind_some]
  by_cases hmem : (x, sub) ∈ es'
  · have htarget : fs.target es' (fs.node (x, sub)) = some (fs.node (x, sub)) := if_neg (hlink hmem)
    rw [FileSystem.step_of_mem h.wf hmem, htarget, Option.bind_some]
    simp only [hmem, true_and]
  · rw [FileSystem.step_of_notMem hsub hmem, if_neg fun hboth => hmem hboth.1]
    rfl

theorem rmdirPath_within (hpath : path ≠ []) (hreached : fs.stat (fs.prune es x) path = some x)
    (h : fs.Within es x es') (hsub : Proper sub) (hfits : path.length + sub.length + 2 < upkMaxPathLen) :
    ∃ out, rmdirPath fs es' (childPath (childPath path sub) []) = some out ∧ fs.Within es x out ∧ out ⊆ es' := by
  have hlength : (childPath (childPath path sub) []).length < upkMaxPathLen := by
    rw [length_childPath, length_childPath, List.length_nil]
    omega
  refine ⟨_, if_pos hlength, h.rmdir fun a ha => ?_, ?_⟩
  · rw [childPath, FileSystem.lastEntry_slash es' (childPath_ne_nil _ _), lastEntry_within hpath hreached h hsub] at ha
    obtain ⟨-, ha⟩ := Option.ite_none_right_eq_some.mp ha
    obtain rfl := Option.some.inj ha
    exact FileSystem.below_refl x
  · cases hout : fs.rmdir es' (childPath (childPath path sub) []) with
    | none => exact Finset.Subset.refl _
    | some out => exact (h.wf.rmdir hout).1

theorem foldlM_logNode {ns : List Name} {text : List UInt8}
    (h : text.length + ((ns.filter fun n => n.head? ≠ some 46).map List.length).sum < upkMaxPathLen) :
    ∃ out, ns.foldlM logNode text = some out := by
  induction ns generalizing text with
  | nil => exact ⟨text, rfl⟩
  | cons n ns ih =>
    rw [List.foldlM_cons]
    unfold logNode
    by_cases hdot : n.head? = some 46
    · rw [if_pos hdot]
      rw [List.filter_cons_of_neg (by simpa using hdot)] at h
      exact ih h
    · rw [List.filter_cons_of_pos (by simpa using hdot), List.map_cons, List.sum_cons] at h
      rw [if_neg hdot, if_pos (by rw [List.length_append]; omega)]
      refine ih ?_
      rw [List.length_append]
      omega

theorem sum_readdir_le (q : List UInt8) (ns : Finset Name) :
    (((rd.readdir q ns).filter fun n => n.head? ≠ some 46).map List.length).sum ≤ ∑ n ∈ ns, n.length := by
  have hnodup := (rd.nodup q ns).filter fun n => decide (n.head? ≠ some 46)
  rw [← List.sum_toFinset _ hnodup]
  refine Finset.sum_le_sum_of_subset fun n hn => ?_
  obtain ⟨hn, hdot⟩ := List.mem_filter.mp (List.mem_toFinset.mp hn)
  rcases rd.sub q ns n hn with hmem | rfl | rfl
  · exact hmem
  · simp [Path.dot] at hdot
  · simp [Path.dotdot] at hdot

theorem StateDir.sub_notLink (h : StateDir fs es path e buddy) (hes : fs.WellFormed es)
    (hsub : sub ≠ (cstr "controller.sock").chars) (hmem : (fs.node e, sub) ∈ es) :
    fs.kind (fs.node (fs.node e, sub)) ≠ .link := by
  intro hlink
  have hstate := h.links _ hmem (FileSystem.below_refl _) hlink
  generalize ha : (fs.node e, sub) = a at hstate
  cases hstate with
  | controller => exact hsub (congrArg Prod.snd ha)
  | action link _ hactions =>
    -- the directory itself would be the one of the actions in it
    have hnode : fs.node e = fs.node (fs.node e, (cstr "actions").chars) := congrArg Prod.fst ha
    have hdir : fs.kind (fs.node (fs.node e, (cstr "actions").chars)) = .dir := hnode ▸ h.dir
    have hdepth := (hes.childOf hactions hdir).depth
    rw [← hnode] at hdepth
    exact absurd hdepth (Nat.ne_of_lt (Nat.lt_succ_self _))

theorem StateDir.paths_below (h : StateDir fs es path e buddy) (hes : fs.WellFormed es) (hpath : path ≠ [])
    (hreached : fs.stat (fs.prune es (fs.node e)) path = some (fs.node e)) {q : List UInt8}
    (hq : q ∈ statePaths path buddy) {a : DirEntry ι} (hw : fs.Within es (fs.node e) es')
    (hlast : fs.lastEntry es' q = some a) : fs.Below (fs.node e) a.1 := by
  have hsub {sub n : Name} (hsub : Proper sub) (hne : sub ≠ (cstr "controller.sock").chars) (hn : Proper n)
      (hlast : fs.lastEntry es' (childPath (childPath path sub) n) = some a) : fs.Below (fs.node e) a.1 := by
    rw [lastEntry_within_sub hpath hreached hw hsub hn fun hmem => h.sub_notLink hes hne (hw.sub hmem)] at hlast
    obtain ⟨⟨hmem, hmem'⟩, heq⟩ := Option.ite_none_right_eq_some.mp hlast
    obtain rfl := Option.some.inj heq
    exact (hw.wf.childOf hmem (hw.wf.dir _ hmem')).below (FileSystem.below_refl _)
  rcases List.mem_cons.mp hq with rfl | hq
  · rw [lastEntry_within hpath hreached hw (proper_word (by simp))] at hlast
    obtain ⟨-, heq⟩ := Option.ite_none_right_eq_some.mp hlast
    obtain rfl := Option.some.inj heq
    exact FileSystem.below_refl _
  · obtain ⟨⟨action, script⟩, hlink, hq⟩ := List.mem_flatMap.mp hq
    obtain ⟨haction, hscript⟩ := proper_actionLinks h.names hlink
    simp only [List.mem_cons, List.not_mem_nil, or_false] at hq
    rcases hq with rfl | rfl
    · exact hsub (proper_word (by simp)) (by decide) haction hlast
    · exact hsub (proper_word (by simp)) (by decide) hscript hlast

theorem StateDir.link_path (h : StateDir fs es path e buddy) (hes : fs.WellFormed es) (hpath : path ≠ [])
    (hreached : fs.stat (fs.prune es (fs.node e)) path = some (fs.node e)) {a : DirEntry ι}
    (ha : StateLink fs es buddy (fs.node e) a) :
    ∃ q ∈ statePaths path buddy, ∀ cur, fs.Within es (fs.node e) cur → a ∈ cur → fs.lastEntry cur q = some a := by
  cases ha with
  | controller =>
    refine ⟨_, List.mem_cons_self, fun cur hw hmem => ?_⟩
    rw [lastEntry_within hpath hreached hw (proper_word (by simp)), if_pos hmem]
  | action link hlink hactions =>
    refine ⟨actionPath path link.1, List.mem_cons_of_mem _ (List.mem_flatMap.mpr ⟨link, hlink, by simp⟩),
      fun cur hw hmem => ?_⟩
    have hdir : fs.kind (fs.node (fs.node e, (cstr "actions").chars)) = .dir := hw.wf.dir _ hmem
    have hmem' := hes.mem_of_entry hw.wf hw.sub hactions hdir hmem
    rw [actionPath, lastEntry_within_sub hpath hreached hw (proper_word (by simp)) (proper_actionLinks h.names hlink).1
      fun hmem => h.sub_notLink hes (by decide) (hw.sub hmem), if_pos ⟨hmem', hmem⟩]

/-- **The state directory is removed, and nothing else**, whatever else has come into it. -/
theorem removeBuddyStatedir_eq {svcRunPath : List UInt8} (hes : fs.WellFormed es)
    (hlast : fs.lastEntry (fs.prune es (fs.node e)) (childPath svcRunPath buddy.name.chars) = some e)
    (h : StateDir fs es (childPath svcRunPath buddy.name.chars) e buddy) :
    removeBuddyStatedir fs rd svcRunPath buddy es = some (fs.clearEntry es e) := by
  obtain ⟨hpath, hreached⟩ := reached_of_lastEntry hes h.dir hlast
  generalize hpathq : childPath svcRunPath buddy.name.chars = path at *
  -- the links go
  obtain ⟨es₁, hrun₁, h₁, hsub₁, hdirs₁, hgone⟩ := foldlM_unlinkPath (hes.within (fs.node e)) fun q hq =>
    ⟨h.fits q hq, fun cur a hw hlast => h.paths_below hes hpath hreached hq hw hlast⟩
  have hnolinks : ∀ a ∈ es₁, fs.Below (fs.node e) a.1 → fs.kind (fs.node a) ≠ .link := by
    intro a ha hbelow hlink
    obtain ⟨q, hq, hnames⟩ := h.link_path hes hpath hreached (h.links a (hsub₁ ha) hbelow hlink)
    exact hgone q hq a hnames (by rw [hlink]; decide) ha
  -- the log is read
  have hlog : fs.opendir es₁ (childPath (childPath path (cstr "log").chars) []) =
      some (FileSystem.names es₁ (fs.node (fs.node e, (cstr "log").chars))) := by
    rw [childPath_nil_opendir es₁ (childPath_ne_nil _ _)]
    refine FileSystem.opendir_eq_some.mpr ⟨_, ?_, h.logDir, rfl⟩
    rw [stat_childPath h₁.wf hpath (h₁.stat hreached) (hdirs₁ _ h.log h.logDir), FileSystem.target_dir _ h.logDir]
  obtain ⟨text, hnodes⟩ : ∃ text, (rd.readdir (childPath (childPath path (cstr "log").chars) [])
      (FileSystem.names es₁ (fs.node (fs.node e, (cstr "log").chars)))).foldlM logNode
        (childPath (childPath path (cstr "log").chars) []) = some text := by
    refine foldlM_logNode (Nat.lt_of_le_of_lt ?_ h.fitsLog)
    have hlength : (childPath (childPath path (cstr "log").chars) []).length = path.length + 5 := by
      rw [length_childPath, length_childPath]
      rfl
    rw [hlength]
    refine Nat.add_le_add_left ((sum_readdir_le _ _).trans (Finset.sum_le_sum_of_subset fun n hn => ?_)) _
    exact FileSystem.mem_names.mpr (hsub₁ (FileSystem.mem_names.mp hn))
  -- the directories go that are empty
  have hfits := h.fitsDirs
  obtain ⟨es₂, hrun₂, h₂, hsub₂⟩ := rmdirPath_within hpath hreached h₁ (proper_word (s := cstr "log") (by simp))
    (show path.length + 3 + 2 < _ by omega)
  obtain ⟨es₃, hrun₃, h₃, hsub₃⟩ := rmdirPath_within hpath hreached h₂ (proper_word (s := cstr "scripts") (by simp))
    (show path.length + 7 + 2 < _ by omega)
  obtain ⟨es₄, hrun₄, h₄, hsub₄⟩ := rmdirPath_within hpath hreached h₃ (proper_word (s := cstr "actions") (by simp))
    (show path.length + 7 + 2 < _ by omega)
  have hlast₄ : fs.lastEntry es₄ path = some e := FileSystem.lastEntry_of_subset h₄.keep hlast
  -- and what is left
  obtain ⟨es₅, count, hrun₅, hrm⟩ : ∃ es₅ count, rmdirPath fs es₄ path = some es₅ ∧
      upkRmRf fs rd upkMaxPathLen path es₅ = some (count, fs.clearEntry es e) := by
    cases hrmdir : fs.rmdir es₄ path with
    | some out =>
      obtain ⟨a, ha, -, hempty, rfl⟩ := FileSystem.rmdir_eq_some.mp hrmdir
      obtain rfl : e = a := Option.some.inj (hlast₄.symm.trans ha)
      have hclear : es₄.erase e = fs.clearEntry es e := by
        rw [h₄.eq_prune_of_empty hempty, FileSystem.clearEntry, if_pos h.dir]
      refine ⟨es₄.erase e, 0, ?_, ?_⟩
      · rw [rmdirPath, if_pos (by omega), hrmdir]
        rfl
      · rw [← hclear]
        refine upkRmRf_notDir hpath (by omega) ?_
        rw [FileSystem.opendir, h₄.wf.stat_erase hlast₄]
        rfl
    | none =>
      refine ⟨es₄, ?_⟩
      have hsub : es₄ ⊆ es₁ := (hsub₄.trans hsub₃).trans hsub₂
      have hremovable : Removable fs rd es₄ path e := by
        refine removable_of_noLinks h₄.wf h.dir (h₄.prune_eq.symm ▸ hlast) (fun a ha => hnolinks a (hsub ha)) ?_
        intro q hq hsome
        obtain ⟨y, hy⟩ := Option.isSome_iff_exists.mp hsome
        exact h.fitsBelow q hq (by rw [FileSystem.stat_of_subset h₄.sub hy]; rfl)
      obtain ⟨count, hcall⟩ := upkRmRf_removable h₄.wf h.dir hremovable
      refine ⟨count, ?_, ?_⟩
      · rw [rmdirPath, if_pos (by omega), hrmdir]
        rfl
      · rw [hcall, h₄.clearEntry_eq h.dir]
  simp only [removeBuddyStatedir, hpathq, hrun₁, hlog, hnodes, hrun₂, hrun₃, hrun₄, hrun₅, hrm, Option.bind_eq_bind,
    Option.bind_some]

/-! ### The buddies that do not answer -/

/-- `handle_buddies` takes notice of the name, and no buddy answers there. -/
def Dead (b : Buddies) (n : Name) : Prop := n.head? ≠ some 46 ∧ ¬0 ≤ buddyConnect b (.ofChars (buddySockOf b n))

instance (b : Buddies) (n : Name) : Decidable (Dead b n) := inferInstanceAs (Decidable (_ ∧ _))

/-- What goes with a directory in `d`: its entry, and what is below it -/
def InTree (fs : FileSystem ι) (d : ι) (n : Name) (a : DirEntry ι) : Prop := a = (d, n) ∨ fs.Below (fs.node (d, n)) a.1

/-- The directory of a buddy in `d` that does not answer, with what is below it -/
def DeadTree (fs : FileSystem ι) (b : Buddies) (es : Finset (DirEntry ι)) (d : ι) (n : Name) (a : DirEntry ι) : Prop :=
  (d, n) ∈ es ∧ Dead b n ∧ fs.kind (fs.node (d, n)) = .dir ∧ InTree fs d n a

variable {b : Buddies} {svclist : List SvcDesc} {d : ι} {ns : List Name}

theorem InTree.not_inTree {m : Name} {a : DirEntry ι} (hes : fs.WellFormed es) (hm : (d, m) ∈ es) (hn : (d, n) ∈ es)
    (hmdir : fs.kind (fs.node (d, m)) = .dir) (hne : m ≠ n) (ha : a ∈ es) (hin : InTree fs d n a) :
    ¬InTree fs d m a := by
  have hmc : fs.Child d (fs.node (d, m)) := hes.childOf hm hmdir
  by_cases heq : a = (d, n)
  · rintro (heq' | hbelow)
    · exact hne (Prod.mk.inj (heq'.symm.trans heq)).2
    · rw [heq] at hbelow
      exact hmc.not_below hbelow
  · have hbelow := hin.resolve_left heq
    have hnc : fs.Child d (fs.node (d, n)) := hes.childOf hn (hes.dir_of_below ha hbelow)
    rintro (heq' | hbelow')
    · rw [heq'] at hbelow
      exact hnc.not_below hbelow
    · have hnode := hmc.eq_of_below hnc hbelow' hbelow
      exact hne (congrArg Prod.snd (hes.unique (d, m) hm (d, n) hn hmdir hnode.symm)).symm

theorem Cleanable.congr (h : Cleanable fs b svclist es (d, n)) (hsub : es' ⊆ es)
    (hsame : ∀ a ∈ es, InTree fs d n a → a ∈ es') : Cleanable fs b svclist es' (d, n) := by
  have hstat {q : List UInt8} (hsome : (fs.stat es' q).isSome) : (fs.stat es q).isSome := by
    obtain ⟨y, hy⟩ := Option.isSome_iff_exists.mp hsome
    rw [FileSystem.stat_of_subset hsub hy]
    rfl
  unfold Cleanable at h ⊢
  cases hlookup : lookupBuddyFromPath svclist n with
  | none =>
    simp only [hlookup] at h ⊢
    exact h.imp_right fun hdir =>
      ⟨hdir.1, fun a ha => hdir.2.1 a (hsub ha), fun q hq hsome => hdir.2.2 q hq (hstat hsome)⟩
  | some buddy =>
    simp only [hlookup] at h ⊢
    refine ⟨h.dir, h.names, hsame _ h.log (Or.inr (FileSystem.below_refl _)), h.logDir, fun a ha hbelow hlink => ?_,
      h.fits, fun q hq hsome => h.fitsBelow q hq (hstat hsome), h.fitsDirs, ?_⟩
    · cases h.links a (hsub ha) hbelow hlink with
      | controller => exact .controller
      | action link hmem hactions => exact .action link hmem (hsame _ hactions (Or.inr (FileSystem.below_refl _)))
    · refine Nat.lt_of_le_of_lt (Nat.add_le_add_left (Finset.sum_le_sum_of_subset fun m hm => ?_) _) h.fitsLog
      exact FileSystem.mem_names.mpr (hsub (FileSystem.mem_names.mp hm))

/-- **One name**: the directory goes if its buddy does not answer. -/
theorem handleBuddy_eq (hes : fs.WellFormed es) (hreached : fs.stat (fs.prune es d) b.svcRunPath.chars = some d)
    (hmem : (d, n) ∈ es) (hfits : (buddySockOf b n).length < upkMaxPathLen)
    (hclean : Dead b n → Cleanable fs b svclist es (d, n)) :
    handleBuddy fs rd b svclist es n =
      some (if Dead b n ∧ fs.kind (fs.node (d, n)) = .dir then fs.clearEntry es (d, n) else es) := by
  have hpath : b.svcRunPath.chars ≠ [] := by
    intro hnil
    rw [hnil] at hreached
    cases hreached
  unfold handleBuddy
  by_cases hdead : Dead b n
  · rw [if_neg hdead.1, if_neg (Nat.not_le.mpr hfits), if_neg hdead.2]
    have hclean := hclean hdead
    unfold Cleanable at hclean
    cases hlookup : lookupBuddyFromPath svclist n with
    | some buddy =>
      simp only [hlookup] at hclean ⊢
      have hname : buddy.name.chars = n := eq_of_beq (List.find?_some hlookup :)
      rw [if_pos ⟨hdead, hclean.dir⟩]
      refine removeBuddyStatedir_eq hes ?_ (hname.symm ▸ hclean)
      rw [hname]
      exact lastEntry_prune_childPath hes hpath hreached hmem hclean.dir
    | none =>
      simp only [hlookup] at hclean ⊢
      rcases hclean with hfile | ⟨hdir, hlinks, hfitsBelow⟩
      · have hlength : (childPath b.svcRunPath.chars n).length + 1 < upkMaxPathLen := by
          rw [buddySockOf, length_childPath] at hfits
          omega
        rw [if_neg fun h => by rw [hfile] at h; exact absurd h.2 (by decide)]
        rw [upkRmRf_notDir (childPath_ne_nil _ _) hlength]
        · rfl
        · have hstat := FileSystem.stat_of_subset (Finset.filter_subset _ es) hreached
          rw [FileSystem.opendir, stat_childPath hes hpath hstat hmem, FileSystem.target,
            if_neg (by rw [hfile]; decide)]
          exact if_neg (by rw [hfile]; decide)
      · have hremovable : Removable fs rd es (childPath b.svcRunPath.chars n) (d, n) :=
          removable_of_noLinks hes hdir (lastEntry_prune_childPath hes hpath hreached hmem hdir) hlinks hfitsBelow
        obtain ⟨count, hcall⟩ := upkRmRf_removable hes hdir hremovable
        rw [if_pos ⟨hdead, hdir⟩, hcall]
        rfl
  · have hkept : (if Dead b n ∧ fs.kind (fs.node (d, n)) = .dir then fs.clearEntry es (d, n) else es) = es :=
      if_neg fun h => hdead h.1
    rw [hkept]
    by_cases hdot : n.head? = some 46
    · rw [if_pos hdot]
    · rw [if_neg hdot, if_neg (Nat.not_le.mpr hfits), if_pos (not_not.mp fun h => hdead ⟨hdot, h⟩)]

/-- **The loop.** The trees of the names that are left are as they were. -/
theorem foldlM_handleBuddy {cur : Finset (DirEntry ι)} (hes : fs.WellFormed es)
    (hreached : fs.stat (fs.prune es d) b.svcRunPath.chars = some d)
    (hfits : ∀ n, (d, n) ∈ es → (buddySockOf b n).length < upkMaxPathLen)
    (hclean : ∀ n, (d, n) ∈ es → Dead b n → Cleanable fs b svclist es (d, n))
    (hns : ∀ n ∈ ns, (d, n) ∈ es ∨ n = Path.dot ∨ n = Path.dotdot) (hnodup : ns.Nodup) (hw : fs.Within es d cur)
    (hsame : ∀ n ∈ ns, (d, n) ∈ es → ∀ a ∈ es, InTree fs d n a → a ∈ cur) :
    ∃ out, ns.foldlM (handleBuddy fs rd b svclist) cur = some out ∧
      ∀ a, a ∈ out ↔ a ∈ cur ∧ ∀ n ∈ ns, ¬DeadTree fs b es d n a := by
  induction ns generalizing cur with
  | nil => exact ⟨cur, rfl, by simp⟩
  | cons n ns ih =>
    obtain ⟨hnns, hnodup'⟩ := List.nodup_cons.mp hnodup
    have hns' : ∀ m ∈ ns, (d, m) ∈ es ∨ m = Path.dot ∨ m = Path.dotdot := fun m hm => hns m (List.mem_cons_of_mem _ hm)
    rw [List.foldlM_cons]
    have hrest : ∀ m ∈ ns, (d, m) ∈ es → ∀ a ∈ es, InTree fs d m a → a ∈ cur := fun m hm =>
      hsame m (List.mem_cons_of_mem _ hm)
    by_cases hmem : (d, n) ∈ es
    · have htree := hsame n List.mem_cons_self hmem
      have hmemcur : (d, n) ∈ cur := htree _ hmem (Or.inl rfl)
      have hstep : handleBuddy fs rd b svclist cur n = _ :=
        handleBuddy_eq hw.wf (hw.prune_eq.symm ▸ hreached) hmemcur (hfits n hmem) fun hdead =>
          (hclean n hmem hdead).congr hw.sub htree
      rw [hstep, Option.bind_eq_bind, Option.bind_some]
      by_cases hgone : Dead b n ∧ fs.kind (fs.node (d, n)) = .dir
      · -- the tree of this name goes
        rw [if_pos hgone]
        have hw' : fs.Within es d (fs.clearEntry cur (d, n)) := by
          refine ⟨FileSystem.clearEntry_subset.trans hw.sub, ?_, hw.wf.clearEntry _⟩
          rw [← hw.prune_eq, ← hw.wf.prune_clearEntry hmemcur]
          exact Finset.filter_subset _ _
        have hcleared (a : DirEntry ι) : a ∈ fs.clearEntry cur (d, n) ↔ a ∈ cur ∧ ¬InTree fs d n a := by
          rw [FileSystem.mem_clearEntry, InTree, not_or, and_iff_right hgone.2]
        obtain ⟨out, hrun, hout⟩ := ih hns' hnodup' hw' fun m hm hmes a ha hin =>
          (hcleared a).mpr ⟨hrest m hm hmes a ha hin,
            hin.not_inTree hes hmem hmes hgone.2 (fun heq => hnns (heq ▸ hm)) ha⟩
        refine ⟨out, hrun, fun a => ?_⟩
        rw [hout, hcleared, List.forall_mem_cons, and_assoc]
        refine and_congr_right fun _ => and_congr_left fun _ => not_congr ?_
        exact ⟨fun h => ⟨hmem, hgone.1, hgone.2, h⟩, fun h => h.2.2.2⟩
      · rw [if_neg hgone]
        obtain ⟨out, hrun, hout⟩ := ih hns' hnodup' hw hrest
        refine ⟨out, hrun, fun a => ?_⟩
        rw [hout, List.forall_mem_cons]
        exact and_congr_right fun _ => (and_iff_right fun h => hgone ⟨h.2.1, h.2.2.1⟩).symm
    · have hdots := (hns n List.mem_cons_self).resolve_left hmem
      have hdot : n.head? = some 46 := by
        rcases hdots with rfl | rfl <;> rfl
      obtain ⟨out, hrun, hout⟩ := ih hns' hnodup' hw hrest
      refine ⟨out, ?_, fun a => ?_⟩
      · rw [handleBuddy, if_pos hdot]
        exact hrun
      · rw [hout, List.forall_mem_cons]
        exact and_congr_right fun _ => (and_iff_right fun h => hmem h.1).symm

/-- **The controller cleans up exactly behind the buddies that do not answer.** -/
theorem handleBuddies_clears (fs : FileSystem ι) (rd : Reading) (b : Buddies) (svclist : List SvcDesc)
    (es : Finset (DirEntry ι)) (d : ι) (hes : fs.WellFormed es)
    (hreached : fs.stat (fs.prune es d) b.svcRunPath.chars = some d) (hdir : fs.kind d = .dir)
    (hfits : ∀ n, (d, n) ∈ es → (buddySockOf b n).length < upkMaxPathLen)
    (hclean : ∀ n, (d, n) ∈ es → Dead b n → Cleanable fs b svclist es (d, n)) :
    ∃ out, handleBuddies fs rd b svclist es = some out ∧ ∀ a, a ∈ out ↔ a ∈ es ∧ ∀ n, ¬DeadTree fs b es d n a := by
  have hpath : b.svcRunPath.chars ≠ [] := by
    intro hnil
    rw [hnil] at hreached
    cases hreached
  have hopen : fs.opendir es (childPath b.svcRunPath.chars []) = some (FileSystem.names es d) := by
    rw [childPath_nil_opendir es hpath]
    exact FileSystem.opendir_eq_some.mpr
      ⟨d, FileSystem.stat_of_subset (Finset.filter_subset _ es) hreached, hdir, rfl⟩
  obtain ⟨out, hrun, hout⟩ : ∃ out, (rd.readdir b.svcRunPath.chars (FileSystem.names es d)).foldlM
      (handleBuddy fs rd b svclist) es = some out ∧ _ := foldlM_handleBuddy hes hreached hfits hclean
    (fun n hn => (rd.sub b.svcRunPath.chars _ n hn).imp_left FileSystem.mem_names.mp) (rd.nodup _ _) (hes.within d)
    fun _ _ _ a ha _ => ha
  refine ⟨out, ?_, fun a => (hout a).trans (and_congr_right fun _ => ⟨fun h n hdead => ?_, fun h n _ => h n⟩)⟩
  · rw [handleBuddies, hopen]
    exact hrun
  · exact h n (rd.mem _ _ n (FileSystem.mem_names.mpr hdead.1)) hdead

end

/-! ### Two buddies -/

/-- `/r`, with the directories of `web`, which answers, and of `db`, which does not -/
def runTree : FileSystem Nat where
  kind y := if y = 5 then .link else .dir
  node e :=
    if e = (0, (cstr "r").chars) then 1
    else if e = (1, (cstr "db").chars) then 2
    else if e = (1, (cstr "web").chars) then 3
    else if e = (2, (cstr "log").chars) then 4
    else 5
  parent y := if y = 2 ∨ y = 3 then 1 else if y = 4 ∨ y = 5 then 2 else 0
  depth y := if y = 1 then 1 else if y = 2 ∨ y = 3 then 2 else if y = 4 ∨ y = 5 then 3 else 0
  root := 0
  cwd := 0
  follow _ _ := none
  depth_root := rfl
  depth_parent y := by grind
  follow_mono _ _ _ _ := Or.inl rfl

def runEntries : Finset (DirEntry Nat) :=
  {(0, (cstr "r").chars), (1, (cstr "db").chars), (1, (cstr "web").chars), (2, (cstr "log").chars),
    (2, (cstr "controller.sock").chars)}

def runBuddies : Buddies where
  svcRunPath := ⟨cstr "/r", by decide⟩
  connect path := if path = cstr "/r/web/buddy.sock" then some 7 else none

def dbService : SvcDesc := { SvcDesc.zero with name := strncpyString (cstr "db") }

theorem runTree_wellFormed : runTree.WellFormed runEntries where
  proper e he := by
    simp only [runEntries, Finset.mem_insert, Finset.mem_singleton] at he
    rcases he with rfl | rfl | rfl | rfl | rfl <;> exact ⟨by decide, by decide, by decide, by decide⟩
  dir := by decide
  linked := by decide
  child := by decide
  unique := by decide

theorem runTree_below {q : List UInt8} (h : Extends (cstr "/r/db").chars q) :
    ∀ x, runTree.stat runEntries q = some x →
      q = (cstr "/r/db").chars ∧ x = 2 ∨ q = (cstr "/r/db/log").chars ∧ x = 4 := by
  induction h with
  | refl =>
    intro x hx
    exact Or.inl ⟨rfl, (Option.some.inj (hx.symm.trans (by decide : _ = some 2)))⟩
  | @child q n h hn ih =>
    intro x hx
    rw [childPath, FileSystem.stat_child _ (h.ne_nil (by decide)) hn] at hx
    obtain ⟨y, hy, hstep⟩ := Option.bind_eq_some_iff.mp hx
    have hmem : (y, n) ∈ runEntries := by
      by_contra hmem
      rw [FileSystem.step_of_notMem hn hmem] at hstep
      cases hstep
    rw [FileSystem.step_of_mem runTree_wellFormed hmem] at hstep
    simp only [runEntries, Finset.mem_insert, Finset.mem_singleton, Prod.mk.injEq] at hmem
    rcases ih y hy with ⟨rfl, rfl⟩ | ⟨rfl, rfl⟩
    · rcases hmem with ⟨h, -⟩ | ⟨h, -⟩ | ⟨h, -⟩ | ⟨-, rfl⟩ | ⟨-, rfl⟩
      · exact absurd h (by decide)
      · exact absurd h (by decide)
      · exact absurd h (by decide)
      · exact Or.inr ⟨by decide, (Option.some.inj (hstep.symm.trans (by decide : _ = some 4)))⟩
      · have hnone : runTree.target runEntries (runTree.node (2, (cstr "controller.sock").chars)) = none := by decide
        rw [hnone] at hstep
        cases hstep
    · rcases hmem with ⟨h, -⟩ | ⟨h, -⟩ | ⟨h, -⟩ | ⟨h, -⟩ | ⟨h, -⟩ <;> exact absurd h (by decide)

theorem handleBuddies_clears_db :
    ∃ out, handleBuddies runTree readByName runBuddies [dbService] runEntries = some out ∧
      ∀ a, a ∈ out ↔ a ∈ runEntries ∧ ∀ n, ¬DeadTree runTree runBuddies runEntries 1 n a := by
  refine handleBuddies_clears runTree readByName runBuddies [dbService] runEntries 1 runTree_wellFormed (by decide)
    (by decide) (fun n hn => ?_) fun n hn hdead => ?_
  · simp only [runEntries, Finset.mem_insert, Finset.mem_singleton, Prod.mk.injEq] at hn
    rcases hn with ⟨h, -⟩ | ⟨-, rfl⟩ | ⟨-, rfl⟩ | ⟨h, -⟩ | ⟨h, -⟩
    · exact absurd h (by decide)
    · decide
    · decide
    · exact absurd h (by decide)
    · exact absurd h (by decide)
  · simp only [runEntries, Finset.mem_insert, Finset.mem_singleton, Prod.mk.injEq] at hn
    rcases hn with ⟨h, -⟩ | ⟨-, rfl⟩ | ⟨-, rfl⟩ | ⟨h, -⟩ | ⟨h, -⟩
    · exact absurd h (by decide)
    · -- `db` does not answer
      have hlookup : lookupBuddyFromPath [dbService] (cstr "db").chars = some dbService := rfl
      unfold Cleanable
      simp only [hlookup]
      refine ⟨by decide, by simp [dbService, SvcDesc.zero], by decide, by decide, fun a ha hbelow hlink => ?_, by decide,
        fun q hq hsome => ?_, by decide, by decide⟩
      · simp only [runEntries, Finset.mem_insert, Finset.mem_singleton] at ha
        rcases ha with rfl | rfl | rfl | rfl | rfl
        · exact absurd hlink (by decide)
        · exact absurd hlink (by decide)
        · exact absurd hlink (by decide)
        · exact absurd hlink (by decide)
        · exact .controller
      · obtain ⟨x, hx⟩ := Option.isSome_iff_exists.mp hsome
        rcases runTree_below hq x hx with ⟨rfl, -⟩ | ⟨rfl, -⟩ <;> decide
    · exact absurd hdead (by decide)
    · exact absurd h (by decide)
    · exact absurd h (by decide)

end Upkeeper
