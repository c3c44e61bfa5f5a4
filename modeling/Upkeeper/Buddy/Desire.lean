import Upkeeper.Buddy.Mask
/-!
# What the controller wants

A run is cut into the turns of the event loop, each with the command that buddy read in it and with what happened in it.
Two properties of every run stand against this history: the start script is run only for a service that the commands
ask for (`starts_asked`), and a service that they ask for is monitored or marked for a restart, unless the history
tells how it was lost (`wanted_kept`).
-/

namespace Upkeeper

open Hoare

/-! ### The history -/

/-- The entries of a start: the script was forked, or there was none to run, and `buddy_start_proc` went on. -/
def Entry.ofStart : Entry → Bool
  | .forked action _ => action == .start
  | .unrunnable action => action == .start
  | .started _ => true
  | _ => false

/-- A turn of the event loop: the command that was read in it, or 0, and what happened, latest first -/
structure LoopTurn where
  command : UInt32
  entries : List Entry

/-- The start script was run, or looked for. -/
def LoopTurn.Starts (t : LoopTurn) : Prop := ∃ e ∈ t.entries, e.ofStart = true

/-- A turn, and what comes after the loop if it is the last one: whether it is -/
def Prog.turn (cfg : BuddyConfig) : Prog Bool := do
  let done ← buddyEventLoopTurn cfg
  if done then
    buddyExit cfg
    return true
  else return false

/-- What the turn from `s` to `s'` was -/
def LoopTurn.between (s s' : System) : LoopTurn :=
  ⟨s'.1.thisCommand, s'.2.log.take (s'.2.log.length - s.2.log.length)⟩

/-- So many turns, with their history -/
def System.turns (cfg : BuddyConfig) : Nat → System → List LoopTurn × System
  | 0, s => ([], s)
  | n + 1, s =>
    let s' := (Prog.turn cfg s).2
    if (Prog.turn cfg s).1 then ([.between s s'], s')
    else (.between s s' :: (System.turns cfg n s').1, (System.turns cfg n s').2)

/-- Whether a start belongs to a turn with this command: the service is wanted to run after it, or to run once. -/
def Asked (wanted : RunState) (command : UInt32) : Prop :=
  wanted.next command = .running ∨ command = upkCtrlActionRunonce

/-- The start script is run only in turns with such a command. -/
def OnlyAsked : RunState → List LoopTurn → Prop
  | _, [] => True
  | wanted, t :: ts => (t.Starts → Asked wanted t.command) ∧ OnlyAsked (wanted.next t.command) ts

/-- What is wanted after these turns -/
def RunState.afterTurns (wanted : RunState) (ts : List LoopTurn) : RunState :=
  ts.foldl (fun wanted t => wanted.next t.command) wanted

/-! ### What a part of the program leaves alone -/

/-- What is wanted, the command, and a condition on the history -/
structure Watch where
  desired : RunState
  command : UInt32
  log : List Entry → Prop

def Watch.Sees (w : Watch) (s : System) : Prop :=
  s.1.desiredState = w.desired ∧ s.1.thisCommand = w.command ∧ w.log s.2.log

/-- The condition allows everything but a start. -/
def Watch.Idle (w : Watch) : Prop := ∀ e log, e.ofStart = false → w.log log → w.log (e :: log)

/-- The condition allows everything. -/
def Watch.Open (w : Watch) : Prop := ∀ e log, w.log log → w.log (e :: log)

theorem Watch.Open.idle {w : Watch} (hw : w.Open) : w.Idle := fun e log _ h => hw e log h

namespace Prog

variable {cfg : BuddyConfig} {w : Watch}

theorem sees_calm : Calm w.Sees where
  answers _ h := h
  tell _ := .of_run fun _ h => h
  assign _ horders h := ⟨(congrArg Prod.fst horders).trans h.1, (congrArg Prod.snd horders).trans h.2.1, h.2.2⟩

theorem note_sees {e : Entry} (h : ∀ log, w.log log → w.log (e :: log)) : Keeps w.Sees (note e) :=
  note_spec fun s hs => ⟨hs.1, hs.2.1, h s.2.log hs.2.2⟩

theorem sees_undisturbed (hw : w.Idle) : Undisturbed w.Sees := by
  refine .of_note sees_calm (fun si z s _ _ h => ?_) fun e he => note_sees fun log => hw e log ?_
  · obtain ⟨ring, pending, hreap⟩ := reapChild_fst si z s
    have hlog : w.log (reapChild si z s).2.2.log := hw (.reaped z.pid (z.pid == s.1.procPid)) s.2.log rfl h.2.2
    refine ⟨?_, ?_, hlog⟩ <;> rw [hreap] <;> unfold Buddy.noteTerminated
    · split <;> exact h.1
    · split <;> exact h.2.1
  · cases e with
    | forked action pid => cases he
    | unrunnable action => cases he
    | started t => cases he
    | _ => rfl

theorem buddyExecAction_sees (hw : w.Idle) {action : Action}
    (hforked : ∀ pid log, w.log log → w.log (.forked action pid :: log))
    (hunrunnable : ∀ log, w.log log → w.log (.unrunnable action :: log)) : Keeps w.Sees (buddyExecAction action) :=
  (sees_undisturbed hw).exec (fun _ h => h) (fun pid => note_sees (hforked pid)) (note_sees hunrunnable)

theorem sees_acting (hw : w.Idle) : Acting w.Sees where
  toUndisturbed := sees_undisturbed hw
  buddyExecAction {action} h := by
    have hidle : (action == .start) = false := by simpa using h
    exact buddyExecAction_sees hw (fun pid log => hw _ log hidle) fun log => hw _ log hidle

theorem buddyStartProc_sees (hw : w.Open) : Keeps w.Sees (buddyStartProc cfg) := by
  have h := sees_undisturbed hw.idle
  have hnote (e : Entry) : Keeps w.Sees (note e) := note_sees fun log => hw e log
  have hcount : Keeps w.Sees (countRespawn cfg) := h.countRespawn (fun _ hs => hs) fun n => hnote (.counted n)
  have hlaunch : Keeps w.Sees launch := by
    refine (buddyExecAction_sees hw.idle (fun pid log => hw _ log) fun log => hw _ log).bind fun pid => ?_
    refine Keeps.bind (set_spec fun s hs => hs) fun _ => h.time.bind fun now => ?_
    refine Keeps.bind (set_spec fun s hs => hs) fun _ => (hnote (.started now)).bind fun _ => ?_
    refine h.time.bind fun now => set_spec fun s hs => ?_
    obtain ⟨ring, pending, hrecord⟩ := Buddy.recordStart_eq now s.1
    rw [hrecord]
    exact hs
  refine buddy_keeps.bind fun b => .ite (fun _ => ?_) fun _ => .pure
  refine h.interrupt.bind fun _ => Keeps.bind (m := block {sigchld}) (.of_run fun _ hs => hs) fun oldset => ?_
  refine hcount.bind fun _ => buddy_keeps.bind fun b => .ite (fun _ => ?_) fun _ => ?_
  · exact (hnote .refused).bind fun _ => Keeps.bind (set_spec fun s hs => hs) fun _ => .pure
  · refine hlaunch.bind fun _ => Keeps.bind (m := setmask oldset) ?_ fun _ => .pure
    exact Keeps.bind (set_spec fun s hs => hs) fun _ => h.interrupt

/-! ### The event loop -/

theorem buddyHandleCommand_sees (hw : w.Idle)
    (hstart : w.command = upkCtrlActionStart ∨ w.command = upkCtrlActionRunonce → w.Open) :
    Triple w.Sees (buddyHandleCommand cfg) fun _ => { w with desired := w.desired.next w.command }.Sees := by
  have hidle : Watch.Idle { w with desired := w.desired.next w.command } := hw
  have hhandle : Triple (fun s => w.Sees s ∧ s.1.thisCommand = w.command) (buddyHandleCommand cfg) fun _ =>
      { w with desired := w.desired.next w.command }.Sees :=
    buddyHandleCommand_spec cfg w.command (sees_acting hidle) (fun {b b' world} _ horders h => ?_)
      fun h => buddyStartProc_sees (hstart h)
  · exact hhandle.conseq (fun s h => ⟨h, h.2.1⟩) fun _ _ h => h
  · refine ⟨(congrArg Prod.fst horders).trans ?_, (congrArg Prod.snd horders).trans h.2.1, h.2.2⟩
    exact congrArg (RunState.next w.command) h.1

theorem buddyHandleFlags_sees (hw : w.Idle) (hstart : w.desired = .running → w.Open) :
    Keeps w.Sees (buddyHandleFlags cfg) := by
  refine (sees_undisturbed hw).buddyHandleFlags ?_
  refine Triple.conseq (P := fun s => w.Sees s ∧ w.desired = .running) (fun s h => ⟨h.1, h.1.1.symm.trans h.2⟩)
    (fun _ _ h => h) (.of_fact fun hrun => ?_)
  refine Keeps.bind (set_spec fun s h => h) fun _ => (sees_undisturbed hw).restart (buddyStartProc_sees (hstart hrun)) ?_
  refine buddy_keeps.bind fun b => Keeps.bind (note_sees fun log => hstart hrun _ log) fun _ => ?_
  exact set_spec fun s h => h

theorem buddyExit_sees (hw : w.Idle) : Keeps w.Sees (buddyExit cfg) :=
  (sees_acting hw).buddyExit (.of_run fun _ h => h)

/-- A turn in which the command `command` is read, which allows a start or leaves a condition on the history -/
def turnWatch (wanted : RunState) (log : List Entry → Prop) (command : UInt32) : Watch where
  desired := wanted.next command
  command := command
  log l := Asked wanted command ∨ log l

theorem turnWatch_open {wanted : RunState} {log : List Entry → Prop} {command : UInt32} (h : Asked wanted command) :
    (turnWatch wanted log command).Open := fun _ _ _ => .inl h

variable {wanted : RunState} {log : List Entry → Prop}

theorem turnWatch_idle (hlog : ∀ e l, e.ofStart = false → log l → log (e :: l)) (command : UInt32) :
    (turnWatch wanted log command).Idle := fun e l he h => h.imp id (hlog e l he)

theorem serveController_sees (hlog : ∀ e l, e.ofStart = false → log l → log (e :: l)) :
    Triple (Watch.Sees ⟨wanted, 0, log⟩) (serveController cfg) fun _ s =>
      ∃ command, (turnWatch wanted log command).Sees s := by
  have hnone : ∀ s, Watch.Sees ⟨wanted, 0, log⟩ s → (turnWatch wanted log 0).Sees s :=
    fun s h => ⟨h.1, h.2.1, .inr h.2.2⟩
  unfold serveController
  refine Triple.bind (Q := fun _ => Watch.Sees ⟨wanted, 0, log⟩) buddy_keeps fun b => ?_
  refine .ite (fun _ => ?_) fun _ => .pure fun s h => ⟨0, hnone s h⟩
  have hread : Triple (Watch.Sees ⟨wanted, 0, log⟩) readCommand fun command s =>
      Watch.Sees ⟨wanted, command, log⟩ s := by
    refine .of_run fun s h => ?_
    obtain ⟨n, e, fd, hread, -⟩ := Buddy.readCtrl_eq (s.2.answers 0).readSelect (s.2.answers 0).read s.1.thisCommand s.1
    refine ⟨?_, rfl, h.2.2⟩
    show (s.1.readCtrl (s.2.answers 0).readSelect (s.2.answers 0).read s.1.thisCommand).2.desiredState = wanted
    rw [hread]
    exact h.1
  refine hread.bind fun command => .ite (fun _ => ?_) fun hzero => ?_
  · have hopen : command = upkCtrlActionStart ∨ command = upkCtrlActionRunonce → Asked wanted command := by
      rintro (rfl | rfl)
      · exact .inl rfl
      · exact .inr rfl
    have hhandle : Triple (Watch.Sees ⟨wanted, command, (turnWatch wanted log command).log⟩) (buddyHandleCommand cfg)
        fun _ => (turnWatch wanted log command).Sees :=
      buddyHandleCommand_sees (turnWatch_idle hlog command) fun h => turnWatch_open (hopen h)
    refine (hhandle.conseq (fun s h => ⟨h.1, h.2.1, .inr h.2.2⟩) fun _ _ h => h).seq ?_
    exact (sees_undisturbed (turnWatch_idle hlog command)).buddyFlushRingbuffer.conseq (fun _ h => h) fun _ s h =>
      ⟨command, h⟩
  · obtain rfl := not_not.mp hzero
    exact .pure fun s h => ⟨0, hnone s h⟩

/-- **A turn.** -/
theorem turn_sees (hlog : ∀ e l, e.ofStart = false → log l → log (e :: l)) :
    Triple (fun s => s.1.desiredState = wanted ∧ log s.2.log) (turn cfg) fun _ s =>
      ∃ command, (turnWatch wanted log command).Sees s := by
  have hflags : Keeps (fun s => ∃ command, (turnWatch wanted log command).Sees s) (buddyHandleFlags cfg) := by
    refine .of_exists fun command => ?_
    have hkeeps : Keeps (turnWatch wanted log command).Sees (buddyHandleFlags cfg) :=
      buddyHandleFlags_sees (turnWatch_idle hlog command) fun h => turnWatch_open (.inl h)
    exact hkeeps.conseq (fun _ h => h) fun _ s h => ⟨command, h⟩
  have hidle : Watch.Idle ⟨wanted, 0, log⟩ := hlog
  have hnone : ∀ s, Watch.Sees ⟨wanted, 0, log⟩ s → ∃ command, (turnWatch wanted log command).Sees s :=
    fun s h => ⟨0, h.1, h.2.1, .inr h.2.2⟩
  have hturn : Triple (fun s => s.1.desiredState = wanted ∧ log s.2.log) (buddyEventLoopTurn cfg) fun _ s =>
      ∃ command, (turnWatch wanted log command).Sees s := by
    have hreset : Triple (fun s : System => s.1.desiredState = wanted ∧ log s.2.log)
        (set fun b => { b with thisCommand := 0 }) fun _ => Watch.Sees ⟨wanted, 0, log⟩ :=
      set_spec fun s h => ⟨h.1, rfl, h.2⟩
    unfold buddyEventLoopTurn
    refine hreset.seq (Triple.seq (sees_undisturbed hidle).interrupt (Triple.bind sees_calm.answer fun a => ?_))
    split
    · exact Triple.seq sees_calm.buddyAccept (.pure hnone)
    · exact (serveController_sees hlog).seq hflags
    · exact hflags.conseq hnone fun _ _ h => h
  refine hturn.bind fun done => .ite (fun _ => .of_exists fun command => ?_) fun _ => .pure fun _ h => h
  exact Triple.seq (buddyExit_sees (turnWatch_idle hlog command)) (.pure fun s h => ⟨command, h⟩)

end Prog

/-! ### Runs -/

theorem System.turns_snd (cfg : BuddyConfig) (n : Nat) (s : System) :
    (System.turns cfg n s).2 = (Prog.buddyEventLoop cfg n s).2 := by
  induction n generalizing s with
  | zero => rfl
  | succ n ih =>
    have hloop : Prog.buddyEventLoop cfg (n + 1) s =
        (if (Prog.buddyEventLoopTurn cfg s).1 then (do Prog.buddyExit cfg; return true)
          else Prog.buddyEventLoop cfg n) (Prog.buddyEventLoopTurn cfg s).2 := rfl
    have hturn : Prog.turn cfg s =
        (if (Prog.buddyEventLoopTurn cfg s).1 then (do Prog.buddyExit cfg; return true) else return false : Prog Bool)
          (Prog.buddyEventLoopTurn cfg s).2 := rfl
    rw [hloop, System.turns, hturn]
    generalize Prog.buddyEventLoopTurn cfg s = r
    obtain ⟨done, s'⟩ := r
    cases done with
    | true => rfl
    | false => exact ih s'

theorem LoopTurn.between_spec (cfg : BuddyConfig) (s : System) :
    (Prog.turn cfg s).2.1.desiredState = s.1.desiredState.next (LoopTurn.between s (Prog.turn cfg s).2).command ∧
      ((LoopTurn.between s (Prog.turn cfg s).2).Starts →
        Asked s.1.desiredState (LoopTurn.between s (Prog.turn cfg s).2).command) := by
  have hlog : ∀ e l, e.ofStart = false → (∃ new, l = new ++ s.2.log ∧ ∀ e ∈ new, e.ofStart = false) →
      ∃ new, e :: l = new ++ s.2.log ∧ ∀ e ∈ new, e.ofStart = false := by
    rintro e _ he ⟨new, rfl, hnew⟩
    exact ⟨e :: new, rfl, List.forall_mem_cons.mpr ⟨he, hnew⟩⟩
  have hturn : ∃ command, (Prog.turnWatch s.1.desiredState _ command).Sees (Prog.turn cfg s).2 :=
    (Prog.turn_sees hlog).run ⟨rfl, [], rfl, by simp⟩
  obtain ⟨command, hdesired, hcommand, hstarts⟩ := hturn
  have hread : (LoopTurn.between s (Prog.turn cfg s).2).command = command := hcommand
  rw [hread]
  refine ⟨hdesired, ?_⟩
  rintro ⟨e, he, hstart⟩
  refine hstarts.resolve_right ?_
  rintro ⟨new, hnew, hquiet⟩
  rw [LoopTurn.between, hnew, List.length_append, Nat.add_sub_cancel, List.take_left] at he
  rw [hquiet e he] at hstart
  cases hstart

theorem System.turns_spec (cfg : BuddyConfig) (n : Nat) (s : System) :
    OnlyAsked s.1.desiredState (System.turns cfg n s).1 ∧
      (System.turns cfg n s).2.1.desiredState = s.1.desiredState.afterTurns (System.turns cfg n s).1 := by
  induction n generalizing s with
  | zero => exact ⟨trivial, rfl⟩
  | succ n ih =>
    obtain ⟨hdesired, hstarts⟩ := LoopTurn.between_spec cfg s
    by_cases hdone : (Prog.turn cfg s).1
    · rw [System.turns, if_pos hdone]
      exact ⟨⟨hstarts, trivial⟩, hdesired⟩
    · obtain ⟨honly, hafter⟩ := ih (Prog.turn cfg s).2
      rw [hdesired] at honly hafter
      rw [System.turns, if_neg hdone]
      exact ⟨⟨hstarts, honly⟩, hafter⟩

/-- **The start script is run on request only.** In every run, `desired_state` is what the commands that were read ask
for, and the start script is run or looked for only in the turn of a command that asks for a start, or in a turn after
which the service is wanted to run. -/
theorem starts_asked (cfg : BuddyConfig) (size : Nat) (uuid : List UInt8) (answers : Nat → Answer) (clock : Int)
    (turns : Nat) :
    let run := System.turns cfg turns (System.init size uuid answers clock)
    run.2 = System.after cfg size uuid answers clock turns ∧ OnlyAsked .stopped run.1 ∧
      run.2.1.desiredState = RunState.stopped.afterTurns run.1 := by
  obtain ⟨honly, hafter⟩ := System.turns_spec cfg turns (System.init size uuid answers clock)
  exact ⟨System.turns_snd cfg turns _, honly, hafter⟩

/-! ### How a wanted service is lost -/

/-- The latest entry is a `fork` of the start script. -/
def ForkedLast : List Entry → Prop
  | .forked .start _ :: _ => True
  | _ => False

/-- The latest attempt to start came to nothing: it was refused, there was no script or no child, or `chld_terminated`
was cleared when no process was monitored. -/
def Abandoned : List Entry → Prop
  | [] => False
  | .started _ :: log => ¬ ForkedLast log
  | .refused :: _ => True
  | .cleared procPid :: log => procPid = 0 ∨ Abandoned log
  | _ :: log => Abandoned log

theorem abandoned_note {e : Entry} (h : e.harmless = true) (log : List Entry) :
    Abandoned (e :: log) ↔ Abandoned log := by
  cases e with
  | forked action pid => rfl
  | unrunnable action => rfl
  | _ => cases h

/-- A process is monitored, or its restart is due, or the history tells how it was lost. -/
def Tended (v : View) : Prop := v.procPid ≠ 0 ∨ v.chldTerminated = true ∨ Abandoned v.log

theorem tended_started {v : View} {pid t : Int} {log : List Entry} (hpid : v.procPid = pid)
    (hlog : v.log = .started t :: (View.execEntries .start pid ++ log)) : Tended v := by
  by_cases hzero : pid = 0
  · refine .inr (.inr ?_)
    subst hzero
    rw [hlog, View.execEntries, if_neg (by decide), if_pos rfl]
    exact id
  · exact .inl (hpid ▸ hzero)

theorem Tended.step {cfg : BuddyConfig} {v v' : View} (h : Tended v) (hs : View.Step cfg v v') : Tended v' := by
  cases hs with
  | wait t _ => exact h
  | note e he => exact h.imp id (Or.imp id (abandoned_note he v.log).mpr)
  | tested _ => exact h
  | signalling => exact h
  | kill signal _ => exact h
  | clear =>
    by_cases hidle : v.procPid = 0
    · exact .inr (.inr (.inl hidle))
    · exact .inl hidle
  | reap pid _ =>
    unfold View.terminate
    split
    · exact .inr (.inl rfl)
    · exact h
  | refuse _ _ => exact .inr (.inr trivial)
  | start pid t _ _ _ _ => exact tended_started rfl rfl

/-- A monitored process is the child of the latest start, unless that came to nothing. -/
structure Attended (v : View) : Prop where
  procPid : v.procPid ≠ 0 → unreaped v.log = some v.procPid ∨ Abandoned v.log
  complete : ¬ ForkedLast v.log

theorem Attended.step {cfg : BuddyConfig} {v v' : View} (h : Attended v) (hs : View.Step cfg v v') : Attended v' := by
  cases hs with
  | wait t _ => exact ⟨h.procPid, h.complete⟩
  | note e he =>
    refine ⟨fun hpid => ?_, fun hforked => ?_⟩
    · exact (h.procPid hpid).imp (unreaped_note he v.log).trans (abandoned_note he v.log).mpr
    · cases e with
      | forked action pid =>
        cases action with
        | start => cases he
        | _ => exact hforked
      | _ => exact hforked
  | tested _ => exact ⟨h.procPid, id⟩
  | signalling => exact ⟨h.procPid, id⟩
  | kill signal _ => exact ⟨h.procPid, id⟩
  | clear => exact ⟨fun hpid => (h.procPid hpid).imp id .inr, id⟩
  | reap pid _ =>
    refine ⟨fun hpid => ?_, id⟩
    unfold View.terminate at hpid ⊢
    by_cases hmonitored : pid = v.procPid
    · rw [if_pos hmonitored] at hpid
      exact absurd rfl hpid
    · rw [if_neg hmonitored] at hpid ⊢
      refine (h.procPid hpid).imp (fun hrun => ?_) id
      show (if unreaped v.log = some pid then none else unreaped v.log) = some v.procPid
      rw [hrun, if_neg fun heq => hmonitored (Option.some.inj heq).symm]
  | refuse hidle _ => exact ⟨fun hpid => absurd ((v.count_procPid cfg).trans hidle) hpid, id⟩
  | start pid t _ _ _ _ =>
    have hcomplete : ¬ ForkedLast (v.count cfg).log := by
      rcases v.count_log cfg with hlog | hlog <;> rw [hlog]
      · exact h.complete
      · exact id
    refine ⟨fun hpid => ?_, id⟩
    by_cases hpos : 0 < pid
    · refine .inl ?_
      rw [View.execEntries, if_pos hpos]
      rfl
    · refine .inr ?_
      rw [View.execEntries, if_neg hpos, if_neg hpid]
      exact hcomplete

namespace Prog

variable {α : Type} {cfg : BuddyConfig} {p : Prog α}

theorem Moves.tended (hm : Moves cfg p) : Keeps (fun s => Tended s.view) p := hm.keeps fun _ _ h hs => h.step hs

/-- **An attempt to start leaves the service tended**, or the history tells why not. -/
theorem buddyStartProc_tended (s : System) : Tended (buddyStartProc cfg s).2.view := by
  rcases buddyStartProc_cases cfg s with ⟨hpid, hrun⟩ | ⟨-, hrun⟩ | ⟨-, -, hrun⟩
  · rw [hrun]
    exact .inl hpid
  · rw [hrun]
    exact .inr (.inr trivial)
  · have hblocked : Blocked (counted cfg s).view (counted cfg s) := by
      refine ⟨rfl, ?_⟩
      rw [(counted_eq cfg s).1]
      exact Finset.mem_union_right _ (Finset.mem_singleton_self _)
    have hlaunch : Triple (Blocked (counted cfg s).view) launch fun _ s => Tended s.view := by
      refine (launch_blocked cfg (counted cfg s).view).conseq (fun _ h => h) fun _ s' h => ?_
      obtain ⟨pid, now, -, -, hpath⟩ := h
      exact View.Path.keeps (fun _ _ h hs => h.step hs) hpath (tended_started rfl rfl)
    have hsetmask : Moves cfg (setmask s.1.mask) :=
      fun v => Keeps.bind (set_spec fun _ h => h) fun _ => (reached_undisturbed v).interrupt
    have htended : Triple (Blocked (counted cfg s).view) (do launch; setmask s.1.mask; return true) fun _ s =>
        Tended s.view :=
      hlaunch.bind fun _ => Keeps.bind hsetmask.tended fun _ => .pure
    rw [hrun]
    exact htended.run hblocked

/-- A service that is wanted to run is tended. -/
def Wanted (s : System) : Prop := s.1.desiredState = .running → Tended s.view

theorem Moves.wanted (hm : Moves cfg p) (hd : ∀ d, Keeps (fun s => s.1.desiredState = d) p) : Keeps Wanted p :=
  .of_run fun s h hrun => hm.tended.run (h (((hd s.1.desiredState).run rfl).symm.trans hrun))

theorem desired_of_sees (h : ∀ d command, Keeps (Watch.Sees ⟨d, command, fun _ => True⟩) p) (d : RunState) :
    Keeps (fun s => s.1.desiredState = d) p :=
  .of_run fun s hs => ((h d s.1.thisCommand).run ⟨hs, rfl, trivial⟩).1

theorem watchAll_open (d : RunState) (command : UInt32) : Watch.Open ⟨d, command, fun _ => True⟩ := fun _ _ _ => trivial

theorem buddyHandleCommand_wanted : Keeps Wanted (buddyHandleCommand cfg) := by
  refine .of_run fun s h hrun => ?_
  by_cases hstart : s.1.thisCommand = upkCtrlActionStart
  · have hhandle : buddyHandleCommand cfg s = (do
        set fun b => { b with desiredState := .running, lastCommand := s.1.thisCommand }
        let _ ← buddyStartProc cfg) s := by
      have hcommand : buddyHandleCommand cfg s = (if s.1.thisCommand = upkCtrlShutdown then _ else
          if s.1.thisCommand = upkCtrlStatusReq then _ else
            if s.1.thisCommand = upkCtrlActionStart then _ else _ : Prog Unit) s := rfl
      rw [hcommand, if_neg (by rw [hstart]; decide), if_neg (by rw [hstart]; decide), if_pos hstart]
    rw [hhandle]
    exact buddyStartProc_tended ({ s.1 with desiredState := .running, lastCommand := s.1.thisCommand }, s.2)
  · have hafter : (buddyHandleCommand cfg s).2.1.desiredState = s.1.desiredState.next s.1.thisCommand :=
      ((buddyHandleCommand_sees (watchAll_open s.1.desiredState s.1.thisCommand).idle
        fun _ => watchAll_open _ _).run ⟨rfl, rfl, trivial⟩).1
    have hbefore : s.1.desiredState = .running := by
      rw [hafter, RunState.next, if_neg hstart] at hrun
      split at hrun
      · cases hrun
      · split at hrun
        · cases hrun
        · exact hrun
    have hmoves : Moves cfg (buddyHandleCommand cfg) := fun v => (reached_supervising v).buddyHandleCommand
    exact hmoves.tended.run (h hbefore)

theorem serveController_wanted : Keeps Wanted (serveController cfg) := by
  have hread : Keeps Wanted readCommand := by
    have hmoves : Moves cfg readCommand := fun v => (reached_supervising v).readCommand
    refine hmoves.wanted fun d => .of_run fun s h => ?_
    obtain ⟨n, e, fd, hread, -⟩ := Buddy.readCtrl_eq (s.2.answers 0).readSelect (s.2.answers 0).read s.1.thisCommand s.1
    show (s.1.readCtrl (s.2.answers 0).readSelect (s.2.answers 0).read s.1.thisCommand).2.desiredState = d
    rw [hread]
    exact h
  have hflush : Keeps Wanted (buddyFlushRingbuffer cfg) := by
    have hmoves : Moves cfg (buddyFlushRingbuffer cfg) := fun v => (reached_undisturbed v).buddyFlushRingbuffer
    exact hmoves.wanted (desired_of_sees fun d c => (sees_undisturbed (watchAll_open d c).idle).buddyFlushRingbuffer)
  refine buddy_keeps.bind fun b => .ite (fun _ => ?_) fun _ => .pure
  refine hread.bind fun command => .ite (fun _ => ?_) fun _ => .pure
  exact buddyHandleCommand_wanted.bind fun _ => hflush

theorem turn_wanted : Keeps Wanted (turn cfg) := by
  have hinterrupt : Keeps Wanted interrupt := by
    have hmoves : Moves cfg interrupt := fun v => (reached_undisturbed v).interrupt
    exact hmoves.wanted (desired_of_sees fun d c => (sees_undisturbed (watchAll_open d c).idle).interrupt)
  have hflags : Keeps Wanted (buddyHandleFlags cfg) := by
    have hmoves : Moves cfg (buddyHandleFlags cfg) := fun v => (reached_supervising v).buddyHandleFlags
    refine hmoves.wanted (desired_of_sees fun d c => ?_)
    exact buddyHandleFlags_sees (watchAll_open d c).idle fun _ => watchAll_open d c
  have hexit : Keeps Wanted (buddyExit cfg) := by
    have hmoves : Moves cfg (buddyExit cfg) := fun v => (reached_acting v).buddyExit (.of_run fun _ h => h)
    exact hmoves.wanted (desired_of_sees fun d c => buddyExit_sees (watchAll_open d c).idle)
  have hloop : Keeps Wanted (buddyEventLoopTurn cfg) := by
    refine Keeps.bind (set_spec fun _ h => h) fun _ => hinterrupt.bind fun _ => Keeps.bind (.of_run fun _ h => h) fun a => ?_
    split
    · exact Keeps.bind (.of_run fun _ h => h) fun _ => .pure
    · exact serveController_wanted.bind fun _ => hflags
    · exact hflags
  exact hloop.bind fun done => .ite (fun _ => hexit.bind fun _ => .pure) fun _ => .pure

end Prog

theorem System.turns_wanted {cfg : BuddyConfig} (n : Nat) {s : System} (h : Prog.Wanted s) :
    Prog.Wanted (System.turns cfg n s).2 := by
  induction n generalizing s with
  | zero => exact h
  | succ n ih =>
    have hturn : Prog.Wanted (Prog.turn cfg s).2 := Prog.turn_wanted.run h
    by_cases hdone : (Prog.turn cfg s).1
    · rw [System.turns, if_pos hdone]
      exact hturn
    · rw [System.turns, if_neg hdone]
      exact ih hturn

/-- **No wanted service is lost silently.** After every run that leaves the service wanted to run, `proc_pid` is the
child of its latest start and that has not been reaped, or `chld_terminated` is set and its restart is due, or the
latest attempt to start it came to nothing. In the first case the handler runs when the child terminates, since no
signal is blocked, unless the loop has ended or the history tells what has blocked signals. -/
theorem wanted_kept (cfg : BuddyConfig) (size : Nat) (uuid : List UInt8) (answers : Nat → Answer) (clock : Int)
    (turns : Nat)
    (hwanted : (System.after cfg size uuid answers clock turns).1.desiredState = .running) :
    let s := System.after cfg size uuid answers clock turns
    let ended := (Prog.buddyEventLoop cfg turns (System.init size uuid answers clock)).1
    (unreaped s.2.log = some s.1.procPid ∧ (s.1.mask = ∅ ∨ ended = true ∨ ¬ Unhindered s.2.log)) ∨
      s.1.chldTerminated = true ∨ Abandoned s.2.log := by
  have hinit : Prog.Wanted (System.init size uuid answers clock) := fun hrun => by cases hrun
  have htended : Prog.Wanted (System.turns cfg turns (System.init size uuid answers clock)).2 :=
    System.turns_wanted turns hinit
  rw [System.turns_snd] at htended
  have hattended : Attended (System.after cfg size uuid answers clock turns).view :=
    System.invariant (fun v v' h hs => h.step hs) ⟨fun hpid => absurd rfl hpid, id⟩ turns
  have hunblocked : Unblocked (System.init size uuid answers clock) := fun _ => rfl
  have hmask := (Prog.buddyEventLoop_unblocked cfg turns).run hunblocked
  rcases htended hwanted with hpid | hmarked | hlost
  · refine (hattended.procPid hpid).imp (fun hrun => ⟨hrun, ?_⟩) .inr
    cases hended : (Prog.buddyEventLoop cfg turns (System.init size uuid answers clock)).1 with
    | true => exact .inr (.inl rfl)
    | false =>
      by_cases hlog : Unhindered (System.after cfg size uuid answers clock turns).2.log
      · exact .inl (hmask hended hlog)
      · exact .inr (.inr hlog)
  · exact .inr (.inl hmarked)
  · exact .inr (.inr hlost)

/-- The service is started, and its process runs. -/
theorem wanted_kept_start :
    let s := System.after exampleConfig 4 [] (exampleAnswers [4, 0, 0, 0] [] []) 0 3
    let ended := (Prog.buddyEventLoop exampleConfig 3 (System.init 4 [] (exampleAnswers [4, 0, 0, 0] [] []) 0)).1
    (unreaped s.2.log = some s.1.procPid ∧ (s.1.mask = ∅ ∨ ended = true ∨ ¬ Unhindered s.2.log)) ∨
      s.1.chldTerminated = true ∨ Abandoned s.2.log :=
  wanted_kept exampleConfig 4 [] (exampleAnswers [4, 0, 0, 0] [] []) 0 3 (by decide +kernel)

end Upkeeper
