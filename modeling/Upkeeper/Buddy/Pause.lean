import Upkeeper.Buddy.Mask
import Upkeeper.Library.Machine
/-!
# The pause after a runaway (`force_ratelimit`)

`buddy_start_proc` sets `force_ratelimit` when it refuses a start, and only `buddy_handle_flags` clears it, before a restart
of its own. A start that a command of the controller asks for leaves it as it is: if it is let through, the flag stays
true after a start that has succeeded. `Paced` says that the flag is about the latest attempt, and it holds at all points
of a run exactly when no command is let through during the pause (`paced_iff`).
-/

namespace Upkeeper

open Hoare

/-- The attempts to start when no process is monitored, latest first: whether each was refused -/
def attempts : List Entry → List Bool
  | [] => []
  | .refused :: log => true :: attempts log
  | .started _ :: log => false :: attempts log
  | _ :: log => attempts log

/-- The entries that are no attempts -/
def Entry.idle : Entry → Bool
  | .refused => false
  | .started _ => false
  | _ => true

theorem attempts_note {e : Entry} (h : e.idle = true) (log : List Entry) : attempts (e :: log) = attempts log := by
  cases e with
  | refused => cases h
  | started t => cases h
  | _ => rfl

/-- The flag, and the attempts so far -/
def System.pause (s : System) : Bool × List Bool := (s.1.forceRatelimit, attempts s.2.log)

/-- If `force_ratelimit` is true, the latest attempt was refused. -/
def Paced (s : System) : Prop := s.1.forceRatelimit = true → (attempts s.2.log).head? = some true

instance (s : System) : Decidable (Paced s) := inferInstanceAs (Decidable (_ → _))

theorem Paced.of_pause {s s' : System} (h : Paced s) (hpause : s'.pause = s.pause) : Paced s' := by
  obtain ⟨hforce, hattempts⟩ := Prod.mk.inj hpause
  rwa [Paced, hforce, hattempts]

namespace Prog

variable {α β : Type} {cfg : BuddyConfig} {m : Prog α} {f : α → Prog β}

/-! ### What leaves the pause alone -/

/-- Neither the flag nor the attempts change. -/
def Quiet (m : Prog α) : Prop := ∀ v, Keeps (fun s => s.pause = v) m

theorem Quiet.pause (h : Quiet m) (s : System) : (m s).2.pause = s.pause := h _ s _ _ rfl rfl

theorem note_quiet {e : Entry} (h : e.idle = true) : Quiet (note e) :=
  fun _ => .of_run fun s hs => (congrArg (s.1.forceRatelimit, ·) (attempts_note h s.2.log)).trans hs

theorem pause_acting (v : Bool × List Bool) : Acting fun s => s.pause = v := by
  have hcalm : Calm fun s => s.pause = v := by
    refine { answers := fun _ h => h, tell := fun _ => .of_run fun _ h => h, assign := fun {b b' w} hcore _ h => ?_ }
    exact (congrArg (·, attempts w.log) (congrArg Core.forceRatelimit hcore)).trans h
  have hundisturbed : Undisturbed fun s => s.pause = v := by
    refine .of_note hcalm (fun si z s _ _ h => Eq.trans ?_ h) fun e he => note_quiet ?_ v
    · obtain ⟨ring, pending, hreap⟩ := reapChild_fst si z s
      refine Prod.ext ?_ rfl
      show (reapChild si z s).2.1.forceRatelimit = s.1.forceRatelimit
      rw [hreap]
      unfold Buddy.noteTerminated
      split <;> rfl
    · cases e with
      | refused => cases he
      | started t => cases he
      | _ => rfl
  refine { toUndisturbed := hundisturbed, buddyExecAction := fun _ => ?_ }
  exact hundisturbed.exec (fun _ h => h) (fun _ => note_quiet rfl v) (note_quiet rfl v)

theorem interrupt_quiet : Quiet interrupt := fun v => (pause_acting v).interrupt

theorem readCommand_quiet : Quiet readCommand := by
  refine fun v => .of_run fun s h => ?_
  obtain ⟨n, e, fd, hread, -⟩ := Buddy.readCtrl_eq (s.2.answers 0).readSelect (s.2.answers 0).read s.1.thisCommand s.1
  refine (Prod.ext ?_ rfl : (readCommand s).2.pause = s.pause).trans h
  show (s.1.readCtrl (s.2.answers 0).readSelect (s.2.answers 0).read s.1.thisCommand).2.forceRatelimit = _
  rw [hread]
  rfl

/-! ### An attempt to start -/

/-- What an attempt does to the pause -/
def paceAfter (cfg : BuddyConfig) (s : System) : Bool × List Bool :=
  if s.1.procPid ≠ 0 then s.pause
  else if Refuses cfg s then (true, true :: s.pause.2)
  else (s.pause.1, false :: s.pause.2)

theorem launch_pause (s : System) : (launch s).2.pause = (s.pause.1, false :: s.pause.2) := by
  have hlaunch : Triple (fun s' => s'.pause = s.pause) launch fun _ s' => s'.pause = (s.pause.1, false :: s.pause.2) := by
    have hexec : Keeps (fun s' => s'.pause = s.pause) (buddyExecAction .start) :=
      (pause_acting s.pause).exec (fun _ h => h) (fun _ => note_quiet rfl _) (note_quiet rfl _)
    unfold launch
    have hset (f : Buddy → Buddy) (h : ∀ b, (f b).forceRatelimit = b.forceRatelimit) :
        Keeps (fun s' => s'.pause = s.pause) (set f) :=
      set_spec fun s' hs => (congrArg (·, attempts s'.2.log) (h s'.1)).trans hs
    refine Triple.bind hexec fun pid => Triple.bind (hset _ (by intro b; rfl)) fun _ => ?_
    refine Triple.bind (pause_acting s.pause).time fun now => Triple.bind (hset _ (by intro b; rfl)) fun _ => ?_
    have hafter := pause_acting (s.pause.1, false :: s.pause.2)
    refine Triple.bind (note_spec fun s' h => ?_) fun _ => Triple.bind hafter.time fun now => set_spec fun s' h => ?_
    · rw [← h]
      rfl
    · obtain ⟨ring, pending, hrecord⟩ := Buddy.recordStart_eq now s'.1
      rw [hrecord]
      exact h
  exact hlaunch s _ _ rfl rfl

theorem counted_pause (s : System) : (counted cfg s).pause = s.pause := by
  have hcount : Quiet (countRespawn cfg) := fun v => (pause_acting v).countRespawn (fun _ h => h) fun _ => note_quiet rfl v
  have hblock : Quiet (block {sigchld}) := fun _ => .of_run fun _ h => h
  rw [counted, hcount.pause, hblock.pause, interrupt_quiet.pause]

/-- **An attempt** is no attempt while a process is monitored; else it is refused or let through. -/
theorem buddyStartProc_pause (s : System) : (buddyStartProc cfg s).2.pause = paceAfter cfg s := by
  rw [paceAfter]
  rcases buddyStartProc_cases cfg s with ⟨hbusy, hrun⟩ | ⟨hrefuses, hrun⟩ | ⟨hidle, hrefuses, hrun⟩
  · rw [hrun, if_pos hbusy]
  · rw [hrun, if_neg (not_not.mpr hrefuses.1), if_pos hrefuses, ← @counted_pause cfg s]
    rfl
  · rw [hrun, if_neg (not_not.mpr hidle), if_neg hrefuses, ← @counted_pause cfg s, ← launch_pause]
    exact interrupt_quiet.pause ({ (launch (counted cfg s)).2.1 with mask := s.1.mask }, (launch (counted cfg s)).2.2)

/-! ### A turn of the event loop -/

/-- The beginning of a turn: what `select` finds ready -/
def ready : Prog LoopReady := do
  set fun b => { b with thisCommand := 0 }
  interrupt
  let a ← answer
  return a.ready

/-- The part of a turn before `buddy_handle_flags`: whether that is called -/
def serve (cfg : BuddyConfig) : Prog Bool := do
  let ready ← ready
  match ready with
  | .sock => do buddyAccept; return false
  | .ctrl => do serveController cfg; return true
  | .none => return true

theorem buddyEventLoopTurn_eq (cfg : BuddyConfig) : buddyEventLoopTurn cfg = (do
    let flags ← serve cfg
    if flags then buddyHandleFlags cfg else return false) := by
  funext s
  have hturn : buddyEventLoopTurn cfg s = (match (ready s).1 with
    | .sock => do buddyAccept; return false
    | .ctrl => do serveController cfg; buddyHandleFlags cfg
    | .none => buddyHandleFlags cfg : Prog Bool) (ready s).2 := rfl
  have hserve : serve cfg s = (match (ready s).1 with
    | .sock => do buddyAccept; return false
    | .ctrl => do serveController cfg; return true
    | .none => return true : Prog Bool) (ready s).2 := rfl
  show _ = (if (serve cfg s).1 then buddyHandleFlags cfg else return false : Prog Bool) (serve cfg s).2
  rw [hturn, hserve]
  cases (ready s).1 <;> rfl

/-- What a command that starts the process makes the desired state -/
def startCommand (command : UInt32) : Option RunState :=
  if command = upkCtrlActionStart then some .running
  else if command = upkCtrlActionRunonce then some .ranonce
  else none

/-- Buddy calls `buddy_start_proc` for a command. -/
def commanded (state : RunState) (s : System) : System :=
  ({ s.1 with desiredState := state, lastCommand := s.1.thisCommand }, s.2)

/-- Where a command of the controller makes buddy call `buddy_start_proc` in this turn, if one does -/
def starting (s : System) : Option System :=
  if (ready s).1 = .ctrl ∧ 0 < (ready s).2.1.ctrlfd then
    (startCommand (readCommand (ready s).2).2.1.thisCommand).map fun state => commanded state (readCommand (ready s).2).2
  else none

theorem buddy_bind (f : Buddy → Prog β) (s : System) : (buddy >>= f) s = f s.1 s := rfl

/-- **A command** starts the process, or leaves the pause alone. -/
theorem buddyHandleCommand_pause (s : System) : (buddyHandleCommand cfg s).2.pause =
    match startCommand s.1.thisCommand with
    | some state => paceAfter cfg (commanded state s)
    | none => s.pause := by
  by_cases hstart : s.1.thisCommand = upkCtrlActionStart
  · have hrun : (buddyHandleCommand cfg s).2 = (buddyStartProc cfg (commanded .running s)).2 := by
      unfold buddyHandleCommand
      dsimp only
      rw [buddy_bind, if_neg (by rw [hstart]; decide), if_neg (by rw [hstart]; decide), if_pos hstart]
      rfl
    rw [hrun, startCommand, if_pos hstart, buddyStartProc_pause]
  by_cases honce : s.1.thisCommand = upkCtrlActionRunonce
  · have hrun : (buddyHandleCommand cfg s).2.pause = (buddyStartProc cfg (commanded .ranonce s)).2.pause := by
      unfold buddyHandleCommand
      dsimp only
      rw [buddy_bind, if_neg (by rw [honce]; decide), if_neg (by rw [honce]; decide), if_neg hstart,
        if_neg (by rw [honce]; decide), if_neg (by rw [honce]; decide), if_pos honce]
      rfl
    rw [hrun, startCommand, if_neg hstart, if_pos honce, buddyStartProc_pause]
  · have hother : Triple (fun s' => s'.pause = s.pause ∧ s'.1.thisCommand = s.1.thisCommand) (buddyHandleCommand cfg)
        fun _ s' => s'.pause = s.pause :=
      buddyHandleCommand_spec cfg s.1.thisCommand (pause_acting s.pause)
        (fun {b b' w} hcore _ h => (congrArg (·, attempts w.log) (congrArg Core.forceRatelimit hcore)).trans h)
        fun h => absurd h (not_or.mpr ⟨hstart, honce⟩)
    rw [startCommand, if_neg hstart, if_neg honce]
    exact hother.run ⟨rfl, rfl⟩

theorem ready_quiet : Quiet ready := fun v =>
  Keeps.bind (set_spec fun _ h => h) fun _ => (interrupt_quiet v).bind fun _ => (pause_acting v).answer.bind fun _ => .pure

theorem starting_pause {s s₁ : System} (h : starting s = some s₁) : s₁.pause = s.pause := by
  unfold starting at h
  split at h
  · obtain ⟨state, -, rfl⟩ := Option.map_eq_some_iff.mp h
    exact (readCommand_quiet.pause _).trans (ready_quiet.pause s)
  · cases h

theorem serve_eq (cfg : BuddyConfig) (s : System) : serve cfg s = (match (ready s).1 with
    | .sock => do buddyAccept; return false
    | .ctrl => do serveController cfg; return true
    | .none => return true : Prog Bool) (ready s).2 := rfl

theorem serveController_pause (s : System) : (serveController cfg s).2.pause =
    if 0 < s.1.ctrlfd then
      match startCommand (readCommand s).2.1.thisCommand with
      | some state => paceAfter cfg (commanded state (readCommand s).2)
      | none => s.pause
    else s.pause := by
  unfold serveController
  rw [buddy_bind]
  split
  · have hrun : (do
        let command ← readCommand
        if command ≠ 0 then
          buddyHandleCommand cfg
          buddyFlushRingbuffer cfg : Prog Unit) s = (if (readCommand s).2.1.thisCommand ≠ 0 then
            (do buddyHandleCommand cfg; buddyFlushRingbuffer cfg) else pure () : Prog Unit) (readCommand s).2 := rfl
    rw [hrun]
    split
    · have hflush : (buddyFlushRingbuffer cfg (buddyHandleCommand cfg (readCommand s).2).2).2.pause = _ :=
      (pause_acting _).buddyFlushRingbuffer.run rfl
      rw [buddyHandleCommand_pause, readCommand_quiet.pause] at hflush
      exact hflush
    · next hzero =>
      rw [not_not.mp hzero]
      exact readCommand_quiet.pause s
  · rfl

/-- **Serving the controller** is an attempt to start if a command asks for one. -/
theorem serve_pause (s : System) : (serve cfg s).2.pause =
    match starting s with
    | some s₁ => paceAfter cfg s₁
    | none => s.pause := by
  rw [serve_eq, ← ready_quiet.pause s, starting]
  cases hready : (ready s).1 with
  | none => rfl
  | sock => exact (pause_acting _).buddyAccept.run rfl
  | ctrl =>
    refine (serveController_pause (ready s).2).trans ?_
    by_cases hctrl : 0 < (ready s).2.1.ctrlfd
    · rw [if_pos hctrl, if_pos ⟨rfl, hctrl⟩]
      cases startCommand (readCommand (ready s).2).2.1.thisCommand <;> rfl
    · rw [if_neg hctrl, if_neg fun h => hctrl h.2]

/-! ### Pacing -/

/-- `buddy_start_proc` lets a start through during the pause. -/
def LetThrough (cfg : BuddyConfig) (s : System) : Prop :=
  s.1.forceRatelimit = true ∧ s.1.procPid = 0 ∧ ¬ Refuses cfg s

instance (cfg : BuddyConfig) (s : System) : Decidable (LetThrough cfg s) := inferInstanceAs (Decidable (_ ∧ _ ∧ _))

/-- **Step lemma** for an attempt -/
theorem paceAfter_iff {s : System} (h : Paced s) :
    ((paceAfter cfg s).1 = true → (paceAfter cfg s).2.head? = some true) ↔ ¬ LetThrough cfg s := by
  unfold paceAfter LetThrough
  by_cases hidle : s.1.procPid = 0
  · rw [if_neg (not_not.mpr hidle)]
    by_cases hrefuses : Refuses cfg s
    · rw [if_pos hrefuses]
      exact iff_of_true (fun _ => rfl) fun hlet => hlet.2.2 hrefuses
    · rw [if_neg hrefuses]
      constructor
      · rintro hpaced ⟨hforce, -, -⟩
        cases hpaced hforce
      · intro hlet hforce
        exact absurd ⟨hforce, hidle, hrefuses⟩ hlet
  · rw [if_pos hidle]
    exact iff_of_true h fun hlet => hidle hlet.2.1

theorem paced_undisturbed : Undisturbed Paced where
  answers _ h := h
  tell _ := .of_run fun _ h => h
  assign {_ _ w} hcore _ h := h.of_pause (congrArg (·, attempts w.log) (congrArg Core.forceRatelimit hcore))
  reap si z s hz hmask h := h.of_pause ((pause_acting s.pause).reap si z s hz hmask rfl)
  killIfProc signal := .of_run fun s h => h.of_pause (((pause_acting s.pause).killIfProc signal).run rfl)
  killUntested signal := .of_run fun s h => h.of_pause (((pause_acting s.pause).killUntested signal).run rfl)

theorem buddyHandleFlags_paced : Keeps Paced (buddyHandleFlags cfg) := by
  have hstart : Triple (fun s => s.1.forceRatelimit = false) (buddyStartProc cfg) fun _ => Paced := by
    refine .of_run fun s h => ?_
    have hpaced : Paced s := fun hforce => absurd (h.symm.trans hforce) Bool.false_ne_true
    have hlet : ¬ LetThrough cfg s := fun hlet => absurd (h.symm.trans hlet.1) Bool.false_ne_true
    have hpause := (paceAfter_iff hpaced).mpr hlet
    rw [← buddyStartProc_pause] at hpause
    exact hpause
  refine paced_undisturbed.buddyHandleFlags ?_
  refine Triple.bind (Q := fun _ s => s.1.forceRatelimit = false) (set_spec fun s _ => rfl) fun _ => ?_
  refine hstart.bind fun started => .ite (fun _ => ?_) fun _ => Keeps.pure
  refine Triple.seq paced_undisturbed.interrupt (Triple.bind buddy_keeps fun b => ?_)
  exact .of_run fun s h => h.of_pause rfl

end Prog

/-! ### Runs -/

open Prog

variable {cfg : BuddyConfig} {s s' : System}

/-- The points of a turn: its head, before `buddy_handle_flags`, its end, and the end of buddy if the loop ends -/
structure PacedTurn (cfg : BuddyConfig) (s : System) : Prop where
  head : Paced s
  flags : Paced (serve cfg s).2
  last : Paced (buddyEventLoopTurn cfg s).2
  exit : (buddyEventLoopTurn cfg s).1 = true → Paced (buddyExit cfg (buddyEventLoopTurn cfg s).2).2

/-- No command of the controller is let through during the pause. -/
def NoneLetThrough (cfg : BuddyConfig) (s : System) : Prop := ∀ s₁ ∈ starting s, ¬ LetThrough cfg s₁

theorem paced_serve_iff (h : Paced s) : Paced (serve cfg s).2 ↔ NoneLetThrough cfg s := by
  have hpause := @serve_pause cfg s
  unfold NoneLetThrough
  cases hstarting : starting s with
  | none =>
    simp only [hstarting] at hpause
    exact iff_of_true (h.of_pause hpause) fun _ hs₁ => absurd hs₁ (Option.not_mem_none _)
  | some s₁ =>
    simp only [hstarting] at hpause
    have hiff := @paceAfter_iff cfg _ (h.of_pause (starting_pause hstarting))
    rw [← hpause] at hiff
    exact hiff.trans ⟨fun hlet s₂ hs₂ => Option.some.inj hs₂ ▸ hlet, fun hlet => hlet s₁ rfl⟩

/-- **Step lemma** for a turn -/
theorem pacedTurn_iff (h : Paced s) : PacedTurn cfg s ↔ NoneLetThrough cfg s := by
  have hserve := @paced_serve_iff cfg s h
  refine ⟨fun hpaced => hserve.mp hpaced.flags, fun hnone => ?_⟩
  have hflags := hserve.mpr hnone
  have hlast : Paced (buddyEventLoopTurn cfg s).2 := by
    rw [buddyEventLoopTurn_eq]
    have hrest : Keeps Paced (if (serve cfg s).1 then buddyHandleFlags cfg else return false : Prog Bool) :=
      .ite (fun _ => buddyHandleFlags_paced) fun _ => .pure
    exact hrest _ _ _ hflags rfl
  exact ⟨h, hflags, hlast, fun _ => hlast.of_pause (((pause_acting _).buddyExit (.of_run fun _ h => h)).run rfl)⟩

/-- A turn, unless the loop ends with it -/
def System.turn (cfg : BuddyConfig) (s : System) (_ : Unit) : Option System :=
  if (buddyEventLoopTurn cfg s).1 then none else some (buddyEventLoopTurn cfg s).2

/-- Each of so many turns begins in a state that meets the condition. -/
def EveryTurn (cfg : BuddyConfig) (C : System → Prop) (s : System) (turns : Nat) : Prop :=
  Machine.Guarded (System.turn cfg) (fun s _ => C s) s (List.replicate turns ())

theorem buddyEventLoop_eq (cfg : BuddyConfig) (s : System) (turns : Nat) :
    (buddyEventLoop cfg (turns + 1) s).2 =
      match System.turn cfg s () with
      | some s' => (buddyEventLoop cfg turns s').2
      | none => (buddyExit cfg (buddyEventLoopTurn cfg s).2).2 := by
  have hrun : buddyEventLoop cfg (turns + 1) s = (if (buddyEventLoopTurn cfg s).1 then
      (do buddyExit cfg; return true) else buddyEventLoop cfg turns : Prog Bool) (buddyEventLoopTurn cfg s).2 := rfl
  rw [hrun, System.turn]
  cases (buddyEventLoopTurn cfg s).1 <;> rfl

theorem paced_after {turns : Nat} (hs : Paced s) (h : EveryTurn cfg (PacedTurn cfg) s turns) :
    Paced (buddyEventLoop cfg turns s).2 := by
  induction turns generalizing s with
  | zero => exact hs
  | succ turns ih =>
    obtain ⟨hturn, hrest⟩ := h
    rw [buddyEventLoop_eq]
    unfold System.turn at hrest ⊢
    by_cases hdone : (buddyEventLoopTurn cfg s).1 = true
    · rw [if_pos hdone]
      exact hturn.exit hdone
    · rw [if_neg hdone] at hrest ⊢
      exact ih hturn.last (hrest _ rfl)

/-- **The pause is only for runaways**, at all points of a run, exactly when no command of the controller is let through
during the pause. -/
theorem paced_iff (cfg : BuddyConfig) (size : Nat) (uuid : List UInt8) (answers : Nat → Answer) (clock : Int) (turns : Nat) :
    EveryTurn cfg (PacedTurn cfg) (System.init size uuid answers clock) turns ↔
      EveryTurn cfg (NoneLetThrough cfg) (System.init size uuid answers clock) turns := by
  refine Machine.guarded_iff_of_inv (J := Paced) (fun s _ h => pacedTurn_iff h) (fun s _ s' h hnone hturn => ?_) nofun
  unfold System.turn at hturn
  split at hturn
  · cases hturn
  · obtain rfl := Option.some.inj hturn
    exact ((pacedTurn_iff h).mpr hnone).last

/-- Buddy as `-M 1` configures it -/
def onceConfig : BuddyConfig := { exampleConfig with userMaxRestarts := 1 }

/-- A world in which the process dies at once, and a controller sends the command to start it three times. The third one
comes ten seconds later. -/
def startsAgain (n : Nat) : Answer :=
  { exampleAnswers [4, 0, 0, 0] [] [] n with
    arrivals := [.chld ⟨17, 1, 100, 0⟩ [⟨100, 0, if n < 40 then 1000 else 1010⟩]]
    time := if n < 40 then 1000 else 1010
    ready := if n ∈ [1, 28, 40] then .sock else .ctrl }

/-- The second command is refused, and the third one is let through: the flag is still true then. -/
theorem not_paced_secondStart :
    (System.after onceConfig 4 [] startsAgain 0 5).1.forceRatelimit = true ∧
      ¬ EveryTurn onceConfig (PacedTurn onceConfig) (System.init 4 [] startsAgain 0) 6 := by
  refine ⟨by decide +kernel, fun h => ?_⟩
  have hinit : Paced (System.init 4 [] startsAgain 0) := nofun
  have hafter := paced_after hinit h
  revert hafter
  decide +kernel

end Upkeeper
