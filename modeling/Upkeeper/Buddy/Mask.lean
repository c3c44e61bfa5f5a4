import Upkeeper.Buddy.Supervise
/-!
# The signal mask

Each function that blocks signals is followed to its end: with which mask it returns (`buddyStartProc_mask`,
`buddyExecAction_mask`, `buddyFlushRingbuffer_mask`). `buddy_start_proc` leaves `SIGCHLD` blocked when the runaway limit
refuses the start, and `buddy_exec_action` leaves all signals blocked when there is no script to run.
-/

namespace Upkeeper

open Hoare

namespace Prog

variable {cfg : BuddyConfig} {m : SigSet}

/-! ### Interruptions and actions -/

theorem mask_undisturbed (m : SigSet) : Undisturbed fun s => s.1.mask = m := by
  refine .of_note { answers := fun _ h => h, tell := fun _ => .of_run fun _ h => h, assign := fun hcore _ h => ?_ }
    (fun si z s _ _ h => (reapChild_mask si z s).trans h) fun _ _ => .of_run fun _ h => h
  exact (congrArg Core.mask hcore).trans h

theorem mask_of_keeps {α : Type} {p : Prog α} (h : ∀ m, Keeps (fun s => s.1.mask = m) p) (s : System) :
    (p s).2.1.mask = s.1.mask := h _ s _ _ rfl rfl

theorem interrupt_mask (s : System) : (interrupt s).2.1.mask = s.1.mask :=
  mask_of_keeps (fun m => (mask_undisturbed m).interrupt) s

theorem setmask_mask (oldset : SigSet) (s : System) : (setmask oldset s).2.1.mask = oldset :=
  interrupt_mask ({ s.1 with mask := oldset }, s.2)

/-- Whether `buddy_exec_action` will find an executable script -/
def Runnable (s : System) : Prop :=
  (((s.2.answers 0).stat.getD s.1.statMode).regular && ((s.2.answers 0).stat.getD s.1.statMode).executable) = true

instance (s : System) : Decidable (Runnable s) := inferInstanceAs (Decidable (_ = true))

/-- Where `buddy_exec_action` decides: all signals are blocked, and the mode of the script is known. -/
def examined (s : System) : System := (stat (block Finset.univ s).2).2

theorem buddyExecAction_mask (action : Action) (s : System) :
    (buddyExecAction action s).2.1.mask = if Runnable s then s.1.mask else Finset.univ := by
  by_cases hrun : Runnable s
  · have hexec : buddyExecAction action s = (do let pid ← fork action; setmask s.1.mask; return pid) (examined s) :=
      congrFun (if_pos hrun) (examined s)
    rw [hexec, if_pos hrun]
    exact setmask_mask s.1.mask (fork action (examined s)).2
  · have hexec : buddyExecAction action s = (do note (.unrunnable action); return 0) (examined s) :=
      congrFun (if_neg hrun) (examined s)
    rw [hexec, if_neg hrun]
    exact Finset.union_eq_right.mpr (Finset.subset_univ _)

/-! ### Starting -/

/-- Whether `buddy_start_proc` will refuse the start: it comes within the window of the last one, as the clock stands
after the signals that arrive first, and the count goes beyond its limit. -/
def Refuses (cfg : BuddyConfig) (s : System) : Prop :=
  s.1.procPid = 0 ∧
    s.1.respawnTimestamp + cfg.userRestartWindow > max (interrupt s).2.2.clock ((interrupt s).2.2.answers 0).time ∧
      s.1.rapidRespawnCount + 1 > cfg.userMaxRestarts

instance (cfg : BuddyConfig) (s : System) : Decidable (Refuses cfg s) := inferInstanceAs (Decidable (_ ∧ _ ∧ _))

theorem interrupt_count (s : System) :
    (interrupt s).2.1.respawnTimestamp = s.1.respawnTimestamp ∧
      (interrupt s).2.1.rapidRespawnCount = s.1.rapidRespawnCount := by
  have hkeeps : Keeps (fun s' : System =>
      s'.1.respawnTimestamp = s.1.respawnTimestamp ∧ s'.1.rapidRespawnCount = s.1.rapidRespawnCount) interrupt := by
    refine interrupt_keeps (.of_run fun _ h => h) (fun si z s' _ _ h => ?_) fun _ _ _ h => h
    obtain ⟨ring, pending, hreap⟩ := reapChild_fst si z s'
    rw [hreap]
    unfold Buddy.noteTerminated
    split <;> exact h
  exact hkeeps s _ _ ⟨rfl, rfl⟩ rfl

/-- Where `buddy_start_proc` decides -/
def counted (cfg : BuddyConfig) (s : System) : System := (countRespawn cfg (block {sigchld} (interrupt s).2).2).2

theorem counted_eq (cfg : BuddyConfig) (s : System) :
    (counted cfg s).1.mask = s.1.mask ∪ {sigchld} ∧
      (counted cfg s).1.rapidRespawnCount =
        if s.1.respawnTimestamp + cfg.userRestartWindow > max (interrupt s).2.2.clock ((interrupt s).2.2.answers 0).time
        then s.1.rapidRespawnCount + 1 else 0 := by
  obtain ⟨hrespawn, hcount⟩ := interrupt_count s
  have hmask := interrupt_mask s
  rw [← hrespawn, ← hcount, ← hmask]
  by_cases hsoon : (interrupt s).2.1.respawnTimestamp + cfg.userRestartWindow >
      max (interrupt s).2.2.clock ((interrupt s).2.2.answers 0).time
  · have hrun : counted cfg s = ((do
        note (.counted (interrupt s).2.1.rapidRespawnCount)
        set fun b => { b with rapidRespawnCount := b.rapidRespawnCount + 1 } : Prog Unit)
          (time (block {sigchld} (interrupt s).2).2).2).2 := congrArg Prod.snd (congrFun (if_pos hsoon) _)
    rw [hrun, if_pos hsoon]
    exact ⟨rfl, rfl⟩
  · have hrun : counted cfg s = (set (fun b => { b with rapidRespawnCount := 0 })
          (time (block {sigchld} (interrupt s).2).2).2).2 := congrArg Prod.snd (congrFun (if_neg hsoon) _)
    rw [hrun, if_neg hsoon]
    exact ⟨rfl, rfl⟩

/-- **An attempt to start:** a process is monitored, or the attempt is refused, or it is let through. -/
theorem buddyStartProc_cases (cfg : BuddyConfig) (s : System) :
    s.1.procPid ≠ 0 ∧ buddyStartProc cfg s = (true, s) ∨
      Refuses cfg s ∧ buddyStartProc cfg s = (do
        note .refused
        set fun b => { b with forceRatelimit := true }
        return false) (counted cfg s) ∨
      s.1.procPid = 0 ∧ ¬ Refuses cfg s ∧ buddyStartProc cfg s = (do
        launch
        setmask s.1.mask
        return true) (counted cfg s) := by
  obtain ⟨-, hcount⟩ := counted_eq cfg s
  by_cases hidle : s.1.procPid = 0
  · by_cases hmany : (counted cfg s).1.rapidRespawnCount > cfg.userMaxRestarts
    · refine .inr (.inl ⟨?_, (congrFun (if_pos hidle) s).trans (congrFun (if_pos hmany) (counted cfg s))⟩)
      rw [hcount] at hmany
      split at hmany
      · next hsoon => exact ⟨hidle, hsoon, hmany⟩
      · exact absurd hmany (by simp)
    · rw [← interrupt_mask s]
      refine .inr (.inr ⟨hidle, ?_, (congrFun (if_pos hidle) s).trans (congrFun (if_neg hmany) (counted cfg s))⟩)
      rintro ⟨-, hsoon, hmany'⟩
      rw [hcount, if_pos hsoon] at hmany
      exact hmany hmany'
  · exact .inl ⟨hidle, congrFun (if_neg hidle) s⟩

theorem buddyStartProc_mask (s : System) :
    (buddyStartProc cfg s).2.1.mask = if Refuses cfg s then s.1.mask ∪ {sigchld} else s.1.mask := by
  rcases buddyStartProc_cases cfg s with ⟨hbusy, hrun⟩ | ⟨hrefuses, hrun⟩ | ⟨-, hrefuses, hrun⟩
  · rw [hrun, if_neg fun h => hbusy h.1]
  · rw [hrun, if_pos hrefuses]
    exact (counted_eq cfg s).1
  · rw [hrun, if_neg hrefuses]
    exact setmask_mask _ (launch (counted cfg s)).2

/-! ### Stopping and flushing -/

theorem buddyStopProc_mask (s : System) :
    (buddyStopProc cfg s).2.1.mask = if s.1.procPid = 0 ∨ Runnable s then s.1.mask else Finset.univ := by
  by_cases hidle : s.1.procPid = 0
  · have hrun : buddyStopProc cfg s = ((), s) := congrFun (if_neg (not_not.mpr hidle)) s
    rw [hrun, if_pos (Or.inl hidle)]
  · have hrun : buddyStopProc cfg s = (do
        waitUntil 10
        if cfg.killTimeout ≠ 0 then
          killIfProc sigterm
          waitUntil 20
          killIfProc sigkill) (buddyExecAction .stop s).2 := congrFun (if_pos hidle) s
    have hiff : (s.1.procPid = 0 ∨ Runnable s) ↔ Runnable s := or_iff_right hidle
    rw [hrun, mask_of_keeps fun m => (mask_undisturbed m).escalation, buddyExecAction_mask]
    simp only [hiff]

theorem buddyReloadProc_mask (s : System) :
    (buddyReloadProc s).2.1.mask = if s.1.procPid = 0 ∨ Runnable s then s.1.mask else Finset.univ := by
  by_cases hidle : s.1.procPid = 0
  · have hrun : buddyReloadProc s = ((), s) := congrFun (if_neg (not_not.mpr hidle)) s
    rw [hrun, if_pos (Or.inl hidle)]
  · have hrun : buddyReloadProc s = ((), (buddyExecAction .reload s).2) := congrFun (if_pos hidle) s
    have hiff : (s.1.procPid = 0 ∨ Runnable s) ↔ Runnable s := or_iff_right hidle
    rw [hrun, buddyExecAction_mask]
    simp only [hiff]

theorem buddyCustAction_mask (n : UInt32) (s : System) :
    (buddyCustAction n s).2.1.mask = if Runnable s then s.1.mask else Finset.univ := buddyExecAction_mask (.custom n) s

theorem buddyFlushRingbuffer_mask (s : System) : (buddyFlushRingbuffer cfg s).2.1.mask = s.1.mask :=
  mask_of_keeps (fun m => (mask_undisturbed m).buddyFlushRingbuffer) s

end Prog

/-! ### Runs -/

/-- No start was refused, and each other action had an executable script. -/
def Unhindered (log : List Entry) : Prop := .refused ∉ log ∧ ∀ action ≠ .start, .unrunnable action ∉ log

theorem Unhindered.of_suffix {log log' : List Entry} (h : Unhindered log') (hsuffix : log <:+ log') : Unhindered log :=
  ⟨fun hmem => h.1 (hsuffix.subset hmem), fun action ha hmem => h.2 action ha (hsuffix.subset hmem)⟩

/-- No signal is blocked, unless something hindered an action. -/
def Unblocked (s : System) : Prop := Unhindered s.2.log → s.1.mask = ∅

theorem View.Path.log_suffix {cfg : BuddyConfig} {v v' : View} (h : View.Path cfg v v') : v.log <:+ v'.log := by
  induction h with
  | refl => exact List.suffix_rfl
  | tail _ hs ih => exact ih.trans hs.log_suffix

namespace Prog

variable {α : Type} {cfg : BuddyConfig}

theorem Moves.log_suffix {p : Prog α} (h : Moves cfg p) (s : System) : s.2.log <:+ (p s).2.2.log :=
  View.Path.log_suffix (h s.view s _ _ Relation.ReflTransGen.refl rfl)

theorem Moves.unblocked {p : Prog α} (hm : Moves cfg p)
    (h : ∀ s, Unhindered (p s).2.2.log → (p s).2.1.mask = s.1.mask) : Keeps Unblocked p :=
  .of_run fun s hs hlog => (h s hlog).trans (hs (hlog.of_suffix (hm.log_suffix s)))

theorem note_unblocked (e : Entry) : Keeps Unblocked (note e) :=
  .of_run fun _ hs hlog => hs (hlog.of_suffix (List.suffix_cons _ _))

theorem buddyExecAction_unrunnable {action : Action} {s : System} (h : ¬ Runnable s) :
    .unrunnable action ∈ (buddyExecAction action s).2.2.log := by
  have hexec : buddyExecAction action s = (do note (.unrunnable action); return 0) (examined s) :=
    congrFun (if_neg h) (examined s)
  rw [hexec]
  exact List.mem_cons_self

theorem buddyStartProc_refused {s : System} (h : Refuses cfg s) : .refused ∈ (buddyStartProc cfg s).2.2.log := by
  have hmany : (counted cfg s).1.rapidRespawnCount > cfg.userMaxRestarts := by
    rw [(counted_eq cfg s).2, if_pos h.2.1]
    exact h.2.2
  have hrun : buddyStartProc cfg s = (do
      note .refused
      set fun b => { b with forceRatelimit := true }
      return false) (counted cfg s) := (congrFun (if_pos h.1) s).trans (congrFun (if_pos hmany) (counted cfg s))
  rw [hrun]
  exact List.mem_cons_self

theorem unblocked_supervising : Supervising cfg Unblocked := by
  have hcalm : Calm Unblocked := by
    refine { answers := fun _ h => h, tell := fun _ => .of_run fun _ h => h, assign := fun hcore _ h hlog => ?_ }
    exact (congrArg Core.mask hcore).trans (h hlog)
  have hundisturbed : Undisturbed Unblocked := by
    refine .of_note hcalm (fun si z s _ _ h hlog => ?_) fun e _ => note_unblocked e
    exact (reapChild_mask si z s).trans (h (hlog.of_suffix (List.suffix_cons _ _)))
  have hacting : Acting Unblocked := by
    refine { toUndisturbed := hundisturbed, buddyExecAction := fun {action} haction => ?_ }
    have hmoves : Moves cfg (buddyExecAction action) := fun v => (reached_acting v).buddyExecAction haction
    refine hmoves.unblocked fun s hlog => ?_
    rw [buddyExecAction_mask]
    split
    · rfl
    · next hrun => exact absurd (buddyExecAction_unrunnable hrun) (hlog.2 action haction)
  have hstart : Keeps Unblocked (buddyStartProc cfg) := by
    have hmoves : Moves cfg (buddyStartProc cfg) := buddyStartProc_reached
    refine hmoves.unblocked fun s hlog => ?_
    rw [buddyStartProc_mask]
    split
    · next hrefuses => exact absurd (buddyStartProc_refused hrefuses) hlog.1
    · rfl
  refine { toActing := hacting, order := fun hcore h hlog => ?_, force := fun h => h, clear := ?_, buddyStartProc := hstart }
  · exact (congrArg Core.mask hcore).trans (h hlog)
  · exact buddy_keeps.bind fun b => (note_unblocked _).bind fun _ => set_spec fun s hs hlog => hs hlog

/-- At the head of a turn no signal is blocked, unless something hindered an action. After its last turn buddy may have
blocked all signals to end. -/
theorem buddyEventLoop_unblocked (cfg : BuddyConfig) (n : Nat) :
    Triple Unblocked (buddyEventLoop cfg n) fun done s => done = false → Unblocked s := by
  induction n with
  | zero => exact .pure fun s hs _ => hs
  | succ n ih =>
    refine Triple.bind unblocked_supervising.buddyEventLoopTurn fun done => .ite (fun _ => ?_) fun _ => ih
    refine Triple.bind (Q := fun _ _ => True) (fun _ _ _ _ _ => trivial) fun _ => .pure fun _ _ hdone => ?_
    cases hdone

end Prog

theorem mask_eq_iff {c : Prop} [Decidable c] {m m' : SigSet} : (if c then m else m') = m ↔ c ∨ m = m' := by
  by_cases h : c
  · simp [h]
  · simp [h, eq_comm]

theorem buddyStartProc_restores (cfg : BuddyConfig) (s : System) :
    (Prog.buddyStartProc cfg s).2.1.mask = s.1.mask ↔ (Prog.Refuses cfg s → sigchld ∈ s.1.mask) := by
  rw [Prog.buddyStartProc_mask]
  by_cases hrefuses : Prog.Refuses cfg s
  · rw [if_pos hrefuses, Finset.union_eq_left, Finset.singleton_subset_iff]
    exact ⟨fun hmem _ => hmem, fun h => h hrefuses⟩
  · rw [if_neg hrefuses]
    exact iff_of_true rfl fun h => absurd h hrefuses

/-- **The signal mask is restored** by each function in every state, unless the start is refused where `SIGCHLD` was
not blocked, or there is no script to run where not all signals were blocked. In a run in which neither happens, no
signal is blocked at the head of any turn. -/
theorem restores_iff (cfg : BuddyConfig) :
    (∀ s,
      ((Prog.buddyStartProc cfg s).2.1.mask = s.1.mask ↔ (Prog.Refuses cfg s → sigchld ∈ s.1.mask)) ∧
      ((Prog.buddyStopProc cfg s).2.1.mask = s.1.mask ↔ (s.1.procPid = 0 ∨ Prog.Runnable s) ∨ s.1.mask = Finset.univ) ∧
      ((Prog.buddyReloadProc s).2.1.mask = s.1.mask ↔ (s.1.procPid = 0 ∨ Prog.Runnable s) ∨ s.1.mask = Finset.univ) ∧
      (∀ n, (Prog.buddyCustAction n s).2.1.mask = s.1.mask ↔ Prog.Runnable s ∨ s.1.mask = Finset.univ) ∧
      (Prog.buddyFlushRingbuffer cfg s).2.1.mask = s.1.mask) ∧
    ∀ size uuid answers clock turns,
      Unhindered (System.after cfg size uuid answers clock turns).2.log →
      (Prog.buddyEventLoop cfg turns (System.init size uuid answers clock)).1 = false →
      (System.after cfg size uuid answers clock turns).1.mask = ∅ := by
  refine ⟨fun s => ⟨buddyStartProc_restores cfg s, ?_, ?_, fun n => ?_, Prog.buddyFlushRingbuffer_mask s⟩, ?_⟩
  · rw [Prog.buddyStopProc_mask, mask_eq_iff]
  · rw [Prog.buddyReloadProc_mask, mask_eq_iff]
  · rw [Prog.buddyCustAction_mask, mask_eq_iff]
  · intro size uuid answers clock turns hlog hdone
    have hinit : Unblocked (System.init size uuid answers clock) := fun _ => rfl
    exact Prog.buddyEventLoop_unblocked cfg turns _ _ _ hinit rfl hdone hlog

/-- A process is started, dies and is restarted. -/
theorem restores_restart : (System.after exampleConfig 4 [] (exampleAnswers [4, 0, 0, 0] [18] []) 0 3).1.mask = ∅ := by
  have hlog : (System.after exampleConfig 4 [] (exampleAnswers [4, 0, 0, 0] [18] []) 0 3).2.log =
      [.cleared 100, .started 1000, .forked .start 100, .counted 0, .reaped 100 true, .started 1000,
       .forked .start 100] := by
    decide +kernel
  have hdone :
      (Prog.buddyEventLoop exampleConfig 3 (System.init 4 [] (exampleAnswers [4, 0, 0, 0] [18] []) 0)).1 = false := by
    decide +kernel
  refine (restores_iff exampleConfig).2 4 [] (exampleAnswers [4, 0, 0, 0] [18] []) 0 3 ⟨?_, fun action _ => ?_⟩ hdone
  · rw [hlog]
    simp
  · rw [hlog]
    simp

/-- The world of `exampleAnswers`, without any script -/
def exampleScriptless (command : List UInt8) (n : Nat) : Answer := { exampleAnswers command [] [] n with stat := none }

/-- There is no script for a custom action: all signals stay blocked, and buddy gets no `SIGCHLD`, `SIGTERM` or `SIGINT`
any more. -/
theorem custom_blocks :
    let s := System.after exampleConfig 4 [] (exampleScriptless [8, 0, 0, 0]) 0 2
    s.2.log = [.unrunnable (.custom 0)] ∧
      (Prog.buddyEventLoop exampleConfig 2 (System.init 4 [] (exampleScriptless [8, 0, 0, 0]) 0)).1 = false ∧
      sigchld ∈ s.1.mask ∧ sigterm ∈ s.1.mask ∧ sigint ∈ s.1.mask := by
  decide +kernel

end Upkeeper
