import Upkeeper.Buddy.Steps
/-!
# The monitored process

Three properties of every run, each an invariant of `View.Step`: the start script is not forked while an earlier child
of it is unreaped (`exclusive`), `kill` hits the monitored process exactly when what it was decided on is still so
(`killsOwn_iff`), and a termination is not forgotten unless `chld_terminated` is cleared when no process is
monitored (`chldTerminated_of_run`).
-/

namespace Upkeeper

/-- Buddy after so many turns of its event loop, from its initialization on -/
def System.after (cfg : BuddyConfig) (size : Nat) (uuid : List UInt8) (answers : Nat → Answer) (clock : Int) (turns : Nat) :
    System :=
  (Prog.buddyEventLoop cfg turns (System.init size uuid answers clock)).2

/-- A world in which a controller connects in the first turn and sends a command in the second one. Scripts are
executable, every child has the pid 100, `SIGCHLD` arrives at the points `deaths`, and a controller connects again at
the points `socks`. -/
def exampleAnswers (command : List UInt8) (deaths socks : List Nat) (n : Nat) : Answer where
  arrivals := if n ∈ deaths then [.chld ⟨17, 1, 100, 0⟩ [⟨100, 0, 1000⟩]] else []
  time := 1000
  fork := 100
  stat := some ⟨true, true⟩
  jitter := 0
  ready := if n = 1 ∨ n ∈ socks then .sock else if n = 4 then .ctrl else .none
  accept := 5
  sockopts := 1
  readSelect := .ready
  read := .data command
  exchange := ⟨.timeout, .fail .other, .timeout, .fail .other⟩
  home := (-1, false)

/-! ### At most one process -/

/-- The child of the latest start that has not been reaped, from a history -/
def unreaped : List Entry → Option Int
  | [] => none
  | .forked .start pid :: _ => some pid
  | .reaped pid _ :: log => if unreaped log = some pid then none else unreaped log
  | _ :: log => unreaped log

/-- The start script is forked only when no child of it is unreaped. -/
def Exclusive : List Entry → Prop
  | [] => True
  | .forked .start _ :: log => unreaped log = none ∧ Exclusive log
  | _ :: log => Exclusive log

variable {cfg : BuddyConfig}

theorem unreaped_note {e : Entry} (h : e.harmless = true) (log : List Entry) : unreaped (e :: log) = unreaped log := by
  cases e with
  | forked action pid =>
    cases action with
    | start => cases h
    | _ => rfl
  | unrunnable action => rfl
  | _ => cases h

theorem exclusive_note {e : Entry} (h : e.harmless = true) (log : List Entry) : Exclusive (e :: log) ↔ Exclusive log := by
  cases e with
  | forked action pid =>
    cases action with
    | start => cases h
    | _ => rfl
  | unrunnable action => rfl
  | _ => cases h

theorem View.count_log (cfg : BuddyConfig) (v : View) :
    (v.count cfg).log = v.log ∨ (v.count cfg).log = .counted v.rapidRespawnCount :: v.log := by
  unfold View.count
  split
  · exact Or.inr rfl
  · exact Or.inl rfl

theorem View.count_procPid (cfg : BuddyConfig) (v : View) : (v.count cfg).procPid = v.procPid := by
  unfold View.count
  split <;> rfl

theorem View.Step.log_suffix {v v' : View} (hs : View.Step cfg v v') : v.log <:+ v'.log := by
  have hcount : v.log <:+ (v.count cfg).log := by
    rcases v.count_log cfg with h | h <;> rw [h]
    exact List.suffix_cons _ _
  cases hs with
  | wait t _ => exact List.suffix_rfl
  | refuse _ _ => exact hcount.trans (List.suffix_cons _ _)
  | start pid t _ _ _ _ => exact hcount.trans ((List.suffix_append _ _).trans (List.suffix_cons _ _))
  | _ => exact List.suffix_cons _ _

theorem unreaped_count (cfg : BuddyConfig) (v : View) : unreaped (v.count cfg).log = unreaped v.log := by
  rcases v.count_log cfg with h | h <;> rw [h]
  rfl

theorem exclusive_count (cfg : BuddyConfig) (v : View) : Exclusive (v.count cfg).log ↔ Exclusive v.log := by
  rcases v.count_log cfg with h | h <;> rw [h]
  rfl

/-- `proc_pid` is the child of the latest start as long as that is unreaped. -/
structure Monitors (v : View) : Prop where
  exclusive : Exclusive v.log
  procPid : ∀ pid, unreaped v.log = some pid → v.procPid = pid ∧ 0 < pid

theorem Monitors.reap {v : View} (h : Monitors v) (pid : Int) :
    Monitors { v.terminate pid with log := .reaped pid (pid == v.procPid) :: v.log } := by
  refine ⟨h.exclusive, fun pid' hpid' => ?_⟩
  dsimp only [unreaped] at hpid'
  split at hpid'
  · cases hpid'
  · next hne =>
    obtain ⟨hproc, hpos⟩ := h.procPid pid' hpid'
    refine ⟨?_, hpos⟩
    have hother : pid ≠ v.procPid := by
      rintro rfl
      exact hne (hproc ▸ hpid')
    unfold View.terminate
    rw [if_neg hother]
    exact hproc

theorem Monitors.start {v : View} (h : Monitors v) (hidle : v.procPid = 0) (pid t : Int) :
    Monitors { v.count cfg with
      procPid := pid, respawnTimestamp := t, clock := t
      log := .started t :: (View.execEntries .start pid ++ (v.count cfg).log) } := by
  have hnone : unreaped v.log = none := by
    cases hrun : unreaped v.log with
    | none => rfl
    | some pid' =>
      obtain ⟨hproc, hpos⟩ := h.procPid pid' hrun
      omega
  rw [← unreaped_count cfg] at hnone
  have hexclusive := (exclusive_count cfg v).mpr h.exclusive
  unfold View.execEntries
  split
  · next hpos =>
    refine ⟨⟨hnone, hexclusive⟩, fun pid' hpid' => ?_⟩
    obtain rfl : pid = pid' := Option.some.inj hpid'
    exact ⟨rfl, hpos⟩
  · split
    · exact ⟨hexclusive, fun pid' hpid' => absurd (hnone.symm.trans hpid') (by simp)⟩
    · exact ⟨hexclusive, fun pid' hpid' => absurd (hnone.symm.trans hpid') (by simp)⟩

theorem Monitors.step {v v' : View} (h : Monitors v) (hs : View.Step cfg v v') : Monitors v' := by
  cases hs with
  | wait t _ => exact ⟨h.exclusive, h.procPid⟩
  | note e he => exact ⟨(exclusive_note he v.log).mpr h.exclusive, by rw [unreaped_note he]; exact h.procPid⟩
  | tested _ => exact ⟨h.exclusive, h.procPid⟩
  | signalling => exact ⟨h.exclusive, h.procPid⟩
  | kill signal _ => exact ⟨h.exclusive, h.procPid⟩
  | clear => exact ⟨h.exclusive, h.procPid⟩
  | reap pid _ => exact h.reap pid
  | refuse _ _ =>
    have hrun := unreaped_count cfg v
    exact ⟨(exclusive_count cfg v).mpr h.exclusive, fun pid hpid => v.count_procPid cfg ▸ h.procPid pid (hrun ▸ hpid)⟩
  | start pid t hidle _ _ _ => exact h.start hidle pid t

/-- **At most one process.** The start script is never forked while the child of an earlier start is unreaped. -/
theorem exclusive (cfg : BuddyConfig) (size : Nat) (uuid : List UInt8) (answers : Nat → Answer) (clock : Int) (turns : Nat) :
    Exclusive (System.after cfg size uuid answers clock turns).2.log := by
  have hinit : Monitors (System.init size uuid answers clock).view := ⟨trivial, fun pid hpid => by cases hpid⟩
  exact (System.invariant (fun v v' h hs => h.step hs) hinit turns).exclusive

/-! ### Whom buddy kills -/

/-- The pid of the latest `fork` of the start action that succeeded, from a history -/
def lastForked : List Entry → Option Int
  | [] => none
  | .forked .start pid :: _ => some pid
  | _ :: log => lastForked log

/-- Every `kill` has a positive target, which is the pid of the latest start before it. -/
def KillsOwn : List Entry → Prop
  | [] => True
  | .killed target _ :: log => (0 < target ∧ lastForked log = some target) ∧ KillsOwn log
  | _ :: log => KillsOwn log

/-- The latest decision to `kill` found the monitored process, and that has not been reaped since. A test of
`buddy_stop_proc` has ruled out 0, and is left with the `-1` of a `fork` that failed. -/
def AimsTrue : List Entry → Prop
  | .tested procPid :: _ => procPid ≠ -1
  | .signalling procPid :: _ => 0 < procPid
  | .reaped _ monitored :: log => monitored = false ∧ AimsTrue log
  | _ => False

/-- Every `kill` was decided on so. -/
def KillsAimed : List Entry → Prop
  | [] => True
  | .killed _ _ :: log => AimsTrue log ∧ KillsAimed log
  | _ :: log => KillsAimed log

/-- A positive `proc_pid` is the latest child of the start script, and a decision to `kill` that aims true is one that
finds `proc_pid` positive. -/
structure Targets (v : View) : Prop where
  kills : KillsOwn v.log ↔ KillsAimed v.log
  forked : -1 ≤ v.procPid
  procPid : 0 < v.procPid → lastForked v.log = some v.procPid
  aims : Aiming v.log → (AimsTrue v.log ↔ 0 < v.procPid)

theorem Targets.cons {v v' : View} {e : Entry} (h : Targets v) (hlog : v'.log = e :: v.log)
    (hpid : v'.procPid = v.procPid) (hown : KillsOwn (e :: v.log) ↔ KillsOwn v.log)
    (haimed : KillsAimed (e :: v.log) ↔ KillsAimed v.log) (hlast : lastForked (e :: v.log) = lastForked v.log)
    (hno : ¬ Aiming (e :: v.log)) : Targets v' := by
  refine ⟨?_, hpid ▸ h.forked, ?_, fun haiming => absurd (hlog ▸ haiming) hno⟩
  · rw [hlog]
    exact hown.trans (h.kills.trans haimed.symm)
  · rw [hlog, hlast, hpid]
    exact h.procPid

theorem Targets.note {v : View} (h : Targets v) {e : Entry} (he : e.harmless = true) :
    Targets { v with log := e :: v.log } := by
  cases e with
  | forked action pid =>
    cases action with
    | start => cases he
    | _ => exact h.cons rfl rfl Iff.rfl Iff.rfl rfl id
  | unrunnable action => exact h.cons rfl rfl Iff.rfl Iff.rfl rfl id
  | _ => cases he

theorem Targets.count {v : View} (h : Targets v) : Targets (v.count cfg) := by
  unfold View.count
  split
  · exact h.cons rfl rfl Iff.rfl Iff.rfl rfl id
  · exact ⟨h.kills, h.forked, h.procPid, h.aims⟩

theorem Targets.start {v : View} (h : Targets v) (pid t : Int) (hfork : -1 ≤ pid) :
    Targets { v with
      procPid := pid, respawnTimestamp := t, clock := t, log := .started t :: (View.execEntries .start pid ++ v.log) } := by
  unfold View.execEntries
  split
  · exact ⟨h.kills, hfork, fun _ => rfl, False.elim⟩
  · next hpid =>
    split
    · exact ⟨h.kills, hfork, fun hpos => absurd hpos hpid, False.elim⟩
    · exact ⟨h.kills, hfork, fun hpos => absurd hpos hpid, False.elim⟩

theorem Targets.reap {v : View} (h : Targets v) (pid : Int) :
    Targets { v.terminate pid with log := .reaped pid (pid == v.procPid) :: v.log } := by
  unfold View.terminate
  by_cases hown : pid = v.procPid
  · rw [if_pos hown]
    refine ⟨h.kills, show -1 ≤ (0 : Int) by decide, fun hpid => absurd hpid (Int.lt_irrefl 0), fun _ => ?_⟩
    refine iff_of_false (fun htrue => ?_) (Int.lt_irrefl 0)
    have hmonitored : (pid == v.procPid) = false := htrue.1
    exact absurd hown (by simpa using hmonitored)
  · rw [if_neg hown]
    refine ⟨h.kills, h.forked, h.procPid, fun haiming => Iff.trans ?_ (h.aims haiming)⟩
    exact and_iff_right (by simpa using hown)

/-- **Step lemma:** a `kill` hits its target exactly when it aims true. -/
theorem Targets.step {v v' : View} (h : Targets v) (hs : View.Step cfg v v') : Targets v' := by
  cases hs with
  | wait t _ => exact ⟨h.kills, h.forked, h.procPid, h.aims⟩
  | note e he => exact h.note he
  | reap pid _ => exact h.reap pid
  | tested hpid =>
    refine ⟨h.kills, h.forked, h.procPid, fun _ => ?_⟩
    have hforked := h.forked
    show v.procPid ≠ -1 ↔ 0 < v.procPid
    omega
  | signalling => exact ⟨h.kills, h.forked, h.procPid, fun _ => Iff.rfl⟩
  | kill signal haiming =>
    refine ⟨and_congr ?_ h.kills, h.forked, h.procPid, False.elim⟩
    rw [h.aims haiming]
    exact and_iff_left_of_imp h.procPid
  | clear => exact h.cons rfl rfl Iff.rfl Iff.rfl rfl id
  | refuse _ _ => exact h.count.cons rfl rfl Iff.rfl Iff.rfl rfl id
  | start pid t _ _ hfork _ => exact h.count.start pid t hfork

/-- **Buddy signals its own process** exactly when each `kill` aims true: a `UPK_CTRL_SIGNAL_nn` is handled when
`proc_pid` is positive, a test of `buddy_stop_proc` does not find the `-1` of a failed `fork`, and the process is not
reaped between this and the call. -/
theorem killsOwn_iff (cfg : BuddyConfig) (size : Nat) (uuid : List UInt8) (answers : Nat → Answer) (clock : Int)
    (turns : Nat) :
    KillsOwn (System.after cfg size uuid answers clock turns).2.log ↔
      KillsAimed (System.after cfg size uuid answers clock turns).2.log := by
  have hinit : Targets (System.init size uuid answers clock).view :=
    ⟨Iff.rfl, show -1 ≤ (0 : Int) by decide, fun hpos => absurd hpos (Int.lt_irrefl 0), False.elim⟩
  exact (System.invariant (fun v v' h hs => h.step hs) hinit turns).kills

/-- A controller has the signal 15 sent when no process is monitored: it goes to the process group of buddy. -/
theorem kill_zero :
    (System.after exampleConfig 4 [] (exampleAnswers [54, 0, 0, 0] [] []) 0 2).2.log = [.killed 0 15, .signalling 0] ∧
      ¬ KillsOwn (System.after exampleConfig 4 [] (exampleAnswers [54, 0, 0, 0] [] []) 0 2).2.log := by
  have hlog : (System.after exampleConfig 4 [] (exampleAnswers [54, 0, 0, 0] [] []) 0 2).2.log =
      [.killed 0 15, .signalling 0] := by
    decide +kernel
  refine ⟨hlog, ?_⟩
  rw [hlog]
  exact fun h => absurd h.1.1 (by decide)

/-! ### No lost termination -/

/-- Whenever `chld_terminated` is cleared, a process is monitored. -/
def ClearsMonitored (log : List Entry) : Prop := ∀ pid, .cleared pid ∈ log → pid ≠ 0

/-- If a monitored process has terminated and none is monitored, `chld_terminated` is true. -/
def Remembers (v : View) : Prop :=
  ClearsMonitored v.log → (∃ pid, .reaped pid true ∈ v.log) → v.procPid = 0 → v.chldTerminated = true

theorem Remembers.cons {v v' : View} {e : Entry} (h : Remembers v) (hlog : v'.log = e :: v.log)
    (hentry : ∀ pid, e ≠ .reaped pid true) (hchld : v'.chldTerminated = v.chldTerminated)
    (hpid : v'.procPid = 0 → v.procPid = 0) : Remembers v' := by
  rintro hclears ⟨pid, hmem⟩ hidle
  rw [hlog] at hclears hmem
  rw [hchld]
  refine h (fun pid hp => hclears pid (List.mem_cons_of_mem _ hp)) ⟨pid, ?_⟩ (hpid hidle)
  rcases List.mem_cons.mp hmem with heq | htail
  · exact absurd heq.symm (hentry pid)
  · exact htail

theorem Remembers.count {v : View} (h : Remembers v) : Remembers (v.count cfg) := by
  unfold View.count
  split
  · exact h.cons rfl (fun _ => by simp) rfl id
  · exact h

theorem Remembers.start {v : View} (h : Remembers v) (hidle : v.procPid = 0) (pid t : Int) :
    Remembers { v with
      procPid := pid, respawnTimestamp := t, clock := t, log := .started t :: (View.execEntries .start pid ++ v.log) } := by
  have hexec : Remembers { v with procPid := pid, log := View.execEntries .start pid ++ v.log } := by
    unfold View.execEntries
    split
    · exact h.cons rfl (fun _ => by simp) rfl fun _ => hidle
    · split
      · exact h.cons rfl (fun _ => by simp) rfl fun _ => hidle
      · exact fun hclears hmem _ => h hclears hmem hidle
  exact hexec.cons rfl (fun _ => by simp) rfl id

theorem Remembers.reap {v : View} (h : Remembers v) (pid : Int) :
    Remembers { v.terminate pid with log := .reaped pid (pid == v.procPid) :: v.log } := by
  unfold View.terminate
  by_cases hpid : pid = v.procPid
  · rw [if_pos hpid]
    exact fun _ _ _ => rfl
  · rw [if_neg hpid]
    exact h.cons rfl (fun _ => by simp [hpid]) rfl id

theorem Remembers.step {v v' : View} (h : Remembers v) (hs : View.Step cfg v v') : Remembers v' := by
  cases hs with
  | wait t _ => exact h
  | note e he => exact h.cons rfl (by rintro pid rfl; cases he) rfl id
  | tested _ => exact h.cons rfl (fun _ => by simp) rfl id
  | signalling => exact h.cons rfl (fun _ => by simp) rfl id
  | kill signal _ => exact h.cons rfl (fun _ => by simp) rfl id
  | clear => exact fun hclears _ hidle => absurd hidle (hclears _ List.mem_cons_self)
  | reap pid _ => exact h.reap pid
  | refuse _ _ => exact h.count.cons rfl (fun _ => by simp) rfl id
  | start pid t hidle _ _ _ => exact h.count.start (by rw [View.count_procPid]; exact hidle) pid t

/-- **No lost termination**, in a run that clears `chld_terminated` only while a process is monitored: at the head of
each turn of the event loop, whatever `desired_state` is, when a monitored process has terminated and none is alive,
`chld_terminated` is true. -/
theorem chldTerminated_of_run (cfg : BuddyConfig) (size : Nat) (uuid : List UInt8) (answers : Nat → Answer) (clock : Int)
    (turns : Nat) (hclears : ClearsMonitored (System.after cfg size uuid answers clock turns).2.log)
    (hterminated : ∃ pid, .reaped pid true ∈ (System.after cfg size uuid answers clock turns).2.log)
    (hidle : (System.after cfg size uuid answers clock turns).1.procPid = 0) :
    (System.after cfg size uuid answers clock turns).1.chldTerminated = true := by
  have hinit : Remembers (System.init size uuid answers clock).view := by
    rintro - ⟨pid, hmem⟩
    cases hmem
  exact System.invariant (I := Remembers) (fun v v' h hs => h.step hs) hinit turns hclears hterminated hidle

/-- The monitored process dies and is restarted, the new one dies, too, and a controller connects before its restart. -/
theorem chldTerminated_of_accept :
    (System.after exampleConfig 4 [] (exampleAnswers [4, 0, 0, 0] [18, 30] [31]) 0 4).1.chldTerminated = true := by
  have hlog : (System.after exampleConfig 4 [] (exampleAnswers [4, 0, 0, 0] [18, 30] [31]) 0 4).2.log =
      [.reaped 100 true, .cleared 100, .started 1000, .forked .start 100, .counted 0, .reaped 100 true, .started 1000,
        .forked .start 100] := by
    decide +kernel
  refine chldTerminated_of_run exampleConfig 4 [] (exampleAnswers [4, 0, 0, 0] [18, 30] [31]) 0 4 (fun pid hpid => ?_)
    ⟨100, by decide +kernel⟩ (by decide +kernel)
  have hmonitored : pid = 100 := by
    rw [hlog] at hpid
    simpa using hpid
  rw [hmonitored]
  decide

/-- The restarted process dies when `buddy_start_proc` restores the signal mask, and the flag is cleared after that. -/
theorem chldTerminated_lost :
    let s := System.after exampleConfig 4 [] (exampleAnswers [4, 0, 0, 0] [18, 28] []) 0 3
    s.1.desiredState = .running ∧ Entry.reaped 100 true ∈ s.2.log ∧ s.1.procPid = 0 ∧ s.1.chldTerminated = false := by
  decide +kernel

end Upkeeper
