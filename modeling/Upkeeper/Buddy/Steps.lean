import Upkeeper.Buddy.Parts
import Mathlib.Logic.Relation
/-!
# What a run can do to the monitored process

A `View` is what the properties of the monitored process look at, and `Step` says once how it can change. Every part of
the program moves the view along a path of steps (`reached_supervising`). So a property of all runs is an invariant of
`Step`.
-/

namespace Upkeeper

open Hoare

/-- What the properties of the monitored process look at -/
structure View where
  procPid : Int
  chldTerminated : Bool
  respawnTimestamp : Int
  rapidRespawnCount : UInt32
  clock : Int
  log : List Entry

def System.view (s : System) : View :=
  ⟨s.1.procPid, s.1.chldTerminated, s.1.respawnTimestamp, s.1.rapidRespawnCount, s.2.clock, s.2.log⟩

/-- The entries that say nothing about the monitored process -/
def Entry.harmless : Entry → Bool
  | .forked action _ => action != .start
  | .unrunnable action => action != .start
  | _ => false

/-- A `kill` comes next: since it was decided on, at most children have been reaped. -/
def Aiming : List Entry → Prop
  | .tested _ :: _ => True
  | .signalling _ :: _ => True
  | .reaped _ _ :: log => Aiming log
  | _ => False

namespace View

/-- The handler notes a child. -/
def terminate (pid : Int) (v : View) : View :=
  if pid = v.procPid then { v with chldTerminated := true, procPid := 0 } else v

/-- `buddy_start_proc` counts a start. -/
def count (cfg : BuddyConfig) (v : View) : View :=
  if v.respawnTimestamp + cfg.userRestartWindow > v.clock then
    { v with rapidRespawnCount := v.rapidRespawnCount + 1, log := .counted v.rapidRespawnCount :: v.log }
  else { v with rapidRespawnCount := 0 }

/-- What `buddy_exec_action` notes when it returns `pid` for an action -/
def execEntries (action : Action) (pid : Int) : List Entry :=
  if 0 < pid then [.forked action pid] else if pid = 0 then [.unrunnable action] else []

/-- How a view can change -/
inductive Step (cfg : BuddyConfig) : View → View → Prop
  | wait (v : View) (t : Int) (h : v.clock ≤ t) : Step cfg v { v with clock := t }
  | note (v : View) (e : Entry) (h : e.harmless = true) : Step cfg v { v with log := e :: v.log }
  | reap (v : View) (pid : Int) (h : 0 < pid) :
    Step cfg v { v.terminate pid with log := .reaped pid (pid == v.procPid) :: v.log }
  | tested (v : View) (h : v.procPid ≠ 0) : Step cfg v { v with log := .tested v.procPid :: v.log }
  | signalling (v : View) : Step cfg v { v with log := .signalling v.procPid :: v.log }
  | kill (v : View) (signal : Nat) (h : Aiming v.log) : Step cfg v { v with log := .killed v.procPid signal :: v.log }
  | clear (v : View) : Step cfg v { v with chldTerminated := false, log := .cleared v.procPid :: v.log }
  | refuse (v : View) (hpid : v.procPid = 0) (h : (v.count cfg).rapidRespawnCount > cfg.userMaxRestarts) :
    Step cfg v { v.count cfg with log := .refused :: (v.count cfg).log }
  | start (v : View) (pid t : Int) (hpid : v.procPid = 0) (h : ¬ (v.count cfg).rapidRespawnCount > cfg.userMaxRestarts)
      (hfork : -1 ≤ pid) (ht : v.clock ≤ t) :
    Step cfg v
      { v.count cfg with
        procPid := pid, respawnTimestamp := t, clock := t,
        log := .started t :: (execEntries .start pid ++ (v.count cfg).log) }

/-- Any number of steps -/
def Path (cfg : BuddyConfig) : View → View → Prop := Relation.ReflTransGen (Step cfg)

theorem Path.keeps {cfg : BuddyConfig} {I : View → Prop} (hstep : ∀ v v', I v → Step cfg v v' → I v') {v v' : View}
    (hpath : Path cfg v v') (h : I v) : I v' := by
  induction hpath with
  | refl => exact h
  | tail _ hs ih => exact hstep _ _ ih hs

end View

namespace Prog

variable {α : Type} {cfg : BuddyConfig} {m : Prog α} {P : System → Prop} {v : View}

/-- The view can be reached from this one. -/
def Reached (cfg : BuddyConfig) (v : View) (s : System) : Prop := View.Path cfg v s.view

/-- A part of the program moves the view along a path. -/
def Moves (cfg : BuddyConfig) (m : Prog α) : Prop := ∀ v, Keeps (Reached cfg v) m

/-! ### Waiting, flushing and signals -/

theorem reached_of_step (h : ∀ s, View.Step cfg s.view (m s).2.view) : Keeps (Reached cfg v) m :=
  Triple.of_run fun s hv => Relation.ReflTransGen.tail hv (h s)

theorem reached_calm (v : View) : Calm (Reached cfg v) where
  answers _ h := h
  tell t := reached_of_step fun s => .wait s.view _ (Int.le_max_left _ _)
  assign {b b' w} hcore _ h := by
    obtain ⟨hpid, hchld, hrespawn, hcount, -⟩ := Core.mk.inj hcore
    have hview : System.view (b', w) = System.view (b, w) := by
      simp only [System.view, hpid, hchld, hrespawn, hcount]
    rw [Reached, hview]
    exact h

theorem view_reap (si : Siginfo) (z : Reaped) (b : Buddy) (w : World) :
    System.view (b.reap si z, w) = (System.view (b, w)).terminate z.pid := by
  obtain ⟨ring, pending, hreap⟩ := Buddy.reap_eq si z b
  unfold System.view View.terminate
  dsimp only
  rw [hreap]
  unfold Buddy.noteTerminated
  split <;> rfl

theorem reapChild_reached (si : Siginfo) (z : Reaped) (hz : 0 < z.pid) : Keeps (Reached cfg v) (reapChild si z) := by
  refine ((reached_calm v).tell z.now).bind fun now => reached_of_step fun s => ?_
  have hview := view_reap si { z with now := now } s.1
    { s.2 with log := .reaped z.pid (z.pid == s.1.procPid) :: s.2.log }
  have hstep : View.Step cfg s.view _ := .reap s.view z.pid hz
  have hlog : (System.view (s.1, { s.2 with log := .reaped z.pid (z.pid == s.1.procPid) :: s.2.log })).terminate z.pid =
      { s.view.terminate z.pid with log := .reaped z.pid (z.pid == s.view.procPid) :: s.view.log } := by
    unfold View.terminate System.view
    dsimp only
    split <;> rfl
  rw [← hlog, ← hview] at hstep
  exact hstep

/-- **A `kill`** that has been decided on: the signals that arrive before it only reap children. -/
theorem kill_reached (signal : Nat) :
    Triple (fun s => Reached cfg v s ∧ Aiming s.2.log) (do interrupt; killProc signal) fun _ => Reached cfg v := by
  have hinterrupt : Keeps (fun s => Reached cfg v s ∧ Aiming s.2.log) interrupt := by
    refine interrupt_keeps (.of_run fun _ h => h) (fun si z s hz _ h => ?_) fun _ _ _ h => h
    exact ⟨(reapChild_reached si z hz).run h.1, h.2⟩
  exact Triple.bind hinterrupt fun _ => .of_run fun s h => Relation.ReflTransGen.tail h.1 (.kill s.view signal h.2)

theorem reached_undisturbed (v : View) : Undisturbed (Reached cfg v) where
  toCalm := reached_calm v
  reap si z s hz _ h := (reapChild_reached si z hz).run h
  killIfProc signal := by
    refine Triple.bind buddy_spec fun b => .ite (fun hpid => ?_) fun _ => .pure fun _ h => h.1
    refine Triple.seq (note_spec fun s h => ?_) (kill_reached signal.val)
    obtain ⟨hreached, rfl⟩ := h
    exact ⟨Relation.ReflTransGen.tail hreached (.tested s.view hpid), trivial⟩
  killUntested signal := by
    refine Triple.bind buddy_spec fun b => Triple.seq (note_spec fun s h => ?_) (kill_reached signal)
    obtain ⟨hreached, rfl⟩ := h
    exact ⟨Relation.ReflTransGen.tail hreached (.signalling s.view), trivial⟩

theorem reached_acting (v : View) : Acting (Reached cfg v) where
  toUndisturbed := reached_undisturbed v
  buddyExecAction {action} h := by
    have hharmless : (action != .start) = true := by simpa using h
    exact (reached_undisturbed v).exec (fun _ h => h) (fun _ => reached_of_step fun s => .note s.view _ hharmless)
      (reached_of_step fun s => .note s.view _ hharmless)

theorem interrupt_idle : Keeps (fun s => s.1.procPid = 0) interrupt := by
  refine interrupt_keeps (Triple.of_run fun _ h => h) (fun si z s _ _ h => ?_) fun _ _ _ h => h
  obtain ⟨ring, pending, hreap⟩ := reapChild_fst si z s
  rw [hreap]
  unfold Buddy.noteTerminated
  split
  · rfl
  · exact h

/-! ### With `SIGCHLD` blocked -/

/-- The view is this one, and `SIGCHLD` is blocked. -/
def Blocked (v : View) (s : System) : Prop := s.view = v ∧ sigchld ∈ s.1.mask

theorem answer_blocked (v : View) : Keeps (Blocked v) answer := .of_run fun _ h => h

theorem assign_blocked (v : View) {f : Buddy → Buddy} {g : View → View}
    (hview : ∀ b w, System.view (f b, w) = g (System.view (b, w)))
    (hmask : ∀ b, sigchld ∈ b.mask → sigchld ∈ (f b).mask) : Triple (Blocked v) (set f) fun _ => Blocked (g v) :=
  set_spec fun s h => ⟨by rw [hview, ← h.1], hmask _ h.2⟩

/-- With `SIGCHLD` blocked, an interruption does not change the view. -/
theorem setmask_blocked (v : View) {oldset : SigSet} (h : sigchld ∈ oldset) : Keeps (Blocked v) (setmask oldset) := by
  refine Triple.bind (assign_blocked v (g := id) (by intro b w; rfl) fun _ _ => h) fun _ => ?_
  exact interrupt_keeps (answer_blocked v) (fun _ _ _ _ hmask h => absurd h.2 hmask) fun _ _ _ h => h

theorem block_blocked (v : View) (sigset : SigSet) :
    Triple (Blocked v) (block sigset) fun oldset s => Blocked v s ∧ sigchld ∈ oldset :=
  .of_run fun _ h => ⟨⟨h.1, Finset.mem_union_left _ h.2⟩, h.2⟩

theorem stat_blocked (v : View) : Keeps (Blocked v) stat :=
  (answer_blocked v).bind fun _ =>
    Triple.bind (assign_blocked v (g := id) (by intro b w; rfl) (by intro b h; exact h)) fun _ => .of_run fun _ h => h

theorem note_blocked (v : View) (e : Entry) :
    Triple (Blocked v) (note e) fun _ => Blocked { v with log := e :: v.log } :=
  .of_run fun _ h => ⟨by rw [← h.1]; rfl, h.2⟩

theorem fork_blocked (v : View) (action : Action) :
    Triple (Blocked v) (fork action) fun pid s =>
      Blocked { v with log := View.execEntries action pid ++ v.log } s ∧ -1 ≤ pid := by
  refine Triple.bind (answer_blocked v) fun a => .ite (fun hpos => ?_) fun _ => .pure fun s h => ⟨h, by decide⟩
  refine (note_blocked v (.forked action a.fork)).bind fun _ => .pure fun s h => ⟨?_, by omega⟩
  rw [View.execEntries, if_pos hpos]
  exact h

theorem buddyExecAction_blocked (v : View) (action : Action) :
    Triple (Blocked v) (buddyExecAction action) fun pid s =>
      Blocked { v with log := View.execEntries action pid ++ v.log } s ∧ -1 ≤ pid := by
  unfold buddyExecAction
  refine (block_blocked v Finset.univ).bind fun oldset => .of_fact fun hmask => ?_
  refine Triple.bind (stat_blocked v) fun mode => .ite (fun _ => ?_) fun _ => ?_
  · refine (fork_blocked v action).bind fun pid => .of_fact fun hpid => ?_
    exact Triple.bind (setmask_blocked _ hmask) fun _ => .pure fun s h => ⟨h, hpid⟩
  · exact (note_blocked v (.unrunnable action)).bind fun _ => .pure fun s h => ⟨h, by decide⟩

/-! ### Starting -/

theorem time_blocked (v : View) :
    Triple (Blocked v) time fun now s => Blocked { v with clock := now } s ∧ v.clock ≤ now := by
  refine Triple.bind (answer_blocked v) fun a => .of_run fun s h => ⟨⟨?_, h.2⟩, ?_⟩
  · rw [← h.1]
    rfl
  · rw [← h.1]
    exact Int.le_max_left _ _

theorem countRespawn_blocked (v : View) :
    Triple (Blocked v) (countRespawn cfg) fun _ s => ∃ t, v.clock ≤ t ∧ Blocked ({ v with clock := t }.count cfg) s := by
  refine (time_blocked v).bind fun now => .of_fact fun hnow => ?_
  refine Triple.bind buddy_spec fun b => .ite (fun hsoon => ?_) fun hlate => ?_
  · refine .of_run fun s h => ⟨now, hnow, ?_, h.1.2⟩
    obtain ⟨⟨hview, -⟩, rfl⟩ := h
    have hcond : { v with clock := now }.respawnTimestamp + cfg.userRestartWindow > { v with clock := now }.clock := by
      rw [← hview]
      have hclock : s.view.clock = now := by rw [hview]
      rw [hclock]
      exact hsoon
    rw [View.count, if_pos hcond, ← hview]
    rfl
  · refine .of_run fun s h => ⟨now, hnow, ?_, h.1.2⟩
    obtain ⟨⟨hview, -⟩, rfl⟩ := h
    have hcond : ¬ { v with clock := now }.respawnTimestamp + cfg.userRestartWindow > { v with clock := now }.clock := by
      rw [← hview]
      have hclock : s.view.clock = now := by rw [hview]
      rw [hclock]
      exact hlate
    rw [View.count, if_neg hcond, ← hview]
    rfl

variable (cfg) in
theorem launch_blocked (v : View) :
    Triple (Blocked v) launch fun _ s => ∃ pid now, -1 ≤ pid ∧ v.clock ≤ now ∧ Reached cfg
      { v with
        procPid := pid, respawnTimestamp := now, clock := now
        log := .started now :: (View.execEntries .start pid ++ v.log) } s := by
  unfold launch
  refine (buddyExecAction_blocked _ .start).bind fun pid => .of_fact fun hpid => ?_
  refine (assign_blocked _ (g := fun v => { v with procPid := pid }) (by intro b w; rfl)
    (by intro b h; exact h)).bind fun _ => ?_
  refine (time_blocked _).bind fun now => .of_fact fun hnow => ?_
  refine (assign_blocked _ (g := fun v => { v with respawnTimestamp := now }) (by intro b w; rfl)
    (by intro b h; exact h)).bind fun _ => ?_
  refine (note_blocked _ (.started now)).bind fun _ => ?_
  have hrest (v : View) : Keeps (Reached cfg v) (do let now ← time; set (Buddy.recordStart now)) := by
    refine (reached_calm v).time.bind fun now => set_spec fun s h => ?_
    obtain ⟨ring, pending, hrecord⟩ := Buddy.recordStart_eq now s.1
    rw [hrecord]
    exact h
  refine (hrest _).conseq (fun s h => ?_) fun _ s h => ⟨pid, now, hpid, hnow, h⟩
  rw [Reached, h.1]
  exact Relation.ReflTransGen.refl

/-- **A start is one step**, whatever comes of it. -/
theorem buddyStartProc_reached (v₀ : View) : Keeps (Reached cfg v₀) (buddyStartProc cfg) := by
  have h : Undisturbed (Reached cfg v₀) := reached_undisturbed v₀
  refine Triple.bind buddy_spec fun b => .ite (fun hpid => ?_) fun _ => .pure fun s h => h.1
  -- while the start is prepared, no process is monitored
  have hprepare : Triple (fun s => Reached cfg v₀ s ∧ b = s.1) interrupt fun _ s => Reached cfg v₀ s ∧ s.1.procPid = 0 :=
    .of_run fun s hs => ⟨h.interrupt.run hs.1, interrupt_idle.run (show s.1.procPid = 0 from hs.2 ▸ hpid)⟩
  refine hprepare.bind fun _ => ?_
  refine Triple.bind (Q := fun _ s => ∃ v, View.Path cfg v₀ v ∧ v.procPid = 0 ∧ Blocked v s) ?_ fun oldset => ?_
  · exact .of_run fun s hs => ⟨s.view, hs.1, hs.2, rfl, Finset.mem_union_right _ (Finset.mem_singleton_self _)⟩
  refine Triple.bind (Q := fun _ s => ∃ v, View.Path cfg v₀ v ∧ v.procPid = 0 ∧ Blocked (v.count cfg) s) ?_ fun _ => ?_
  · refine .of_run fun s ⟨v, hpath, hidle, hblocked⟩ => ?_
    obtain ⟨t, ht, hcounted⟩ := (countRespawn_blocked v).run hblocked
    exact ⟨{ v with clock := t }, hpath.tail (.wait v t ht), hidle, hcounted⟩
  refine Triple.bind buddy_spec fun b' => .ite (fun hmany => ?_) fun hfew => ?_
  · refine Triple.bind (Q := fun _ => Reached cfg v₀) (note_spec fun s hs => ?_) fun _ => ?_
    · obtain ⟨⟨v, hpath, hidle, hview, -⟩, rfl⟩ := hs
      have hcount : s.view.rapidRespawnCount > cfg.userMaxRestarts := hmany
      rw [hview] at hcount
      have hrefuse := hpath.tail (View.Step.refuse v hidle hcount)
      rw [← hview] at hrefuse
      exact hrefuse
    · exact Keeps.bind (set_spec fun s hs => hs) fun _ => .pure
  · refine Triple.bind (Q := fun _ => Reached cfg v₀) (.of_run fun s hs => ?_) fun _ => ?_
    · obtain ⟨⟨v, hpath, hidle, hblocked⟩, rfl⟩ := hs
      have hcount : ¬ s.view.rapidRespawnCount > cfg.userMaxRestarts := hfew
      rw [hblocked.1] at hcount
      have hclock : (v.count cfg).clock = v.clock := by
        unfold View.count
        split <;> rfl
      obtain ⟨pid, now, hpid, hnow, hlaunched⟩ := (launch_blocked cfg (v.count cfg)).run hblocked
      exact (hpath.tail (.start v pid now hidle hcount hpid (hclock ▸ hnow))).trans hlaunched
    · exact Keeps.bind (Keeps.bind (set_spec fun s hs => hs) fun _ => h.interrupt) fun _ => .pure

/-! ### Runs -/

theorem reached_supervising (v : View) : Supervising cfg (Reached cfg v) where
  toActing := reached_acting v
  order {b b' w} hcore h := by
    obtain ⟨hpid, hchld, hrespawn, hcount, -⟩ := Core.mk.inj hcore
    have hview : System.view (b', w) = System.view (b, w) := by
      simp only [System.view, hpid, hchld, hrespawn, hcount]
    rw [Reached, hview]
    exact h
  force h := h
  clear := reached_of_step fun s => .clear s.view
  buddyStartProc := buddyStartProc_reached v

/-- **Every run is a path.** -/
theorem buddyEventLoop_moves (n : Nat) : Moves cfg (buddyEventLoop cfg n) :=
  fun v => (reached_supervising v).buddyEventLoop (.of_run fun _ h => h) n

theorem Moves.keeps {I : View → Prop} (hm : Moves cfg m) (hstep : ∀ v v', I v → View.Step cfg v v' → I v') :
    Keeps (fun s => I s.view) m :=
  .of_run fun s h => View.Path.keeps hstep ((hm s.view).run Relation.ReflTransGen.refl) h

end Prog

/-- **Invariant rule:** what holds at the start and is kept by every step holds after every run. -/
theorem System.invariant {cfg : BuddyConfig} {I : View → Prop} (hstep : ∀ v v', I v → View.Step cfg v v' → I v')
    {s : System} (h : I s.view) (n : Nat) : I (Prog.buddyEventLoop cfg n s).2.view :=
  ((Prog.buddyEventLoop_moves n).keeps hstep).run h

end Upkeeper
