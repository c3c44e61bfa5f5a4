import Upkeeper.Buddy.Process
import Upkeeper.Library.Hoare
/-!
# The parts of the program

The functions of buddy are walked through here, once for all conditions on its state: a function keeps a condition if
the few things that it is made of do. What has to be kept grows with the functions: `Calm` is enough for those that only
look at the world, `Undisturbed` for those that wait and flush, `Acting` for those that run a script of `actions/`, and
`Supervising` for the event loop.
-/

namespace Upkeeper

open Hoare

/-- The variables of buddy by which it supervises. The other ones record, count, communicate, or say what is wanted. -/
structure Core where
  procPid : Int
  chldTerminated : Bool
  respawnTimestamp : Int
  rapidRespawnCount : UInt32
  forceRatelimit : Bool
  mask : SigSet

def Buddy.core (b : Buddy) : Core :=
  ⟨b.procPid, b.chldTerminated, b.respawnTimestamp, b.rapidRespawnCount, b.forceRatelimit, b.mask⟩

/-- What is wanted, and the command of this turn -/
def Buddy.orders (b : Buddy) : RunState × UInt32 := (b.desiredState, b.thisCommand)

/-- What is wanted after a command -/
def RunState.next (command : UInt32) (wanted : RunState) : RunState :=
  if command = upkCtrlShutdown ∨ command = upkCtrlActionStop then .stopped
  else if command = upkCtrlActionStart then .running
  else if command = upkCtrlActionRunonce then .ranonce
  else wanted

/-- The entries around a `kill` -/
def Entry.ofKill : Entry → Bool
  | .tested _ => true
  | .signalling _ => true
  | .killed _ _ => true
  | _ => false

namespace Prog

variable {α : Type} {cfg : BuddyConfig} {P Q : System → Prop}

/-! ### Single instructions -/

theorem buddy_spec : Triple P buddy fun b s => P s ∧ b = s.1 := .of_run fun _ h => ⟨h, rfl⟩

theorem buddy_keeps : Keeps P buddy := .of_run fun _ h => h

theorem set_spec {f : Buddy → Buddy} (h : ∀ s, P s → Q (f s.1, s.2)) : Triple P (set f) fun _ => Q := .of_run h

theorem note_spec {e : Entry} (h : ∀ s, P s → Q (s.1, { s.2 with log := e :: s.2.log })) :
    Triple P (note e) fun _ => Q := .of_run h

/-! ### Signals -/

theorem reapChild_fst (si : Siginfo) (z : Reaped) (s : System) :
    ∃ ring pending, (reapChild si z s).2.1 =
      { s.1.noteTerminated { z with now := max s.2.clock z.now } with ring := ring, ringbufferPending := pending } :=
  Buddy.reap_eq si { z with now := max s.2.clock z.now } s.1

theorem reapChild_mask (si : Siginfo) (z : Reaped) (s : System) : (reapChild si z s).2.1.mask = s.1.mask := by
  obtain ⟨ring, pending, hreap⟩ := reapChild_fst si z s
  rw [hreap]
  unfold Buddy.noteTerminated
  split <;> rfl

/-- **Interruption rule:** what an answer, an unblocked child and an unblocked signal keep -/
theorem deliverAll_keeps (hreap : ∀ si z s, 0 < z.pid → sigchld ∉ s.1.mask → P s → P (reapChild si z s).2)
    (hshutdown : ∀ (signal : Signo) s, signal ∉ s.1.mask → P s → P ({ s.1 with buddyShutdown := signal.val }, s.2))
    (arrivals : List Arrival) : Keeps P (deliverAll arrivals) := by
  have hchildren : ∀ si zs, Keeps (fun s => P s ∧ sigchld ∉ s.1.mask) (reapChildren si zs) := by
    intro si zs
    induction zs with
    | nil => exact .pure
    | cons z zs ih =>
      unfold reapChildren
      refine .ite (fun hz => Keeps.bind (Triple.of_run fun s h => ⟨hreap si z s hz h.2 h.1, ?_⟩) fun _ => ih) fun _ => .pure
      rw [reapChild_mask]
      exact h.2
  have hdeliver : ∀ arrival, Keeps P (deliver arrival) := by
    intro arrival
    cases arrival with
    | chld si zs =>
      refine Triple.bind buddy_spec fun b => .ite (fun hmask => ?_) fun _ => .pure fun s h => h.1
      exact (hchildren si zs).conseq (fun s h => ⟨h.1, h.2 ▸ hmask⟩) fun _ _ h => h.1
    | shutdown signal =>
      refine Triple.bind buddy_spec fun b => .ite (fun hmask => ?_) fun _ => .pure fun s h => h.1
      exact set_spec fun s h => hshutdown signal s (h.2 ▸ hmask) h.1
  induction arrivals with
  | nil => exact .pure
  | cons arrival arrivals ih => exact (hdeliver arrival).bind fun _ => ih

theorem interrupt_keeps (hanswer : Keeps P answer)
    (hreap : ∀ si z s, 0 < z.pid → sigchld ∉ s.1.mask → P s → P (reapChild si z s).2)
    (hshutdown : ∀ (signal : Signo) s, signal ∉ s.1.mask → P s → P ({ s.1 with buddyShutdown := signal.val }, s.2)) :
    Keeps P interrupt := hanswer.bind fun a => deliverAll_keeps hreap hshutdown a.arrivals

/-! ### Looking at the world -/

/-- The answers to come, the clock and most variables do not matter. -/
structure Calm (P : System → Prop) : Prop where
  answers : ∀ {b w} answers, P (b, w) → P (b, { w with answers := answers })
  tell : ∀ t, Keeps P (tell t)
  assign : ∀ {b b' w}, b'.core = b.core → b'.orders = b.orders → P (b, w) → P (b', w)

theorem Calm.answer (h : Calm P) : Keeps P answer := .of_run fun _ hs => h.answers _ hs

theorem Calm.time (h : Calm P) : Keeps P time := h.answer.bind fun a => h.tell a.time

theorem Calm.set (h : Calm P) {f : Buddy → Buddy} (hcore : ∀ b, (f b).core = b.core)
    (horders : ∀ b, (f b).orders = b.orders) : Keeps P (set f) :=
  .of_run fun s hs => h.assign (hcore s.1) (horders s.1) hs

theorem Calm.and_desired (h : Calm P) (d : RunState) : Calm fun s => P s ∧ s.1.desiredState = d where
  answers answers hs := ⟨h.answers answers hs.1, hs.2⟩
  tell t := .of_run fun _ hs => ⟨(h.tell t).run hs.1, hs.2⟩
  assign hcore horders hs := ⟨h.assign hcore horders hs.1, (congrArg Prod.fst horders).trans hs.2⟩

theorem Calm.buddyAccept (h : Calm P) : Keeps P buddyAccept :=
  h.answer.bind fun _ => h.set (by intro b; rfl) (by intro b; rfl)

theorem Calm.userLimited (h : Calm P) : Keeps P (userLimited cfg) := by
  have hrandomize : Keeps P (randomize cfg) :=
    h.answer.bind fun a => .ite (fun _ => h.set (by intro b; rfl) (by intro b; rfl)) fun _ => .pure
  refine .ite (fun _ => ?_) fun _ => .pure
  exact hrandomize.bind fun _ => h.time.bind fun now => buddy_keeps.bind fun b => .pure

theorem Calm.runawayLimited (h : Calm P) : Keeps P (runawayLimited cfg) := by
  refine buddy_keeps.bind fun b => .ite (fun _ => ?_) fun _ => .pure
  exact h.time.bind fun now => buddy_keeps.bind fun b => .pure

theorem Calm.countRespawn (h : Calm P) (hcount : ∀ {b w} n, P (b, w) → P ({ b with rapidRespawnCount := n }, w))
    (hnote : ∀ n, Keeps P (note (.counted n))) : Keeps P (countRespawn cfg) := by
  refine h.time.bind fun now => buddy_keeps.bind fun b => .ite (fun _ => ?_) fun _ => set_spec fun _ hs => hcount _ hs
  exact (hnote _).bind fun _ => set_spec fun _ hs => hcount _ hs

/-! ### Waiting and flushing -/

/-- Nor do the signals that arrive and those that are sent. -/
structure Undisturbed (P : System → Prop) : Prop extends Calm P where
  reap : ∀ si z s, 0 < z.pid → sigchld ∉ s.1.mask → P s → P (reapChild si z s).2
  killIfProc : ∀ signal, Keeps P (killIfProc signal)
  killUntested : ∀ signal, Keeps P (killUntested signal)

theorem Calm.interrupt (h : Calm P) (hreap : ∀ si z s, 0 < z.pid → sigchld ∉ s.1.mask → P s → P (reapChild si z s).2) :
    Keeps P interrupt :=
  interrupt_keeps h.answer hreap fun _ _ _ hs => h.assign (by rfl) (by rfl) hs

theorem Undisturbed.interrupt (h : Undisturbed P) : Keeps P interrupt := h.toCalm.interrupt h.reap

theorem Undisturbed.of_note (h : Calm P)
    (hreap : ∀ si z s, 0 < z.pid → sigchld ∉ s.1.mask → P s → P (reapChild si z s).2)
    (hnote : ∀ e : Entry, e.ofKill = true → Keeps P (note e)) : Undisturbed P := by
  have hkill : ∀ signal, Keeps P (killProc signal) := fun signal => buddy_keeps.bind fun b => hnote _ rfl
  refine { toCalm := h, reap := hreap, killIfProc := fun signal => ?_, killUntested := fun signal => ?_ }
  · refine buddy_keeps.bind fun b => .ite (fun _ => ?_) fun _ => .pure
    exact (hnote _ rfl).bind fun _ => (h.interrupt hreap).bind fun _ => hkill signal.val
  · exact buddy_keeps.bind fun b => (hnote _ rfl).bind fun _ => (h.interrupt hreap).bind fun _ => hkill signal

theorem Undisturbed.waitUntil (h : Undisturbed P) (limit : UInt8) : Keeps P (waitUntil limit) := by
  have hwait : ∀ below, Keeps P (waitProc below) := by
    intro below
    induction below with
    | zero => exact buddy_keeps.bind fun b => .ite (fun _ => h.set (by intro b; rfl) (by intro b; rfl)) fun _ => .pure
    | succ below ih =>
      refine buddy_keeps.bind fun b => .ite (fun _ => ?_) fun _ => .pure
      exact (h.set (by intro b; rfl) (by intro b; rfl)).bind fun _ => h.interrupt.bind fun _ => ih
  exact buddy_keeps.bind fun b => hwait _

theorem Undisturbed.escalation (h : Undisturbed P) : Keeps P (do
    Prog.waitUntil 10
    if cfg.killTimeout ≠ 0 then
      Prog.killIfProc sigterm
      Prog.waitUntil 20
      Prog.killIfProc sigkill) := by
  refine (h.waitUntil 10).bind fun _ => .ite (fun _ => ?_) fun _ => .pure
  exact (h.killIfProc sigterm).bind fun _ => (h.waitUntil 20).bind fun _ => h.killIfProc sigkill

theorem Calm.flushLoop (h : Calm P) (left : Nat) (b : Buddy) (w : World) (hs : P (b, w)) :
    P ((Buddy.flushLoop outside left b w).buddy, (Buddy.flushLoop outside left b w).world) := by
  have hadvance : ∀ {b w}, P (b, w) → P (b.advance, w) := by
    intro b w hs
    obtain ⟨ring, hadvance⟩ := Buddy.advance_eq b
    rw [hadvance]
    exact h.assign (by rfl) (by rfl) hs
  induction left generalizing b w with
  | zero => exact hs
  | succ left ih =>
    unfold Buddy.flushLoop
    split
    · exact hs
    · next cur rest _ =>
      have hoffered :
          P ((b.offering.exchange (w.answers 0).exchange).2, { w with answers := fun n => w.answers (n + 1) }) := by
        obtain ⟨ring, hoffering⟩ := Buddy.offering_eq b
        obtain ⟨n, m, v, e, fd, hexchange⟩ := Buddy.exchange_snd (w.answers 0).exchange b.offering
        rw [hexchange, hoffering]
        exact h.assign (by rfl) (by rfl) (h.answers _ hs)
      split
      · dsimp only
        split
        · obtain ⟨ring, pending, hzero⟩ := Buddy.buddyZeroInfo_eq (b.offering.exchange (w.answers 0).exchange).2
          have hzeroed : P ((b.offering.exchange (w.answers 0).exchange).2.buddyZeroInfo,
              { w with answers := fun n => w.answers (n + 1) }) := by
            rw [hzero]
            exact h.assign (by rfl) (by rfl) hoffered
          exact ih _ _ (hadvance hzeroed)
        · exact h.assign (by rfl) (by rfl) hoffered
      · exact ih _ _ (hadvance hs)

theorem Calm.masked (h : Calm P) (m : SigSet) : Calm fun s => P ({ s.1 with mask := m }, s.2) where
  answers answers hs := h.answers answers hs
  tell t := .of_run fun s hs => (h.tell t).run hs
  assign {b b' w} hcore horders hs := by
    have hmasked : ({ b' with mask := m } : Buddy).core = ({ b with mask := m } : Buddy).core := by
      have hcore' := Core.mk.inj hcore
      simp only [Buddy.core, Core.mk.injEq, and_true]
      exact ⟨hcore'.1, hcore'.2.1, hcore'.2.2.1, hcore'.2.2.2.1, hcore'.2.2.2.2.1⟩
    exact h.assign hmasked horders hs

theorem Undisturbed.buddyFlushRingbuffer (h : Undisturbed P) : Keeps P (buddyFlushRingbuffer cfg) := by
  refine Keeps.bind (.of_run fun s hs => ?_) fun _ => h.interrupt
  have hinterrupt : ∀ b w, P (b, w) → P (Prog.interrupt (b, w)).2 := fun b w hs => h.interrupt.run hs
  have hhome := Buddy.phoneHome_keeps (o := outside) (P := fun b w => P (b, w)) hinterrupt
    (fun b w hs => h.assign (by rfl) (by rfl) (h.answers _ hs)) cfg
    (hinterrupt { s.1 with ack := s.1.thisCommand } s.2 (h.assign (by rfl) (by rfl) hs))
  unfold Buddy.buddyFlushRingbuffer
  dsimp only [outside] at hhome ⊢
  split
  · rw [Buddy.flushConnected_eq]
    exact h.assign (by rfl) (by rfl) ((h.masked _).flushLoop _ _ _ hhome)
  · exact hhome

/-! ### Actions -/

/-- Nor do the actions other than the start. -/
structure Acting (P : System → Prop) : Prop extends Undisturbed P where
  buddyExecAction : ∀ {action}, action ≠ .start → Keeps P (buddyExecAction action)

theorem Undisturbed.exec (h : Undisturbed P) (hmask : ∀ {b w} m, P (b, w) → P ({ b with mask := m }, w)) {action : Action}
    (hforked : ∀ pid, Keeps P (note (.forked action pid))) (hunrunnable : Keeps P (note (.unrunnable action))) :
    Keeps P (buddyExecAction action) := by
  have hblock : Keeps P (block Finset.univ) := .of_run fun s hs => hmask _ hs
  have hstat : Keeps P stat :=
    h.answer.bind fun _ => (h.set (by intro b; rfl) (by intro b; rfl)).bind fun _ => buddy_keeps.bind fun _ => .pure
  have hfork : Keeps P (fork action) :=
    h.answer.bind fun a => .ite (fun _ => (hforked a.fork).bind fun _ => .pure) fun _ => .pure
  refine hblock.bind fun oldset => hstat.bind fun mode => .ite (fun _ => ?_) fun _ => hunrunnable.bind fun _ => .pure
  refine hfork.bind fun pid => Keeps.bind (m := setmask oldset) ?_ fun _ => .pure
  exact Keeps.bind (set_spec fun s hs => hmask _ hs) fun _ => h.interrupt

theorem Acting.buddyStopProc (h : Acting P) : Keeps P (buddyStopProc cfg) := by
  refine buddy_keeps.bind fun b => .ite (fun _ => ?_) fun _ => .pure
  exact (h.buddyExecAction (by decide)).bind fun _ => h.escalation

theorem Acting.buddyReloadProc (h : Acting P) : Keeps P buddyReloadProc := by
  refine buddy_keeps.bind fun b => .ite (fun _ => ?_) fun _ => .pure
  exact (h.buddyExecAction (by decide)).bind fun _ => .pure

theorem Acting.buddyCustAction (h : Acting P) (n : UInt32) : Keeps P (buddyCustAction n) :=
  (h.buddyExecAction (by simp)).bind fun _ => .pure

theorem Acting.buddyExit (h : Acting P) (hblock : Keeps P (block Finset.univ)) : Keeps P (buddyExit cfg) := by
  have hcleanup : Keeps P (buddyCleanup cfg) := by
    refine h.buddyStopProc.bind fun _ => buddy_keeps.bind fun b => .ite (fun _ => ?_) fun _ => .pure
    exact h.buddyFlushRingbuffer.bind fun _ => h.set (by intro b; rfl) (by intro b; rfl)
  refine buddy_keeps.bind fun b => .ite (fun _ => hblock.bind fun _ => hcleanup) fun _ => ?_
  exact hcleanup.bind fun _ => hcleanup

/-! ### The event loop -/

variable (cfg) in
/-- **A command** makes an assignment and then does what it says: only two commands start the process. -/
theorem buddyHandleCommand_spec (command : UInt32) (hQ : Acting Q)
    (hset : ∀ {b b' w}, b'.core = b.core → b'.orders = (b.desiredState.next command, b.thisCommand) →
      P (b, w) → Q (b', w))
    (hstart : command = upkCtrlActionStart ∨ command = upkCtrlActionRunonce → Keeps Q (buddyStartProc cfg)) :
    Triple (fun s => P s ∧ s.1.thisCommand = command) (buddyHandleCommand cfg) fun _ => Q := by
  have hassign {f : Buddy → Buddy} {d : RunState} (hcore : ∀ b, (f b).core = b.core)
      (horders : ∀ b, (f b).orders = (d, b.thisCommand)) (hd : ∀ wanted : RunState, wanted.next command = d) :
      Triple P (set f) fun _ => Q :=
    set_spec fun s hs => hset (hcore s.1) ((horders s.1).trans (by rw [hd])) hs
  unfold buddyHandleCommand
  refine Triple.bind (Q := fun (b : Buddy) s => P s ∧ b.thisCommand = command) (.of_run fun _ h => h) fun b =>
    .of_fact fun hb => ?_
  dsimp only
  rw [hb]
  refine .ite (fun h => ?_) fun hshutdown => ?_
  · exact hassign (by intro b; rfl) (by intro b; rfl) fun _ => if_pos (.inl h)
  have hkeep {f : Buddy → Buddy} (hcore : ∀ b, (f b).core = b.core) (horders : ∀ b, (f b).orders = b.orders)
      (hnext : ∀ wanted : RunState, wanted.next command = wanted) : Triple P (set f) fun _ => Q :=
    set_spec fun s hs => hset (hcore s.1) ((horders s.1).trans (by rw [hnext]; rfl)) hs
  refine .ite (fun h => ?_) fun _ => ?_
  · exact hkeep (by intro b; rfl) (by intro b; rfl) fun _ => by rw [h]; rfl
  refine .ite (fun h => ?_) fun hnostart => ?_
  · refine Triple.seq (hassign (by intro b; rfl) (by intro b; rfl) fun _ => by rw [h]; rfl) ?_
    exact (hstart (.inl h)).bind fun _ => .pure
  refine .ite (fun h => ?_) fun hstop => ?_
  · exact (hassign (by intro b; rfl) (by intro b; rfl) fun _ => if_pos (.inr h)).seq hQ.buddyStopProc
  refine .ite (fun h => ?_) fun _ => ?_
  · exact (hkeep (by intro b; rfl) (by intro b; rfl) fun _ => by rw [h]; rfl).seq hQ.buddyReloadProc
  refine .ite (fun h => ?_) fun honce => ?_
  · refine Triple.seq (hassign (by intro b; rfl) (by intro b; rfl) fun _ => by rw [h]; rfl) ?_
    exact (hstart (.inr h)).bind fun _ => hQ.set (by intro b; rfl) (by intro b; rfl)
  have hnext : ∀ wanted : RunState, wanted.next command = wanted := fun _ => by
    simp only [RunState.next, hshutdown, hstop, hnostart, honce, or_self, if_false]
  refine .ite (fun _ => ?_) fun _ => .ite (fun _ => ?_) fun _ => ?_
  · exact (hkeep (by intro b; rfl) (by intro b; rfl) hnext).seq (hQ.buddyCustAction _)
  · exact (hkeep (by intro b; rfl) (by intro b; rfl) hnext).seq (hQ.killUntested _)
  · exact .pure fun s hs => hset (by rfl) (by rw [hnext]; rfl) hs

/-- **A restart** is due only when the service is wanted to run, and it clears `force_ratelimit` first. -/
theorem Undisturbed.buddyHandleFlags (h : Undisturbed P)
    (hrestart : Triple (fun s => P s ∧ s.1.desiredState = .running)
      (do set fun b => { b with forceRatelimit := false }; restart cfg) fun _ => P) :
    Keeps P (buddyHandleFlags cfg) := by
  refine h.interrupt.bind fun _ => Triple.bind buddy_spec fun b => ?_
  refine .ite (fun _ => .pure fun _ hs => hs.1) fun _ => .ite (fun hrun => ?_) fun _ => .pure fun _ hs => hs.1
  have hdesired : b.desiredState = .running := by
    rw [Bool.and_eq_true, beq_iff_eq] at hrun
    exact hrun.2
  have hcalm := h.and_desired .running
  refine Triple.conseq (P := fun s => P s ∧ s.1.desiredState = .running)
    (fun s hs => ⟨hs.1, by rw [← hs.2, hdesired]⟩) (fun _ _ hs => hs) ?_
  refine Triple.bind hcalm.userLimited fun limited => .ite (fun _ => .pure fun _ hs => hs.1) fun _ => ?_
  refine Triple.bind hcalm.runawayLimited fun limited => .ite (fun _ => .pure fun _ hs => hs.1) fun _ => ?_
  exact hrestart.bind (f := fun _ => pure false) fun _ => .pure fun _ hs => hs

theorem Undisturbed.restart (h : Undisturbed P) (hstart : Keeps P (buddyStartProc cfg)) (hclear : Keeps P (do
    let b ← buddy
    note (.cleared b.procPid)
    Prog.set fun b => { b with chldTerminated := false })) : Keeps P (restart cfg) := by
  refine hstart.bind fun started => .ite (fun _ => ?_) fun _ => .pure
  exact h.interrupt.bind fun _ => hclear

/-- What is kept by the starts, too -/
structure Supervising (cfg : BuddyConfig) (P : System → Prop) : Prop extends Acting P where
  order : ∀ {b b' w}, b'.core = b.core → P (b, w) → P (b', w)
  force : ∀ {b w}, P (b, w) → P ({ b with forceRatelimit := false }, w)
  clear : Keeps P (do
    let b ← buddy
    note (.cleared b.procPid)
    Prog.set fun b => { b with chldTerminated := false })
  buddyStartProc : Keeps P (buddyStartProc cfg)

theorem Supervising.buddyHandleFlags (h : Supervising cfg P) : Keeps P (buddyHandleFlags cfg) := by
  refine h.toUndisturbed.buddyHandleFlags (Triple.bind (set_spec fun s hs => h.force hs.1) fun _ => ?_)
  exact h.restart h.buddyStartProc h.clear

theorem Supervising.readCommand (h : Supervising cfg P) : Keeps P readCommand := by
  refine h.answer.bind fun a => Keeps.bind (set_spec fun s hs => ?_) fun _ => buddy_keeps.bind fun _ => .pure
  obtain ⟨n, e, fd, hread, -⟩ := Buddy.readCtrl_eq a.readSelect a.read s.1.thisCommand s.1
  rw [hread]
  exact h.order (by rfl) hs

theorem Supervising.buddyHandleCommand (h : Supervising cfg P) : Keeps P (buddyHandleCommand cfg) := by
  refine .of_run fun s hs => ?_
  have hhandle := buddyHandleCommand_spec cfg s.1.thisCommand h.toActing
    (fun hcore _ hs => h.order hcore hs) fun _ => h.buddyStartProc
  exact hhandle.run ⟨hs, rfl⟩

theorem Supervising.serveController (h : Supervising cfg P) : Keeps P (serveController cfg) := by
  refine buddy_keeps.bind fun b => .ite (fun _ => ?_) fun _ => .pure
  refine h.readCommand.bind fun command => .ite (fun _ => ?_) fun _ => .pure
  exact h.buddyHandleCommand.bind fun _ => h.buddyFlushRingbuffer

theorem Supervising.buddyEventLoopTurn (h : Supervising cfg P) : Keeps P (buddyEventLoopTurn cfg) := by
  refine Keeps.bind (set_spec fun s hs => h.order (by rfl) hs) fun _ => h.interrupt.bind fun _ => h.answer.bind fun a => ?_
  split
  · exact h.buddyAccept.bind fun _ => .pure
  · exact h.serveController.bind fun _ => h.buddyHandleFlags
  · exact h.buddyHandleFlags

/-- **Every run** keeps what the parts of the program keep. -/
theorem Supervising.buddyEventLoop (h : Supervising cfg P) (hblock : Keeps P (block Finset.univ)) (n : Nat) :
    Keeps P (buddyEventLoop cfg n) := by
  induction n with
  | zero => exact .pure
  | succ n ih =>
    refine h.buddyEventLoopTurn.bind fun done => .ite (fun _ => ?_) fun _ => ih
    exact (h.buddyExit hblock).bind fun _ => .pure

end Prog

end Upkeeper
