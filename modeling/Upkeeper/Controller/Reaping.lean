import Upkeeper.Controller.Signals
/-!
# Reaping (`ctrl_eventloop.c`: `ctrl_setup_sighandlers`, `sa_sigaction_func`, `handle_signals`)

A child that has terminated is a zombie until the controller waits for it. The kernel keeps one `SIGCHLD` pending,
with the `siginfo` of one exit, and `handle_signals` calls `waitpid` once for each signal that was queued, with the
pid that the signal names. So a child that exits while a `SIGCHLD` is pending is not waited for. When every exit finds
none pending, and the list of signals is a queue, all children are reaped (`reaped_of_separate`).

The invariant is that every zombie is named, by the pending signal or by one that waits to be handled.
-/

namespace Upkeeper

open SignalQueue

/-! ### The controller and its children -/

/-- A process, from the `fork` to the `waitpid` -/
inductive Child
  | running
  | zombie
  deriving DecidableEq, Repr

/-- The signals of the controller, its children by pid, the pending `SIGCHLD`, and the children that have terminated
since the last one was delivered -/
structure Reaper where
  signals : SignalQueue
  child : Int → Option Child
  pending : Option Siginfo
  since : List Int

namespace Reaper

/-- `waitpid(pid, &waitstatus, 0)` for the pid of one process: what the children are behind it, if it does not block. -/
def waitpid (child : Int → Option Child) (pid : Int) : Option (Int → Option Child) :=
  match child pid with
  | some .zombie => some (Function.update child pid none)
  | some .running => none
  | none => some child

/-- The pid that `handle_signals` waits for, at the case `SIGCHLD` of its `switch` -/
def waitsFor : SignalPoint → Option Int
  | .switch signalNode => if signalNode.signal = sigchld then some signalNode.siginfo.pid else none
  | .outside | .test | .block | .take | .unblock _ | .exited => none

/-- The next step of `handle_signals`; it does not go on while `waitpid` blocks. -/
def handleSignals (s : Reaper) : Option Reaper :=
  match (waitsFor s.signals.point).elim (some s.child) (waitpid s.child) with
  | none => some s
  | some child => s.signals.handleSignals.map fun signals => { s with signals, child }

/-- What the kernel and the controller do. A second exit may leave the pending `siginfo` or replace it. -/
inductive Event
  | fork (pid : Int)
  | exit (siginfo : Siginfo) (replaces : Bool)
  | deliver
  | interrupt (signal : CtrlSigqueue)
  | continue
  deriving DecidableEq, Repr

/-- One event. A process is forked under a pid that is not taken, and exits once. The pending `SIGCHLD` is delivered
unless it is blocked. -/
def step (s : Reaper) : Event → Option Reaper
  | .fork pid =>
    if s.child pid = none then some { s with child := Function.update s.child pid (some .running) } else some s
  | .exit siginfo replaces =>
    if s.child siginfo.pid = some .running then
      some { s with
        child := Function.update s.child siginfo.pid (some .zombie)
        pending := some (if replaces then siginfo else s.pending.getD siginfo)
        since := siginfo.pid :: s.since }
    else some s
  | .deliver =>
    match s.pending with
    | none => some s
    | some siginfo =>
      if s.signals.Delivered ⟨siginfo, sigchld⟩ then
        (s.signals.saSigactionFunc ⟨siginfo, sigchld⟩).map fun signals =>
          { s with signals, pending := none, since := [] }
      else some s
  | .interrupt signal =>
    if signal.signal = sigchld then some s
    else (s.signals.step (.arrive signal)).map fun signals => { s with signals }
  | .continue => s.handleSignals

/-- The controller after `ctrl_init` -/
def init : Reaper := ⟨SignalQueue.init, fun _ => none, none, []⟩

/-- **Terminated children are reaped.** When no signal waits to be handled, the zombies that are left have terminated
after the last delivery of a `SIGCHLD`. -/
def AllReaped (s : Reaper) : Prop :=
  s.signals.ctrlSignalQueue.count = 0 → SignalPoint.inHand s.signals.point = [] →
    ∀ pid, s.child pid = some .zombie → pid ∈ s.since

/-- A child exits while no `SIGCHLD` is pending, and a signal that is delivered finds the list ready for it. -/
def Separate (s : Reaper) : Event → Prop
  | .exit siginfo _ => s.child siginfo.pid = some .running → s.pending = none
  | .deliver => ∀ siginfo ∈ s.pending, s.signals.Tidy (.arrive ⟨siginfo, sigchld⟩)
  | .interrupt signal => signal.signal ≠ sigchld → s.signals.Tidy (.arrive signal)
  | .fork _ | .continue => True

instance (s : Reaper) : (e : Event) → Decidable (Separate s e)
  | .exit _ _ => inferInstanceAs (Decidable (_ → _))
  | .deliver => inferInstanceAs (Decidable (∀ _ ∈ s.pending, _))
  | .interrupt _ => inferInstanceAs (Decidable (_ → _))
  | .fork _ | .continue => inferInstanceAs (Decidable True)

/-! ### The signals that wait -/

/-- The signals that have arrived and have not been handled -/
def waiting (s : SignalQueue) : List CtrlSigqueue := s.arrived.drop s.handled.length

/-- The signal that the next step of `handle_signals` is done with -/
def finishes : SignalPoint → List CtrlSigqueue
  | .switch signalNode => [signalNode]
  | .outside | .test | .block | .take | .unblock _ | .exited => []

variable {q q' : SignalQueue} {l : List Addr}

theorem waiting_arrive {signal : CtrlSigqueue} (h : q.Waits l) (hq : q.saSigactionFunc signal = some q') :
    waiting q' = waiting q ++ [signal] := by
  obtain ⟨a, -, hq⟩ := Option.bind_eq_some_iff.mp hq
  obtain ⟨b, -, hq⟩ := Option.bind_eq_some_iff.mp hq
  obtain rfl := Option.some.inj hq
  exact List.drop_append_of_le_length h.inOrder.order.length_le

theorem waiting_step_arrive {signal : CtrlSigqueue} (h : q.Waits l) (hq : q.step (.arrive signal) = some q') :
    waiting q <+: waiting q' := by
  unfold SignalQueue.step at hq
  dsimp only at hq
  split at hq
  · rw [waiting_arrive h hq]
    exact List.prefix_append _ _
  · obtain rfl := Option.some.inj hq
    exact List.prefix_rfl

theorem handleSignals_lists (hq : q.handleSignals = some q') :
    q'.arrived = q.arrived ∧ q'.handled = q.handled ++ finishes q.point := by
  unfold SignalQueue.handleSignals at hq
  cases hpoint : q.point with
  | take =>
    rw [hpoint] at hq
    obtain ⟨x, -, hq⟩ := Option.bind_eq_some_iff.mp hq
    obtain rfl := Option.some.inj hq
    exact ⟨rfl, (List.append_nil _).symm⟩
  | «switch» signalNode =>
    rw [hpoint] at hq
    obtain rfl := Option.some.inj hq
    exact ⟨rfl, rfl⟩
  | _ =>
    rw [hpoint] at hq
    obtain rfl := Option.some.inj hq
    exact ⟨rfl, (List.append_nil _).symm⟩

theorem handleSignals_exit {signalNode : CtrlSigqueue} (hpoint : q.point = .switch signalNode)
    (hexit : signalNode.signal = sigint ∨ signalNode.signal = sigterm) :
    ∃ q', q.handleSignals = some q' ∧ q'.point = .exited ∧ q'.ctrlSignalQueue = q.ctrlSignalQueue := by
  unfold SignalQueue.handleSignals
  rw [hpoint]
  exact ⟨_, rfl, if_pos hexit, rfl⟩

theorem inHand_prefix (h : q.Waits l) : SignalPoint.inHand q.point <+: waiting q := by
  have hprefix : (q.handled ++ SignalPoint.inHand q.point).map some <+: q.arrived.map some := ⟨_, h.history⟩
  obtain ⟨rest, hrest⟩ := hprefix
  obtain ⟨xs, ys, hxs, hmap, -⟩ := List.map_eq_append_iff.mp hrest.symm
  have hfirst : xs = q.handled ++ SignalPoint.inHand q.point := map_some_inj hmap
  refine ⟨ys, ?_⟩
  rw [waiting, hxs, hfirst, List.append_assoc, List.drop_left]

theorem waiting_handleSignals (h : q.Waits l) (hq : q.handleSignals = some q') :
    waiting q = finishes q.point ++ waiting q' := by
  obtain ⟨harrived, hhandled⟩ := handleSignals_lists hq
  have hprefix : finishes q.point <+: waiting q := by
    cases hpoint : q.point with
    | «switch» signalNode =>
      have := inHand_prefix h
      rwa [hpoint] at this
    | _ => exact List.nil_prefix
  obtain ⟨rest, hrest⟩ := hprefix
  have hwaiting : waiting q' = (waiting q).drop (finishes q.point).length := by
    rw [waiting, harrived, hhandled, List.length_append, ← List.drop_drop, ← waiting]
  rw [hwaiting, ← hrest, List.drop_left]

/-! ### One event -/

/-- Every zombie is named by a signal. -/
structure Accounted (s : Reaper) : Prop where
  waits : ∃ l, s.signals.Waits l
  named : ∀ pid, s.child pid = some .zombie →
    (∃ siginfo ∈ s.pending, siginfo.pid = pid) ∨
      ∃ node ∈ waiting s.signals, node.signal = sigchld ∧ node.siginfo.pid = pid
  since : ∀ siginfo ∈ s.pending, siginfo.pid ∈ s.since

/-- The controller has exited, and has left signals behind. -/
def Abandoned (s : Reaper) : Prop := s.signals.point = .exited ∧ s.signals.ctrlSignalQueue.count ≠ 0

variable {s s' : Reaper}

theorem init_accounted : Accounted init where
  waits := ⟨[], init_waits⟩
  named _ h := by cases h
  since _ h := by cases h

theorem Accounted.allReaped (h : Accounted s) : AllReaped s := by
  intro hcount hhand pid hpid
  obtain ⟨l, hwaits⟩ := h.waits
  have hempty : waiting s.signals = [] := by
    rw [waiting, hwaits.inOrder.idle hcount hhand, List.drop_length]
  rcases h.named pid hpid with ⟨siginfo, hpending, rfl⟩ | ⟨node, hnode, -⟩
  · exact h.since siginfo hpending
  · rw [hempty] at hnode
    cases hnode

theorem Abandoned.allReaped (h : Abandoned s) : AllReaped s := fun hcount => absurd hcount h.2

theorem zombie_of_update {child : Int → Option Child} {pid p : Int} {state : Option Child}
    (hp : Function.update child pid state p = some .zombie) (hstate : state ≠ some .zombie) :
    p ≠ pid ∧ child p = some .zombie := by
  by_cases hne : p = pid
  · rw [hne, Function.update_self] at hp
    exact absurd hp hstate
  · rw [Function.update_of_ne hne] at hp
    exact ⟨hne, hp⟩

theorem Accounted.fork (h : Accounted s) (pid : Int) :
    Accounted { s with child := Function.update s.child pid (some .running) } where
  waits := h.waits
  named p hp := h.named p (zombie_of_update hp (by simp)).2
  since := h.since

theorem Accounted.exit (h : Accounted s) (siginfo : Siginfo) (hpending : s.pending = none) :
    Accounted { s with
      child := Function.update s.child siginfo.pid (some .zombie)
      pending := some siginfo
      since := siginfo.pid :: s.since } where
  waits := h.waits
  named p hp := by
    dsimp only at hp
    by_cases hne : p = siginfo.pid
    · exact Or.inl ⟨siginfo, rfl, hne.symm⟩
    · rw [Function.update_of_ne hne] at hp
      rcases h.named p hp with ⟨old, hold, -⟩ | hnode
      · rw [hpending] at hold
        cases hold
      · exact Or.inr hnode
  since old hold := by
    obtain rfl := Option.some.inj hold
    exact List.mem_cons_self

theorem Accounted.deliver (h : Accounted s) {siginfo : Siginfo} {q : SignalQueue} {l : List Addr}
    (hpending : s.pending = some siginfo) (hwaits : q.Waits l)
    (hq : waiting q = waiting s.signals ++ [⟨siginfo, sigchld⟩]) :
    Accounted { s with signals := q, pending := none, since := [] } where
  waits := ⟨l, hwaits⟩
  named p hp := by
    refine Or.inr ?_
    dsimp only
    rw [hq]
    rcases h.named p hp with ⟨old, hold, hpid⟩ | ⟨node, hnode, hname⟩
    · obtain rfl := Option.some.inj (hpending.symm.trans hold)
      exact ⟨_, List.mem_append_right _ (List.mem_singleton_self _), rfl, hpid⟩
    · exact ⟨node, List.mem_append_left _ hnode, hname⟩
  since _ hnone := by cases hnone

theorem Accounted.interrupt (h : Accounted s) {q : SignalQueue} {l : List Addr} (hwaits : q.Waits l)
    (hq : waiting s.signals <+: waiting q) : Accounted { s with signals := q } where
  waits := ⟨l, hwaits⟩
  named p hp := by
    refine (h.named p hp).imp_right ?_
    rintro ⟨node, hnode, hname⟩
    exact ⟨node, hq.mem hnode, hname⟩
  since := h.since

theorem zombie_of_waitpid {child child' : Int → Option Child} {pid p : Int} (hwait : waitpid child pid = some child')
    (hp : child' p = some .zombie) : p ≠ pid ∧ child p = some .zombie := by
  unfold waitpid at hwait
  cases hpid : child pid with
  | none =>
    rw [hpid] at hwait
    obtain rfl := Option.some.inj hwait
    refine ⟨?_, hp⟩
    rintro rfl
    rw [hpid] at hp
    cases hp
  | some state =>
    cases state with
    | running =>
      rw [hpid] at hwait
      cases hwait
    | zombie =>
      rw [hpid] at hwait
      obtain rfl := Option.some.inj hwait
      exact zombie_of_update hp (by simp)

/-- A step of `handle_signals` is done with a signal only after the child that it names has been waited for. -/
theorem Accounted.handled (h : Accounted s) {q : SignalQueue} {l l' : List Addr} {child : Int → Option Child}
    (hold : s.signals.Waits l) (hq : s.signals.handleSignals = some q) (hwaits : q.Waits l')
    (hchild : (waitsFor s.signals.point).elim (some s.child) (waitpid s.child) = some child) :
    Accounted { s with signals := q, child } where
  waits := ⟨l', hwaits⟩
  named p hp := by
    have hwaiting := waiting_handleSignals hold hq
    have hkept : s.child p = some .zombie ∧
        ∀ node ∈ finishes s.signals.point, node.signal = sigchld → node.siginfo.pid ≠ p := by
      cases hpoint : s.signals.point with
      | «switch» signalNode =>
        rw [hpoint, waitsFor] at hchild
        by_cases hsig : signalNode.signal = sigchld
        · rw [if_pos hsig] at hchild
          obtain ⟨hne, hzombie⟩ := zombie_of_waitpid hchild hp
          refine ⟨hzombie, fun node hnode _ => ?_⟩
          rw [List.mem_singleton.mp hnode]
          exact hne.symm
        · rw [if_neg hsig] at hchild
          obtain rfl := Option.some.inj hchild
          refine ⟨hp, fun node hnode hnsig => ?_⟩
          rw [List.mem_singleton.mp hnode] at hnsig
          exact absurd hnsig hsig
      | _ =>
        rw [hpoint] at hchild
        obtain rfl := Option.some.inj hchild
        exact ⟨hp, fun node hnode => by cases hnode⟩
    refine (h.named p hkept.1).imp_right ?_
    rintro ⟨node, hnode, hsig, hpid⟩
    rw [hwaiting] at hnode
    rcases List.mem_append.mp hnode with hnode | hnode
    · exact absurd hpid (hkept.2 node hnode hsig)
    · exact ⟨node, hnode, hsig, hpid⟩
  since := h.since

/-- **What one event does.** -/
theorem Accounted.step (h : Accounted s) (e : Event) (hsep : Separate s e) :
    ∃ s', s.step e = some s' ∧ (Accounted s' ∨ Abandoned s') := by
  obtain ⟨l, hwaits⟩ := h.waits
  cases e with
  | fork pid =>
    unfold Reaper.step
    by_cases hfree : s.child pid = none
    · exact ⟨_, if_pos hfree, Or.inl (h.fork pid)⟩
    · exact ⟨s, if_neg hfree, Or.inl h⟩
  | exit siginfo replaces =>
    unfold Reaper.step
    by_cases hrunning : s.child siginfo.pid = some .running
    · have hpending := hsep hrunning
      refine ⟨_, if_pos hrunning, Or.inl ?_⟩
      have hnew : (if replaces then siginfo else s.pending.getD siginfo) = siginfo := by
        rw [hpending, Option.getD_none, ite_self]
      rw [hnew]
      exact h.exit siginfo hpending
    · exact ⟨s, if_neg hrunning, Or.inl h⟩
  | deliver =>
    unfold Reaper.step
    cases hpending : s.pending with
    | none => exact ⟨s, rfl, Or.inl h⟩
    | some siginfo =>
      by_cases hdel : s.signals.Delivered ⟨siginfo, sigchld⟩
      · obtain ⟨hnext, hcount⟩ := hsep siginfo hpending hdel
        obtain ⟨q, hq, hwaits'⟩ := hwaits.arrive ⟨siginfo, sigchld⟩ hdel.2 hnext hcount
        refine ⟨{ s with signals := q, pending := none, since := [] }, ?_,
          Or.inl (h.deliver hpending hwaits' (waiting_arrive hwaits hq))⟩
        dsimp only
        rw [if_pos hdel, hq]
        rfl
      · exact ⟨s, if_neg hdel, Or.inl h⟩
  | interrupt signal =>
    unfold Reaper.step
    by_cases hchld : signal.signal = sigchld
    · exact ⟨s, if_pos hchld, Or.inl h⟩
    · obtain ⟨q, hq, l', hwaits'⟩ := hwaits.step (.arrive signal) (hsep hchld)
      refine ⟨{ s with signals := q }, ?_, Or.inl (h.interrupt hwaits' (waiting_step_arrive hwaits hq))⟩
      dsimp only
      rw [if_neg hchld, hq]
      rfl
  | «continue» =>
    unfold Reaper.step Reaper.handleSignals
    cases hchild : (waitsFor s.signals.point).elim (some s.child) (waitpid s.child) with
    | none => exact ⟨s, rfl, Or.inl h⟩
    | some child =>
      by_cases hempty : ExitsEmpty s.signals.ctrlSignalQueue s.signals.point
      · obtain ⟨q, hq, l', hwaits'⟩ := hwaits.step .continue hempty
        have hq' : s.signals.handleSignals = some q := hq
        refine ⟨{ s with signals := q, child }, ?_, Or.inl (h.handled hwaits hq' hwaits' hchild)⟩
        rw [hq']
        rfl
      · cases hpoint : s.signals.point with
        | «switch» signalNode =>
          rw [hpoint] at hempty
          obtain ⟨hexit, hcount⟩ := Classical.not_imp.mp hempty
          obtain ⟨q, hq, hexited, hlist⟩ := handleSignals_exit hpoint hexit
          refine ⟨{ s with signals := q, child }, ?_, Or.inr ⟨hexited, ?_⟩⟩
          · rw [hq]
            rfl
          · rw [hlist]
            exact hcount
        | _ =>
          rw [hpoint] at hempty
          exact absurd trivial hempty

theorem Abandoned.step (h : Abandoned s) (e : Event) : ∃ s', s.step e = some s' ∧ Abandoned s' := by
  have hnot (signal : CtrlSigqueue) : ¬s.signals.Delivered signal := fun hdel => hdel.2 h.1
  unfold Reaper.step
  cases e with
  | fork pid =>
    by_cases hfree : s.child pid = none
    · exact ⟨_, if_pos hfree, h⟩
    · exact ⟨s, if_neg hfree, h⟩
  | exit siginfo replaces =>
    by_cases hrunning : s.child siginfo.pid = some .running
    · exact ⟨_, if_pos hrunning, h⟩
    · exact ⟨s, if_neg hrunning, h⟩
  | deliver =>
    cases hpending : s.pending with
    | none => exact ⟨s, rfl, h⟩
    | some siginfo => exact ⟨s, if_neg (hnot _), h⟩
  | interrupt signal =>
    by_cases hchld : signal.signal = sigchld
    · exact ⟨s, if_pos hchld, h⟩
    · refine ⟨s, ?_, h⟩
      have hstep : s.signals.step (.arrive signal) = some s.signals := if_neg (hnot signal)
      dsimp only
      rw [if_neg hchld, hstep]
      rfl
  | «continue» =>
    refine ⟨s, ?_, h⟩
    unfold Reaper.handleSignals SignalQueue.handleSignals
    rw [h.1]
    rfl

/-- The controller goes on for so many steps. -/
def continues (n : Nat) : List Event := List.replicate n .continue

/-- The exit of a buddy -/
def exited (pid : Int) : Siginfo := ⟨17, 1, pid, 0⟩

end Reaper

open Reaper

/-- **Terminated children are reaped** in every run in which each child exits while no `SIGCHLD` is pending and each
signal is delivered while the list of signals is ready for it. -/
theorem reaped_of_separate (es : List Reaper.Event) (hsep : Machine.Guarded Reaper.step Separate Reaper.init es) :
    Machine.Safe Reaper.step AllReaped Reaper.init es := by
  refine Machine.safe_of_guarded (J := fun s => s.Accounted ∨ s.Abandoned) ?_ ?_ (Or.inl init_accounted) hsep
  · rintro s (h | h)
    · exact h.allReaped
    · exact h.allReaped
  · rintro s e (h | h) he
    · exact h.step e he
    · obtain ⟨s', hs', habandoned⟩ := h.step e
      exact ⟨s', hs', Or.inr habandoned⟩

/-- Two buddies exit, the second one when the death of the first one has been queued. -/
theorem reaped_of_separate_two :
    Machine.Safe Reaper.step AllReaped Reaper.init
      ([.fork 1, .fork 2, .exit (exited 1) false, .deliver, .exit (exited 2) false] ++ continues 6 ++ [.deliver] ++
        continues 7) :=
  reaped_of_separate _ (by decide +kernel)

/-- Two buddies exit before the controller gets the signal: the second one is never waited for. -/
theorem not_reaped_two :
    ¬Machine.Safe Reaper.step AllReaped Reaper.init
      ([.fork 1, .fork 2, .exit (exited 1) false, .exit (exited 2) false, .deliver] ++ continues 6) := by
  intro hsafe
  obtain ⟨s, hrun, hreaped⟩ := hsafe.run
  have hend : (Machine.run Reaper.step Reaper.init ([.fork 1, .fork 2, .exit (exited 1) false, .exit (exited 2) false,
      .deliver] ++ continues 6)).map (fun s => (s.signals.ctrlSignalQueue.count, SignalPoint.inHand s.signals.point,
        s.child 2, s.since)) = some (0, [], some .zombie, []) := by
    decide +kernel
  rw [hrun, Option.map_some, Option.some.injEq] at hend
  simp only [Prod.mk.injEq] at hend
  have hmem := hreaped hend.1 hend.2.1 2 hend.2.2.1
  rw [hend.2.2.2] at hmem
  cases hmem

end Upkeeper
