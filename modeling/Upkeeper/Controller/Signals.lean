import Upkeeper.Library.Machine
import Upkeeper.Buddy.Types
import Upkeeper.UpkList.Ops
/-!
# Deferred signals (`ctrl_eventloop.c`: `sa_sigaction_func`, `handle_signals`)

The signal handler of the controller appends to a list, and `handle_signals` takes the nodes from its head, with all
signals blocked. `UPKLIST_HEAD` leaves the second node in `nextp`, and the next `UPKLIST_APPEND` trusts it to be `NULL`:
so a signal that arrives after one of several was taken is linked in front of an older one. When every signal finds
`nextp` at `NULL`, the list is a queue (`handleSignals_inOrder`).
-/

namespace Upkeeper

/-- `ctrl_sigqueue_t` -/
structure CtrlSigqueue where
  siginfo : Siginfo
  signal : Signo
  deriving DecidableEq, Repr

instance : Inhabited CtrlSigqueue := ⟨⟨⟨0, 0, 0, 0⟩, ⟨0, by decide⟩⟩⟩

/-- Where `handle_signals` stands: outside of it, at the test of the loop, before each `sigprocmask`, before the list is
touched, and at the `switch` with the node that was copied. `exit` ends the controller. -/
inductive SignalPoint
  | outside
  | test
  | block
  | take
  | unblock (signalNode : CtrlSigqueue)
  | switch (signalNode : CtrlSigqueue)
  | exited
  deriving DecidableEq, Repr

/-- The queue of signals with its consumer, the signals that were appended to it and those that were handled -/
structure SignalQueue where
  ctrlSignalQueue : UpkList CtrlSigqueue
  point : SignalPoint
  mask : SigSet
  oldset : SigSet
  arrived : List CtrlSigqueue
  handled : List CtrlSigqueue

namespace SignalQueue

/-- `sa_sigaction_func` -/
def saSigactionFunc (signal : CtrlSigqueue) (s : SignalQueue) : Option SignalQueue := do
  let q ← s.ctrlSignalQueue.append
  let q ← q.modifyVal q.thisp fun _ => signal
  some { s with ctrlSignalQueue := q, arrived := s.arrived ++ [signal] }

/-- `UPKLIST_HEAD`, `signal_node = *ctrl_signal_queue->thisp` and `UPKLIST_UNLINK` -/
def takeSignal (q : UpkList CtrlSigqueue) : Option (UpkList CtrlSigqueue × CtrlSigqueue) := do
  let q ← q.headThis
  let signalNode ← q.thisp >>= q.val?
  let q ← q.unlink
  some (q, signalNode)

/-- The next step of `handle_signals`, or the call of it -/
def handleSignals (s : SignalQueue) : Option SignalQueue :=
  match s.point with
  | .outside => some { s with point := .test }
  | .test => some { s with point := if 0 < s.ctrlSignalQueue.count then .block else .outside }
  | .block => some { s with mask := s.mask ∪ Finset.univ, oldset := s.mask, point := .take }
  | .take => do
    let (q, signalNode) ← takeSignal s.ctrlSignalQueue
    some { s with ctrlSignalQueue := q, point := .unblock signalNode }
  | .unblock signalNode => some { s with mask := s.oldset, point := .switch signalNode }
  | .switch signalNode =>
    some { s with
      handled := s.handled ++ [signalNode]
      point := if signalNode.signal = sigint ∨ signalNode.signal = sigterm then .exited else .test }
  | .exited => some s

/-- A signal is delivered to the handler. -/
def Delivered (s : SignalQueue) (signal : CtrlSigqueue) : Prop := signal.signal ∉ s.mask ∧ s.point ≠ .exited

instance (s : SignalQueue) (signal : CtrlSigqueue) : Decidable (s.Delivered signal) :=
  inferInstanceAs (Decidable (_ ∧ _))

/-- A signal arrives, or the controller goes on. -/
inductive Event
  | arrive (signal : CtrlSigqueue)
  | continue
  deriving DecidableEq, Repr

/-- A blocked signal stays with the kernel: it arrives again later. -/
def step (s : SignalQueue) : Event → Option SignalQueue
  | .arrive signal => if s.Delivered signal then s.saSigactionFunc signal else some s
  | .continue => s.handleSignals

/-- The controller after `ctrl_init` -/
def init : SignalQueue where
  ctrlSignalQueue := .init
  point := .outside
  mask := ∅
  oldset := ∅
  arrived := []
  handled := []

/-! ### The queue -/

/-- The signal that has been taken and not yet been handled -/
def SignalPoint.inHand : SignalPoint → List CtrlSigqueue
  | .unblock signalNode => [signalNode]
  | .switch signalNode => [signalNode]
  | _ => []

/-- Signals are handled once and in the order in which they arrived, and all of them when the queue is empty and when
the controller exits. -/
structure InOrder (s : SignalQueue) : Prop where
  order : s.handled <+: s.arrived
  idle : s.ctrlSignalQueue.count = 0 → SignalPoint.inHand s.point = [] → s.handled = s.arrived
  exited : s.point = .exited → s.handled = s.arrived

/-- The controller does not exit here with signals in the queue. -/
def ExitsEmpty (q : UpkList CtrlSigqueue) : SignalPoint → Prop
  | .switch signalNode => signalNode.signal = sigint ∨ signalNode.signal = sigterm → q.count = 0
  | _ => True

instance (q : UpkList CtrlSigqueue) : (point : SignalPoint) → Decidable (ExitsEmpty q point)
  | .switch _ => inferInstanceAs (Decidable (_ → _))
  | .outside | .test | .block | .take | .unblock _ | .exited => inferInstanceAs (Decidable True)

/-- A delivered signal finds `nextp` at `NULL` and room in the counter, and the controller does not exit with signals in
the queue. -/
def Tidy (s : SignalQueue) : Event → Prop
  | .arrive signal => s.Delivered signal → s.ctrlSignalQueue.nextp = none ∧ s.ctrlSignalQueue.count ≠ 0xffffffff
  | .continue => ExitsEmpty s.ctrlSignalQueue s.point

instance (s : SignalQueue) : (e : Event) → Decidable (s.Tidy e)
  | .arrive _ => inferInstanceAs (Decidable (_ → _))
  | .continue => inferInstanceAs (Decidable (ExitsEmpty _ _))

/-- The nodes `l` wait for their turn. -/
structure Waits (s : SignalQueue) (l : List Addr) : Prop where
  inv : s.ctrlSignalQueue.Inv l
  prevp : s.ctrlSignalQueue.prevp = none
  history : (s.handled ++ SignalPoint.inHand s.point).map some ++ l.map s.ctrlSignalQueue.val? = s.arrived.map some
  nonempty : s.point = .block ∨ s.point = .take → l ≠ []
  exited : s.point = .exited → l = []

variable {s : SignalQueue} {l : List Addr}

theorem map_some_inj {α : Type} {xs ys : List α} (h : xs.map some = ys.map some) : xs = ys :=
  List.map_injective_iff.mpr (Option.some_injective α) h

theorem init_waits : SignalQueue.init.Waits [] :=
  ⟨UpkList.init_inv, rfl, rfl, by simp [SignalQueue.init], fun _ => rfl⟩

theorem Waits.inOrder (h : s.Waits l) : s.InOrder := by
  have hprefix : (s.handled ++ SignalPoint.inHand s.point).map some <+: s.arrived.map some := ⟨_, h.history⟩
  refine ⟨?_, fun hcount hhand => ?_, fun hexit => ?_⟩
  · have hall : s.handled ++ SignalPoint.inHand s.point <+: s.arrived := by
      obtain ⟨t, ht⟩ := hprefix
      obtain ⟨xs, ys, hxs, hmap, -⟩ := List.map_eq_append_iff.mp ht.symm
      rw [hxs, ← map_some_inj hmap]
      exact List.prefix_append _ _
    exact (List.prefix_append _ _).trans hall
  · have hl : l = [] := h.inv.count_eq_zero.mp hcount
    have hhist := h.history
    rw [hl, hhand, List.map_nil, List.append_nil, List.append_nil] at hhist
    exact map_some_inj hhist
  · have hhist := h.history
    rw [h.exited hexit, hexit, List.map_nil, List.append_nil] at hhist
    exact (List.append_nil _).symm.trans (map_some_inj hhist)

/-- **A signal is appended.** -/
theorem Waits.arrive (h : s.Waits l) (signal : CtrlSigqueue) (hexit : s.point ≠ .exited)
    (hnext : s.ctrlSignalQueue.nextp = none) (hcount : s.ctrlSignalQueue.count ≠ 0xffffffff) :
    ∃ s', s.saSigactionFunc signal = some s' ∧ s'.Waits (l ++ [s.ctrlSignalQueue.fresh]) := by
  obtain ⟨q, hq, hinv⟩ := UpkList.append_inv h.inv hnext hcount
  obtain ⟨q₀, hq₀, hlink⟩ := UpkList.append_linked h.inv
  obtain rfl : q = q₀ := Option.some.inj (hq.symm.trans hq₀)
  have hmem : s.ctrlSignalQueue.fresh ∈ l ++ [s.ctrlSignalQueue.fresh] := List.mem_append_right _ (List.mem_singleton_self _)
  obtain ⟨q', hq', hinv', hmod⟩ := UpkList.modifyVal_inv hinv hmem fun _ => signal
  have hval : q'.val? = Function.update s.ctrlSignalQueue.val? s.ctrlSignalQueue.fresh (some signal) := by
    rw [UpkList.val_modifyVal hq', UpkList.val_append hq, Function.update_self, Function.update_idem]
    rfl
  refine ⟨{ s with ctrlSignalQueue := q', arrived := s.arrived ++ [signal] }, ?_, hinv', ?_, ?_, ?_, ?_⟩
  · unfold saSigactionFunc
    rw [hq, Option.bind_eq_bind, Option.bind_some, hlink.thisp, hq']
    rfl
  · refine hmod.prevp.trans (Option.eq_none_iff_forall_not_mem.mpr fun x hx => ?_)
    have hold := hlink.prevp x hx
    rw [h.prevp] at hold
    cases hold
  · have hkeep : l.map q'.val? = l.map s.ctrlSignalQueue.val? := by
      refine List.map_congr_left fun a ha => ?_
      rw [hval, Function.update_of_ne (ne_of_mem_of_not_mem ha h.inv.fresh_notMem)]
    have hnew : (l ++ [s.ctrlSignalQueue.fresh]).map q'.val? = l.map s.ctrlSignalQueue.val? ++ [some signal] := by
      rw [List.map_append, List.map_singleton, hkeep, hval, Function.update_self]
    dsimp only
    rw [hnew, ← List.append_assoc, h.history, List.map_append, List.map_singleton]
  · exact fun _ => by simp
  · exact fun hpoint => absurd hpoint hexit

/-- **The first node is taken.** -/
theorem takeSignal_eq {q : UpkList CtrlSigqueue} {a : Addr} (h : q.Inv (a :: l)) :
    ∃ q' signalNode, takeSignal q = some (q', signalNode) ∧ q.val? a = some signalNode ∧ q'.Inv l ∧ q'.prevp = none ∧
      ∀ x ∈ l, q'.val? x = q.val? x := by
  have hchain := h.chain
  rw [h.head] at hchain
  have hnext : q.nextOf q.head = some l.head? := by
    rw [h.head]
    obtain ⟨-, n, hn, hrest⟩ := hchain
    exact hn.trans (congrArg some hrest.start)
  let q₁ : UpkList CtrlSigqueue := { q with tempp := none, prevp := none, thisp := q.head, nextp := l.head? }
  have hhead : q.headThis = some q₁ := UpkList.foreachInit_eq hnext
  have hthis : q₁.thisp = some a := h.head
  have hinv₁ : q₁.Inv ([] ++ a :: l) := by
    refine h.setCursor (by simp) (fun x hx => ?_) fun x hx => List.mem_cons_of_mem _ (List.mem_of_mem_head? hx)
    rw [← Option.some.inj (h.head.symm.trans hx)]
    exact List.mem_cons_self
  obtain ⟨q', hq', hinv'⟩ := UpkList.unlink_inv hinv₁ hthis rfl rfl
  obtain ⟨c, hc⟩ := h.cell List.mem_cons_self
  have hval : q.val? a = some c.val := by rw [UpkList.val?, hc]; rfl
  obtain ⟨n, hn⟩ := (hinv₁.live a).mpr List.mem_cons_self
  obtain ⟨q'', hq'', hun, -⟩ := UpkList.unlink_start_eq hthis hn rfl
  obtain rfl : q' = q'' := Option.some.inj (hq'.symm.trans hq'')
  refine ⟨q', c.val, ?_, hval, hinv', hun.prevp, fun x hx => hun.val x ?_⟩
  · unfold takeSignal
    rw [hhead, Option.bind_eq_bind, Option.bind_some]
    have hread : q₁.thisp >>= q₁.val? = some c.val := by
      rw [hthis]
      exact hval
    rw [hread, Option.bind_eq_bind, Option.bind_some, hq']
    rfl
  · exact ne_of_mem_of_not_mem hx (List.nodup_cons.mp h.nodup).1

/-- **What one step does.** -/
theorem Waits.step (h : s.Waits l) (e : Event) (htidy : s.Tidy e) : ∃ s', s.step e = some s' ∧ ∃ l', s'.Waits l' := by
  cases e with
  | arrive signal =>
    unfold SignalQueue.step
    by_cases hdel : s.Delivered signal
    · obtain ⟨hnext, hcount⟩ := htidy hdel
      obtain ⟨s', hs', hwaits⟩ := h.arrive signal hdel.2 hnext hcount
      exact ⟨s', (if_pos hdel).trans hs', _, hwaits⟩
    · exact ⟨s, if_neg hdel, l, h⟩
  | «continue» =>
    have hhist := h.history
    unfold SignalQueue.step handleSignals
    dsimp only
    cases hpoint : s.point with
    | outside =>
      rw [hpoint] at hhist
      exact ⟨_, rfl, l, h.inv, h.prevp, hhist, by simp, by simp⟩
    | test =>
      rw [hpoint] at hhist
      by_cases hcount : 0 < s.ctrlSignalQueue.count
      · refine ⟨_, rfl, l, h.inv, h.prevp, ?_, fun _ hl => ?_, ?_⟩
        · rw [if_pos hcount]
          exact hhist
        · rw [h.inv.count_eq_zero.mpr hl] at hcount
          exact absurd hcount (by decide)
        · simp [hcount]
      · refine ⟨_, rfl, l, h.inv, h.prevp, ?_, ?_, ?_⟩
        · rw [if_neg hcount]
          exact hhist
        · simp [hcount]
        · simp [hcount]
    | block =>
      rw [hpoint] at hhist
      exact ⟨_, rfl, l, h.inv, h.prevp, hhist, fun _ => h.nonempty (Or.inl hpoint), by simp⟩
    | take =>
      rw [hpoint] at hhist
      obtain ⟨a, l', rfl⟩ := List.exists_cons_of_ne_nil (h.nonempty (Or.inr hpoint))
      obtain ⟨q', signalNode, htake, hval, hinv, hprev, hkeep⟩ := takeSignal_eq h.inv
      refine ⟨{ s with ctrlSignalQueue := q', point := .unblock signalNode }, ?_, l', hinv, hprev, ?_, by simp, by simp⟩
      · rw [htake]
        rfl
      · have hrest : l'.map q'.val? = l'.map s.ctrlSignalQueue.val? := List.map_congr_left hkeep
        dsimp only
        rw [hrest, ← hhist, List.map_cons, hval]
        simp [SignalPoint.inHand]
    | unblock signalNode =>
      rw [hpoint] at hhist
      exact ⟨_, rfl, l, h.inv, h.prevp, hhist, by simp, by simp⟩
    | switch signalNode =>
      rw [hpoint] at hhist
      have hdone : ((s.handled ++ [signalNode]) ++ []).map some ++ l.map s.ctrlSignalQueue.val? = s.arrived.map some := by
        rw [List.append_nil]
        exact hhist
      have hempty : ExitsEmpty s.ctrlSignalQueue (.switch signalNode) := hpoint ▸ htidy
      by_cases hexit : signalNode.signal = sigint ∨ signalNode.signal = sigterm
      · have hl : l = [] := h.inv.count_eq_zero.mp (hempty hexit)
        refine ⟨_, rfl, l, h.inv, h.prevp, ?_, ?_, fun _ => hl⟩
        · rw [if_pos hexit]
          exact hdone
        · simp [hexit]
      · refine ⟨_, rfl, l, h.inv, h.prevp, ?_, ?_, ?_⟩
        · rw [if_neg hexit]
          exact hdone
        · simp [hexit]
        · simp [hexit]
    | exited => exact ⟨s, rfl, l, h⟩

end SignalQueue

open SignalQueue

/-- **The queue of signals is a FIFO** in every run in which each delivered signal finds `nextp` at `NULL` and the
controller does not exit with signals in the queue: no step reads or writes a freed node, and the signals are handled
once, in the order of their arrival. -/
theorem handleSignals_inOrder (es : List Event) (htidy : Machine.Guarded SignalQueue.step Tidy SignalQueue.init es) :
    Machine.Safe SignalQueue.step InOrder SignalQueue.init es := by
  refine Machine.safe_of_guarded (J := fun s => ∃ l, s.Waits l) ?_ ?_ ⟨[], init_waits⟩ htidy
  · rintro s ⟨l, h⟩
    exact h.inOrder
  · rintro s e ⟨l, h⟩ he
    exact h.step e he

/-- The death of a buddy -/
def buddyDied (pid : Int) : CtrlSigqueue := ⟨⟨17, 1, pid, 0⟩, sigchld⟩

/-- The controller goes on for so many steps. -/
def steps (n : Nat) : List Event := List.replicate n .continue

/-- A buddy dies, and when its death has been taken from the queue another one does. -/
theorem handleSignals_inOrder_two :
    Machine.Safe SignalQueue.step InOrder SignalQueue.init
      ([.arrive (buddyDied 1)] ++ steps 5 ++ [.arrive (buddyDied 2)] ++ steps 6) :=
  handleSignals_inOrder _ (by decide +kernel)

/-- The first of two deaths is taken, then two more come, and the controller goes on for so many steps. -/
def fourDeaths (n : Nat) : List Event :=
  [.arrive (buddyDied 1), .arrive (buddyDied 2)] ++ steps 5 ++ [.arrive (buddyDied 3), .arrive (buddyDied 4)] ++ steps n

/-- The third death is overtaken by the fourth one and is lost, and then a freed node is read. -/
theorem not_inOrder_fourDeaths :
    ¬Machine.Safe SignalQueue.step InOrder SignalQueue.init (fourDeaths 11) ∧
      (Machine.run SignalQueue.step SignalQueue.init (fourDeaths 14)).isNone = true := by
  refine ⟨fun hsafe => ?_, by decide +kernel⟩
  obtain ⟨s, hrun, hin⟩ := hsafe.run
  have hend : (Machine.run SignalQueue.step SignalQueue.init (fourDeaths 11)).map (fun s => (s.handled, s.arrived)) =
      some ([buddyDied 1, buddyDied 2, buddyDied 4], [buddyDied 1, buddyDied 2, buddyDied 3, buddyDied 4]) := by
    decide +kernel
  rw [hrun, Option.map_some, Option.some.injEq, Prod.mk.injEq] at hend
  have horder := hin.order
  rw [hend.1, hend.2] at horder
  exact absurd horder (by decide)

end Upkeeper
