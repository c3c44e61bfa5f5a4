import Upkeeper.Buddy.Pause
import Mathlib.Algebra.Ring.Int.Defs
/-!
# Stopping (`buddy_stop_proc`)

`buddy_stop_proc` runs the stop script, naps, sends `SIGTERM`, naps, and sends `SIGKILL`. Here it is run by an observer who
counts the naps and knows, beside each signal, whether the child had exited by then (`stopProc`). The counter of both
loops is static and never reset, and `SIGCHLD` may be blocked: `escalates_iff` says when the stop escalates as the first
one does. How long a nap is comes after it (`Timespec`).
-/

namespace Upkeeper

open Hoare

/-! ### The observed stop -/

/-- The handler would be told that this child has exited. -/
def Arrival.announces (pid : Int) : Arrival → Bool
  | .chld _ zs => (zs.takeWhile fun z => 0 < z.pid).any fun z => z.pid == pid
  | .shutdown _ => false

/-- The exit of this child is announced at a point. -/
def Answer.announces (pid : Int) (a : Answer) : Bool := a.arrivals.any (Arrival.announces pid)

/-- A signal that was sent, and whether the child had exited by then -/
structure Sent where
  signal : Nat
  exited : Bool
  deriving DecidableEq, Repr

/-- What is seen of a stop: the naps of each loop, whether the child had exited by its end, and the signals in order -/
structure StopReport where
  firstNaps : Nat
  exitedFirst : Bool
  secondNaps : Nat
  exitedSecond : Bool
  signals : List Sent
  deriving DecidableEq, Repr

namespace Prog

/-- `interrupt`, and whether it announces the exit of this child -/
def watch (pid : Int) : Prog Bool := do
  let a ← answer
  deliverAll a.arrivals
  return a.announces pid

/-- `buddy_exec_action` for the stop script: its only interruption is where it restores the mask. -/
def stopScript (pid : Int) : Prog Bool := fun s =>
  (decide (Runnable s) && (s.2.answers 2).announces pid, (buddyExecAction .stop s).2)

/-- `waitProc`, with the naps and the exit -/
def napProc (pid : Int) : Nat → Bool → Prog (Nat × Bool)
  | 0, exited => do
    let b ← buddy
    if b.procPid ≠ 0 then
      set fun b => { b with stopCount := b.stopCount + 1 }
      return (0, exited)
    else return (0, exited)
  | below + 1, exited => do
    let b ← buddy
    if b.procPid ≠ 0 then
      set fun b => { b with stopCount := b.stopCount + 1 }
      let gone ← watch pid
      let r ← napProc pid below (exited || gone)
      return (r.1 + 1, r.2)
    else return (0, exited)

/-- `waitUntil`, with the naps and the exit -/
def napUntil (pid : Int) (limit : UInt8) (exited : Bool) : Prog (Nat × Bool) := do
  let b ← buddy
  napProc pid (limit.toNat - b.stopCount.toNat) exited

/-- `killIfProc`, with what is sent and the exit -/
def signalProc (pid : Int) (signal : Signo) (exited : Bool) : Prog (List Sent × Bool) := do
  let b ← buddy
  if b.procPid ≠ 0 then
    note (.tested b.procPid)
    let gone ← watch pid
    killProc signal.val
    return ([⟨signal.val, exited || gone⟩], exited || gone)
  else return ([], exited)

/-- What comes after `SIGTERM` -/
def insist (pid : Int) (first : Nat × Bool) (term : List Sent × Bool) : Prog StopReport := do
  let second ← napUntil pid 20 term.2
  let kill ← signalProc pid sigkill second.2
  return ⟨first.1, first.2, second.1, second.2, term.1 ++ kill.1⟩

/-- What comes after the first loop -/
def escalate (cfg : BuddyConfig) (pid : Int) (first : Nat × Bool) : Prog StopReport :=
  if cfg.killTimeout ≠ 0 then do
    let term ← signalProc pid sigterm first.2
    insist pid first term
  else return ⟨first.1, first.2, 0, first.2, []⟩

/-- `buddyStopProc`, with what is seen of the stop -/
def stopProc (cfg : BuddyConfig) (pid : Int) : Prog StopReport := do
  let b ← buddy
  if b.procPid ≠ 0 then
    let exited ← stopScript pid
    let first ← napUntil pid 10 exited
    escalate cfg pid first
  else return ⟨0, false, 0, false, []⟩

variable {α β γ δ : Type} {cfg : BuddyConfig} {pid : Int}

/-- Two programs that do the same and return something else -/
def SameRun (m : Prog α) (m' : Prog β) : Prop := ∀ s, (m s).2 = (m' s).2

theorem SameRun.pure (a : α) (b : β) : SameRun (pure a : Prog α) (pure b : Prog β) := fun _ => rfl

theorem SameRun.after (m : Prog α) {f : α → Prog β} {g : α → Prog γ} (h : ∀ a, SameRun (f a) (g a)) :
    SameRun (m >>= f) (m >>= g) := fun s => h (m s).1 (m s).2

theorem SameRun.bind {m : Prog α} {m' : Prog β} {f : α → Prog γ} {g : β → Prog δ} (hm : SameRun m m')
    (h : ∀ a b, SameRun (f a) (g b)) : SameRun (m >>= f) (m' >>= g) := by
  intro s
  have hrest := h (m s).1 (m' s).1 (m s).2
  rw [hm s] at hrest
  exact (congrArg (fun s => (f (m _).1 s).2) (hm s)).trans hrest

theorem SameRun.ite {c : Prop} [Decidable c] {m n : Prog α} {m' n' : Prog β} (ht : SameRun m m') (he : SameRun n n') :
    SameRun (if c then m else n) (if c then m' else n') := by
  split
  · exact ht
  · exact he

theorem watch_sameRun : SameRun (watch pid) interrupt := fun _ => rfl

theorem napProc_sameRun (below : Nat) (exited : Bool) : SameRun (napProc pid below exited) (waitProc below) := by
  induction below generalizing exited with
  | zero => exact .after buddy fun b => .ite (fun _ => rfl) (.pure _ _)
  | succ below ih =>
    refine .after buddy fun b => .ite ?_ (.pure _ _)
    refine .after _ fun _ => watch_sameRun.bind fun gone _ => ?_
    exact fun s => ih (exited || gone) s

theorem napUntil_sameRun (limit : UInt8) (exited : Bool) : SameRun (napUntil pid limit exited) (waitUntil limit) :=
  .after buddy fun _ => napProc_sameRun _ exited

theorem signalProc_sameRun (signal : Signo) (exited : Bool) :
    SameRun (signalProc pid signal exited) (killIfProc signal) := by
  refine .after buddy fun b => .ite (.after _ fun _ => ?_) (.pure _ _)
  exact watch_sameRun.bind fun gone _ => fun _ => rfl

theorem stopProc_sameRun : SameRun (stopProc cfg pid) (buddyStopProc cfg) := by
  refine .after buddy fun b => .ite ?_ (.pure _ _)
  have hscript : SameRun (stopScript pid) (buddyExecAction .stop) := fun _ => rfl
  refine hscript.bind fun exited _ => (napUntil_sameRun 10 exited).bind fun first _ => .ite ?_ (.pure _ _)
  refine (signalProc_sameRun sigterm first.2).bind fun term _ => (napUntil_sameRun 20 term.2).bind fun second _ => ?_
  exact fun s => signalProc_sameRun sigkill second.2 s

/-! ### One interruption -/

theorem reapChild_procPid (si : Siginfo) (z : Reaped) (s : System) :
    (reapChild si z s).2.1.procPid = if z.pid = s.1.procPid then 0 else s.1.procPid := by
  obtain ⟨ring, pending, hreap⟩ := reapChild_fst si z s
  rw [hreap]
  unfold Buddy.noteTerminated
  split <;> rfl

theorem reapChildren_procPid (si : Siginfo) (zs : List Reaped) (s : System) :
    (reapChildren si zs s).2.1.procPid =
      if (Arrival.chld si zs).announces s.1.procPid then 0 else s.1.procPid := by
  induction zs generalizing s with
  | nil => rfl
  | cons z zs ih =>
    by_cases hpos : 0 < z.pid
    · have hrun : (reapChildren si (z :: zs) s).2 = (reapChildren si zs (reapChild si z s).2).2 :=
        congrArg Prod.snd (congrFun (if_pos hpos) s)
      rw [hrun, ih, reapChild_procPid]
      by_cases hown : z.pid = s.1.procPid
      · simp [Arrival.announces, hpos, ← hown]
      · simp [Arrival.announces, hpos, hown]
    · have hrun : (reapChildren si (z :: zs) s).2 = s := by
        unfold reapChildren
        rw [if_neg hpos]
        rfl
      rw [hrun]
      simp [Arrival.announces, hpos]

theorem deliverAll_kept (arrivals : List Arrival) (s : System) :
    (deliverAll arrivals s).2.1.mask = s.1.mask ∧ (deliverAll arrivals s).2.1.stopCount = s.1.stopCount ∧
      (deliverAll arrivals s).2.2.answers = s.2.answers := by
  have hkeeps : Keeps (fun s' : System =>
      s'.1.mask = s.1.mask ∧ s'.1.stopCount = s.1.stopCount ∧ s'.2.answers = s.2.answers) (deliverAll arrivals) := by
    refine deliverAll_keeps (fun si z s' _ _ h => ?_) (fun _ _ _ h => h) arrivals
    obtain ⟨ring, pending, hreap⟩ := reapChild_fst si z s'
    refine ⟨(reapChild_mask si z s').trans h.1, Eq.trans ?_ h.2.1, h.2.2⟩
    rw [hreap]
    unfold Buddy.noteTerminated
    split <;> rfl
  exact hkeeps s _ _ ⟨rfl, rfl, rfl⟩ rfl

theorem deliverAll_procPid (arrivals : List Arrival) (s : System) :
    (deliverAll arrivals s).2.1.procPid =
      if arrivals.any (Arrival.announces s.1.procPid) ∧ sigchld ∉ s.1.mask then 0 else s.1.procPid := by
  induction arrivals generalizing s with
  | nil => rfl
  | cons arrival arrivals ih =>
    have hrun : (deliverAll (arrival :: arrivals) s).2 = (deliverAll arrivals (deliver arrival s).2).2 := rfl
    have hmask := (deliverAll_kept [arrival] s).1
    have hone : (deliver arrival s).2.1.procPid =
        if arrival.announces s.1.procPid ∧ sigchld ∉ s.1.mask then 0 else s.1.procPid := by
      cases arrival with
      | chld si zs =>
        by_cases hblocked : sigchld ∈ s.1.mask
        · have hdeliver : (deliver (.chld si zs) s).2 = s := by
            unfold deliver
            dsimp only
            rw [buddy_bind, if_neg (not_not.mpr hblocked)]
            rfl
          rw [hdeliver, if_neg fun h => h.2 hblocked]
        · have hdeliver : (deliver (.chld si zs) s).2 = (reapChildren si zs s).2 := by
            unfold deliver
            dsimp only
            rw [buddy_bind, if_pos hblocked]
          rw [hdeliver, reapChildren_procPid]
          simp only [hblocked, not_false_eq_true, and_true]
      | shutdown signal =>
        have hdeliver : (deliver (.shutdown signal) s).2.1.procPid = s.1.procPid := by
          show ((if signal ∉ s.1.mask then _ else pure () : Prog Unit) s).2.1.procPid = _
          split <;> rfl
        rw [hdeliver, if_neg fun h => absurd h.1 (by simp [Arrival.announces])]
    have hmask' : (deliver arrival s).2.1.mask = s.1.mask := hmask
    rw [hrun, ih, hone, hmask']
    by_cases hgone : arrival.announces s.1.procPid ∧ sigchld ∉ s.1.mask
    · simp [hgone.1, hgone.2]
    · rw [if_neg hgone]
      by_cases hannounces : arrival.announces s.1.procPid
      · have hblocked : sigchld ∈ s.1.mask := by
          by_contra h
          exact hgone ⟨hannounces, h⟩
        simp [hblocked]
      · simp [hannounces]

/-! ### Naps and signals -/

/-- Buddy waits for a child: whether it notices the exit, its counter, and at which of the points to come the exit is
announced -/
structure Waiting (pid : Int) (notices : Prop) (n : UInt8) (gone : Nat → Bool) (s : System) : Prop where
  procPid : s.1.procPid = pid
  notices : sigchld ∉ s.1.mask ↔ notices
  stopCount : s.1.stopCount = n
  gone : ∀ k, (s.2.answers k).announces pid = gone k

/-- The exit is announced at one of so many points. -/
def goneBy (gone : Nat → Bool) (k : Nat) : Bool := (List.range k).any gone

theorem goneBy_iff {gone : Nat → Bool} {k : Nat} : goneBy gone k = true ↔ ∃ i < k, gone i = true := by
  simp [goneBy]

theorem goneBy_add (gone : Nat → Bool) (j k : Nat) :
    goneBy gone (j + k) = (goneBy gone j || goneBy (fun i => gone (j + i)) k) := by
  simp [goneBy, List.range_add, Function.comp_def]

theorem goneBy_succ (gone : Nat → Bool) (k : Nat) : goneBy gone (k + 1) = (goneBy gone k || gone k) := by
  simp [goneBy, List.range_succ]

variable {notices : Prop} {n : UInt8} {gone : Nat → Bool} {s : System}

theorem watch_fst (h : Waiting pid notices n gone s) : (watch pid s).1 = gone 0 := h.gone 0

theorem watch_kept (h : Waiting pid notices n gone s) (hkeep : notices → gone 0 = false) :
    Waiting pid notices n (fun k => gone (k + 1)) (watch pid s).2 := by
  have hdeliver : (watch pid s).2 = (deliverAll (s.2.answers 0).arrivals (answer s).2).2 := rfl
  obtain ⟨hmask, hcount, hanswers⟩ := deliverAll_kept (s.2.answers 0).arrivals (answer s).2
  rw [hdeliver]
  refine ⟨?_, by rw [hmask]; exact h.notices, hcount.trans h.stopCount, fun k => ?_⟩
  · rw [deliverAll_procPid, if_neg]
    · exact h.procPid
    · rintro ⟨hannounces, hmask⟩
      have hgone : gone 0 = true := by
        rw [← h.gone 0, ← h.procPid]
        exact hannounces
      exact Bool.false_ne_true ((hkeep (h.notices.mp hmask)).symm.trans hgone)
  · rw [hanswers]
    exact h.gone (k + 1)

theorem watch_noticed (h : Waiting pid notices n gone s) (hnotices : notices) (hgone : gone 0 = true) :
    (watch pid s).2.1.procPid = 0 := by
  have hdeliver : (watch pid s).2 = (deliverAll (s.2.answers 0).arrivals (answer s).2).2 := rfl
  have hannounces : (s.2.answers 0).announces s.1.procPid = true := by
    rw [h.procPid, h.gone 0]
    exact hgone
  rw [hdeliver, deliverAll_procPid]
  exact if_pos ⟨hannounces, h.notices.mpr hnotices⟩

theorem napProc_idle (h : s.1.procPid = 0) (below : Nat) (exited : Bool) :
    napProc pid below exited s = ((0, exited), s) := by
  cases below with
  | zero => exact congrFun (if_neg (not_not.mpr h)) s
  | succ below => exact congrFun (if_neg (not_not.mpr h)) s

theorem signalProc_idle (h : s.1.procPid = 0) (signal : Signo) (exited : Bool) :
    signalProc pid signal exited s = (([], exited), s) := congrFun (if_neg (not_not.mpr h)) s

theorem napProc_succ (h : s.1.procPid ≠ 0) (below : Nat) (exited : Bool) :
    napProc pid (below + 1) exited s =
      (let waiting : System := ({ s.1 with stopCount := s.1.stopCount + 1 }, s.2)
       let r := napProc pid below (exited || (watch pid waiting).1) (watch pid waiting).2
       ((r.1.1 + 1, r.1.2), r.2)) := congrFun (if_pos h) s

/-- **A loop to its end:** the exit is not noticed. -/
theorem napProc_kept (below : Nat) (exited : Bool) (hpid : pid ≠ 0) (h : Waiting pid notices n gone s)
    (hkeep : notices → goneBy gone below = false) :
    (napProc pid below exited s).1 = (below, exited || goneBy gone below) ∧
      Waiting pid notices (n + UInt8.ofNat below + 1) (fun k => gone (below + k)) (napProc pid below exited s).2 := by
  have hmonitored : s.1.procPid ≠ 0 := fun hidle => hpid (h.procPid.symm.trans hidle)
  induction below generalizing exited n gone s with
  | zero =>
    have hrun : napProc pid 0 exited s = ((0, exited), ({ s.1 with stopCount := s.1.stopCount + 1 }, s.2)) :=
      congrFun (if_pos hmonitored) s
    rw [hrun]
    refine ⟨by simp [goneBy], h.procPid, h.notices, ?_, by simpa using h.gone⟩
    show s.1.stopCount + 1 = _
    rw [h.stopCount]
    simp
  | succ below ih =>
    have hcounted : Waiting pid notices (n + 1) gone ({ s.1 with stopCount := s.1.stopCount + 1 }, s.2) :=
      ⟨h.procPid, h.notices, congrArg (· + 1) h.stopCount, h.gone⟩
    have hsplit : goneBy gone (below + 1) = (gone 0 || goneBy (fun k => gone (k + 1)) below) := by
      rw [Nat.add_comm, goneBy_add]
      simp [goneBy, Nat.add_comm]
    have hwatch := watch_kept hcounted fun hnotices => by
      have hnone := hkeep hnotices
      rw [hsplit, Bool.or_eq_false_iff] at hnone
      exact hnone.1
    obtain ⟨hvalue, hwaiting⟩ := ih (exited || gone 0) hwatch (fun hnotices => by
      have hnone := hkeep hnotices
      rw [hsplit, Bool.or_eq_false_iff] at hnone
      exact hnone.2) fun hidle => hpid (hwatch.procPid.symm.trans hidle)
    rw [napProc_succ hmonitored]
    dsimp only
    rw [watch_fst hcounted, hvalue]
    refine ⟨by rw [hsplit, Bool.or_assoc], ?_⟩
    have hcount : n + 1 + UInt8.ofNat below + 1 = n + UInt8.ofNat (below + 1) + 1 := by
      rw [UInt8.ofNat_add]
      ac_rfl
    rw [← hcount]
    simpa only [Nat.add_right_comm] using hwaiting

/-- **A loop that ends early:** the exit is noticed. -/
theorem napProc_noticed (below : Nat) (exited : Bool) (hpid : pid ≠ 0) (h : Waiting pid notices n gone s)
    (hnotices : notices) (hgone : goneBy gone below = true) :
    (napProc pid below exited s).1.2 = true ∧ (napProc pid below exited s).2.1.procPid = 0 := by
  have hmonitored : s.1.procPid ≠ 0 := fun hidle => hpid (h.procPid.symm.trans hidle)
  induction below generalizing exited n gone s with
  | zero => cases hgone
  | succ below ih =>
    have hcounted : Waiting pid notices (n + 1) gone ({ s.1 with stopCount := s.1.stopCount + 1 }, s.2) :=
      ⟨h.procPid, h.notices, congrArg (· + 1) h.stopCount, h.gone⟩
    rw [napProc_succ hmonitored]
    dsimp only
    rw [watch_fst hcounted]
    cases hnow : gone 0 with
    | true =>
      rw [napProc_idle (watch_noticed hcounted hnotices hnow)]
      exact ⟨Bool.or_true exited, watch_noticed hcounted hnotices hnow⟩
    | false =>
      have hwatch := watch_kept hcounted fun _ => hnow
      have hlater : goneBy (fun k => gone (k + 1)) below = true := by
        obtain ⟨i, hi, hgi⟩ := goneBy_iff.mp hgone
        cases i with
        | zero => exact absurd (hnow.symm.trans hgi) Bool.false_ne_true
        | succ i => exact goneBy_iff.mpr ⟨i, Nat.lt_of_succ_lt_succ hi, hgi⟩
      exact ih (exited || false) hwatch hlater fun hidle => hpid (hwatch.procPid.symm.trans hidle)

theorem napUntil_eq (h : Waiting pid notices n gone s) (limit : UInt8) (exited : Bool) :
    napUntil pid limit exited s = napProc pid (limit.toNat - n.toNat) exited s := by
  rw [← h.stopCount]
  rfl

/-- Where a test has found a process -/
def tested (s : System) : System := (note (.tested s.1.procPid) s).2

theorem tested_waiting (h : Waiting pid notices n gone s) : Waiting pid notices n gone (tested s) :=
  ⟨h.procPid, h.notices, h.stopCount, h.gone⟩

theorem signalProc_waiting (hpid : pid ≠ 0) (h : Waiting pid notices n gone s) (signal : Signo) (exited : Bool) :
    signalProc pid signal exited s =
      (([⟨signal.val, exited || gone 0⟩], exited || gone 0), (killProc signal.val (watch pid (tested s)).2).2) := by
  have hmonitored : s.1.procPid ≠ 0 := fun hidle => hpid (h.procPid.symm.trans hidle)
  have hrun : signalProc pid signal exited s =
      (([⟨signal.val, exited || (watch pid (tested s)).1⟩], exited || (watch pid (tested s)).1),
        (killProc signal.val (watch pid (tested s)).2).2) := congrFun (if_pos hmonitored) s
  rw [hrun, watch_fst (tested_waiting h)]

theorem signalProc_kept (hpid : pid ≠ 0) (h : Waiting pid notices n gone s) (signal : Signo) (exited : Bool)
    (hkeep : notices → gone 0 = false) :
    Waiting pid notices n (fun k => gone (k + 1)) (signalProc pid signal exited s).2 := by
  obtain ⟨hproc, hmask, hcount, hgone⟩ := watch_kept (tested_waiting h) hkeep
  rw [signalProc_waiting hpid h]
  exact ⟨hproc, hmask, hcount, hgone⟩

/-! ### After `SIGTERM` -/

variable {first : Nat × Bool} {term : List Sent × Bool}

theorem insist_eq (pid : Int) (first : Nat × Bool) (term : List Sent × Bool) (s : System) :
    (insist pid first term s).1 =
      (let second := napUntil pid 20 term.2 s
       let kill := (signalProc pid sigkill second.1.2 second.2).1
       ⟨first.1, first.2, second.1.1, second.1.2, term.1 ++ kill.1⟩) := rfl

theorem insist_noticed (hpid : pid ≠ 0) (h : Waiting pid notices 11 gone s) (hnotices : notices)
    (hgone : goneBy gone 9 = true) :
    ∃ naps, (insist pid first term s).1 = ⟨first.1, first.2, naps, true, term.1⟩ := by
  obtain ⟨hexited, hidle⟩ := napProc_noticed 9 term.2 hpid h hnotices hgone
  have hnaps : napUntil pid 20 term.2 s = napProc pid 9 term.2 s := napUntil_eq h 20 term.2
  refine ⟨(napProc pid 9 term.2 s).1.1, ?_⟩
  rw [insist_eq, hnaps]
  dsimp only
  rw [signalProc_idle hidle, hexited, List.append_nil]

theorem insist_kept (hpid : pid ≠ 0) (h : Waiting pid notices 11 gone s) (hkeep : notices → goneBy gone 9 = false) :
    (insist pid first term s).1 =
      ⟨first.1, first.2, 9, term.2 || goneBy gone 9, term.1 ++ [⟨9, term.2 || goneBy gone 10⟩]⟩ := by
  obtain ⟨hvalue, hwaiting⟩ := napProc_kept 9 term.2 hpid h hkeep
  have hnaps : napUntil pid 20 term.2 s = napProc pid 9 term.2 s := napUntil_eq h 20 term.2
  rw [insist_eq, hnaps]
  dsimp only
  rw [signalProc_waiting hpid hwaiting, hvalue, goneBy_succ gone 9, Bool.or_assoc]
  rfl

/-! ### The stop script -/

/-- Whether buddy would notice the exit while it stops the child -/
def Notices (s : System) : Prop := Runnable s ∧ sigchld ∉ s.1.mask

instance (s : System) : Decidable (Notices s) := inferInstanceAs (Decidable (_ ∧ _))

/-- Whether the exit is announced at this point of the stop: the first one is where the stop script has been forked, the
others are those of the naps and of the signals. -/
def exitsAt (s : System) : Nat → Bool
  | 0 => decide (Runnable s) && (s.2.answers 2).announces s.1.procPid
  | k + 1 => (s.2.answers ((if Runnable s then 3 else 1) + k)).announces s.1.procPid

/-- Where the stop script has been forked -/
def forkedStop (s : System) : System :=
  let forked := (fork .stop (examined s)).2
  ({ forked.1 with mask := s.1.mask }, forked.2)

theorem forkedStop_waiting (s : System) :
    Waiting s.1.procPid (sigchld ∉ s.1.mask) s.1.stopCount (fun k => (s.2.answers (2 + k)).announces s.1.procPid)
      (forkedStop s) := by
  have hfork : (fork .stop (examined s)).2.1 = (examined s).1 ∧
      (fork .stop (examined s)).2.2.answers = fun k => (examined s).2.answers (k + 1) := by
    by_cases hforked : 0 < ((examined s).2.answers 0).fork
    · have hrun : fork .stop (examined s) = (do
          note (.forked .stop ((examined s).2.answers 0).fork)
          return ((examined s).2.answers 0).fork : Prog Int) (answer (examined s)).2 := congrFun (if_pos hforked) _
      rw [hrun]
      exact ⟨rfl, rfl⟩
    · have hrun : fork .stop (examined s) = (return -1 : Prog Int) (answer (examined s)).2 :=
        congrFun (if_neg hforked) _
      rw [hrun]
      exact ⟨rfl, rfl⟩
  refine ⟨?_, Iff.rfl, ?_, fun k => ?_⟩
  · show (fork .stop (examined s)).2.1.procPid = _
    rw [hfork.1]
    rfl
  · show (fork .stop (examined s)).2.1.stopCount = _
    rw [hfork.1]
    rfl
  · show ((fork .stop (examined s)).2.2.answers k).announces _ = _
    rw [hfork.2, Nat.add_comm 2 k]
    rfl

theorem stopScript_runnable (h : Runnable s) : (stopScript pid s).2 = (watch pid (forkedStop s)).2 := by
  have hexec : buddyExecAction .stop s = (do let pid ← fork .stop; setmask s.1.mask; return pid) (examined s) :=
    congrFun (if_pos h) (examined s)
  show (buddyExecAction .stop s).2 = _
  rw [hexec]
  rfl

theorem stopScript_unrunnable (h : ¬ Runnable s) :
    (stopScript pid s).2 = ((examined s).1, { (examined s).2 with log := .unrunnable .stop :: (examined s).2.log }) := by
  have hexec : buddyExecAction .stop s = (do note (.unrunnable .stop); return 0) (examined s) :=
    congrFun (if_neg h) (examined s)
  show (buddyExecAction .stop s).2 = _
  rw [hexec]
  rfl

theorem stopScript_kept (s : System) (hkeep : Notices s → exitsAt s 0 = false) :
    Waiting s.1.procPid (Notices s) s.1.stopCount (fun k => exitsAt s (1 + k)) (stopScript s.1.procPid s).2 := by
  by_cases hrun : Runnable s
  · obtain ⟨hproc, hmask, hcount, hgone⟩ := watch_kept (forkedStop_waiting s) fun hmask => by
      have hnone := hkeep ⟨hrun, hmask⟩
      rwa [exitsAt, decide_eq_true hrun, Bool.true_and] at hnone
    rw [stopScript_runnable hrun]
    refine ⟨hproc, hmask.trans (and_iff_right hrun).symm, hcount, fun k => ?_⟩
    rw [hgone k, Nat.add_comm 1 k, exitsAt, if_pos hrun]
    congr 2
    omega
  · rw [stopScript_unrunnable hrun]
    refine ⟨rfl, iff_of_false (fun h => h (Finset.mem_union_right _ (Finset.mem_univ _))) fun h => hrun h.1, rfl,
      fun k => ?_⟩
    rw [Nat.add_comm 1 k, exitsAt, if_neg hrun, Nat.add_comm 1 k]
    rfl

theorem stopScript_noticed (hnotices : Notices s) (hgone : exitsAt s 0 = true) :
    (stopScript s.1.procPid s).2.1.procPid = 0 := by
  rw [stopScript_runnable hnotices.1]
  exact watch_noticed (forkedStop_waiting s) hnotices.2 (Bool.and_eq_true_iff.mp hgone).2

/-! ### The report -/

/-- Where the first loop begins -/
def scripted (s : System) : System := (stopScript s.1.procPid s).2

theorem stopProc_eq (hmonitored : s.1.procPid ≠ 0) :
    (stopProc cfg s.1.procPid s).1 =
      (escalate cfg s.1.procPid (napUntil s.1.procPid 10 (exitsAt s 0) (scripted s)).1
        (napUntil s.1.procPid 10 (exitsAt s 0) (scripted s)).2).1 := congrArg Prod.fst (congrFun (if_pos hmonitored) s)

theorem escalate_term (hterm : cfg.killTimeout ≠ 0) (first : Nat × Bool) (s : System) :
    (escalate cfg pid first s).1 =
      (insist pid first (signalProc pid sigterm first.2 s).1 (signalProc pid sigterm first.2 s).2).1 :=
  congrArg Prod.fst (congrFun (if_pos hterm) s)

theorem escalate_zero (hterm : cfg.killTimeout = 0) (first : Nat × Bool) (s : System) :
    (escalate cfg pid first s).1 = ⟨first.1, first.2, 0, first.2, []⟩ := by
  unfold escalate
  rw [if_neg (not_not.mpr hterm)]
  rfl

theorem escalate_idle (h : s.1.procPid = 0) (first : Nat × Bool) :
    (escalate cfg pid first s).1 = ⟨first.1, first.2, 0, first.2, []⟩ := by
  by_cases hterm : cfg.killTimeout = 0
  · exact escalate_zero hterm first s
  · have hnaps : napUntil pid 20 first.2 s = ((0, first.2), s) := napProc_idle h _ first.2
    rw [escalate_term hterm, signalProc_idle h, insist_eq]
    dsimp only
    rw [hnaps, signalProc_idle h]
    rfl

theorem stopProc_noticed (hmonitored : s.1.procPid ≠ 0) (hnotices : Notices s)
    (hgone : goneBy (exitsAt s) (10 - s.1.stopCount.toNat + 1) = true) :
    ∃ naps, (stopProc cfg s.1.procPid s).1 = ⟨naps, true, 0, true, []⟩ := by
  have hfirst : ((napUntil s.1.procPid 10 (exitsAt s 0) (scripted s)).1.2 = true) ∧
      (napUntil s.1.procPid 10 (exitsAt s 0) (scripted s)).2.1.procPid = 0 := by
    cases hnow : exitsAt s 0 with
    | true =>
      have hidle := stopScript_noticed hnotices hnow
      have hnaps : napUntil s.1.procPid 10 true (scripted s) = ((0, true), scripted s) := napProc_idle hidle _ true
      rw [hnaps]
      exact ⟨rfl, hidle⟩
    | false =>
      have hwaiting := stopScript_kept s fun _ => hnow
      rw [Nat.add_comm, goneBy_add] at hgone
      have hlater : goneBy (fun k => exitsAt s (1 + k)) (10 - s.1.stopCount.toNat) = true := by
        simpa [goneBy, hnow] using hgone
      rw [scripted, napUntil_eq hwaiting]
      exact napProc_noticed _ false hmonitored hwaiting hnotices hlater
  obtain ⟨hexited, hidle⟩ := hfirst
  refine ⟨(napUntil s.1.procPid 10 (exitsAt s 0) (scripted s)).1.1, ?_⟩
  rw [stopProc_eq hmonitored, escalate_idle hidle, hexited]

theorem stopProc_kept (hmonitored : s.1.procPid ≠ 0)
    (hkeep : Notices s → goneBy (exitsAt s) (10 - s.1.stopCount.toNat + 1) = false) :
    (napUntil s.1.procPid 10 (exitsAt s 0) (scripted s)).1 =
        (10 - s.1.stopCount.toNat, goneBy (exitsAt s) (10 - s.1.stopCount.toNat + 1)) ∧
      Waiting s.1.procPid (Notices s) (s.1.stopCount + UInt8.ofNat (10 - s.1.stopCount.toNat) + 1)
        (fun k => exitsAt s (10 - s.1.stopCount.toNat + 1 + k))
        (napUntil s.1.procPid 10 (exitsAt s 0) (scripted s)).2 := by
  have hsplit : goneBy (exitsAt s) (10 - s.1.stopCount.toNat + 1) =
      (exitsAt s 0 || goneBy (fun k => exitsAt s (1 + k)) (10 - s.1.stopCount.toNat)) := by
    rw [Nat.add_comm, goneBy_add]
    simp [goneBy]
  have hkept := fun hnotices => Bool.or_eq_false_iff.mp (hsplit.symm.trans (hkeep hnotices))
  have hwaiting := stopScript_kept s fun hnotices => (hkept hnotices).1
  obtain ⟨hvalue, hlater⟩ := napProc_kept (10 - s.1.stopCount.toNat) (exitsAt s 0) hmonitored hwaiting
    fun hnotices => (hkept hnotices).2
  have hpoints : (fun k => exitsAt s (10 - s.1.stopCount.toNat + 1 + k)) =
      fun k => exitsAt s (1 + (10 - s.1.stopCount.toNat + k)) := by
    funext k
    rw [← Nat.add_assoc, Nat.add_comm 1]
  rw [scripted, napUntil_eq hwaiting, hsplit, hpoints]
  exact ⟨hvalue, hlater⟩

end Prog

/-! ### Escalation -/

open Prog

variable {cfg : BuddyConfig} {s : System}

/-- A stop escalates as it should: the naps of the first stop while the child is running, no signal after the exit, and no
signal at all when `kill_timeout` says never. -/
structure StopReport.Escalates (killTimeout : Int) (r : StopReport) : Prop where
  first : r.exitedFirst = false → r.firstNaps = 10
  second : killTimeout ≠ 0 → r.exitedSecond = false → r.secondNaps = 9
  running : ∀ sent ∈ r.signals, sent.exited = false
  never : killTimeout < 0 → r.signals = []

/-- The first point at which the exit is announced -/
def FirstExit (s : System) (e : Nat) : Prop := exitsAt s e = true ∧ ∀ k < e, exitsAt s k = false

/-- When a stop escalates: the exit comes before `SIGTERM` and is noticed (or does not matter), or the counter is zero,
`kill_timeout` is not negative, and the exit does not slip in between the test of `proc_pid` and a `kill`. -/
def EscalatesWhen (cfg : BuddyConfig) (s : System) : Prop :=
  (∃ e ≤ 10 - s.1.stopCount.toNat, exitsAt s e = true ∧ (Notices s ∨ cfg.killTimeout = 0)) ∨
    s.1.stopCount = 0 ∧ 0 ≤ cfg.killTimeout ∧
      (0 < cfg.killTimeout → ∀ e, FirstExit s e → 21 < e ∨ Notices s ∧ e ≠ 11 ∧ e ≠ 21)

theorem exists_firstExit {k : Nat} (h : goneBy (exitsAt s) k = true) : ∃ e < k, FirstExit s e := by
  have hexists : ∃ e, exitsAt s e = true := by
    obtain ⟨i, -, hi⟩ := goneBy_iff.mp h
    exact ⟨i, hi⟩
  obtain ⟨i, hi, hgi⟩ := goneBy_iff.mp h
  refine ⟨Nat.find hexists, (Nat.find_min' hexists hgi).trans_lt hi, Nat.find_spec hexists, fun k hk => ?_⟩
  exact Bool.eq_false_of_not_eq_true (Nat.find_min hexists hk)

theorem FirstExit.goneBy_iff {e : Nat} (h : FirstExit s e) (k : Nat) : goneBy (exitsAt s) k = true ↔ e < k := by
  refine ⟨fun hgone => ?_, fun hk => Prog.goneBy_iff.mpr ⟨e, hk, h.1⟩⟩
  obtain ⟨i, hi, hgi⟩ := Prog.goneBy_iff.mp hgone
  by_contra hle
  exact Bool.false_ne_true ((h.2 i (by omega)).symm.trans hgi)

theorem stopProc_of_kept (hmonitored : s.1.procPid ≠ 0)
    (hkeep : Notices s → goneBy (exitsAt s) (10 - s.1.stopCount.toNat + 1) = false) :
    (cfg.killTimeout = 0 → (stopProc cfg s.1.procPid s).1 =
        ⟨10 - s.1.stopCount.toNat, goneBy (exitsAt s) (10 - s.1.stopCount.toNat + 1), 0,
          goneBy (exitsAt s) (10 - s.1.stopCount.toNat + 1), []⟩) ∧
      (cfg.killTimeout ≠ 0 → ∃ second exited later, (stopProc cfg s.1.procPid s).1 =
        ⟨10 - s.1.stopCount.toNat, goneBy (exitsAt s) (10 - s.1.stopCount.toNat + 1), second, exited,
          ⟨15, goneBy (exitsAt s) (10 - s.1.stopCount.toNat + 2)⟩ :: later⟩) := by
  obtain ⟨hvalue, hwaiting⟩ := stopProc_kept hmonitored hkeep
  rw [stopProc_eq hmonitored, hvalue]
  refine ⟨fun hterm => escalate_zero hterm _ _, fun hterm => ?_⟩
  have hlast := goneBy_succ (exitsAt s) (10 - s.1.stopCount.toNat + 1)
  rw [escalate_term hterm, signalProc_waiting hmonitored hwaiting, insist_eq]
  exact ⟨_, _, _, by rw [hlast]; rfl⟩

theorem stopProc_of_first (hmonitored : s.1.procPid ≠ 0) (hfirst : s.1.stopCount = 0) (hterm : cfg.killTimeout ≠ 0)
    (hrunning : goneBy (exitsAt s) 12 = false) :
    (Notices s ∧ goneBy (exitsAt s) 21 = true → ∃ naps, (stopProc cfg s.1.procPid s).1 =
        ⟨10, false, naps, true, [⟨15, false⟩]⟩) ∧
      (¬ (Notices s ∧ goneBy (exitsAt s) 21 = true) → (stopProc cfg s.1.procPid s).1 =
        ⟨10, false, 9, goneBy (exitsAt s) 21, [⟨15, false⟩, ⟨9, goneBy (exitsAt s) 22⟩]⟩) := by
  have hbefore : goneBy (exitsAt s) 11 = false ∧ exitsAt s 11 = false :=
    Bool.or_eq_false_iff.mp ((goneBy_succ (exitsAt s) 11).symm.trans hrunning)
  have hzero : 10 - s.1.stopCount.toNat = 10 := by
    rw [hfirst]
    rfl
  obtain ⟨hvalue, hwaiting⟩ := stopProc_kept hmonitored fun _ => by
    rw [hzero]
    exact hbefore.1
  rw [hzero, hbefore.1] at hvalue
  rw [hzero, hfirst] at hwaiting
  have hterm' := signalProc_kept hmonitored hwaiting sigterm false fun _ => hbefore.2
  have hlater (k : Nat) : goneBy (fun k => exitsAt s (10 + 1 + (k + 1))) k = goneBy (exitsAt s) (12 + k) := by
    rw [goneBy_add, hrunning, Bool.false_or]
    congr 1
    funext i
    congr 1
    omega
  have hnow : exitsAt s (10 + 1 + 0) = false := hbefore.2
  rw [stopProc_eq hmonitored, hvalue, escalate_term hterm]
  rw [signalProc_waiting hmonitored hwaiting] at hterm' ⊢
  dsimp only at hterm' ⊢
  rw [hnow]
  refine ⟨fun ⟨hnotices, hgone⟩ => ?_, fun hunnoticed => ?_⟩
  · exact insist_noticed hmonitored hterm' hnotices ((hlater 9).trans hgone)
  · rw [insist_kept hmonitored hterm' fun hnotices =>
        (hlater 9).trans (Bool.eq_false_of_not_eq_true fun h => hunnoticed ⟨hnotices, h⟩), hlater 9, hlater 10]
    rfl

/-- With `kill_timeout` zero, a stop escalates when the exit is announced in time or the counter is zero. -/
theorem escalates_zero (hmonitored : s.1.procPid ≠ 0) (hterm : cfg.killTimeout = 0)
    (hkeep : Notices s → goneBy (exitsAt s) (10 - s.1.stopCount.toNat + 1) = false) :
    (stopProc cfg s.1.procPid s).1.Escalates cfg.killTimeout ↔ EscalatesWhen cfg s := by
  rw [(stopProc_of_kept hmonitored hkeep).1 hterm]
  constructor
  · intro hescalates
    cases hgone : goneBy (exitsAt s) (10 - s.1.stopCount.toNat + 1) with
    | true =>
      obtain ⟨e, he, hexit⟩ := goneBy_iff.mp hgone
      exact Or.inl ⟨e, Nat.le_of_lt_succ he, hexit, Or.inr hterm⟩
    | false =>
      have hnaps := hescalates.first hgone
      refine Or.inr ⟨UInt8.toNat_inj.mp ?_, hterm.ge, fun hpos => absurd hterm hpos.ne'⟩
      dsimp only at hnaps
      show s.1.stopCount.toNat = 0
      omega
  · intro hwhen
    refine ⟨fun hrunning => ?_, fun h => absurd hterm h, nofun, fun _ => rfl⟩
    rcases hwhen with ⟨e, he, hexit, -⟩ | ⟨hcount, -, -⟩
    · exact absurd ((goneBy_iff.mpr ⟨e, Nat.lt_succ_of_le he, hexit⟩).symm.trans hrunning) (by decide)
    · rw [hcount]
      rfl

/-- A first stop with a positive `kill_timeout` escalates when the exit does not slip in before `SIGTERM` or `SIGKILL`. -/
theorem escalates_first (hmonitored : s.1.procPid ≠ 0) (hterm : 0 < cfg.killTimeout) (hfirst : s.1.stopCount = 0)
    (hrunning : goneBy (exitsAt s) 12 = false) :
    (stopProc cfg s.1.procPid s).1.Escalates cfg.killTimeout ↔
      ∀ e, FirstExit s e → 21 < e ∨ Notices s ∧ e ≠ 11 ∧ e ≠ 21 := by
  obtain ⟨hnoticed, hunnoticed⟩ := @stopProc_of_first cfg s hmonitored hfirst hterm.ne' hrunning
  have hlate {e : Nat} (he : FirstExit s e) : 12 ≤ e := by
    by_contra h
    exact Bool.false_ne_true (hrunning.symm.trans ((he.goneBy_iff 12).mpr (by omega)))
  by_cases hbetween : Notices s ∧ goneBy (exitsAt s) 21 = true
  · obtain ⟨naps, hreport⟩ := hnoticed hbetween
    rw [hreport]
    refine iff_of_true ⟨fun _ => rfl, nofun, by simp, fun h => absurd hterm h.not_gt⟩ fun e he => Or.inr ⟨hbetween.1, ?_⟩
    have hlt := (he.goneBy_iff 21).mp hbetween.2
    have hle := hlate he
    omega
  · rw [hunnoticed hbetween]
    constructor
    · intro hescalates e he
      have hlast : goneBy (exitsAt s) 22 = false := hescalates.running ⟨9, goneBy (exitsAt s) 22⟩ (by simp)
      left
      by_contra h
      exact Bool.false_ne_true (hlast.symm.trans ((he.goneBy_iff 22).mpr (by omega)))
    · intro hwhen
      have hlast : goneBy (exitsAt s) 22 = false := by
        refine Bool.eq_false_of_not_eq_true fun hgone => ?_
        obtain ⟨e, hlt, he⟩ := exists_firstExit hgone
        rcases hwhen e he with h | ⟨hnotices, -, h⟩
        · omega
        · exact hbetween ⟨hnotices, (he.goneBy_iff 21).mpr (by omega)⟩
      refine ⟨fun _ => rfl, fun _ _ => rfl, ?_, fun h => absurd hterm h.not_gt⟩
      simp [hlast]

theorem stopProc_running (hchild : 0 < s.1.procPid) (hfirst : s.1.stopCount = 0) (hrunning : ∀ e, exitsAt s e = false) :
    (stopProc cfg s.1.procPid s).1 =
      if cfg.killTimeout ≠ 0 then ⟨10, false, 9, false, [⟨15, false⟩, ⟨9, false⟩]⟩ else ⟨10, false, 0, false, []⟩ := by
  have hnone (k : Nat) : goneBy (exitsAt s) k = false := by
    refine Bool.eq_false_of_not_eq_true fun h => ?_
    obtain ⟨i, -, hi⟩ := goneBy_iff.mp h
    exact Bool.false_ne_true ((hrunning i).symm.trans hi)
  split
  · next hterm =>
    have hreport := (@stopProc_of_first cfg s hchild.ne' hfirst hterm (hnone 12)).2 fun h =>
      Bool.false_ne_true ((hnone 21).symm.trans h.2)
    rw [hnone, hnone] at hreport
    exact hreport
  · next hterm =>
    have hreport := (@stopProc_of_kept cfg s hchild.ne' fun _ => hnone _).1 (not_not.mp hterm)
    rw [hnone, hfirst] at hreport
    exact hreport

/-- A world in which a controller connects at the points `socks`, to start the process first and to stop it later -/
def stopsLater (deaths socks : List Nat) (n : Nat) : Answer :=
  { exampleAnswers (if n < 19 then [4, 0, 0, 0] else [5, 0, 0, 0]) deaths [] n with
    ready := if n ∈ socks then .sock else .ctrl }

/-- Where buddy is about to obey the command to stop, after so many turns -/
def stopping (cfg : BuddyConfig) (deaths socks : List Nat) (turns : Nat) : System :=
  let s := System.after cfg 4 [] (stopsLater deaths socks) 0 turns
  commanded .stopped (readCommand (ready s).2).2

/-- Buddy as `-k 10` configures it -/
def killConfig : BuddyConfig := { exampleConfig with killTimeout := 10 }

/-- `struct timespec` -/
structure Timespec where
  tvSec : Int
  tvNsec : Int
  deriving DecidableEq, Repr

/-- What `nanosleep` accepts -/
structure Timespec.Valid (t : Timespec) : Prop where
  sec : 0 ≤ t.tvSec
  nonneg : 0 ≤ t.tvNsec
  lt : t.tvNsec < 1000000000

/-- `kill_timeout_nsec`, computed exactly: the division of the integers truncates, and the fraction of a second is stored
into an unsigned variable. -/
def killTimeoutNsec (killTimeout : Int32) : UInt32 :=
  UInt32.ofInt (killTimeout.toInt * 100000000 - killTimeout.toInt.tdiv 10 * 1000000000)

/-- `nanotimeout` as `buddy_stop_proc` sets it -/
def nanotimeout (killTimeout : Int32) : Timespec where
  tvSec := if 0 ≤ killTimeout.toInt then killTimeout.toInt.tdiv 10 else 0
  tvNsec := 5000000 + (killTimeoutNsec killTimeout).toNat

theorem killTimeoutNsec_toNat (killTimeout : Int32) :
    ((killTimeoutNsec killTimeout).toNat : Int) = killTimeout.toInt.tmod 10 * 100000000 % 2 ^ 32 := by
  have hfraction : killTimeout.toInt * 100000000 - killTimeout.toInt.tdiv 10 * 1000000000 =
      killTimeout.toInt.tmod 10 * 100000000 := by
    have hdiv := Int.mul_tdiv_add_tmod killTimeout.toInt 10
    generalize killTimeout.toInt.tdiv 10 = seconds at hdiv ⊢
    generalize killTimeout.toInt.tmod 10 = tenths at hdiv ⊢
    omega
  rw [killTimeoutNsec, hfraction]
  unfold UInt32.ofInt
  have hnonneg := Int.emod_nonneg (killTimeout.toInt.tmod 10 * 100000000) (show (2 ^ 32 : Int) ≠ 0 by decide)
  have hlt := Int.emod_lt_of_pos (killTimeout.toInt.tmod 10 * 100000000) (show (0 : Int) < 2 ^ 32 by decide)
  rw [UInt32.toNat_ofNat']
  generalize killTimeout.toInt.tmod 10 * 100000000 % 2 ^ 32 = nsec at hnonneg hlt ⊢
  omega

/-- **A nap is a valid sleep** exactly when `kill_timeout` is not negative, or a number of whole seconds. -/
theorem nanotimeout_valid_iff (killTimeout : Int32) :
    (nanotimeout killTimeout).Valid ↔ 0 ≤ killTimeout.toInt ∨ 10 ∣ killTimeout.toInt := by
  have hnsec := killTimeoutNsec_toNat killTimeout
  have hsec : 0 ≤ (nanotimeout killTimeout).tvSec := by
    show 0 ≤ if 0 ≤ killTimeout.toInt then killTimeout.toInt.tdiv 10 else 0
    split
    · next hnonneg => exact Int.tdiv_nonneg hnonneg (by decide)
    · exact le_rfl
  have hvalid : (nanotimeout killTimeout).Valid ↔ 5000000 + ((killTimeoutNsec killTimeout).toNat : Int) < 1000000000 :=
    ⟨fun h => h.lt, fun h => ⟨hsec, Int.add_nonneg (by decide) (Int.natCast_nonneg _), h⟩⟩
  rw [hvalid, hnsec, Int.dvd_iff_tmod_eq_zero]
  rcases le_or_gt 0 killTimeout.toInt with hnonneg | hneg
  · have hmod := Int.tmod_nonneg 10 hnonneg
    have hlt := Int.tmod_lt_of_pos killTimeout.toInt (show (0 : Int) < 10 by decide)
    rw [Int.emod_eq_of_lt (by omega) (by omega)]
    exact iff_of_true (by omega) (Or.inl hnonneg)
  · have hmod : -10 < killTimeout.toInt.tmod 10 ∧ killTimeout.toInt.tmod 10 ≤ 0 := by
      have htwo := Int.neg_tmod (a := -killTimeout.toInt) (b := 10)
      have hpos := Int.tmod_nonneg 10 (show 0 ≤ -killTimeout.toInt by omega)
      have hlt := Int.tmod_lt_of_pos (-killTimeout.toInt) (show (0 : Int) < 10 by decide)
      rw [Int.neg_neg] at htwo
      omega
    rw [or_iff_right (not_le.mpr hneg)]
    rcases eq_or_lt_of_le hmod.2 with hzero | hfraction
    · rw [hzero]
      decide
    · rw [← Int.add_emod_right, Int.emod_eq_of_lt (by omega) (by omega)]
      omega

/-- The built-in `kill_timeout`: `nanosleep` refuses more than four seconds of nanoseconds. -/
theorem not_nanotimeout_valid_never :
    nanotimeout (-1) = ⟨0, 4199967296⟩ ∧ ¬ (nanotimeout (-1)).Valid := by
  have hnap : nanotimeout (-1) = ⟨0, 4199967296⟩ := by decide +kernel
  rw [hnap]
  exact ⟨rfl, fun h => absurd h.lt (by decide)⟩

end Upkeeper
