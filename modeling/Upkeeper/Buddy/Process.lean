import Upkeeper.Buddy.Flush
/-!
# The process (`buddy.c`: the signal handler, the actions, the commands and the event loop)

Buddy and the world around it: what the kernel answers, a clock that does not go back, and the history of what happened.
A signal is delivered where the code can be interrupted, if it is not blocked there (`interrupt`). The world proposes at
each such point any signals and any children to reap, so every order of arrivals is a run.
-/

namespace Upkeeper

/-! ### The world -/

/-- The scripts of `actions/` -/
inductive Action
  | start
  | stop
  | reload
  | custom (n : UInt32)
  deriving DecidableEq, Repr

/-- What happened, as far as the properties look at it -/
inductive Entry
  /-- `fork` for an action returned the pid of a child -/
  | forked (action : Action) (pid : Int)
  /-- `buddy_exec_action` did not find an executable script -/
  | unrunnable (action : Action)
  /-- `buddy_start_proc` ran the start action and set `respawn_timestamp` -/
  | started (respawnTimestamp : Int)
  /-- `buddy_start_proc` advanced `rapid_respawn_count` from this value -/
  | counted (rapidRespawnCount : UInt32)
  /-- `buddy_start_proc` imposed the runaway limit -/
  | refused
  /-- `waitpid` returned the pid of a child, and whether that was the monitored one -/
  | reaped (pid : Int) (monitored : Bool)
  /-- a test of `buddy_stop_proc` found this value in `proc_pid`, so that `kill` comes next -/
  | tested (procPid : Int)
  /-- `buddy_handle_command` is to send a signal when `proc_pid` has this value, so that `kill` comes next -/
  | signalling (procPid : Int)
  /-- `kill` for this target -/
  | killed (target : Int) (signal : Nat)
  /-- `buddy_handle_flags` cleared `chld_terminated` when `proc_pid` had this value -/
  | cleared (procPid : Int)
  deriving DecidableEq, Repr

/-- A signal that the handler gets: `SIGCHLD` with the children that `waitpid` returns, or one that shuts buddy down -/
inductive Arrival
  | chld (si : Siginfo) (zs : List Reaped)
  | shutdown (signal : Signo)
  deriving DecidableEq, Repr

/-- The descriptors that the `select` of the event loop finds ready -/
inductive LoopReady
  | none
  | sock
  | ctrl
  deriving DecidableEq, Repr

/-- What the world has to say at one point: each call looks at what concerns it. -/
structure Answer where
  arrivals : List Arrival
  time : Int
  fork : Int
  stat : Option FileMode
  jitter : Int
  ready : LoopReady
  accept : Int
  sockopts : Int
  readSelect : SelectResult
  read : ReadResult
  exchange : Exchange
  home : Int × Bool

/-- The world: its answers, the time that was told last, and what happened, latest first -/
structure World where
  answers : Nat → Answer
  clock : Int
  log : List Entry

/-- The state of a run -/
abbrev System := Buddy × World

/-- A part of the program -/
abbrev Prog := StateM System

namespace Prog

/-- The next answer of the world -/
def answer : Prog Answer := fun s => (s.2.answers 0, s.1, { s.2 with answers := fun n => s.2.answers (n + 1) })

/-- The variables of buddy -/
def buddy : Prog Buddy := fun s => (s.1, s)

/-- Assign to variables of buddy. -/
def set (f : Buddy → Buddy) : Prog Unit := fun s => ((), f s.1, s.2)

/-- Note what happens. -/
def note (e : Entry) : Prog Unit := fun s => ((), s.1, { s.2 with log := e :: s.2.log })

/-- `time(NULL)`, when the world says `t` -/
def tell (t : Int) : Prog Int := fun s => (max s.2.clock t, s.1, { s.2 with clock := max s.2.clock t })

/-- `time(NULL)` -/
def time : Prog Int := do
  let a ← answer
  tell a.time

/-! ### Signals -/

/-- The body of the loop of `sa_sigaction_func` -/
def reapChild (si : Siginfo) (z : Reaped) : Prog Unit := do
  let now ← tell z.now
  let b ← buddy
  note (.reaped z.pid (z.pid == b.procPid))
  set (Buddy.reap si { z with now := now })

/-- The loop of `sa_sigaction_func`: it ends when `waitpid` returns no child. -/
def reapChildren (si : Siginfo) : List Reaped → Prog Unit
  | [] => pure ()
  | z :: zs => if 0 < z.pid then do reapChild si z; reapChildren si zs else pure ()

/-- `sa_sigaction_func`, if the signal is not blocked -/
def deliver : Arrival → Prog Unit
  | .chld si zs => do
    let b ← buddy
    if sigchld ∉ b.mask then reapChildren si zs
  | .shutdown signal => do
    let b ← buddy
    if signal ∉ b.mask then set fun b => { b with buddyShutdown := signal.val }

def deliverAll : List Arrival → Prog Unit
  | [] => pure ()
  | arrival :: arrivals => do deliver arrival; deliverAll arrivals

/-- The signals that arrive here are delivered. -/
def interrupt : Prog Unit := do
  let a ← answer
  deliverAll a.arrivals

/-- `sigprocmask(SIG_BLOCK, &sigset, &oldset)`: it returns `oldset`. -/
def block (sigset : SigSet) : Prog SigSet := do
  let b ← buddy
  set fun b => { b with mask := b.mask ∪ sigset }
  return b.mask

/-- `sigprocmask(SIG_SETMASK, &oldset, NULL)`: what was pending is delivered. -/
def setmask (oldset : SigSet) : Prog Unit := do
  set fun b => { b with mask := oldset }
  interrupt

/-! ### Actions -/

/-- `fork` in the parent: the pid of the child, or `-1` -/
def fork (action : Action) : Prog Int := do
  let a ← answer
  if 0 < a.fork then
    note (.forked action a.fork)
    return a.fork
  else return -1

/-- `stat(path_buf, &buf)`: the buffer is static and keeps what it was when `stat` fails. -/
def stat : Prog FileMode := do
  let a ← answer
  set fun b => { b with statMode := a.stat.getD b.statMode }
  let b ← buddy
  return b.statMode

/-- `buddy_exec_action` -/
def buddyExecAction (action : Action) : Prog Int := do
  let oldset ← block Finset.univ
  let mode ← stat
  if mode.regular && mode.executable then
    let pid ← fork action
    setmask oldset
    return pid
  else
    note (.unrunnable action)
    return 0

/-- How `buddy_start_proc` counts a start that comes soon after the last one -/
def countRespawn (cfg : BuddyConfig) : Prog Unit := do
  let now ← time
  let b ← buddy
  if b.respawnTimestamp + cfg.userRestartWindow > now then
    note (.counted b.rapidRespawnCount)
    set fun b => { b with rapidRespawnCount := b.rapidRespawnCount + 1 }
  else set fun b => { b with rapidRespawnCount := 0 }

/-- The part of `buddy_start_proc` that runs the start action -/
def launch : Prog Unit := do
  let pid ← buddyExecAction .start
  set fun b => { b with procPid := pid }
  let now ← time
  set fun b => { b with respawnTimestamp := now }
  note (.started now)
  let now ← time
  set (Buddy.recordStart now)

/-- `buddy_start_proc` -/
def buddyStartProc (cfg : BuddyConfig) : Prog Bool := do
  let b ← buddy
  if b.procPid = 0 then
    interrupt
    let oldset ← block {sigchld}
    countRespawn cfg
    let b ← buddy
    if b.rapidRespawnCount > cfg.userMaxRestarts then
      note .refused
      set fun b => { b with forceRatelimit := true }
      return false
    else
      launch
      setmask oldset
      return true
  else return true

/-- `while(proc_pid && n++ < limit) nanosleep(..)`, when `n` is so far below the limit -/
def waitProc : Nat → Prog Unit
  | 0 => do
    let b ← buddy
    if b.procPid ≠ 0 then set fun b => { b with stopCount := b.stopCount + 1 }
  | below + 1 => do
    let b ← buddy
    if b.procPid ≠ 0 then
      set fun b => { b with stopCount := b.stopCount + 1 }
      interrupt
      waitProc below

/-- `kill(proc_pid, signal)` -/
def killProc (signal : Nat) : Prog Unit := do
  let b ← buddy
  note (.killed b.procPid signal)

/-- `if(proc_pid) kill(proc_pid, signal)`: the variable is volatile, and read twice. -/
def killIfProc (signal : Signo) : Prog Unit := do
  let b ← buddy
  if b.procPid ≠ 0 then
    note (.tested b.procPid)
    interrupt
    killProc signal.val

/-- `kill(proc_pid, signal)` in `buddy_handle_command`, which does not test `proc_pid` -/
def killUntested (signal : Nat) : Prog Unit := do
  let b ← buddy
  note (.signalling b.procPid)
  interrupt
  killProc signal

/-- `while(proc_pid && n++ < limit) nanosleep(..)` -/
def waitUntil (limit : UInt8) : Prog Unit := do
  let b ← buddy
  waitProc (limit.toNat - b.stopCount.toNat)

/-- `buddy_stop_proc` -/
def buddyStopProc (cfg : BuddyConfig) : Prog Unit := do
  let b ← buddy
  if b.procPid ≠ 0 then
    let _ ← buddyExecAction .stop
    waitUntil 10
    if cfg.killTimeout ≠ 0 then
      killIfProc sigterm
      waitUntil 20
      killIfProc sigkill

/-- `buddy_reload_proc` -/
def buddyReloadProc : Prog Unit := do
  let b ← buddy
  if b.procPid ≠ 0 then
    let _ ← buddyExecAction .reload

/-- `buddy_cust_action` -/
def buddyCustAction (n : UInt32) : Prog Unit := do
  let _ ← buddyExecAction (.custom n)

/-! ### The event loop -/

/-- What surrounds a flush -/
def outside : Outside World where
  interrupt b w := (interrupt (b, w)).2
  connect w := ((w.answers 0).home, { w with answers := fun n => w.answers (n + 1) })
  exchange _ _ w := ((w.answers 0).exchange, { w with answers := fun n => w.answers (n + 1) })

/-- `buddy_flush_ringbuffer`: what was pending is delivered at its end. -/
def buddyFlushRingbuffer (cfg : BuddyConfig) : Prog Unit := do
  fun s =>
    let flushed := s.1.buddyFlushRingbuffer outside cfg s.2
    ((), flushed.buddy, flushed.world)
  interrupt

/-- `buddy_handle_command` -/
def buddyHandleCommand (cfg : BuddyConfig) : Prog Unit := do
  let b ← buddy
  let command := b.thisCommand
  if command = upkCtrlShutdown then
    set fun b => { b with desiredState := .stopped, lastCommand := command, buddyShutdown := sighup.val }
  else if command = upkCtrlStatusReq then
    set fun b => { b with lastCommand := command }
  else if command = upkCtrlActionStart then
    set fun b => { b with desiredState := .running, lastCommand := command }
    let _ ← buddyStartProc cfg
  else if command = upkCtrlActionStop then
    set fun b => { b with desiredState := .stopped, lastCommand := command }
    buddyStopProc cfg
  else if command = upkCtrlActionReload then
    set fun b => { b with lastCommand := command }
    buddyReloadProc
  else if command = upkCtrlActionRunonce then
    set fun b => { b with desiredState := .ranonce, lastCommand := command }
    let _ ← buddyStartProc cfg
    set fun b => { b with buddyShutdown := sighup.val }
  else if upkCtrlCustomAction00 ≤ command ∧ command ≤ upkCtrlCustomAction31 then
    set fun b => { b with lastCommand := command }
    buddyCustAction (command - upkCtrlCustomAction00)
  else if upkCtrlSignal01 ≤ command ∧ command ≤ upkCtrlSignal32 then
    set fun b => { b with lastCommand := command }
    killUntested ((command - upkCtrlSignal01).toNat + 1)

/-- `buddy_accept` -/
def buddyAccept : Prog Unit := do
  let a ← answer
  set fun b => { b with ctrlfd := if 0 < a.accept ∧ a.sockopts ≠ 0 then a.accept else -1 }

/-- `jitter` when `randomize_ratelimit` is set: the world says what the floating-point expression yields. -/
def randomize (cfg : BuddyConfig) : Prog Unit := do
  let a ← answer
  if cfg.randomizeRatelimit then set fun b => { b with jitter := a.jitter }

/-- Whether the user's rate limit holds a restart back -/
def userLimited (cfg : BuddyConfig) : Prog Bool := do
  if cfg.userRatelimit ≠ 0 then
    randomize cfg
    let now ← time
    let b ← buddy
    return decide (b.respawnTimestamp + cfg.userRatelimit + b.jitter > now)
  else return false

/-- Whether the runaway limit holds a restart back -/
def runawayLimited (cfg : BuddyConfig) : Prog Bool := do
  let b ← buddy
  if b.forceRatelimit then
    let now ← time
    let b ← buddy
    return decide (b.respawnTimestamp + cfg.runawayRatelimit > now)
  else return false

/-- `if(buddy_start_proc()) chld_terminated = false` -/
def restart (cfg : BuddyConfig) : Prog Unit := do
  let started ← buddyStartProc cfg
  if started then
    interrupt
    let b ← buddy
    note (.cleared b.procPid)
    set fun b => { b with chldTerminated := false }

/-- `buddy_handle_flags`: whether buddy shuts down -/
def buddyHandleFlags (cfg : BuddyConfig) : Prog Bool := do
  interrupt
  let b ← buddy
  if 0 < b.buddyShutdown then return true
  else if b.chldTerminated && b.desiredState == .running then
    let limited ← userLimited cfg
    if limited then return false
    else
      let limited ← runawayLimited cfg
      if limited then return false
      else
        set fun b => { b with forceRatelimit := false }
        restart cfg
        return false
  else return false

/-- `read_ctrl(&this_command)` -/
def readCommand : Prog UInt32 := do
  let a ← answer
  set fun b =>
    { (b.readCtrl a.readSelect a.read b.thisCommand).2 with
      thisCommand := (b.readCtrl a.readSelect a.read b.thisCommand).1 }
  let b ← buddy
  return b.thisCommand

/-- The controller has sent something. -/
def serveController (cfg : BuddyConfig) : Prog Unit := do
  let b ← buddy
  if 0 < b.ctrlfd then
    let command ← readCommand
    if command ≠ 0 then
      buddyHandleCommand cfg
      buddyFlushRingbuffer cfg

/-- A turn of the loop of `buddy_event_loop`: whether it breaks out of the loop -/
def buddyEventLoopTurn (cfg : BuddyConfig) : Prog Bool := do
  set fun b => { b with thisCommand := 0 }
  interrupt
  let a ← answer
  match a.ready with
  | .sock => do buddyAccept; return false
  | .ctrl => do serveController cfg; buddyHandleFlags cfg
  | .none => buddyHandleFlags cfg

/-- `buddy_cleanup` -/
def buddyCleanup (cfg : BuddyConfig) : Prog Unit := do
  buddyStopProc cfg     -- `if(proc_pid != 0)`, which it checks itself
  let b ← buddy
  if b.ring ≠ [] then
    buddyFlushRingbuffer cfg
    set fun b => { b with ring := [] }

/-- The end of `buddy_event_loop` and of `main`: `commit_buddycide`, which blocks all signals and kills buddy after the
cleanup, or the cleanup in `main` and the one that `atexit` registered -/
def buddyExit (cfg : BuddyConfig) : Prog Unit := do
  let b ← buddy
  if b.buddyShutdown ≠ 0 ∧ b.buddyShutdown ≠ sighup.val then
    let _ ← block Finset.univ
    buddyCleanup cfg
  else
    buddyCleanup cfg
    buddyCleanup cfg

/-- So many turns of the event loop, and what comes after it when one breaks out: whether buddy has ended -/
def buddyEventLoop (cfg : BuddyConfig) : Nat → Prog Bool
  | 0 => pure false
  | n + 1 => do
    let done ← buddyEventLoopTurn cfg
    if done then
      buddyExit cfg
      return true
    else buddyEventLoop cfg n

end Prog

/-- Buddy when it enters its event loop -/
def System.init (n : Nat) (uuid : List UInt8) (answers : Nat → Answer) (clock : Int) : System :=
  (Buddy.init n uuid, { answers := answers, clock := clock, log := [] })

end Upkeeper
