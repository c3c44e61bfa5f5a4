import Upkeeper.Controller.Session
import Upkeeper.UpkList.Update
/-!
# Many clients (`event_loop`, `upk_net_event_dispatcher`)

The controller keeps its connections in one list. A turn of its event loop accepts a connection, lets the dispatcher
read from and write to every connection of the list, and drops those that have been closed. In between, the clients take
turns of their own, each with its conversation.

The connections do not disturb each other (`eventLoop_isolates`): in every run, what happens between the controller and
one of its clients is an orderly conversation of the two, as if there were no other client, and the list holds exactly
the connections that the controller has not closed.
-/

namespace Upkeeper

open UpkList (Inv Spaced updating unlinkIf)

instance : Inhabited (Client CtrlCallback Unit) := ⟨⟨{ Net.new 0 [] () with state := none }, .zero _⟩⟩

/-! ### The event loop -/

/-- The list `clients` of `event_loop`, and for each node the conversation on its connection. A conversation goes on at
the end of the client when the node has been dropped. -/
structure EventLoop where
  clients : UpkList (Client CtrlCallback Unit)
  conversations : Addr → Conversation

/-- The list is empty when `ctrl_init` returns. -/
def EventLoop.init : EventLoop := ⟨.init, fun _ => newConversation 0 0⟩

/-- A connection that `accept` returns: the descriptor of the client, that of the controller, and what `fcntl` says of
the latter -/
structure Accepted where
  fd : Nat
  connFd : Nat
  sockopts : Int

/-- `ctrl_accept_conn`, with `upk_net_add_socket_handle` -/
def EventLoop.ctrlAcceptConn (s : EventLoop) (conn : Accepted) : Option EventLoop :=
  if 0 < conn.connFd ∧ conn.sockopts ≠ 0 then do
    let conversation := newConversation conn.fd conn.connFd
    let clients ← s.clients.appendVal conversation.ctrl
    some ⟨clients, Function.update s.conversations s.clients.fresh conversation⟩
  else some s

/-- What the dispatcher finds out about a connection: what `fcntl` returns, whether its descriptor is in `readfds` and
what can be read, and whether it is in `writefds` and what comes of writing -/
structure Readiness where
  sockopts : Int
  readable : Bool
  io : List (List UInt8)
  writable : Bool
  write : WriteResult

/-- A call of the dispatcher in which `select` finds something: what the buddies will do, whether `writefds_p` is set,
and what is ready. Whether `writefds_p` is set depends on a counter of all connections. -/
structure Dispatch where
  buddies : Buddies
  writefds : Bool
  ready : Addr → Readiness

/-- The read part of the body of the dispatcher's loop -/
def Conversation.dispatchRead (svclist : List SvcDesc) (b : Buddies) (r : Readiness) (s : Conversation) :
    Option Conversation :=
  if r.readable then s.step svclist (.ctrlRead b r.io) else some s

/-- The body of the dispatcher's loop. `FD_ISSET` of a descriptor that has been closed is a fault. -/
def Conversation.dispatch (svclist : List SvcDesc) (b : Buddies) (writefds : Bool) (r : Readiness) (s : Conversation) :
    Option Conversation :=
  if 0 ≤ s.ctrl.fd ∧ r.sockopts ≠ 0 then do
    let s ← s.dispatchRead svclist b r
    if writefds then
      if s.ctrl.Closed then none
      else if r.writable then s.step svclist (.ctrlWrite r.write)
      else some s
    else some s
  else some { s with ctrl := { s.ctrl with toNet := s.ctrl.toNet.disconnect } }

/-- The body, on the current node -/
def serveClient (svclist : List SvcDesc) (d : Dispatch) (conversations : Addr → Conversation) (a : Addr)
    (client : Client CtrlCallback Unit) : Option (Client CtrlCallback Unit × (Addr → Conversation)) := do
  let c ← { conversations a with ctrl := client }.dispatch svclist d.buddies d.writefds (d.ready a)
  some (c.ctrl, Function.update conversations a c)

/-- `upk_net_event_dispatcher`. The controller registers none of the `net_dispatch_` callbacks. -/
def EventLoop.upkNetEventDispatcher (svclist : List SvcDesc) (d : Dispatch) (s : EventLoop) : Option EventLoop :=
  (s.clients.foreach (updating (serveClient svclist d)) (s.clients.fresh + 1) s.conversations).map fun (clients, c) =>
    ⟨clients, c⟩

/-- The connections that `upk_net_flush_closed_sockets` drops -/
def ctrlClosed (_ : Addr) (client : Client CtrlCallback Unit) : Bool := client.fd < 0

/-- `upk_net_flush_closed_sockets` -/
def EventLoop.flushClosedSockets (s : EventLoop) : Option EventLoop :=
  (s.clients.foreach (unlinkIf ctrlClosed fun w _ _ => w) (s.clients.fresh + 1) ()).map fun (clients, _) =>
    { s with clients := clients }

/-- What happens next: a client takes a turn, or the event loop does -/
inductive LoopInput
  | client (a : Addr) (turn : ConversationTurn)
  | turn (conn : Option Accepted) (d : Option Dispatch)

/-- A turn of `event_loop` -/
def EventLoop.turn (svclist : List SvcDesc) (conn : Option Accepted) (d : Option Dispatch) (s : EventLoop) :
    Option EventLoop := do
  let s ← conn.elim (some s) s.ctrlAcceptConn
  let s ← d.elim (some s) fun d => s.upkNetEventDispatcher svclist d
  s.flushClosedSockets

def EventLoop.step (svclist : List SvcDesc) (s : EventLoop) : LoopInput → Option EventLoop
  | .client a turn => ((s.conversations a).step svclist turn).map fun c =>
    { s with conversations := Function.update s.conversations a c }
  | .turn conn d => s.turn svclist conn d

/-! ### What it is for -/

/-- A turn at the end of the client -/
def ConversationTurn.OfClient : ConversationTurn → Prop
  | .ctrlRead _ _ | .ctrlWrite _ => False
  | _ => True

/-- What the dispatcher finds is so on a connection that is in order: an open descriptor has flags, and what is read and
written is as the conversation goes. -/
def Readiness.Orderly (svclist : List SvcDesc) (b : Buddies) (r : Readiness) (s : Conversation) : Prop :=
  r.sockopts ≠ 0 ∧ (r.readable → s.Orderly svclist (.ctrlRead b r.io)) ∧
    ∀ s', s.dispatchRead svclist b r = some s' → r.writable → s'.Orderly svclist (.ctrlWrite r.write)

/-- The connections that were accepted before are fewer than the counter of the list can count, a descriptor is positive
and has flags, what the dispatcher finds is in order, and the connections that are dropped are spaced. -/
def EventLoop.Orderly (svclist : List SvcDesc) (s : EventLoop) : LoopInput → Prop
  | .client a turn => a < s.clients.fresh ∧ turn.OfClient ∧ (s.conversations a).Orderly svclist turn
  | .turn conn d =>
    (∀ c ∈ conn, s.clients.count ≠ 0xffffffff ∧ 0 < c.connFd ∧ c.sockopts ≠ 0) ∧
    ∀ s₁, conn.elim (some s) s.ctrlAcceptConn = some s₁ →
      (∀ d' ∈ d, ∀ a ∈ s₁.clients.nodes, (d'.ready a).Orderly svclist d'.buddies (s₁.conversations a)) ∧
      ∀ s₂, d.elim (some s₁) (fun d => s₁.upkNetEventDispatcher svclist d) = some s₂ →
        Spaced (s₂.clients.selected ctrlClosed) s₂.clients.nodes

/-- **What has happened between the controller and a client is an orderly conversation of the two**: it has come about
by turns of its own, all along them the calls of the client are procedure calls, and the connection is closed behind the
last reply. -/
structure Alone (svclist : List SvcDesc) (s : Conversation) : Prop where
  run : ∃ fd ctrlFd turns,
    Machine.Guarded (Conversation.step svclist) (Conversation.Orderly svclist) (newConversation fd ctrlFd) turns ∧
      Machine.run (Conversation.step svclist) (newConversation fd ctrlFd) turns = some s ∧
      Machine.Tracks (Conversation.step svclist) (asCalls svclist) Serial (newConversation fd ctrlFd) .none turns
  closes : ClosesLast s

/-- Every conversation is one on its own, and the list of the controller holds exactly the connections that it has not
closed. -/
structure EventLoop.Isolates (svclist : List SvcDesc) (s : EventLoop) : Prop where
  alone : ∀ a < s.clients.fresh, Alone svclist (s.conversations a)
  listed : ∀ a, a ∈ s.clients.nodes ↔ a < s.clients.fresh ∧ ¬ (s.conversations a).ctrl.Closed
  clients : ∀ a ∈ s.clients.nodes, s.clients.val? a = some (s.conversations a).ctrl

/-! ### One connection -/

variable {svclist : List SvcDesc} {b : Buddies} {r : Readiness} {d : Dispatch} {c : Conversation}
  {turn : ConversationTurn} {writefds : Bool}

/-- A conversation that has come about by turns of its own -/
def Reached (svclist : List SvcDesc) (c : Conversation) : Prop :=
  ∃ fd ctrlFd turns,
    Machine.Guarded (Conversation.step svclist) (Conversation.Orderly svclist) (newConversation fd ctrlFd) turns ∧
      Machine.run (Conversation.step svclist) (newConversation fd ctrlFd) turns = some c

theorem reached_new (svclist : List SvcDesc) (fd ctrlFd : Nat) : Reached svclist (newConversation fd ctrlFd) :=
  ⟨fd, ctrlFd, [], trivial, rfl⟩

theorem Reached.conversing (h : Reached svclist c) : ∃ t ups downs, Conversing svclist c t ups downs := by
  obtain ⟨fd, ctrlFd, turns, hguarded, hrun⟩ := h
  exact (conversing_run hguarded).run hrun

theorem Reached.alone (h : Reached svclist c) : Alone svclist c := by
  obtain ⟨t, ups, downs, hconv⟩ := h.conversing
  obtain ⟨fd, ctrlFd, turns, hguarded, hrun⟩ := h
  refine ⟨⟨fd, ctrlFd, turns, hguarded, hrun, ?_⟩, hconv.closesLast⟩
  exact (conversing_run hguarded).mono fun _ _ ⟨_, _, h⟩ => h.serial

theorem Reached.step (h : Reached svclist c) (ho : c.Orderly svclist turn) :
    ∃ c', c.step svclist turn = some c' ∧ Reached svclist c' := by
  obtain ⟨t, ups, downs, hconv⟩ := h.conversing
  obtain ⟨fd, ctrlFd, turns, hguarded, hrun⟩ := h
  obtain ⟨c', hstep, -⟩ := hconv.step ho
  refine ⟨c', hstep, fd, ctrlFd, turns ++ [turn], hguarded.concat hrun ho, ?_⟩
  rw [Machine.run_concat, hrun, Option.bind_eq_bind, Option.bind_some, hstep]

theorem Reached.ctrlRead_fd {c' : Conversation} {io : List (List UInt8)} (h : Reached svclist c)
    (ho : c.Orderly svclist (.ctrlRead b io)) (hstep : c.step svclist (.ctrlRead b io) = some c') :
    c'.ctrl.fd = c.ctrl.fd := by
  obtain ⟨t, ups, downs, hconv⟩ := h.conversing
  obtain ⟨hnone, hfed, hplace⟩ := ho
  obtain ⟨c'', ups', downs', hstep', hfd, -⟩ := hconv.ctrlRead hnone hfed hplace b
  obtain rfl := Option.some.inj (hstep.symm.trans hstep')
  exact hfd

theorem ConversationTurn.OfClient.ctrl_eq {c' : Conversation} (h : turn.OfClient)
    (hstep : c.step svclist turn = some c') : c'.ctrl = c.ctrl := by
  cases turn with
  | ctrlRead b io => exact h.elim
  | ctrlWrite r => exact h.elim
  | call call =>
    simp only [Conversation.step, Conversation.call, Option.bind_eq_bind] at hstep
    split at hstep
    · obtain ⟨req, -, hstep⟩ := Option.bind_eq_some_iff.mp hstep
      obtain ⟨net, -, hstep⟩ := Option.bind_eq_some_iff.mp hstep
      rw [← Option.some.inj hstep]
    · cases hstep
  | clientWrite r =>
    obtain ⟨net, -, rfl⟩ := Option.map_eq_some_iff.mp hstep
    rfl
  | clientRead io =>
    obtain ⟨net, -, rfl⟩ := Option.map_eq_some_iff.mp hstep
    rfl
  | finish =>
    simp only [Conversation.step, Option.bind_eq_bind] at hstep
    obtain ⟨call, -, hstep⟩ := Option.bind_eq_some_iff.mp hstep
    obtain ⟨msg, -, hstep⟩ := Option.bind_eq_some_iff.mp hstep
    split at hstep
    · cases hstep
    · rw [← Option.some.inj hstep]
      unfold Conversation.finish
      cases call.result msg <;> rfl

/-- **What the dispatcher does to a connection is turns of its own conversation.** -/
theorem Reached.dispatch (h : Reached svclist c) (hopen : ¬c.ctrl.Closed) (hr : r.Orderly svclist b c) :
    ∃ c', c.dispatch svclist b writefds r = some c' ∧ Reached svclist c' := by
  obtain ⟨hflags, hread, hwrite⟩ := hr
  obtain ⟨c₁, hc₁, h₁, hopen₁⟩ : ∃ c₁, c.dispatchRead svclist b r = some c₁ ∧ Reached svclist c₁ ∧ ¬c₁.ctrl.Closed := by
    unfold Conversation.dispatchRead
    split
    · rename_i hreadable
      obtain ⟨c₁, hstep, h₁⟩ := h.step (hread hreadable)
      refine ⟨c₁, hstep, h₁, ?_⟩
      rwa [Session.Closed, h.ctrlRead_fd (hread hreadable) hstep]
    · exact ⟨c, rfl, h, hopen⟩
  unfold Conversation.dispatch
  rw [if_pos ⟨Int.not_lt.mp hopen, hflags⟩, hc₁, Option.bind_eq_bind, Option.bind_some]
  split
  · split
    · rename_i hwritable
      exact h₁.step (hwrite c₁ hc₁ hwritable)
    · exact ⟨c₁, rfl, h₁⟩
  · exact ⟨c₁, rfl, h₁⟩

/-! ### All connections -/

variable {s : EventLoop} {l : List Addr}

/-- The connections of the list, each with its conversation. None that is open is missing. -/
structure EventLoop.Serving (svclist : List SvcDesc) (s : EventLoop) (l : List Addr) : Prop where
  inv : Inv s.clients l
  nextp : s.clients.nextp = none
  client : ∀ a ∈ l, s.clients.val? a = some (s.conversations a).ctrl
  listed : ∀ a < s.clients.fresh, ¬(s.conversations a).ctrl.Closed → a ∈ l
  reached : ∀ a < s.clients.fresh, Reached svclist (s.conversations a)

/-- No connection of the list is closed. -/
def EventLoop.AllOpen (s : EventLoop) (l : List Addr) : Prop := ∀ a ∈ l, ¬(s.conversations a).ctrl.Closed

theorem EventLoop.Serving.isolates (h : s.Serving svclist l) (hopen : s.AllOpen l) : s.Isolates svclist where
  alone a ha := (h.reached a ha).alone
  listed a := by
    rw [h.inv.nodes_eq]
    exact ⟨fun ha => ⟨h.inv.fresh a ha, hopen a ha⟩, fun ha => h.listed a ha.1 ha.2⟩
  clients := by
    rw [h.inv.nodes_eq]
    exact h.client

theorem EventLoop.serving_init (svclist : List SvcDesc) : EventLoop.init.Serving svclist [] where
  inv := UpkList.init_inv
  nextp := rfl
  client := by simp
  listed a ha := absurd ha (Nat.not_lt_zero a)
  reached a ha := absurd ha (Nat.not_lt_zero a)

theorem EventLoop.Serving.clientTurn {a : Addr} (h : s.Serving svclist l) (hopen : s.AllOpen l)
    (ho : s.Orderly svclist (.client a turn)) :
    ∃ s', s.step svclist (.client a turn) = some s' ∧ s'.Serving svclist l ∧ s'.AllOpen l := by
  obtain ⟨ha, hclient, ho⟩ := ho
  obtain ⟨c, hstep, hc⟩ := (h.reached a ha).step ho
  have hctrl (x : Addr) : (Function.update s.conversations a c x).ctrl = (s.conversations x).ctrl := by
    by_cases hx : x = a
    · subst hx
      rw [Function.update_self, hclient.ctrl_eq hstep]
    · rw [Function.update_of_ne hx]
  refine ⟨{ s with conversations := Function.update s.conversations a c }, ?_, ⟨h.inv, h.nextp, ?_, ?_, ?_⟩, ?_⟩
  · rw [EventLoop.step, hstep]
    rfl
  · intro x hx
    exact (h.client x hx).trans (congrArg some (hctrl x).symm)
  · intro x hx hopen
    refine h.listed x hx ?_
    rwa [← hctrl x]
  · intro x hx
    show Reached svclist (Function.update s.conversations a c x)
    by_cases hxa : x = a
    · subst hxa
      rwa [Function.update_self]
    · rw [Function.update_of_ne hxa]
      exact h.reached x hx
  · intro x hx
    show ¬(Function.update s.conversations a c x).ctrl.Closed
    rw [hctrl x]
    exact hopen x hx

theorem EventLoop.Serving.ctrlAcceptConn (h : s.Serving svclist l) (hopen : s.AllOpen l) {conn : Accepted}
    (hcount : s.clients.count ≠ 0xffffffff) (hfd : 0 < conn.connFd) (hflags : conn.sockopts ≠ 0) :
    ∃ s', s.ctrlAcceptConn conn = some s' ∧ s'.Serving svclist (l ++ [s.clients.fresh]) ∧
      s'.AllOpen (l ++ [s.clients.fresh]) := by
  let new := newConversation conn.fd conn.connFd
  obtain ⟨clients, happ, hinv, hnextp, hfresh, hval⟩ := h.inv.appendVal h.nextp hcount new.ctrl
  have hne {a : Addr} (ha : a ∈ l) : a ≠ s.clients.fresh := Nat.ne_of_lt (h.inv.fresh a ha)
  have hold {a : Addr} (ha : a < clients.fresh) (hne : a ≠ s.clients.fresh) : a < s.clients.fresh := by
    rw [hfresh] at ha
    exact Nat.lt_of_le_of_ne (Nat.le_of_lt_succ ha) hne
  have hnew : ¬new.ctrl.Closed := Int.not_lt.mpr (Int.natCast_nonneg conn.connFd)
  refine ⟨⟨clients, Function.update s.conversations s.clients.fresh new⟩, ?_, ⟨hinv, hnextp, ?_, ?_, ?_⟩, ?_⟩
  · rw [EventLoop.ctrlAcceptConn, if_pos ⟨hfd, hflags⟩]
    show (s.clients.appendVal new.ctrl >>= _) = _
    rw [happ]
    rfl
  · intro a ha
    show clients.val? a = some (Function.update s.conversations s.clients.fresh new a).ctrl
    rw [hval]
    rcases List.mem_append.mp ha with ha | ha
    · rw [Function.update_of_ne (hne ha), Function.update_of_ne (hne ha)]
      exact h.client a ha
    · obtain rfl := List.mem_singleton.mp ha
      rw [Function.update_self, Function.update_self]
  · intro a ha hopen
    by_cases hnew : a = s.clients.fresh
    · exact List.mem_append_right _ (List.mem_singleton.mpr hnew)
    · refine List.mem_append_left _ (h.listed a (hold ha hnew) ?_)
      rwa [← Function.update_of_ne hnew new s.conversations]
  · intro a ha
    show Reached svclist (Function.update s.conversations s.clients.fresh new a)
    by_cases hnew : a = s.clients.fresh
    · rw [hnew, Function.update_self]
      exact reached_new svclist conn.fd conn.connFd
    · rw [Function.update_of_ne hnew]
      exact h.reached a (hold ha hnew)
  · intro a ha
    show ¬(Function.update s.conversations s.clients.fresh new a).ctrl.Closed
    rcases List.mem_append.mp ha with ha | ha
    · rw [Function.update_of_ne (hne ha)]
      exact hopen a ha
    · obtain rfl := List.mem_singleton.mp ha
      rwa [Function.update_self]

theorem EventLoop.Serving.upkNetEventDispatcher (h : s.Serving svclist l) (hopen : s.AllOpen l)
    (hready : ∀ a ∈ l, (d.ready a).Orderly svclist d.buddies (s.conversations a)) :
    ∃ s', s.upkNetEventDispatcher svclist d = some s' ∧ s'.Serving svclist l := by
  -- the connections that are left to serve are as they were
  let J (rest : List Addr) (val : Addr → Option (Client CtrlCallback Unit)) (cs : Addr → Conversation) : Prop :=
    rest.Nodup ∧ (∀ a ∈ rest, a ∈ l ∧ cs a = s.conversations a) ∧ (∀ a ∈ l, val a = some (cs a).ctrl) ∧
      (∀ a < s.clients.fresh, ¬(cs a).ctrl.Closed → a ∈ l) ∧ ∀ a < s.clients.fresh, Reached svclist (cs a)
  have hvisit : ∀ a rest val cs v, J (a :: rest) val cs → val a = some v →
      ∃ v' cs', serveClient svclist d cs a v = some (v', cs') ∧ J rest (Function.update val a (some v')) cs' := by
    rintro a rest val cs v ⟨hnodup, hrest, hval, hlisted, hreached⟩ hv
    obtain ⟨ha, hsame⟩ := hrest a List.mem_cons_self
    obtain ⟨hnot, hnodup⟩ := List.nodup_cons.mp hnodup
    obtain rfl : v = (cs a).ctrl := Option.some.inj (hv.symm.trans (hval a ha))
    obtain ⟨c, hc, hcreached⟩ : ∃ c, (cs a).dispatch svclist d.buddies d.writefds (d.ready a) = some c ∧
        Reached svclist c := by
      rw [hsame]
      exact (h.reached a (h.inv.fresh a ha)).dispatch (hopen a ha) (hready a ha)
    refine ⟨c.ctrl, Function.update cs a c, ?_, hnodup, ?_, ?_, ?_, ?_⟩
    · show ((cs a).dispatch svclist d.buddies d.writefds (d.ready a) >>= _) = _
      rw [hc]
      rfl
    · intro x hx
      rw [Function.update_of_ne (ne_of_mem_of_not_mem hx hnot)]
      exact hrest x (List.mem_cons_of_mem _ hx)
    · intro x hx
      by_cases hxa : x = a
      · rw [hxa, Function.update_self, Function.update_self]
      · rw [Function.update_of_ne hxa, Function.update_of_ne hxa]
        exact hval x hx
    · intro x hx hopen
      by_cases hxa : x = a
      · rwa [hxa]
      · rw [Function.update_of_ne hxa] at hopen
        exact hlisted x hx hopen
    · intro x hx
      by_cases hxa : x = a
      · rwa [hxa, Function.update_self]
      · rw [Function.update_of_ne hxa]
        exact hreached x hx
  have hstart : J l s.clients.val? s.conversations :=
    ⟨h.inv.nodup, fun a ha => ⟨ha, rfl⟩, h.client, h.listed, h.reached⟩
  obtain ⟨clients, cs, hrun, hinv, hnextp, hfresh, -, -, -, hval, hlisted, hreached⟩ :=
    UpkList.foreach_updating hvisit h.inv (Nat.lt_succ_self _) hstart
  refine ⟨⟨clients, cs⟩, ?_, hinv, hnextp, hval, ?_, ?_⟩
  · rw [EventLoop.upkNetEventDispatcher, hrun]
    rfl
  · rw [hfresh]
    exact hlisted
  · rw [hfresh]
    exact hreached

theorem EventLoop.Serving.flushClosedSockets (h : s.Serving svclist l)
    (hspaced : Spaced (s.clients.selected ctrlClosed) l) :
    ∃ s' l', s.flushClosedSockets = some s' ∧ s'.Serving svclist l' ∧ s'.AllOpen l' := by
  obtain ⟨clients, hrun, -⟩ :=
    UpkList.foreach_unlinkIf (fun w _ _ => w) () ctrlClosed h.inv.toRep (Nat.lt_succ_of_le h.inv.length_le_fresh)
  obtain ⟨hinv, hnextp, hfilter⟩ := UpkList.foreach_unlinkIf_inv (fun w _ _ => w) () h.inv hspaced
    (Nat.lt_succ_of_le h.inv.length_le_fresh) hrun
  have hfresh : clients.fresh = s.clients.fresh := UpkList.fresh_foreach_unlinkIf _ () hrun
  have hselected {a : Addr} (ha : a ∈ l) :
      s.clients.selected ctrlClosed a = true ↔ (s.conversations a).ctrl.Closed := by
    rw [UpkList.selected, h.client a ha]
    exact decide_eq_true_iff
  have hmem {a : Addr} : a ∈ (l.filter fun a => !s.clients.selected ctrlClosed a) ↔
      a ∈ l ∧ ¬(s.conversations a).ctrl.Closed := by
    rw [List.mem_filter]
    refine and_congr_right fun ha => ?_
    rw [← hselected ha, Bool.not_eq_true, Bool.not_eq_true']
  refine ⟨{ s with clients := clients }, _, ?_, ⟨hinv, hnextp, ?_, ?_, ?_⟩, fun a ha => (hmem.mp ha).2⟩
  · rw [EventLoop.flushClosedSockets, hrun]
    rfl
  · intro a ha
    obtain ⟨ha, hopen⟩ := hmem.mp ha
    rw [hfilter.val a ha (Bool.not_eq_true _ ▸ mt (hselected ha).mp hopen)]
    exact h.client a ha
  · intro a ha hopen
    exact hmem.mpr ⟨h.listed a (hfresh ▸ ha) hopen, hopen⟩
  · intro a ha
    exact h.reached a (hfresh ▸ ha)

theorem EventLoop.Serving.loopTurn {conn : Option Accepted} {d : Option Dispatch} (h : s.Serving svclist l)
    (hopen : s.AllOpen l) (ho : s.Orderly svclist (.turn conn d)) :
    ∃ s' l', s.step svclist (.turn conn d) = some s' ∧ s'.Serving svclist l' ∧ s'.AllOpen l' := by
  obtain ⟨hconn, hrest⟩ := ho
  obtain ⟨s₁, l₁, hs₁, h₁, hopen₁⟩ : ∃ s₁ l₁, conn.elim (some s) s.ctrlAcceptConn = some s₁ ∧
      s₁.Serving svclist l₁ ∧ s₁.AllOpen l₁ := by
    cases conn with
    | none => exact ⟨s, l, rfl, h, hopen⟩
    | some conn =>
      obtain ⟨hcount, hfd, hflags⟩ := hconn conn rfl
      obtain ⟨s₁, hs₁, h₁⟩ := h.ctrlAcceptConn hopen hcount hfd hflags
      exact ⟨s₁, _, hs₁, h₁⟩
  obtain ⟨hready, hspaced⟩ := hrest s₁ hs₁
  rw [h₁.inv.nodes_eq] at hready
  obtain ⟨s₂, hs₂, h₂⟩ : ∃ s₂, d.elim (some s₁) (fun d => s₁.upkNetEventDispatcher svclist d) = some s₂ ∧
      s₂.Serving svclist l₁ := by
    cases d with
    | none => exact ⟨s₁, rfl, h₁⟩
    | some d => exact h₁.upkNetEventDispatcher hopen₁ (hready d rfl)
  have hspaced := hspaced s₂ hs₂
  rw [h₂.inv.nodes_eq] at hspaced
  obtain ⟨s₃, l₃, hs₃, h₃⟩ := h₂.flushClosedSockets hspaced
  refine ⟨s₃, l₃, ?_, h₃⟩
  rw [EventLoop.step, EventLoop.turn, hs₁, Option.bind_eq_bind, Option.bind_some, hs₂, Option.bind_some, hs₃]

/-! ### Whole runs -/

/-- A client connects, asks to be disconnected, and writes the request. -/
def connecting : List LoopInput :=
  [.turn (some ⟨5, 6, 2⟩) none, .client 0 (.call .disconnect), .client 0 (.clientWrite (.taken 24))]

end Upkeeper
