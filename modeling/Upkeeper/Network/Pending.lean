import Mathlib.Algebra.Order.BigOperators.Group.List
import Mathlib.Algebra.Order.Group.Nat
import Upkeeper.Network.Handles
import Upkeeper.Network.Write
/-!
# Counting what waits to be written (`pending_writeq`)

All connections of a list of handles share one counter: `upk_queue_packet` increments it, and `upk_write_packets`
decrements it when a message is complete. A run calls the functions in any order, with the cursor of the list wherever a
pass has left it. The counter is right as long as `upk_net_flush_closed_sockets` finds nothing in the queues of the
connections that it drops, and no message is unlinked from a queue that holds another one (`pendingWriteq_counts`).
-/

namespace Upkeeper

open UpkList (Spaced Modified)

variable {κ σ : Type}

/-! ### The functions on a list of connections -/

instance : Inhabited (ConnHandle κ) where
  default :=
    { fd := 0, lastPktData := none, state := none, readbuf := .zero _, nHdrBytesRead := 0, nRemainingRead := 0,
      writeq := .init, userdata := none, userdataFreeFunc := none }

/-- `upk_conn_handle_meta_t` with its global state, and what surrounds it -/
structure ConnHandles (κ σ : Type) where
  handles : UpkList (ConnHandle κ)
  callbackStack : List (CbStk κ)
  globalUserdata : Option Addr
  pendingWriteq : UInt64
  errno : Errno
  world : σ

/-- One connection, with what all of them share -/
def ConnHandles.net (s : ConnHandles κ σ) (h : ConnHandle κ) : Net κ σ :=
  { h with pendingWriteq := s.pendingWriteq, errno := s.errno, world := s.world, calls := [], sent := [] }

/-- A function on the connection that a pointer points to -/
def ConnHandles.onHandle (p : Option Addr) (f : Net κ σ → Option (Net κ σ)) (s : ConnHandles κ σ) :
    Option (ConnHandles κ σ) := do
  let h ← p >>= s.handles.val?
  let net ← f (s.net h)
  let q ← s.handles.modifyVal p fun _ => net.toConnHandle
  some { s with handles := q, pendingWriteq := net.pendingWriteq, errno := net.errno, world := net.world }

/-- `upk_net_add_socket_handle`, when `fcntl` returns `sockopts` -/
def upkNetAddSocketHandle (fd sockopts : Int) (s : ConnHandles κ σ) : Option (ConnHandles κ σ × Bool) :=
  if 0 < fd ∧ sockopts ≠ 0 then do
    let q ← s.handles.append
    let q ← q.modifyVal q.thisp fun h =>
      { h with userdata := s.globalUserdata, state := some s.callbackStack.head?.toList, fd := fd }
    some ({ s with handles := q }, true)
  else some (s, false)

/-- A call of a function on the connections, or a move of the cursor of their list -/
inductive NetCall (κ : Type)
  | foreachInit
  | foreachContinue
  | addSocketHandle (fd sockopts : Int)
  | queuePacket (handle : Option Addr) (pkt : Packet) (afterWriteCallback : Option κ)
  | writePackets (r : WriteResult)
  | disconnectHandle
  | flushClosedSockets

/-- One call -/
def ConnHandles.step (cb : Callbacks κ σ) (s : ConnHandles κ σ) : NetCall κ → Option (ConnHandles κ σ)
  | .foreachInit => s.handles.foreachInit.map fun q => { s with handles := q }
  | .foreachContinue => s.handles.foreachContinue.map fun q => { s with handles := q }
  | .addSocketHandle fd sockopts => (upkNetAddSocketHandle fd sockopts s).map Prod.fst
  | .queuePacket handle pkt k => s.onHandle handle fun net => (upkQueuePacket pkt k net).toOption
  | .writePackets r => s.onHandle s.handles.thisp fun net => (upkWritePackets cb r net).toOption
  | .disconnectHandle =>
    if s.handles.thisp = none then some s else s.onHandle s.handles.thisp fun net => some net.disconnect
  | .flushClosedSockets =>
    (upkNetFlushClosedSockets (s.handles.fresh + 1) s.handles).map fun out => { s with handles := out.1 }

/-- `writefds_p` of `upk_net_event_dispatcher`: whether it selects for writing -/
def ConnHandles.selectsWriting (s : ConnHandles κ σ) : Bool := 0 < s.pendingWriteq

/-! ### What is counted -/

/-- The messages that are queued on a connection -/
def messagesAt (q : UpkList (ConnHandle κ)) (a : Addr) : Nat :=
  ((q.val? a).map fun h => h.writeq.nodes.length).getD 0

/-- The messages that are queued on the connections in the list -/
def ConnHandles.unsent (s : ConnHandles κ σ) : Nat := (s.handles.nodes.map (messagesAt s.handles)).sum

/-- The counter counts the messages that are queued, and the dispatcher selects for writing exactly when there are
any. -/
structure ConnHandles.Counted (s : ConnHandles κ σ) : Prop where
  count : s.pendingWriteq.toNat = s.unsent
  selects : s.selectsWriting = true ↔ 0 < s.unsent

/-- The `size_t` that the result of a `write` is assigned to -/
def WriteResult.nWrite : WriteResult → UInt64
  | .taken k => .ofNat k
  | .fail _ => sizeMax

/-- The result of the `write` completes the message at the cursor of the queue. -/
def ConnHandle.completes (r : WriteResult) (h : ConnHandle κ) : Bool :=
  (h.writeq.thisp >>= h.writeq.val?).any fun m => m.nBytesWritten + r.nWrite == m.msgLen

/-- What a call needs for the counter: no counter is at its limit, a connection is added when no pass is under way, a
message that becomes complete is the only one in its queue, and the closed connections that are dropped are spaced and
have nothing in their queues. -/
def ConnHandles.Sound (s : ConnHandles κ σ) : NetCall κ → Prop
  | .addSocketHandle _ _ => s.handles.nextp = none ∧ s.handles.count ≠ 0xffffffff
  | .queuePacket handle _ _ =>
    s.pendingWriteq ≠ sizeMax ∧ ∀ h ∈ handle >>= s.handles.val?, h.writeq.count ≠ 0xffffffff
  | .writePackets r =>
    ∀ h ∈ s.handles.thisp >>= s.handles.val?, h.completes r = true → h.writeq.nodes.length = 1
  | .flushClosedSockets =>
    Spaced (s.handles.selected isClosed) s.handles.nodes ∧
      ∀ a ∈ s.handles.nodes, s.handles.selected isClosed a = true → messagesAt s.handles a = 0
  | _ => True

instance ConnHandles.decidableSound (s : ConnHandles κ σ) : (c : NetCall κ) → Decidable (s.Sound c)
  | .addSocketHandle _ _ => inferInstanceAs (Decidable (_ ∧ _))
  | .queuePacket _ _ _ => inferInstanceAs (Decidable (_ ∧ _))
  | .writePackets r =>
    inferInstanceAs (Decidable (∀ h ∈ s.handles.thisp >>= s.handles.val?, h.completes r = true → h.writeq.nodes.length = 1))
  | .flushClosedSockets => inferInstanceAs (Decidable (_ ∧ _))
  | .foreachInit | .foreachContinue | .disconnectHandle => inferInstanceAs (Decidable True)

/-! ### The queue of a connection -/

/-- The queue holds the messages `l`, and its cursor is on the last one. -/
structure Lined (q : UpkList (NetMsg κ)) (l : List Addr) : Prop where
  inv : q.Inv l
  thisp : q.thisp = l.getLast?
  prevp : q.prevp = none
  nextp : q.nextp = none

variable {q q' : UpkList (NetMsg κ)} {l : List Addr} {a : Addr} {net net' : Net κ σ} {cb : Callbacks κ σ}

theorem Lined.append (h : Lined q l) (hcount : q.count ≠ 0xffffffff) :
    ∃ q', q.append = some q' ∧ q'.thisp = some q.fresh ∧ Lined q' (l ++ [q.fresh]) := by
  obtain ⟨q', hq', hinv⟩ := UpkList.append_inv h.inv h.nextp hcount
  obtain ⟨q'', hq'', hlink⟩ := UpkList.append_linked h.inv
  obtain rfl : q' = q'' := Option.some.inj (hq'.symm.trans hq'')
  refine ⟨q', hq', hlink.thisp, hinv, ?_, ?_, hlink.nextp.trans h.nextp⟩
  · rw [hlink.thisp, List.getLast?_concat]
  · refine Option.eq_none_iff_forall_not_mem.mpr fun x hx => ?_
    have hold := hlink.prevp x hx
    rw [h.prevp] at hold
    cases hold

theorem Lined.modify (h : Lined q l) (ha : a ∈ l) {f : NetMsg κ → NetMsg κ} (hq' : q.modifyVal (some a) f = some q') :
    Lined q' l := by
  obtain ⟨q'', hq'', hinv, hmod⟩ := UpkList.modifyVal_inv h.inv ha f
  obtain rfl : q' = q'' := Option.some.inj (hq'.symm.trans hq'')
  exact ⟨hinv, hmod.thisp.trans h.thisp, hmod.prevp.trans h.prevp, hmod.nextp.trans h.nextp⟩

theorem Lined.unlink (h : Lined q [a]) (hq' : q.unlink = some q') : Lined q' [] := by
  have hinv : q.Inv ([] ++ a :: []) := h.inv
  obtain ⟨q'', hq'', hinv'⟩ := UpkList.unlink_inv hinv h.thisp h.prevp h.nextp
  obtain rfl : q' = q'' := Option.some.inj (hq'.symm.trans hq'')
  obtain ⟨hprev, hthis, hnext⟩ := UpkList.Inv.cursor_nil hinv'
  exact ⟨hinv', hthis, hprev, hnext⟩

/-- How far the queue and the counter go together -/
def Balanced (net net' : Net κ σ) : Prop :=
  ∃ l', Lined net'.writeq l' ∧
    net'.pendingWriteq.toNat + net.writeq.nodes.length = net.pendingWriteq.toNat + l'.length

theorem toNat_add_one {c : UInt64} (h : c ≠ sizeMax) : (c + 1).toNat = c.toNat + 1 := by
  rw [Ne, ← UInt64.toNat_inj] at h
  have hmax : sizeMax.toNat = 2 ^ 64 - 1 := rfl
  have hlt : c.toNat < 2 ^ 64 := c.toNat_lt
  rw [UInt64.toNat_add, UInt64.toNat_one]
  omega

/-- **A packet is queued.** -/
theorem upkQueuePacket_balanced {pkt : Packet} {k : Option κ} (h : Lined net.writeq l)
    (hpending : net.pendingWriteq ≠ sizeMax) (hcount : net.writeq.count ≠ 0xffffffff)
    (hrun : upkQueuePacket pkt k net = .ok net') : Balanced net net' := by
  obtain ⟨q₁, hq₁, hthis, hlined₁⟩ := h.append hcount
  have hmem : net.writeq.fresh ∈ l ++ [net.writeq.fresh] := List.mem_append_right _ (List.mem_singleton_self _)
  unfold upkQueuePacket at hrun
  rw [orNull_bind hq₁] at hrun
  dsimp only at hrun
  rw [hthis] at hrun
  obtain ⟨q₂, hq₂, hrun⟩ := Wire.bind_eq_ok.mp hrun
  obtain ⟨⟨pkt', bufp⟩, -, hrun⟩ := Wire.bind_eq_ok.mp hrun
  obtain ⟨m, -, hrun⟩ := Wire.bind_eq_ok.mp hrun
  obtain ⟨m', -, hrun⟩ := Wire.bind_eq_ok.mp hrun
  obtain ⟨q₃, hq₃, hrun⟩ := Wire.bind_eq_ok.mp hrun
  have hlined₂ := hlined₁.modify hmem (orNull_eq_ok hq₂)
  have hlined₃ := hlined₂.modify hmem (orNull_eq_ok hq₃)
  obtain rfl := Except.ok.inj hrun
  refine ⟨_, hlined₃, ?_⟩
  rw [h.inv.nodes_eq, List.length_append, List.length_singleton]
  show (net.pendingWriteq + 1).toNat + _ = _
  rw [toNat_add_one hpending]
  omega

theorem Balanced.of_eq (h : Lined net.writeq l) (hwriteq : net'.writeq = net.writeq)
    (hpending : net'.pendingWriteq = net.pendingWriteq) : Balanced net net' := by
  refine ⟨l, hwriteq ▸ h, ?_⟩
  rw [h.inv.nodes_eq, hpending]

theorem sysWrite_ok {m : NetMsg κ} {off n : Nat} {r : WriteResult} {nWrite : UInt64}
    (h : sysWrite m off n r net = .ok (net', nWrite)) :
    nWrite = r.nWrite ∧ net'.writeq = net.writeq ∧ net'.pendingWriteq = net.pendingWriteq := by
  unfold sysWrite at h
  cases r with
  | taken k =>
    dsimp only at h
    split at h
    · cases h
    · split at h
      · cases h
      · obtain ⟨rfl, rfl⟩ := Prod.mk.inj (Except.ok.inj h)
        exact ⟨rfl, rfl, rfl⟩
  | fail e =>
    obtain ⟨rfl, rfl⟩ := Prod.mk.inj (Except.ok.inj h)
    exact ⟨rfl, rfl, rfl⟩

/-- **A complete message leaves the queue.** -/
theorem doneWriting_lined {m : NetMsg κ} (h : Lined net.writeq [a]) (hrun : doneWriting cb m net = .ok net') :
    Lined net'.writeq [] ∧ net'.pendingWriteq = net.pendingWriteq - 1 := by
  obtain ⟨q, hq, rfl⟩ := doneWriting_eq_ok.mp hrun
  exact ⟨h.unlink hq, rfl⟩

/-- **A message is written.** -/
theorem upkWritePackets_balanced {r : WriteResult} (h : Lined net.writeq l)
    (hpending : net.writeq.nodes.length ≤ net.pendingWriteq.toNat)
    (hsingle : net.toConnHandle.completes r = true → net.writeq.nodes.length = 1)
    (hrun : upkWritePackets cb r net = .ok net') : Balanced net net' := by
  have hidle : .ok net = (.ok net' : Except Halt (Net κ σ)) → Balanced net net' := by
    intro heq
    obtain rfl := Except.ok.inj heq
    exact .of_eq h rfl rfl
  unfold upkWritePackets at hrun
  by_cases hclosed : net.Closed
  · rw [if_pos hclosed] at hrun
    exact hidle hrun
  rw [if_neg hclosed] at hrun
  by_cases hcount : net.writeq.count < 1
  · rw [if_pos hcount] at hrun
    exact hidle hrun
  rw [if_neg hcount] at hrun
  cases hthis : net.writeq.thisp with
  | none =>
    rw [hthis] at hrun
    exact hidle hrun
  | some a =>
    rw [hthis] at hrun
    dsimp only at hrun
    have hmem : a ∈ l := List.mem_of_getLast? (h.thisp.symm.trans hthis)
    cases hval : net.writeq.val? a with
    | none =>
      rw [hval] at hrun
      cases hrun
    | some m =>
      rw [hval] at hrun
      dsimp only at hrun
      by_cases hleft : 0 < m.msgLen - m.nBytesWritten
      · rw [if_pos hleft] at hrun
        obtain ⟨⟨net₁, nWrite⟩, hwrite, hrun⟩ := Wire.bind_eq_ok.mp hrun
        obtain ⟨hn, hwriteq, hcounter⟩ := sysWrite_ok hwrite
        dsimp only at hrun
        by_cases hfail : nWrite < 1 ∧ (!net₁.errno.retry) = true
        · rw [if_pos hfail] at hrun
          obtain rfl := Except.ok.inj hrun
          exact .of_eq h hwriteq hcounter
        · rw [if_neg hfail] at hrun
          obtain ⟨q, hq, hrun⟩ := Wire.bind_eq_ok.mp hrun
          rw [hwriteq] at hq
          have hlined : Lined q l := h.modify hmem (orNull_eq_ok (Wire.mapError_eq_ok hq))
          by_cases hdone : m.nBytesWritten + nWrite = m.msgLen
          · rw [if_pos hdone] at hrun
            have hcompletes : net.toConnHandle.completes r = true := by
              unfold ConnHandle.completes
              rw [hthis]
              simp [hval, ← hn, hdone]
            -- it is the only one in its queue
            have hone := hsingle hcompletes
            rw [h.inv.nodes_eq] at hone hpending
            obtain ⟨x, rfl⟩ := List.length_eq_one_iff.mp hone
            obtain ⟨hlined', hcounter'⟩ := doneWriting_lined hlined (Wire.mapError_eq_ok hrun)
            refine ⟨[], hlined', ?_⟩
            rw [hcounter', h.inv.nodes_eq]
            show (net₁.pendingWriteq - 1).toNat + 1 = _ + 0
            have hle : (1 : UInt64) ≤ net.pendingWriteq := by
              rw [UInt64.le_iff_toNat_le]
              exact hpending
            rw [hcounter, UInt64.toNat_sub_of_le _ _ hle]
            have hpos : 1 ≤ net.pendingWriteq.toNat := hpending
            have hone' : (1 : UInt64).toNat = 1 := rfl
            omega
          · rw [if_neg hdone] at hrun
            obtain rfl := Except.ok.inj hrun
            refine ⟨l, hlined, ?_⟩
            rw [h.inv.nodes_eq]
            exact congrArg (·.toNat + l.length) hcounter
      · rw [if_neg hleft] at hrun
        exact hidle hrun

/-! ### All connections -/

theorem sum_map_update {ι : Type} {l : List ι} (hl : l.Nodup) {a : ι} (ha : a ∈ l) {f g : ι → Nat}
    (hfg : ∀ x ∈ l, x ≠ a → g x = f x) : (l.map g).sum + f a = (l.map f).sum + g a := by
  induction l with
  | nil => cases ha
  | cons x l ih =>
    obtain ⟨hx, hl⟩ := List.nodup_cons.mp hl
    simp only [List.map_cons, List.sum_cons]
    rcases List.mem_cons.mp ha with rfl | ha
    · have hrest : l.map g = l.map f :=
        List.map_congr_left fun y hy => hfg y (List.mem_cons_of_mem _ hy) (ne_of_mem_of_not_mem hy hx)
      rw [hrest]
      omega
    · have hrest := ih hl ha fun y hy => hfg y (List.mem_cons_of_mem _ hy)
      have hhead := hfg x List.mem_cons_self (ne_of_mem_of_not_mem ha hx).symm
      omega

theorem sum_map_filter {ι : Type} {l : List ι} {p : ι → Bool} {f : ι → Nat} (h : ∀ x ∈ l, p x = false → f x = 0) :
    ((l.filter p).map f).sum = (l.map f).sum := by
  induction l with
  | nil => rfl
  | cons x l ih =>
    have hrest := ih fun y hy => h y (List.mem_cons_of_mem _ hy)
    cases hp : p x with
    | true => simp [hp, hrest]
    | false => simp [hp, hrest, h x List.mem_cons_self hp]

/-- The connections `hs` are open or wait to be dropped, and the counter counts what is in their queues. -/
structure Counting (s : ConnHandles κ σ) (hs : List Addr) : Prop where
  inv : s.handles.Inv hs
  queues : ∀ a ∈ hs, ∀ h, s.handles.val? a = some h → ∃ l, Lined h.writeq l
  total : s.pendingWriteq.toNat = (hs.map (messagesAt s.handles)).sum

variable {s s' : ConnHandles κ σ} {hs : List Addr}

theorem Counting.counted (h : Counting s hs) : s.Counted := by
  have hcount : s.pendingWriteq.toNat = s.unsent := by
    unfold ConnHandles.unsent
    rw [h.inv.nodes_eq]
    exact h.total
  refine ⟨hcount, ?_⟩
  unfold ConnHandles.selectsWriting
  rw [decide_eq_true_iff, UInt64.lt_iff_toNat_lt, hcount]
  rfl

theorem messagesAt_le_sum {q : UpkList (ConnHandle κ)} {a : Addr} (ha : a ∈ hs) :
    messagesAt q a ≤ (hs.map (messagesAt q)).sum := List.le_sum_of_mem (List.mem_map_of_mem ha)

/-- **A function on one connection** that keeps the balance keeps the count. -/
theorem Counting.onHandle {p : Option Addr} {f : Net κ σ → Option (Net κ σ)} (h : Counting s hs)
    (hf : ∀ c l net', p >>= s.handles.val? = some c → Lined c.writeq l → c.writeq.nodes.length ≤ s.pendingWriteq.toNat →
      f (s.net c) = some net' → Balanced (s.net c) net')
    (hrun : s.onHandle p f = some s') : Counting s' hs := by
  unfold ConnHandles.onHandle at hrun
  obtain ⟨c, hc, hrun⟩ := Option.bind_eq_some_iff.mp hrun
  obtain ⟨net', hnet, hrun⟩ := Option.bind_eq_some_iff.mp hrun
  obtain ⟨q, hq, hrun⟩ := Option.bind_eq_some_iff.mp hrun
  obtain rfl := Option.some.inj hrun
  obtain ⟨a, rfl, hval⟩ := Option.bind_eq_some_iff.mp hc
  have ha : a ∈ hs := by
    obtain ⟨cell, hcell, -⟩ := Option.map_eq_some_iff.mp hval
    exact (h.inv.live a).mp ⟨cell.next, by rw [UpkList.next, hcell]; rfl⟩
  have hmess : messagesAt s.handles a = c.writeq.nodes.length := by rw [messagesAt, hval]; rfl
  obtain ⟨l, hlined⟩ := h.queues a ha c hval
  obtain ⟨l', hlined', hbalance⟩ := hf c l net' hc hlined (by rw [h.total, ← hmess]; exact messagesAt_le_sum ha) hnet
  obtain ⟨q', hq', hinv, -⟩ := UpkList.modifyVal_inv h.inv ha fun _ => net'.toConnHandle
  obtain rfl : q = q' := Option.some.inj (hq.symm.trans hq')
  have hvals : q.val? = Function.update s.handles.val? a (some net'.toConnHandle) := by
    rw [UpkList.val_modifyVal hq, hval]
    rfl
  have hmess' : messagesAt q a = l'.length := by
    unfold messagesAt
    rw [hvals, Function.update_self]
    exact congrArg List.length hlined'.inv.nodes_eq
  have hothers : ∀ x ∈ hs, x ≠ a → messagesAt q x = messagesAt s.handles x := by
    intro x _ hx
    unfold messagesAt
    rw [hvals, Function.update_of_ne hx]
  have hsum := sum_map_update h.inv.nodup ha hothers
  have htotal := h.total
  have hold : (s.net c).writeq.nodes.length = messagesAt s.handles a := hmess.symm
  refine ⟨hinv, fun x hx d hd => ?_, ?_⟩
  · dsimp only at hd
    rw [hvals] at hd
    by_cases hxa : x = a
    · subst hxa
      rw [Function.update_self] at hd
      obtain rfl := Option.some.inj hd
      exact ⟨l', hlined'⟩
    · rw [Function.update_of_ne hxa] at hd
      exact h.queues x hx d hd
  · have hpending : (s.net c).pendingWriteq.toNat = s.pendingWriteq.toNat := rfl
    dsimp only
    omega

theorem Counting.of_val {q : UpkList (ConnHandle κ)} (h : Counting s hs) (hinv : q.Inv hs)
    (hval : q.val? = s.handles.val?) : Counting { s with handles := q } hs := by
  have hmess : messagesAt q = messagesAt s.handles := by
    unfold messagesAt
    rw [hval]
  refine ⟨hinv, fun a ha c hc => h.queues a ha c ?_, ?_⟩
  · rw [← hval]
    exact hc
  · dsimp only
    rw [hmess]
    exact h.total

/-- **A connection is added.** -/
theorem Counting.addSocketHandle {fd sockopts : Int} {added : Bool} (h : Counting s hs) (hnext : s.handles.nextp = none)
    (hcount : s.handles.count ≠ 0xffffffff) (hrun : upkNetAddSocketHandle fd sockopts s = some (s', added)) :
    ∃ hs', Counting s' hs' := by
  unfold upkNetAddSocketHandle at hrun
  split at hrun
  · obtain ⟨q, hq, hinv⟩ := UpkList.append_inv h.inv hnext hcount
    obtain ⟨q', hq', hlink⟩ := UpkList.append_linked h.inv
    obtain rfl : q = q' := Option.some.inj (hq.symm.trans hq')
    rw [hq, Option.bind_eq_bind, Option.bind_some, hlink.thisp] at hrun
    obtain ⟨q₁, hq₁, hrun⟩ := Option.bind_eq_some_iff.mp hrun
    obtain ⟨rfl, -⟩ := Prod.mk.inj (Option.some.inj hrun)
    have hmem : s.handles.fresh ∈ hs ++ [s.handles.fresh] := List.mem_append_right _ (List.mem_singleton_self _)
    obtain ⟨q₂, hq₂, hinv₁, -⟩ := UpkList.modifyVal_inv hinv hmem fun c : ConnHandle κ =>
      { c with userdata := s.globalUserdata, state := some s.callbackStack.head?.toList, fd := fd }
    obtain rfl : q₁ = q₂ := Option.some.inj (hq₁.symm.trans hq₂)
    have hold : ∀ x ∈ hs, q₁.val? x = s.handles.val? x := by
      intro x hx
      have hne : x ≠ s.handles.fresh := ne_of_mem_of_not_mem hx h.inv.fresh_notMem
      rw [UpkList.val_modifyVal hq₁, Function.update_of_ne hne, UpkList.val_append hq, Function.update_of_ne hne]
    have hnew : ∃ c : ConnHandle κ, q₁.val? s.handles.fresh = some c ∧ c.writeq = .init := by
      rw [UpkList.val_modifyVal hq₁, Function.update_self, UpkList.val_append hq, Function.update_self]
      exact ⟨_, rfl, rfl⟩
    obtain ⟨c, hc, hempty⟩ := hnew
    refine ⟨_, hinv₁, fun x hx d hd => ?_, ?_⟩
    · rcases List.mem_append.mp hx with hx | hx
      · exact h.queues x hx d ((hold x hx).symm.trans hd)
      · rw [List.mem_singleton.mp hx] at hd
        obtain rfl := Option.some.inj (hc.symm.trans hd)
        exact ⟨[], by rw [hempty]; exact ⟨UpkList.init_inv, rfl, rfl, rfl⟩⟩
    · have hmess : hs.map (messagesAt q₁) = hs.map (messagesAt s.handles) := by
        refine List.map_congr_left fun x hx => ?_
        unfold messagesAt
        rw [hold x hx]
      have hzero : messagesAt q₁ s.handles.fresh = 0 := by
        unfold messagesAt
        rw [hc]
        simp only [Option.map_some, Option.getD_some, hempty]
        rfl
      dsimp only
      rw [List.map_append, List.sum_append, List.map_singleton, List.sum_singleton, hmess, hzero]
      exact h.total
  · obtain ⟨rfl, -⟩ := Prod.mk.inj (Option.some.inj hrun)
    exact ⟨hs, h⟩

/-- **The closed connections are dropped.** -/
theorem Counting.flushClosedSockets {q : UpkList (ConnHandle κ)} {w : List (Release κ)} (h : Counting s hs)
    (hsound : s.Sound .flushClosedSockets)
    (hrun : upkNetFlushClosedSockets (s.handles.fresh + 1) s.handles = some (q, w)) :
    ∃ hs', Counting { s with handles := q } hs' := by
  obtain ⟨hspaced, hempty⟩ := hsound
  rw [h.inv.nodes_eq] at hspaced hempty
  have hlen : hs.length < s.handles.fresh + 1 := Nat.lt_succ_of_le h.inv.length_le_fresh
  unfold upkNetFlushClosedSockets at hrun
  rw [flushClosed_eq] at hrun
  obtain ⟨hinv, -, hfilter⟩ := UpkList.foreach_unlinkIf_inv releaseClosed [] h.inv hspaced hlen hrun
  have hkept : ∀ x ∈ hs.filter fun a => !s.handles.selected isClosed a, q.val? x = s.handles.val? x := by
    intro x hx
    obtain ⟨hmem, hopen⟩ := List.mem_filter.mp hx
    exact hfilter.val x hmem (by simpa using hopen)
  refine ⟨_, hinv, fun x hx d hd => ?_, ?_⟩
  · exact h.queues x (List.mem_of_mem_filter hx) d ((hkept x hx).symm.trans hd)
  · have hmess : (hs.filter fun a => !s.handles.selected isClosed a).map (messagesAt q) =
        (hs.filter fun a => !s.handles.selected isClosed a).map (messagesAt s.handles) := by
      refine List.map_congr_left fun x hx => ?_
      unfold messagesAt
      rw [hkept x hx]
    dsimp only
    rw [hmess, sum_map_filter fun x hx hclosed => hempty x hx (by simpa using hclosed)]
    exact h.total

/-- **What one call does.** -/
theorem Counting.step (h : Counting s hs) (c : NetCall κ) (hsound : s.Sound c) (hrun : s.step cb c = some s') :
    ∃ hs', Counting s' hs' := by
  cases c with
  | foreachInit =>
    obtain ⟨q, hq, rfl⟩ := Option.map_eq_some_iff.mp hrun
    obtain ⟨q', hq', hinv⟩ := UpkList.foreachInit_inv h.inv
    obtain rfl : q = q' := Option.some.inj (hq.symm.trans hq')
    exact ⟨hs, h.of_val hinv (UpkList.val_foreachInit hq)⟩
  | foreachContinue =>
    obtain ⟨q, hq, rfl⟩ := Option.map_eq_some_iff.mp hrun
    obtain ⟨q', hq', hinv⟩ := UpkList.foreachContinue_inv h.inv
    obtain rfl : q = q' := Option.some.inj (hq.symm.trans hq')
    exact ⟨hs, h.of_val hinv (UpkList.val_foreachContinue hq)⟩
  | addSocketHandle fd sockopts =>
    obtain ⟨⟨s₁, added⟩, hadd, rfl⟩ := Option.map_eq_some_iff.mp hrun
    exact h.addSocketHandle hsound.1 hsound.2 hadd
  | queuePacket handle pkt k =>
    unfold ConnHandles.step at hrun
    refine ⟨hs, h.onHandle (fun d l net' hd hlined _ hnet => ?_) hrun⟩
    exact upkQueuePacket_balanced hlined hsound.1 (hsound.2 d hd) (Wire.toOption_eq_some hnet)
  | writePackets r =>
    unfold ConnHandles.step at hrun
    refine ⟨hs, h.onHandle (fun d l net' hd hlined hle hnet => ?_) hrun⟩
    exact upkWritePackets_balanced hlined hle (hsound d hd) (Wire.toOption_eq_some hnet)
  | disconnectHandle =>
    unfold ConnHandles.step at hrun
    dsimp only at hrun
    split at hrun
    · obtain rfl := Option.some.inj hrun
      exact ⟨hs, h⟩
    · refine ⟨hs, h.onHandle (fun d l net' _ hlined _ hnet => ?_) hrun⟩
      obtain rfl := Option.some.inj hnet
      exact .of_eq hlined rfl rfl
  | flushClosedSockets =>
    obtain ⟨⟨q, w⟩, hq, rfl⟩ := Option.map_eq_some_iff.mp hrun
    exact h.flushClosedSockets hsound hq

/-- A list of connections as `upk_net_conn_handles_init` makes it -/
def noConnections : ConnHandles Unit Unit where
  handles := .init
  callbackStack := []
  globalUserdata := none
  pendingWriteq := 0
  errno := .zero
  world := ()

/-- Two connections are added, a request is queued on each, one request is written in two pieces and its connection is
closed and dropped. -/
def twoConnections : List (NetCall Unit) :=
  [.addSocketHandle 5 2, .addSocketHandle 6 2, .queuePacket (some 0) reqList none, .queuePacket (some 1) reqList none,
    .foreachInit, .writePackets (.taken 10), .writePackets (.taken 14), .disconnectHandle, .flushClosedSockets]

/-- A connection is closed with a request in its queue, and dropped. -/
def closedConnection : List (NetCall Unit) :=
  [.addSocketHandle 5 2, .queuePacket (some 0) reqList none, .disconnectHandle, .flushClosedSockets]

end Upkeeper
