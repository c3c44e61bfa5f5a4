import Upkeeper.Buddy.Acknowledge
import Upkeeper.Library.Chain
import Upkeeper.Library.Machine
import Mathlib.Algebra.Ring.Nat
/-!
# The ring in memory (`buddy_init_ringbuffer`, `buddy_free_ringbuffer`)

The ring is made of nodes, and `info_ringbuffer` points to one of them. `Ring R l slots`: from there the `next` pointers
lead through the nodes `l`, which hold `slots`, and back. What buddy does to the nodes is what the functions on the list
of slots do to that list, for as long as it runs; it sends the same records to the controller, and then all nodes can be
freed (`linked_implements`).
-/

namespace Upkeeper

open Chain (Seg)

/-- A node of the ring: `buddy_info_t` with `slot_n` and `next`, which is an address or `none` for `NULL` -/
structure InfoNode where
  info : BuddyInfo
  slotN : UInt64
  next : Option Nat

/-- The nodes, and `info_ringbuffer`. `calloc` hands out `fresh`. -/
structure Nodes where
  heap : Nat → Option InfoNode
  fresh : Nat
  current : Option Nat

/-! ### The functions -/

namespace Nodes

/-- The pointer held by a node -/
def next (R : Nodes) (a : Nat) : Option (Option Nat) := (R.heap a).map InfoNode.next

/-- No node -/
def empty : Nodes := ⟨fun _ => none, 0, none⟩

/-- `calloc(1, sizeof(buddy_info_t))` -/
def alloc (R : Nodes) : Nodes × Nat :=
  ({ R with heap := Function.update R.heap R.fresh (some ⟨.zero, 0, none⟩), fresh := R.fresh + 1 }, R.fresh)

/-- The node behind `info_ringbuffer` -/
def read (R : Nodes) : Option InfoNode := do
  let a ← R.current
  R.heap a

/-- `info_ringbuffer->field = …` -/
def write (R : Nodes) (f : InfoNode → InfoNode) : Option Nodes := do
  let a ← R.current
  let c ← R.heap a
  some { R with heap := Function.update R.heap a (some (f c)) }

/-- `info_ringbuffer = info_ringbuffer->next` -/
def advance (R : Nodes) : Option Nodes := do
  let c ← R.read
  some { R with current := c.next }

/-- The loop of `buddy_init_ringbuffer`. Its counter is a `uint32_t`. -/
def initLoop (ringbufferSize : UInt64) : Nat → UInt32 → Nodes → Option Nodes
  | 0, _, _ => none
  | fuel + 1, n, R =>
    if n.toUInt64 < ringbufferSize then do
      let R ← R.alloc.1.write fun c => { c with next := some R.alloc.2 }
      let R ← R.write fun c => { c with slotN := n.toUInt64 }
      let R ← R.advance
      initLoop ringbufferSize fuel (n + 1) R
    else some R

/-- `buddy_init_ringbuffer` -/
def buddyInitRingbuffer (ringbufferSize : UInt64) : Option Nodes := do
  let (R, firstNode) := empty.alloc
  let R ← { R with current := some firstNode }.write fun c => { c with slotN := 0 }
  let R ← initLoop ringbufferSize (ringbufferSize.toNat + 1) 1 R
  R.write fun c => { c with next := some firstNode }

/-- The loop of `buddy_free_ringbuffer` -/
def freeLoop (ringbufferSize : UInt64) : Nat → UInt32 → Nodes → Option Nodes
  | 0, _, _ => none
  | fuel + 1, n, R =>
    if n.toUInt64 < ringbufferSize then do
      let a ← R.current
      let c ← R.heap a
      freeLoop ringbufferSize fuel (n + 1) { R with heap := Function.update R.heap a none, current := c.next }
    else some R

/-- `buddy_free_ringbuffer` -/
def buddyFreeRingbuffer (ringbufferSize : UInt64) (R : Nodes) : Option Nodes := do
  let R ← freeLoop ringbufferSize (ringbufferSize.toNat + 1) 0 R
  some { R with current := none }

end Nodes

/-- Buddy with its ring in memory. The list of slots among `vars` is not used. -/
structure LinkedBuddy where
  nodes : Nodes
  vars : Buddy

/-- What a flush sends: the slot, the outcomes of the calls, and whether it is cleared -/
structure SentInfo where
  info : BuddyInfo
  exchange : Exchange
  cleared : Bool

/-- What has been sent, without the state of buddy before -/
def sentOf (offers : List Offer) : List SentInfo := offers.map fun e => ⟨e.info, e.exchange, e.cleared⟩

namespace LinkedBuddy

/-- Assign to fields of the current node. -/
def setCurrent (f : BuddyInfo → BuddyInfo) (s : LinkedBuddy) : Option LinkedBuddy := do
  let nodes ← s.nodes.write fun c => { c with info := f c.info }
  some { s with nodes }

/-- `info_ringbuffer = info_ringbuffer->next` -/
def advance (s : LinkedBuddy) : Option LinkedBuddy := do
  let nodes ← s.nodes.advance
  some { s with nodes }

/-- `buddy_zero_info`. The `memset` stops before `slot_n` and `next`. -/
def buddyZeroInfo (s : LinkedBuddy) : Option LinkedBuddy := do
  let c ← s.nodes.read
  let vars := { s.vars with ringbufferPending := Buddy.pendingAfterZero c.info s.vars.ringbufferPending }
  LinkedBuddy.setCurrent (fun _ => .zero) { s with vars }

/-- `buddy_record_state`, at the time `now` -/
def buddyRecordState (size : Nat) (now : Int) (s : LinkedBuddy) : Option LinkedBuddy := do
  let s ← s.buddyZeroInfo
  let vars := { s.vars with
    ringbufferPending := if size ≤ s.vars.ringbufferPending then size else s.vars.ringbufferPending + 1 }
  LinkedBuddy.setCurrent (fun info =>
    { info with
      uuid := vars.uuid, servicePid := vars.procPid, command := vars.lastCommand, desiredState := vars.desiredState
      timestamp := now, populated := true }) { s with vars }

/-- The body of the loop of `sa_sigaction_func` -/
def reap (size : Nat) (si : Siginfo) (z : Reaped) (s : LinkedBuddy) : Option LinkedBuddy := do
  let s ← { s with vars := s.vars.noteTerminated z }.buddyRecordState size z.now
  let s ← s.setCurrent fun info => { info with siginfo := si, waitPid := z.pid, waitStatus := z.status }
  s.advance

/-- The recording in `buddy_start_proc` -/
def recordStart (size : Nat) (now : Int) (s : LinkedBuddy) : Option LinkedBuddy := do
  let s ← s.buddyRecordState size now
  s.advance

variable {ω : Type} (o : Outside ω)

/-- The loop of `buddy_flush_ringbuffer`: `do { … } while(info_ringbuffer != thisp)` -/
def flushLoop (thisp : Option Nat) : Nat → LinkedBuddy → ω → Option (List SentInfo × LinkedBuddy × ω)
  | 0, _, _ => none
  | fuel + 1, s, w => do
    let c ← s.nodes.read
    if c.info.populated then
      let info := s.vars.withRemaining c.info
      let s ← s.setCurrent s.vars.withRemaining
      let answer := o.exchange (decide (0 < s.vars.ctrlfd)) info w
      let tested := s.vars.exchange answer.1
      let s := { s with vars := tested.2 }
      if tested.1 then
        let s ← s.buddyZeroInfo
        let s ← s.advance
        let (sent, s, w) ← if s.nodes.current ≠ thisp then flushLoop thisp fuel s answer.2 else some ([], s, answer.2)
        some (⟨info, answer.1, true⟩ :: sent, s, w)
      else some ([⟨info, answer.1, false⟩], { s with nodes := { s.nodes with current := thisp } }, answer.2)
    else
      let s ← s.advance
      if s.nodes.current ≠ thisp then flushLoop thisp fuel s w else some ([], s, w)

/-- `sigprocmask(SIG_BLOCK, &sigset, &oldset)`, with all signals in the set -/
def blocked (v : Buddy) : Buddy := { v with mask := v.mask ∪ Finset.univ }

/-- The end of a flush: `errno = 0`, `buddy_disconnect(0)` and `sigprocmask(SIG_SETMASK, &oldset, NULL)` -/
def closed (oldset : SigSet) (v : Buddy) : Buddy :=
  { ({ v with errno := .zero }.buddyDisconnect 0).2 with mask := oldset }

/-- The part of `buddy_flush_ringbuffer` in which all signals are blocked -/
def flushConnected (s : LinkedBuddy) (w : ω) : Option (List SentInfo × LinkedBuddy × ω) := do
  let oldset := s.vars.mask
  let thisp := s.nodes.current
  let (sent, s, w) ← flushLoop o thisp (s.nodes.fresh + 1) { s with vars := blocked s.vars } w
  some (sent, { s with vars := closed oldset s.vars }, w)

end LinkedBuddy

/-! ### The ring -/

/-- **The nodes form a ring:** from `info_ringbuffer` on, `next` leads through the nodes `l`, which hold `slots`, and
back, and there are no other nodes. -/
structure Ring (R : Nodes) (l : List Nat) (slots : List BuddyInfo) : Prop where
  nodup : l.Nodup
  chain : Seg R.next R.current l R.current
  slots : l.map (fun a => (R.heap a).map InfoNode.info) = slots.map some
  live : ∀ a, R.heap a ≠ none ↔ a ∈ l
  fresh : ∀ a ∈ l, a < R.fresh

namespace Ring

variable {R R' : Nodes} {l : List Nat} {a : Nat} {slots rest : List BuddyInfo} {cur : BuddyInfo}

theorem length_eq (h : Ring R l slots) : l.length = slots.length := by
  have hlen := congrArg List.length h.slots
  rwa [List.length_map, List.length_map] at hlen

theorem length_le (h : Ring R l slots) : l.length ≤ R.fresh := by
  have hsub : l ⊆ List.range R.fresh := fun a ha => List.mem_range.mpr (h.fresh a ha)
  have hle := (h.nodup.subperm hsub).length_le
  rwa [List.length_range] at hle

theorem uncons (h : Ring R (a :: l) (cur :: rest)) :
    R.current = some a ∧ (∃ c, R.heap a = some c ∧ c.info = cur) ∧
      l.map (fun a => (R.heap a).map InfoNode.info) = rest.map some := by
  have hslots := h.slots
  obtain ⟨hcell, hrest⟩ := List.cons.inj hslots
  exact ⟨h.chain.head_eq, Option.map_eq_some_iff.mp hcell, hrest⟩

theorem exists_cons (h : Ring R l (cur :: rest)) : ∃ a l', l = a :: l' := by
  have hlen := h.length_eq
  cases l with
  | nil => cases hlen
  | cons a l' => exact ⟨a, l', rfl⟩

theorem write (h : Ring R (a :: l) (cur :: rest)) (f : BuddyInfo → BuddyInfo) :
    ∃ R', R.write (fun c => { c with info := f c.info }) = some R' ∧ Ring R' (a :: l) (f cur :: rest) ∧
      R'.current = R.current := by
  obtain ⟨hcurrent, ⟨c, hc, rfl⟩, hrest⟩ := h.uncons
  have hnot : a ∉ l := (List.nodup_cons.mp h.nodup).1
  let R' : Nodes := { R with heap := Function.update R.heap a (some { c with info := f c.info }) }
  have hnext : R'.next = R.next := by
    funext x
    by_cases hx : x = a
    · simp [R', Nodes.next, hx, hc]
    · simp [R', Nodes.next, hx]
  refine ⟨R', ?_, ⟨h.nodup, ?_, ?_, fun x => ?_, h.fresh⟩, rfl⟩
  · simp only [Nodes.write, hcurrent, hc, Option.bind_eq_bind, Option.bind_some, R']
  · rw [hnext]
    exact h.chain
  · rw [List.map_cons, List.map_cons, ← hrest]
    refine congrArg₂ List.cons (by simp [R']) (List.map_congr_left fun x hx => ?_)
    simp only [R', Function.update_of_ne (ne_of_mem_of_not_mem hx hnot)]
  · rw [← h.live x]
    by_cases hx : x = a
    · simp [R', hx, hc]
    · simp [R', hx]

theorem advance (h : Ring R (a :: l) (cur :: rest)) :
    ∃ n, R.advance = some { R with current := n } ∧ Ring { R with current := n } (l ++ [a]) (rest ++ [cur]) := by
  obtain ⟨hcurrent, ⟨c, hc, rfl⟩, hrest⟩ := h.uncons
  obtain ⟨n, hn, hchain⟩ := h.chain.turn
  obtain rfl : c.next = n := by
    rw [Nodes.next, hc] at hn
    exact Option.some.inj hn
  have hperm := List.perm_append_singleton a l
  refine ⟨c.next, ?_, ⟨hperm.nodup_iff.mpr h.nodup, hchain, ?_, fun x => ?_, fun x hx => ?_⟩⟩
  · simp only [Nodes.advance, Nodes.read, hcurrent, hc, Option.bind_eq_bind, Option.bind_some]
  · rw [List.map_append, List.map_append, hrest]
    simp only [List.map_cons, List.map_nil, hc, Option.map_some]
  · rw [h.live x, hperm.mem_iff]
  · exact h.fresh x (hperm.mem_iff.mp hx)

theorem current_eq (h : Ring R l slots) : R.current = l.head? ∨ l = [] := by
  cases l with
  | nil => exact Or.inr rfl
  | cons a l => exact Or.inl h.chain.head_eq

theorem current_ne {todo past : List Nat} (h : Ring R (todo ++ past) slots) (hpast : past ≠ []) (htodo : todo ≠ []) :
    R.current ≠ (past ++ todo).head? := by
  obtain ⟨a, todo, rfl⟩ := List.exists_cons_of_ne_nil htodo
  obtain ⟨p, past, rfl⟩ := List.exists_cons_of_ne_nil hpast
  rw [show R.current = some a from h.chain.head_eq]
  intro hsame
  obtain rfl : a = p := Option.some.inj hsame
  exact (List.nodup_cons.mp h.nodup).1 (List.mem_append_right _ List.mem_cons_self)

theorem rotate (l₁ l₂ : List Nat) (h : Ring R (l₁ ++ l₂) slots) (hne : l₁ ++ l₂ ≠ []) :
    Ring { R with current := (l₂ ++ l₁).head? } (l₂ ++ l₁) (slots.rotate l₁.length) := by
  induction l₁ generalizing R l₂ slots with
  | nil =>
    obtain ⟨a, l, rfl⟩ := List.exists_cons_of_ne_nil hne
    have hcurrent : R.current = some a := h.chain.head_eq
    have hsame : { R with current := (a :: l).head? } = R := by rw [List.head?_cons, ← hcurrent]
    rw [List.append_nil, hsame, List.length_nil, List.rotate_zero]
    exact h
  | cons a l₁ ih =>
    have hlen := h.length_eq
    cases slots with
    | nil => cases hlen
    | cons cur rest =>
      obtain ⟨n, -, hring⟩ := h.advance
      have hassoc : l₁ ++ l₂ ++ [a] = l₁ ++ (l₂ ++ [a]) := List.append_assoc l₁ l₂ [a]
      have hring' := ih (l₂ ++ [a]) (hassoc ▸ hring) (by simp)
      rw [List.append_assoc, List.singleton_append] at hring'
      rw [List.length_cons, List.rotate_cons_succ]
      exact hring'

end Ring

/-! ### Making the ring -/

namespace Nodes

/-- The first `k + 1` nodes, one behind the other. `info_ringbuffer` points to the last one. -/
def row (k : Nat) : Nodes where
  heap a :=
    if a < k then some ⟨.zero, UInt64.ofNat (a + 1), some (a + 1)⟩
    else if a = k then some ⟨.zero, 0, none⟩
    else none
  fresh := k + 1
  current := some k

theorem row_succ (k : Nat) (n : UInt64) (hn : n = UInt64.ofNat (k + 1)) :
    ((row k).alloc.1.write fun c => { c with next := some (row k).alloc.2 }).bind (fun R =>
      (R.write fun c => { c with slotN := n }).bind advance) = some (row (k + 1)) := by
  have hheap : Function.update (Function.update (Function.update (row k).heap (k + 1) (some ⟨.zero, 0, none⟩)) k
      (some ⟨.zero, 0, some (k + 1)⟩)) k (some ⟨.zero, n, some (k + 1)⟩) = (row (k + 1)).heap := by
    funext a
    by_cases ha : a = k
    · simp [row, ha, hn]
    · by_cases hlast : a = k + 1
      · simp [row, hlast]
      · have hlt : a < k + 1 ↔ a < k := by omega
        simp only [Function.update_of_ne ha, Function.update_of_ne hlast, row, hlt, ha, hlast, if_false]
  have hcell : (row k).heap k = some ⟨.zero, 0, none⟩ := by simp [row]
  have hself : Function.update (row k).heap (k + 1) (some (InfoNode.mk .zero 0 none)) k = some ⟨.zero, 0, none⟩ := by
    rw [Function.update_of_ne (by omega), hcell]
  simp only [alloc, write, advance, read, show (row k).fresh = k + 1 from rfl, show (row k).current = some k from rfl,
    hself, hheap, Option.bind_eq_bind, Option.bind_some, Function.update_self]
  simp only [row, Nat.lt_succ_self, if_true, Option.bind_some]

theorem initLoop_row {size : UInt64} (hsize : size.toNat < 2 ^ 32) (fuel k : Nat) (hk : k < size.toNat)
    (hfuel : size.toNat ≤ fuel + k) :
    initLoop size fuel (UInt32.ofNat (k + 1)) (row k) = some (row (size.toNat - 1)) := by
  induction fuel generalizing k with
  | zero => omega
  | succ fuel ih =>
    have hn : (UInt32.ofNat (k + 1)).toUInt64 = UInt64.ofNat (k + 1) := by
      rw [← UInt64.toNat_inj, UInt32.toNat_toUInt64, UInt32.toNat_ofNat', UInt64.toNat_ofNat']
      omega
    have hlt : (UInt32.ofNat (k + 1)).toUInt64 < size ↔ k + 1 < size.toNat := by
      rw [hn, UInt64.lt_iff_toNat_lt, UInt64.toNat_ofNat', Nat.mod_eq_of_lt (by omega)]
    unfold initLoop
    by_cases hlast : k + 1 < size.toNat
    · have hcount : UInt32.ofNat (k + 1) + 1 = UInt32.ofNat (k + 1 + 1) := UInt32.ofNat_add (k + 1) 1 ▸ rfl
      have hrest := ih (k + 1) hlast (by omega)
      rw [← hcount] at hrest
      obtain ⟨R₁, hR₁, hturn⟩ := Option.bind_eq_some_iff.mp (row_succ k _ hn)
      obtain ⟨R₂, hR₂, hturn⟩ := Option.bind_eq_some_iff.mp hturn
      rw [if_pos (hlt.mpr hlast)]
      simp only [hR₁, hR₂, hturn, hrest, Option.bind_eq_bind, Option.bind_some]
    · rw [if_neg (mt hlt.mp hlast), show k = size.toNat - 1 by omega]

theorem seg_range {next : Nat → Option (Option Nat)} (i m : Nat)
    (h : ∀ a, i ≤ a → a < i + m → next a = some (some (a + 1))) :
    Seg next (some i) (List.range' i m) (some (i + m)) := by
  induction m generalizing i with
  | zero => rfl
  | succ m ih =>
    rw [List.range'_succ]
    refine ⟨rfl, some (i + 1), h i le_rfl (by omega), ?_⟩
    rw [show i + (m + 1) = i + 1 + m by omega]
    exact ih (i + 1) fun a ha ha' => h a (by omega) (by omega)

/-- **`buddy_init_ringbuffer` makes a ring of empty slots**, if their number fits its counter. -/
theorem buddyInitRingbuffer_ring {size : UInt64} (hpos : 0 < size.toNat) (hsize : size.toNat < 2 ^ 32) :
    ∃ R l, buddyInitRingbuffer size = some R ∧ Ring R l (List.replicate size.toNat .zero) := by
  have hstart : ({ empty.alloc.1 with current := some empty.alloc.2 } : Nodes).write (fun c => { c with slotN := 0 }) =
      some (row 0) := by
    have hheap : Function.update (Function.update empty.heap 0 (some (InfoNode.mk .zero 0 none))) 0
        (some ⟨.zero, 0, none⟩) =
        (row 0).heap := by
      funext a
      by_cases ha : a = 0
      · simp [row, ha]
      · simp [row, empty, ha]
    simp only [write, alloc, show empty.fresh = 0 from rfl, Option.bind_eq_bind, Option.bind_some, Function.update_self,
      hheap]
    rfl
  have hloop := initLoop_row hsize (size.toNat + 1) 0 hpos (by omega)
  obtain ⟨k, hk⟩ : ∃ k, size.toNat = k + 1 := Nat.exists_eq_add_of_lt hpos |>.imp fun k hk => by omega
  rw [hk, Nat.add_sub_cancel] at hloop
  have hcell : (row k).heap k = some ⟨.zero, 0, none⟩ := by simp [row]
  let R : Nodes := { row k with heap := Function.update (row k).heap k (some ⟨.zero, 0, some 0⟩) }
  have hwrite : (row k).write (fun c => { c with next := some 0 }) = some R := by
    simp only [write, show (row k).current = some k from rfl, hcell, Option.bind_eq_bind, Option.bind_some, R]
  have hinfo (a : Nat) (ha : a ≤ k) : (R.heap a).map InfoNode.info = some .zero := by
    by_cases hlast : a = k
    · simp [R, hlast]
    · simp [R, row, hlast, Nat.lt_of_le_of_ne ha hlast]
  refine ⟨R, k :: List.range k, ?_, ⟨?_, ⟨rfl, some 0, ?_, ?_⟩, ?_, fun a => ?_, fun a ha => ?_⟩⟩
  · rw [buddyInitRingbuffer, hk]
    simp only [Option.bind_eq_bind]
    rw [hstart, Option.bind_some, show (1 : UInt32) = UInt32.ofNat (0 + 1) from rfl, hloop, Option.bind_some]
    exact hwrite
  · exact List.nodup_cons.mpr ⟨List.not_mem_range_self, List.nodup_range⟩
  · simp [R, next]
  · have hseg : Seg R.next (some 0) (List.range' 0 k) (some (0 + k)) := seg_range 0 k fun a _ ha => by
      have hlt : a < k := by omega
      simp [R, next, row, Nat.ne_of_lt hlt, hlt]
    rw [Nat.zero_add, ← List.range_eq_range'] at hseg
    exact hseg
  · refine List.eq_replicate_iff.mpr ⟨by simp [hk], fun x hx => ?_⟩ |>.trans List.map_replicate.symm
    obtain ⟨a, ha, rfl⟩ := List.mem_map.mp hx
    refine hinfo a ?_
    rcases List.mem_cons.mp ha with rfl | ha
    · exact le_rfl
    · exact Nat.le_of_lt (List.mem_range.mp ha)
  · by_cases hlast : a = k
    · simp [R, hlast]
    · simp [R, row, hlast]
  · show a < k + 1
    rcases List.mem_cons.mp ha with rfl | ha
    · exact Nat.lt_succ_self a
    · exact Nat.lt_succ_of_lt (List.mem_range.mp ha)

/-! ### Freeing the ring -/

theorem freeLoop_gone {size : UInt64} (hsize : size.toNat < 2 ^ 32) {l : List Nat} {b : Option Nat} {R : Nodes}
    {n : UInt32} {fuel : Nat} (hchain : Seg R.next R.current l b) (hnodup : l.Nodup) (hlive : ∀ a, R.heap a ≠ none ↔ a ∈ l)
    (hn : n.toNat + l.length = size.toNat) (hfuel : l.length < fuel) :
    ∃ R', freeLoop size fuel n R = some R' ∧ ∀ a, R'.heap a = none := by
  have hcount : n.toUInt64 < size ↔ n.toNat < size.toNat := by
    rw [UInt64.lt_iff_toNat_lt, UInt32.toNat_toUInt64]
  induction l generalizing R n fuel with
  | nil =>
    obtain ⟨fuel, rfl⟩ := Nat.exists_eq_succ_of_ne_zero (Nat.ne_of_gt hfuel)
    rw [List.length_nil] at hn
    refine ⟨R, ?_, fun a => by_contra fun ha => List.not_mem_nil ((hlive a).mp ha)⟩
    rw [freeLoop, if_neg (mt hcount.mp (by omega))]
  | cons a l ih =>
    obtain ⟨fuel, rfl⟩ := Nat.exists_eq_succ_of_ne_zero (Nat.ne_of_gt (Nat.lt_of_le_of_lt (Nat.zero_le _) hfuel))
    rw [List.length_cons] at hn hfuel
    obtain ⟨hcurrent, m, hm, hrest⟩ := hchain
    obtain ⟨c, hc, rfl⟩ := Option.map_eq_some_iff.mp hm
    obtain ⟨hnot, hnodup⟩ := List.nodup_cons.mp hnodup
    let R₁ : Nodes := { R with heap := Function.update R.heap a none, current := c.next }
    have hnext : ∀ x ∈ l, R₁.next x = R.next x := fun x hx => by
      simp only [R₁, next, Function.update_of_ne (ne_of_mem_of_not_mem hx hnot)]
    have hlive₁ (x : Nat) : R₁.heap x ≠ none ↔ x ∈ l := by
      by_cases hx : x = a
      · simp [R₁, hx, hnot]
      · rw [show R₁.heap x = R.heap x from Function.update_of_ne hx _ _, hlive x, List.mem_cons]
        exact ⟨fun h => h.resolve_left hx, Or.inr⟩
    have hsucc : (n + 1).toNat = n.toNat + 1 := by
      rw [UInt32.toNat_add, show (1 : UInt32).toNat = 1 from rfl]
      omega
    have hcount₁ : (n + 1).toUInt64 < size ↔ (n + 1).toNat < size.toNat := by
      rw [UInt64.lt_iff_toNat_lt, UInt32.toNat_toUInt64]
    obtain ⟨R', hrun, hgone⟩ : ∃ R', freeLoop size fuel (n + 1) R₁ = some R' ∧ ∀ a, R'.heap a = none :=
      ih (hrest.congr hnext) hnodup hlive₁ (by omega) (by omega) hcount₁
    refine ⟨R', ?_, hgone⟩
    rw [freeLoop, if_pos (hcount.mpr (by omega))]
    simp only [hcurrent, hc, Option.bind_eq_bind, Option.bind_some]
    exact hrun

/-- **`buddy_free_ringbuffer` frees every node of the ring**, each one once. -/
theorem buddyFreeRingbuffer_gone {size : UInt64} (hsize : size.toNat < 2 ^ 32) {R : Nodes} {l : List Nat}
    {slots : List BuddyInfo} (h : Ring R l slots) (hlen : slots.length = size.toNat) :
    ∃ R', buddyFreeRingbuffer size R = some R' ∧ R'.current = none ∧ ∀ a, R'.heap a = none := by
  have hlength := h.length_eq
  obtain ⟨R', hrun, hgone⟩ : ∃ R', freeLoop size (size.toNat + 1) 0 R = some R' ∧ ∀ a, R'.heap a = none :=
    freeLoop_gone hsize h.chain h.nodup h.live (by rw [show (0 : UInt32).toNat = 0 from rfl]; omega) (by omega)
  refine ⟨{ R' with current := none }, ?_, rfl, hgone⟩
  simp only [buddyFreeRingbuffer, hrun, Option.bind_eq_bind, Option.bind_some]

end Nodes

/-! ### Buddy, with the ring as nodes and as a list -/

/-- The nodes hold the ring of `b`, and all other variables are those of `b`. -/
structure LinkedBuddy.Shows (s : LinkedBuddy) (l : List Nat) (b : Buddy) : Prop where
  ring : Ring s.nodes l b.ring
  vars : ∃ ring, s.vars = { b with ring := ring }

namespace LinkedBuddy.Shows

variable {s : LinkedBuddy} {a : Nat} {l : List Nat} {b : Buddy} {f : BuddyInfo → BuddyInfo} {cur : BuddyInfo}
  {rest : List BuddyInfo}

theorem exists_cons (h : s.Shows (a :: l) b) : ∃ cur rest, b.ring = cur :: rest := by
  have hlen := h.ring.length_eq
  cases hring : b.ring with
  | nil =>
    rw [hring] at hlen
    cases hlen
  | cons cur rest => exact ⟨cur, rest, rfl⟩

theorem assign (h : s.Shows l b) {g : Buddy → Buddy}
    (hg : ∀ v ring, g { v with ring := ring } = { g v with ring := ring }) :
    Shows { s with vars := g s.vars } l (g b) := by
  obtain ⟨r, hvars⟩ := h.vars
  have hself : g b = { g b with ring := b.ring } := hg b b.ring
  have hring : (g b).ring = b.ring := by rw [hself]
  refine ⟨hring ▸ h.ring, r, ?_⟩
  rw [← hg, ← hvars]

theorem read (h : s.Shows (a :: l) b) (hring : b.ring = cur :: rest) : ∃ c, s.nodes.read = some c ∧ c.info = cur := by
  have hnodes := h.ring
  rw [hring] at hnodes
  obtain ⟨hcurrent, ⟨c, hc, hinfo⟩, -⟩ := hnodes.uncons
  exact ⟨c, by simp only [Nodes.read, hcurrent, hc, Option.bind_eq_bind, Option.bind_some], hinfo⟩

theorem setCurrent (h : s.Shows (a :: l) b) (f : BuddyInfo → BuddyInfo) :
    ∃ s', s.setCurrent f = some s' ∧ s'.Shows (a :: l) (b.setCurrent f) := by
  obtain ⟨cur, rest, hring⟩ := h.exists_cons
  obtain ⟨r, hvars⟩ := h.vars
  have hnodes := h.ring
  rw [hring] at hnodes
  obtain ⟨R', hwrite, hring', -⟩ := hnodes.write f
  have hset : b.setCurrent f = { b with ring := f cur :: rest } := by simp only [Buddy.setCurrent, hring]
  refine ⟨{ s with nodes := R' }, ?_, ?_⟩
  · simp only [LinkedBuddy.setCurrent, hwrite, Option.bind_eq_bind, Option.bind_some]
  · rw [hset]
    exact ⟨hring', r, hvars⟩

theorem advance (h : s.Shows (a :: l) b) : ∃ s', s.advance = some s' ∧ s'.Shows (l ++ [a]) b.advance := by
  obtain ⟨cur, rest, hring⟩ := h.exists_cons
  obtain ⟨r, hvars⟩ := h.vars
  have hnodes := h.ring
  rw [hring] at hnodes
  obtain ⟨n, hadvance, hring'⟩ := hnodes.advance
  have hset : b.advance = { b with ring := rest ++ [cur] } := by simp only [Buddy.advance, hring]
  refine ⟨{ s with nodes := { s.nodes with current := n } }, ?_, ?_⟩
  · simp only [LinkedBuddy.advance, hadvance, Option.bind_eq_bind, Option.bind_some]
  · rw [hset]
    exact ⟨hring', r, hvars⟩

theorem buddyZeroInfo (h : s.Shows (a :: l) b) :
    ∃ s', s.buddyZeroInfo = some s' ∧ s'.Shows (a :: l) b.buddyZeroInfo := by
  obtain ⟨cur, rest, hring⟩ := h.exists_cons
  obtain ⟨c, hread, rfl⟩ := h.read hring
  have hpending := h.assign (g := fun v => { v with
    ringbufferPending := Buddy.pendingAfterZero c.info v.ringbufferPending }) fun _ _ => rfl
  obtain ⟨s', hset, hshows⟩ := hpending.setCurrent fun _ => .zero
  refine ⟨s', by simp only [LinkedBuddy.buddyZeroInfo, hread, hset, Option.bind_eq_bind, Option.bind_some], ?_⟩
  simp only [Buddy.setCurrent, hring] at hshows
  simpa only [Buddy.buddyZeroInfo, hring] using hshows

theorem buddyRecordState (h : s.Shows (a :: l) b) {size : Nat} (hsize : b.ring.length = size) (now : Int) :
    ∃ s', s.buddyRecordState size now = some s' ∧ s'.Shows (a :: l) (b.buddyRecordState now) := by
  obtain ⟨s₁, hzero, h₁⟩ := h.buddyZeroInfo
  obtain rfl : b.buddyZeroInfo.ring.length = size := (Buddy.length_buddyZeroInfo b).trans hsize
  have hpending := h₁.assign (g := fun v => { v with
    ringbufferPending :=
      if b.buddyZeroInfo.ring.length ≤ v.ringbufferPending then b.buddyZeroInfo.ring.length
      else v.ringbufferPending + 1 }) fun _ _ => rfl
  obtain ⟨s', hset, hshows⟩ := hpending.setCurrent fun info =>
    { info with
      uuid := s₁.vars.uuid, servicePid := s₁.vars.procPid, command := s₁.vars.lastCommand
      desiredState := s₁.vars.desiredState, timestamp := now, populated := true }
  refine ⟨s', by simp only [LinkedBuddy.buddyRecordState, hzero, hset, Option.bind_eq_bind, Option.bind_some], ?_⟩
  obtain ⟨r, hvars⟩ := h₁.vars
  rw [hvars] at hshows
  exact hshows

theorem reap (h : s.Shows (a :: l) b) {size : Nat} (hsize : b.ring.length = size) (si : Siginfo) (z : Reaped) :
    ∃ s', s.reap size si z = some s' ∧ s'.Shows (l ++ [a]) (b.reap si z) := by
  have hnote := h.assign (g := Buddy.noteTerminated z) fun v ring => by
    unfold Buddy.noteTerminated
    split <;> rfl
  obtain ⟨s₁, hrecord, h₁⟩ := hnote.buddyRecordState (by rw [Buddy.noteTerminated_ring, hsize]) z.now
  obtain ⟨s₂, hset, h₂⟩ := h₁.setCurrent fun info =>
    { info with siginfo := si, waitPid := z.pid, waitStatus := z.status }
  obtain ⟨s₃, hadvance, h₃⟩ := h₂.advance
  exact ⟨s₃, by simp only [LinkedBuddy.reap, hrecord, hset, hadvance, Option.bind_eq_bind, Option.bind_some], h₃⟩

theorem recordStart (h : s.Shows (a :: l) b) {size : Nat} (hsize : b.ring.length = size) (now : Int) :
    ∃ s', s.recordStart size now = some s' ∧ s'.Shows (l ++ [a]) (b.recordStart now) := by
  obtain ⟨s₁, hrecord, h₁⟩ := h.buddyRecordState hsize now
  obtain ⟨s₂, hadvance, h₂⟩ := h₁.advance
  exact ⟨s₂, by simp only [LinkedBuddy.recordStart, hrecord, hadvance, Option.bind_eq_bind, Option.bind_some], h₂⟩

end LinkedBuddy.Shows

/-! ### Flushing -/

namespace Buddy

variable (v : Buddy) (ring : List BuddyInfo)

theorem buddyDisconnect_withRing (count : UInt64) : { v with ring := ring }.buddyDisconnect count =
    ((v.buddyDisconnect count).1, { (v.buddyDisconnect count).2 with ring := ring }) := by
  unfold buddyDisconnect
  split <;> rfl

theorem writeCtrl_withRing (s : SelectResult) (r : WriteResult) :
    { v with ring := ring }.writeCtrl s r = { v.writeCtrl s r with ring := ring } := by
  have hready : { v with ring := ring }.ctrlReady s = v.ctrlReady s := rfl
  unfold writeCtrl
  rw [hready]
  split
  · unfold writeOnce
    exact congrArg Prod.snd (buddyDisconnect_withRing
      { v with writeCount := r.count sizeofBuddyInfo, errno := r.errno } ring (r.count sizeofBuddyInfo))
  · rfl

theorem readCtrl_withRing (s : SelectResult) (r : ReadResult) (buf : UInt32) :
    { v with ring := ring }.readCtrl s r buf =
      ((v.readCtrl s r buf).1, { (v.readCtrl s r buf).2 with ring := ring }) := by
  have hready : { v with ring := ring }.ctrlReady s = v.ctrlReady s := rfl
  unfold readCtrl
  rw [hready]
  split
  · unfold readOnce
    exact congrArg (Prod.mk _) (congrArg Prod.snd (buddyDisconnect_withRing
      { v with readCount := r.count sizeofBuddyCmnd, errno := r.errno } ring (r.count sizeofBuddyCmnd)))
  · rfl

theorem exchange_withRing (x : Exchange) :
    { v with ring := ring }.exchange x = ((v.exchange x).1, { (v.exchange x).2 with ring := ring }) := by
  unfold exchange
  rw [writeCtrl_withRing]
  dsimp only
  split
  · rw [readCtrl_withRing]
  · rfl

end Buddy

namespace LinkedBuddy.Shows

variable {ω : Type} {o : Outside ω} {w : ω} {s : LinkedBuddy} {a : Nat} {l : List Nat} {b : Buddy}

theorem exchange (h : s.Shows l b) (x : Exchange) :
    (s.vars.exchange x).1 = (b.exchange x).1 ∧ Shows { s with vars := (s.vars.exchange x).2 } l (b.exchange x).2 := by
  obtain ⟨r, hvars⟩ := h.vars
  have htest := Buddy.exchange_withRing b r x
  rw [← hvars] at htest
  exact ⟨by rw [htest], h.assign (g := fun v => (v.exchange x).2) fun v ring =>
    congrArg Prod.snd (Buddy.exchange_withRing v ring x)⟩

theorem offering (h : s.Shows (a :: l) b) :
    ∃ s', s.setCurrent s.vars.withRemaining = some s' ∧ s'.Shows (a :: l) b.offering := by
  obtain ⟨r, hvars⟩ := h.vars
  have hremaining : s.vars.withRemaining = b.withRemaining := by
    rw [hvars]
    rfl
  rw [hremaining]
  exact h.setCurrent b.withRemaining

theorem back (todo past : List Nat) (h : s.Shows (todo ++ past) b) (hne : todo ++ past ≠ []) :
    Shows { s with nodes := { s.nodes with current := (past ++ todo).head? } } (past ++ todo)
      { b with ring := b.ring.rotate todo.length } :=
  ⟨h.ring.rotate todo past hne, h.vars⟩

/-- **The loop of a flush goes around the ring once.** It comes back to where it began, and sends what the loop over the
list of slots sends. -/
theorem flushLoop (todo past : List Nat) (hne : todo ≠ []) (h : s.Shows (todo ++ past) b) {fuel : Nat}
    (hfuel : todo.length ≤ fuel) :
    ∃ s', LinkedBuddy.flushLoop o (past ++ todo).head? fuel s w =
        some (sentOf (Buddy.flushLoop o todo.length b w).offers, s', (Buddy.flushLoop o todo.length b w).world) ∧
      s'.Shows (past ++ todo) (Buddy.flushLoop o todo.length b w).buddy := by
  induction todo generalizing s b w past fuel with
  | nil => exact absurd rfl hne
  | cons a todo ih =>
    obtain ⟨fuel, rfl⟩ := Nat.exists_eq_succ_of_ne_zero (Nat.ne_of_gt (Nat.lt_of_lt_of_le (Nat.succ_pos _) hfuel))
    obtain ⟨cur, rest, hring⟩ := h.exists_cons
    obtain ⟨c, hread, rfl⟩ := h.read hring
    have hassoc : past ++ [a] ++ todo = past ++ a :: todo := by simp
    -- after a node, the loop has come back to where it began, or goes on
    have hagain (s₁ : LinkedBuddy) (b₁ : Buddy) (w₁ : ω) (h₁ : s₁.Shows (todo ++ (past ++ [a])) b₁) :
        ∃ s', (if s₁.nodes.current ≠ (past ++ a :: todo).head? then
            LinkedBuddy.flushLoop o (past ++ a :: todo).head? fuel s₁ w₁ else some ([], s₁, w₁)) =
          some (sentOf (Buddy.flushLoop o todo.length b₁ w₁).offers, s', (Buddy.flushLoop o todo.length b₁ w₁).world) ∧
          s'.Shows (past ++ a :: todo) (Buddy.flushLoop o todo.length b₁ w₁).buddy := by
      by_cases hlast : todo = []
      · subst hlast
        have hback : s₁.nodes.current = (past ++ [a]).head? := h₁.ring.current_eq.resolve_right (by simp)
        exact ⟨s₁, if_neg (not_not.mpr hback), h₁⟩
      · have hne := h₁.ring.current_ne (by simp) hlast
        rw [hassoc] at hne
        rw [if_pos hne, ← hassoc]
        exact ih (past ++ [a]) hlast h₁ (Nat.le_of_succ_le_succ hfuel)
    by_cases hpop : c.info.populated
    · obtain ⟨s₁, hoffer, h₁⟩ := h.offering
      obtain ⟨x, w', hx⟩ : ∃ x w', o.exchange (decide (0 < b.ctrlfd)) (b.withRemaining c.info) w = (x, w') :=
        ⟨_, _, rfl⟩
      obtain ⟨htest, h₂⟩ := h₁.exchange x
      obtain ⟨r, hvars⟩ := h.vars
      obtain ⟨r₁, hvars₁⟩ := h₁.vars
      have hremaining : s.vars.withRemaining = b.withRemaining := by
        rw [hvars]
        rfl
      rw [hremaining] at hoffer
      have hctrlfd : s₁.vars.ctrlfd = b.ctrlfd := by
        rw [hvars₁]
        exact Buddy.offering_ctrlfd b
      by_cases hpass : (b.offering.exchange x).1
      · obtain ⟨s₃, hzero, h₃⟩ := h₂.buddyZeroInfo
        obtain ⟨s₄, hadvance, h₄⟩ := h₃.advance
        obtain ⟨s', hrun, h'⟩ := hagain s₄ _ w' (List.append_assoc todo past [a] ▸ h₄)
        rw [List.length_cons, Buddy.flushLoop_of_pass hring hpop hx hpass]
        refine ⟨s', ?_, h'⟩
        unfold LinkedBuddy.flushLoop
        simp only [hread, hpop, if_true, hoffer, hremaining, hctrlfd, hx, htest, hpass, hzero, hadvance,
          Option.bind_eq_bind, Option.bind_some]
        by_cases hlast : s₄.nodes.current ≠ (past ++ a :: todo).head?
        · rw [if_pos hlast] at hrun ⊢
          rw [hrun]
          rfl
        · rw [if_neg hlast] at hrun ⊢
          obtain ⟨hsent, rfl, hworld⟩ := by simpa only [Option.some.injEq, Prod.mk.injEq] using hrun
          exact congrArg some (Prod.ext (congrArg (List.cons _) hsent) (Prod.ext rfl hworld))
      · have hfail := Bool.eq_false_iff.mpr hpass
        rw [List.length_cons, Buddy.flushLoop_of_fail hring hpop hx hfail]
        refine ⟨_, ?_, h₂.back (a :: todo) past (List.cons_ne_nil a _)⟩
        unfold LinkedBuddy.flushLoop
        simp only [hread, hpop, if_true, hoffer, hremaining, hctrlfd, hx, htest, hfail, Bool.false_eq_true, if_false,
          Option.bind_eq_bind, Option.bind_some, sentOf, List.map_cons, List.map_nil]
    · have hfree := Bool.eq_false_iff.mpr hpop
      obtain ⟨s₁, hadvance, h₁⟩ := h.advance
      obtain ⟨s', hrun, h'⟩ := hagain s₁ _ w (List.append_assoc todo past [a] ▸ h₁)
      rw [List.length_cons, Buddy.flushLoop_of_free hring hfree]
      refine ⟨s', ?_, h'⟩
      unfold LinkedBuddy.flushLoop
      simp only [hread, hfree, Bool.false_eq_true, if_false, hadvance, hrun, Option.bind_eq_bind, Option.bind_some]

theorem closed_eq (oldset : SigSet) (v : Buddy) :
    closed oldset v = { v with errno := .zero, ctrlfd := -1, mask := oldset } := by
  have hzero : { v with errno := .zero }.buddyDisconnect 0 = (true, { v with errno := .zero, ctrlfd := -1 }) :=
    if_pos ⟨by decide, rfl⟩
  simp only [closed, hzero]

theorem flushConnected (h : s.Shows l b) (hne : l ≠ []) :
    ∃ s', LinkedBuddy.flushConnected o s w =
        some (sentOf (Buddy.flushConnected o b w).offers, s', (Buddy.flushConnected o b w).world) ∧
      s'.Shows l (Buddy.flushConnected o b w).buddy := by
  have hblocked : Shows { s with vars := blocked s.vars } (l ++ []) (blocked b) := by
    rw [List.append_nil]
    exact h.assign fun _ _ => rfl
  have hcurrent : s.nodes.current = l.head? := h.ring.current_eq.resolve_right hne
  have hfuel : l.length ≤ s.nodes.fresh + 1 := Nat.le_succ_of_le h.ring.length_le
  obtain ⟨s', hrun, h'⟩ := flushLoop (o := o) (w := w) l [] hne hblocked hfuel
  rw [List.nil_append, ← hcurrent, h.ring.length_eq] at hrun
  rw [List.nil_append, h.ring.length_eq] at h'
  have hmask : s.vars.mask = b.mask := by
    obtain ⟨r, hvars⟩ := h.vars
    rw [hvars]
  have hclosed := h'.assign (g := closed b.mask) fun v ring => by rw [closed_eq, closed_eq]
  refine ⟨_, ?_, hclosed⟩
  simp only [LinkedBuddy.flushConnected, hrun, hmask, Option.bind_eq_bind, Option.bind_some]
  rfl

end LinkedBuddy.Shows

/-! ### Runs -/

/-- What happens to the ring: a child is reaped, a start is recorded, other variables change, or what is in the ring is
flushed, with these outcomes of the calls. -/
inductive NodeEvent
  | reap (si : Siginfo) (z : Reaped)
  | start (now : Int)
  | other (f : Buddy → Buddy)
  | flush (exchanges : List Exchange)

namespace NodeEvent

/-- Variables other than the ring and its counter change, whatever is in the ring. -/
def assigned (f : Buddy → Buddy) (b : Buddy) : Buddy :=
  { f { b with ring := [] } with ring := b.ring, ringbufferPending := b.ringbufferPending }

/-- What an event does to the nodes, and to what has been sent so far -/
def step (size : Nat) (s : LinkedBuddy × List SentInfo) : NodeEvent → Option (LinkedBuddy × List SentInfo)
  | reap si z => do
    let linked ← s.1.reap size si z
    some (linked, s.2)
  | start now => do
    let linked ← s.1.recordStart size now
    some (linked, s.2)
  | other f => some ({ s.1 with vars := assigned f s.1.vars }, s.2)
  | flush exchanges => do
    let (sent, linked, _) ← s.1.flushConnected scripted exchanges
    some (linked, s.2 ++ sent)

/-- What it does to the list of slots, and to what has been sent so far -/
def abs (_ : LinkedBuddy × List SentInfo) (e : NodeEvent) (t : Buddy × List SentInfo) : Buddy × List SentInfo :=
  match e with
  | reap si z => (t.1.reap si z, t.2)
  | start now => (t.1.recordStart now, t.2)
  | other f => (assigned f t.1, t.2)
  | flush exchanges =>
    let flushed := t.1.flushConnected scripted exchanges
    (flushed.buddy, t.2 ++ sentOf flushed.offers)

end NodeEvent

/-- Buddy after `buddy_init_ringbuffer` -/
def LinkedBuddy.init (ringbufferSize : UInt64) (uuid : List UInt8) : Option LinkedBuddy := do
  let nodes ← Nodes.buddyInitRingbuffer ringbufferSize
  some ⟨nodes, Buddy.init 0 uuid⟩

/-- The nodes hold the ring of the buddy with the list of slots, all other variables are the same, both have sent the
same records, with the same outcomes, and every node can be freed. -/
structure LinkedBuddy.Implements (ringbufferSize : UInt64) (s : LinkedBuddy × List SentInfo)
    (t : Buddy × List SentInfo) : Prop where
  shows : ∃ l, s.1.Shows l t.1
  length : t.1.ring.length = ringbufferSize.toNat
  sent : s.2 = t.2
  frees : ∃ R, s.1.nodes.buddyFreeRingbuffer ringbufferSize = some R ∧ R.current = none ∧ ∀ a, R.heap a = none

/-- What a run keeps -/
structure LinkedBuddy.Running (size : Nat) (s : LinkedBuddy × List SentInfo) (t : Buddy × List SentInfo) : Prop where
  shows : ∃ l, s.1.Shows l t.1
  length : t.1.ring.length = size
  sent : s.2 = t.2

namespace LinkedBuddy.Running

variable {size : Nat} {s : LinkedBuddy × List SentInfo} {t : Buddy × List SentInfo}

theorem exists_cons (h : Running size s t) (hpos : 0 < size) : ∃ a l, s.1.Shows (a :: l) t.1 := by
  obtain ⟨l, hl⟩ := h.shows
  have hlen := hl.ring.length_eq
  cases l with
  | nil =>
    rw [List.length_nil, h.length] at hlen
    omega
  | cons a l => exact ⟨a, l, hl⟩

/-- **One step:** what happens to the nodes is what happens to the list, and what is sent from the nodes is what is
sent from the list. -/
theorem step (h : Running size s t) (hpos : 0 < size) (e : NodeEvent) :
    ∃ s', e.step size s = some s' ∧ Running size s' (NodeEvent.abs s e t) := by
  obtain ⟨a, l, hl⟩ := h.exists_cons hpos
  cases e with
  | reap si z =>
    obtain ⟨linked, hreap, h'⟩ := hl.reap h.length si z
    refine ⟨(linked, s.2), ?_, ⟨_, h'⟩, (Buddy.length_reap si z t.1).trans h.length, h.sent⟩
    simp only [NodeEvent.step, hreap, Option.bind_eq_bind, Option.bind_some]
  | start now =>
    obtain ⟨linked, hstart, h'⟩ := hl.recordStart h.length now
    refine ⟨(linked, s.2), ?_, ⟨_, h'⟩, (Buddy.length_recordStart now t.1).trans h.length, h.sent⟩
    simp only [NodeEvent.step, hstart, Option.bind_eq_bind, Option.bind_some]
  | other f => exact ⟨_, rfl, ⟨_, hl.assign fun _ _ => rfl⟩, h.length, h.sent⟩
  | flush exchanges =>
    obtain ⟨linked, hflush, h'⟩ := hl.flushConnected (o := scripted) (w := exchanges) (List.cons_ne_nil a l)
    refine ⟨(linked, s.2 ++ sentOf (t.1.flushConnected scripted exchanges).offers), ?_, ⟨_, h'⟩, ?_, ?_⟩
    · simp only [NodeEvent.step, hflush, Option.bind_eq_bind, Option.bind_some]
    · show (t.1.flushConnected scripted exchanges).buddy.ring.length = size
      rw [Buddy.flushConnected_eq]
      exact (Buddy.flushLoop_length _ _ _ _).trans h.length
    · exact congrArg (· ++ _) h.sent

end LinkedBuddy.Running

/-- **The nodes implement the list of slots.** In every run, whatever is recorded and flushed in whatever order, no node
is missing, the nodes hold the ring of the list, the same records are sent with the same outcomes, and all nodes can be
freed. -/
theorem linked_implements (ringbufferSize : UInt64) (hpos : 0 < ringbufferSize.toNat)
    (hsize : ringbufferSize.toNat < 2 ^ 32) (uuid : List UInt8) (es : List NodeEvent) :
    ∃ s, LinkedBuddy.init ringbufferSize uuid = some s ∧
      Machine.Tracks (NodeEvent.step ringbufferSize.toNat) NodeEvent.abs (LinkedBuddy.Implements ringbufferSize) (s, [])
        (Buddy.init ringbufferSize.toNat uuid, []) es := by
  obtain ⟨R, l, hinit, hring⟩ := Nodes.buddyInitRingbuffer_ring hpos hsize
  refine ⟨⟨R, Buddy.init 0 uuid⟩, ?_, ?_⟩
  · simp only [LinkedBuddy.init, hinit, Option.bind_eq_bind, Option.bind_some]
  · have hstart : LinkedBuddy.Running ringbufferSize.toNat (⟨R, Buddy.init 0 uuid⟩, [])
        (Buddy.init ringbufferSize.toNat uuid, []) :=
      ⟨⟨l, hring, [], rfl⟩, List.length_replicate, rfl⟩
    have htracks := Machine.tracks_of_guarded (G := fun _ _ => True) (fun s t e h _ => h.step hpos e) hstart
      (Machine.guarded_true _ es)
    refine htracks.mono fun s t h => ?_
    obtain ⟨l, hl⟩ := h.shows
    exact ⟨h.shows, h.length, h.sent, Nodes.buddyFreeRingbuffer_gone hsize hl.ring h.length⟩

/-- A ring of two slots, with a record that the controller acknowledges and one that it does not take -/
theorem linked_implements_two :
    ∃ s, LinkedBuddy.init 2 [] = some s ∧
      Machine.Tracks (NodeEvent.step (2 : UInt64).toNat) NodeEvent.abs (LinkedBuddy.Implements 2) (s, [])
        (Buddy.init (2 : UInt64).toNat [], [])
        [.start 7, .start 8, .other fun b => { b with ctrlfd := 5 },
         .flush [⟨.ready, .taken 208, .ready, .data ackBytes⟩, ⟨.timeout, .taken 0, .timeout, .data []⟩]] :=
  linked_implements 2 (by decide) (by decide) [] _

end Upkeeper
