import Upkeeper.Library.Machine
import Upkeeper.UpkList.Basic
/-!
# Callback stacks (`upk_callback_stack_push`, `upk_callback_stack_pop`)

The stack of a connection is a `UPKLIST` used at its head. A push links a new node in front, and then copies the whole
element over it, with the `next` pointer that the element has. So the stack below the new top is what that pointer leads
to: the old stack if the element happens to point there (`lifo_iff`), and otherwise nothing, or the nodes of another
stack.

All stacks share one memory. Stack 0 is the global one, from which each connection gets a copy of the top, and stack
`i + 1` is that of the connection that was added as the `i`th.
-/

namespace Upkeeper

open Chain (Seg)

/-! ### The functions -/

/-- `upk_net_cb_stk_meta_t` -/
structure CbStkMeta where
  head : Option Addr
  tail : Option Addr
  prevp : Option Addr
  nextp : Option Addr
  tempp : Option Addr
  thisp : Option Addr
  count : UInt32

/-- The zeroed meta node that `calloc` returns -/
def CbStkMeta.zero : CbStkMeta := ⟨none, none, none, none, none, none, 0⟩

/-- The callback stacks, with the memory of their elements -/
structure Stacks (α : Type) where
  heap : Addr → Option (Cell α)
  fresh : Addr
  stack : Nat → CbStkMeta
  handles : Nat

variable {α : Type}

/-- The stack `i` as a list -/
def Stacks.list (s : Stacks α) (i : Nat) : UpkList α :=
  let m := s.stack i
  ⟨s.heap, s.fresh, m.head, m.tail, m.prevp, m.nextp, m.tempp, m.thisp, m.count⟩

/-- The stack `i` has become the list `L`. -/
def Stacks.put (s : Stacks α) (i : Nat) (L : UpkList α) : Stacks α where
  heap := L.heap
  fresh := L.fresh
  stack := Function.update s.stack i ⟨L.head, L.tail, L.prevp, L.nextp, L.tempp, L.thisp, L.count⟩
  handles := s.handles

/-- `*p = *q`, where `q` points to `c` -/
def UpkList.assign (L : UpkList α) (p : Option Addr) (c : Cell α) : Option (UpkList α) := do
  let a ← p
  let _ ← L.heap a
  some { L with heap := Function.update L.heap a (some c) }

/-- `upk_callback_stack_push` of an element with the contents `state` -/
def upkCallbackStackPush [Inhabited α] (state : Cell α) (L : UpkList α) : Option (UpkList α) := do
  let L ← L.prepend
  L.assign L.thisp state

/-- `upk_callback_stack_pop` -/
def upkCallbackStackPop (L : UpkList α) : Option (UpkList α) := do
  let L ← L.headThis
  L.unlink

/-- `init_callback_handlers`: a new top of the global stack, whose handlers are filled in -/
def initCallbackHandlers [Inhabited α] (handlers : α) (L : UpkList α) : Option (UpkList α) := do
  let L ← L.prepend
  L.modifyVal L.head fun _ => handlers

/-- `upk_net_add_socket_handle`: the stack of a new connection is empty, and gets a copy of the top of the global stack
if there is one. -/
def Stacks.upkNetAddSocketHandle [Inhabited α] (s : Stacks α) : Option (Stacks α) := do
  let i := s.handles + 1
  let s := { s with stack := Function.update s.stack i .zero, handles := i }
  match (s.stack 0).head with
  | none => some s
  | some top => do
    let state ← s.heap top
    let L ← upkCallbackStackPush state (s.list i)
    some (s.put i L)

/-! ### Runs -/

/-- What is done to the stacks -/
inductive StackCall (α : Type)
  | init (handlers : α)
  | add
  | push (handle : Nat) (state : Cell α)
  | pop (handle : Nat)

/-- One call; a connection must have been added before. -/
def stackStep [Inhabited α] (s : Stacks α) : StackCall α → Option (Stacks α)
  | .init handlers => (initCallbackHandlers handlers (s.list 0)).map (s.put 0)
  | .add => Stacks.upkNetAddSocketHandle s
  | .push i state => if i < s.handles then (upkCallbackStackPush state (s.list (i + 1))).map (s.put (i + 1)) else none
  | .pop i => if i < s.handles then (upkCallbackStackPop (s.list (i + 1))).map (s.put (i + 1)) else none

/-- What is to become of the stacks: each is a sequence of nodes with what they hold, the top first. -/
def stackSpec (s : Stacks α) (call : StackCall α) (t : Nat → List (Addr × α)) : Nat → List (Addr × α) :=
  match call with
  | .init handlers => Function.update t 0 ((s.fresh, handlers) :: t 0)
  | .add => Function.update t (s.handles + 1) (((t 0).take 1).map fun top => (s.fresh, top.2))
  | .push i state => Function.update t (i + 1) ((s.fresh, state.val) :: t (i + 1))
  | .pop i => Function.update t (i + 1) (t (i + 1)).tail

/-- The memory holds the nodes of a stack in their order. -/
structure HoldsStack (s : Stacks α) (i : Nat) (l : List (Addr × α)) : Prop where
  chain : Seg (s.list i).next (s.stack i).head (l.map Prod.fst) none
  val : ∀ p ∈ l, (s.list i).val? p.1 = some p.2
  count : (s.stack i).count = .ofNat l.length

/-- **The stacks are the sequences `t`, and no two of them share a node.** -/
structure Lifo (s : Stacks α) (t : Nat → List (Addr × α)) : Prop where
  holds : ∀ i, HoldsStack s i (t i)
  apart : ∀ i j, i ≠ j → ((t i).map Prod.fst).Disjoint ((t j).map Prod.fst)

/-- The element of a push points to the top of the stack that it is pushed on, and the top of the global stack, where a
new connection gets its element from, to nothing. -/
def PointsBelow (s : Stacks α) : StackCall α → Prop
  | .init _ => True
  | .add => ∀ top ∈ (s.stack 0).head, ∀ c ∈ s.heap top, c.next = none
  | .push i state => i < s.handles ∧ state.next = (s.stack (i + 1)).head
  | .pop i => i < s.handles

/-- Nothing has been added yet. -/
def Stacks.init : Stacks α := ⟨fun _ => none, 0, fun _ => .zero, 0⟩

/-! ### The lists -/

/-- A node with the contents `c` has become the head. -/
structure OnTop (L : UpkList α) (c : Cell α) (L' : UpkList α) : Prop where
  head : L'.head = some L.fresh
  heap : L'.heap = Function.update L.heap L.fresh (some c)
  fresh : L'.fresh = L.fresh + 1
  count : L'.count = L.count + 1

variable {L : UpkList α}

theorem prepend_onTop [Inhabited α] (L : UpkList α) :
    ∃ L', L.prepend = some L' ∧ OnTop L ⟨L.head, default⟩ L' ∧ L'.thisp = some L.fresh := by
  simp only [UpkList.prepend, UpkList.prependThis, UpkList.newNode, UpkList.setNext, Option.bind_eq_bind,
    Option.bind_some, Function.update_self, Function.update_idem, if_true, Option.some.injEq, exists_eq_left']
  exact ⟨⟨rfl, rfl, rfl, rfl⟩, trivial⟩

theorem push_onTop [Inhabited α] (state : Cell α) (L : UpkList α) :
    ∃ L', upkCallbackStackPush state L = some L' ∧ OnTop L state L' := by
  obtain ⟨L₁, hL₁, htop, hthis⟩ := prepend_onTop L
  have hcell : L₁.heap L.fresh = some ⟨L.head, default⟩ := by rw [htop.heap, Function.update_self]
  refine ⟨{ L₁ with heap := Function.update L₁.heap L.fresh (some state) }, ?_, htop.head, ?_, htop.fresh, htop.count⟩
  · unfold upkCallbackStackPush UpkList.assign
    rw [hL₁]
    simp only [Option.bind_eq_bind, Option.bind_some, hthis, hcell]
  · show Function.update L₁.heap L.fresh (some state) = _
    rw [htop.heap, Function.update_idem]

theorem init_onTop [Inhabited α] (handlers : α) (L : UpkList α) :
    ∃ L', initCallbackHandlers handlers L = some L' ∧ OnTop L ⟨L.head, handlers⟩ L' := by
  obtain ⟨L₁, hL₁, htop, -⟩ := prepend_onTop L
  have hcell : L₁.heap L.fresh = some ⟨L.head, default⟩ := by rw [htop.heap, Function.update_self]
  refine ⟨{ L₁ with heap := Function.update L₁.heap L.fresh (some ⟨L.head, handlers⟩) }, ?_, htop.head, ?_, htop.fresh,
    htop.count⟩
  · unfold initCallbackHandlers UpkList.modifyVal
    rw [hL₁]
    simp only [Option.bind_eq_bind, Option.bind_some, htop.head, hcell]
  · show Function.update L₁.heap L.fresh _ = _
    rw [htop.heap, Function.update_idem]

/-- The head has left the list. -/
structure TakenOff (L : UpkList α) (a : Addr) (next : Option Addr) (L' : UpkList α) : Prop where
  head : L'.head = next
  heap : L'.heap = Function.update L.heap a none
  fresh : L'.fresh = L.fresh
  count : L'.count = L.count - 1

theorem pop_takenOff {a : Addr} {c : Cell α} (hhead : L.head = some a) (hcell : L.heap a = some c) :
    ∃ L', upkCallbackStackPop L = some L' ∧ TakenOff L a c.next L' := by
  simp only [upkCallbackStackPop, UpkList.headThis, UpkList.foreachInit, UpkList.nextNode, UpkList.nextOf, UpkList.next,
    hhead, hcell, UpkList.unlink, UpkList.free, Option.map_some, Option.bind_eq_bind, Option.bind_some, reduceCtorEq,
    if_false, if_true, Option.some.injEq, exists_eq_left']
  exact ⟨rfl, rfl, rfl, rfl⟩

theorem pop_empty (hhead : L.head = none) :
    ∃ L', upkCallbackStackPop L = some L' ∧ L'.head = none ∧ L'.heap = L.heap ∧ L'.fresh = L.fresh ∧ L'.count = L.count := by
  simp only [upkCallbackStackPop, UpkList.headThis, UpkList.foreachInit, UpkList.nextNode, UpkList.nextOf, hhead,
    Option.bind_eq_bind, Option.bind_some, UpkList.unlink, if_true, Option.some.injEq, exists_eq_left', and_self]

/-! ### One call -/

/-- The invariant of a run. -/
structure StackInv (s : Stacks α) (t : Nat → List (Addr × α)) : Prop extends Lifo s t where
  below : ∀ i, ∀ p ∈ t i, p.1 < s.fresh

variable {s s' : Stacks α} {t : Nat → List (Addr × α)} {i : Nat} {c : Cell α} {L' : UpkList α} {l : List (Addr × α)}

theorem init_stackInv : StackInv (Stacks.init : Stacks α) fun _ => [] where
  holds _ := ⟨rfl, by simp, rfl⟩
  apart _ _ _ := by simp
  below _ := by simp

theorem StackInv.fresh_notMem (h : StackInv s t) (i : Nat) : s.fresh ∉ (t i).map Prod.fst := by
  intro hmem
  obtain ⟨p, hp, hfst⟩ := List.mem_map.mp hmem
  exact absurd (h.below i p hp) (by rw [hfst]; exact Nat.lt_irrefl _)

theorem HoldsStack.congr (h : HoldsStack s i l) (hstack : s'.stack i = s.stack i)
    (hheap : ∀ a ∈ l.map Prod.fst, s'.heap a = s.heap a) : HoldsStack s' i l where
  chain := by
    rw [hstack]
    refine h.chain.congr fun a ha => ?_
    show (s'.heap a).map Cell.next = (s.heap a).map Cell.next
    rw [hheap a ha]
  val p hp := by
    show (s'.heap p.1).map Cell.val = _
    rw [hheap p.1 (List.mem_map_of_mem hp)]
    exact h.val p hp
  count := by rw [hstack, h.count]

theorem StackInv.put (h : StackInv s t) (hfresh : s.fresh ≤ L'.fresh)
    (hothers : ∀ j ≠ i, ∀ a ∈ (t j).map Prod.fst, L'.heap a = s.heap a) (hl : HoldsStack (s.put i L') i l)
    (hapart : ∀ j ≠ i, (l.map Prod.fst).Disjoint ((t j).map Prod.fst)) (hbelow : ∀ p ∈ l, p.1 < L'.fresh) :
    StackInv (s.put i L') (Function.update t i l) := by
  refine ⟨⟨fun j => ?_, fun j k hjk => ?_⟩, fun j p hp => ?_⟩
  · by_cases hj : j = i
    · rw [hj, Function.update_self]
      exact hl
    · rw [Function.update_of_ne hj]
      exact (h.holds j).congr (Function.update_of_ne hj _ _) (hothers j hj)
  · by_cases hj : j = i
    · have hk : k ≠ i := fun hk => hjk (hj.trans hk.symm)
      rw [hj, Function.update_self, Function.update_of_ne hk]
      exact hapart k hk
    · by_cases hk : k = i
      · rw [hk, Function.update_self, Function.update_of_ne hj]
        exact List.disjoint_comm.mp (hapart j hj)
      · rw [Function.update_of_ne hj, Function.update_of_ne hk]
        exact h.apart j k hjk
  · by_cases hj : j = i
    · rw [hj, Function.update_self] at hp
      exact hbelow p hp
    · rw [Function.update_of_ne hj] at hp
      exact Nat.lt_of_lt_of_le (h.below j p hp) hfresh

theorem StackInv.onTop (h : StackInv s t) (htop : OnTop (s.list i) c L') (hc : c.next = (s.stack i).head) :
    StackInv (s.put i L') (Function.update t i ((s.fresh, c.val) :: t i)) := by
  have hcell : L'.heap s.fresh = some c := by
    rw [htop.heap]
    exact Function.update_self _ _ _
  have hold : ∀ j, ∀ a ∈ (t j).map Prod.fst, L'.heap a = s.heap a := fun j a ha => by
    rw [htop.heap]
    have hne : a ≠ s.fresh := fun heq => h.fresh_notMem j (heq ▸ ha)
    exact Function.update_of_ne hne _ _
  have hfresh : L'.fresh = s.fresh + 1 := htop.fresh
  refine h.put (hfresh ▸ Nat.le_succ _) (fun j _ => hold j) ⟨⟨?_, c.next, ?_, ?_⟩, fun p hp => ?_, ?_⟩ (fun j hj => ?_)
    fun p hp => ?_
  · simp only [Stacks.put, Function.update_self]
    exact htop.head
  · show (L'.heap s.fresh).map Cell.next = _
    rw [hcell]
    rfl
  · rw [hc]
    refine (h.holds i).chain.congr fun a ha => ?_
    show (L'.heap a).map Cell.next = (s.heap a).map Cell.next
    rw [hold i a ha]
  · show (L'.heap p.1).map Cell.val = _
    rcases List.mem_cons.mp hp with rfl | hp
    · rw [hcell]
      rfl
    · rw [hold i p.1 (List.mem_map_of_mem hp)]
      exact (h.holds i).val p hp
  · simp only [Stacks.put, Function.update_self]
    rw [htop.count, List.length_cons, UInt32.ofNat_add, ← (h.holds i).count]
    rfl
  · rw [List.map_cons, List.disjoint_cons_left]
    exact ⟨h.fresh_notMem j, h.apart i j (Ne.symm hj)⟩
  · rw [hfresh]
    rcases List.mem_cons.mp hp with rfl | hp
    · exact Nat.lt_succ_self _
    · exact Nat.lt_succ_of_lt (h.below i p hp)

theorem StackInv.pop (h : StackInv s t) : ∃ L', upkCallbackStackPop (s.list i) = some L' ∧
    StackInv (s.put i L') (Function.update t i (t i).tail) := by
  have hhead := (h.holds i).chain.start
  cases hl : t i with
  | nil =>
    rw [hl] at hhead
    obtain ⟨L', hL', hhead', hheap, hfresh, hcount⟩ := pop_empty (L := s.list i) hhead
    refine ⟨L', hL', h.put (Nat.le_of_eq hfresh.symm) (fun j _ a _ => by rw [hheap]; rfl) ⟨?_, by simp, ?_⟩ (by simp)
      (by simp)⟩
    · simp only [Stacks.put, Function.update_self]
      exact hhead'
    · simp only [Stacks.put, Function.update_self]
      have := (h.holds i).count
      rw [hl] at this
      exact hcount.trans this
  | cons top l =>
    have hholds := h.holds i
    rw [hl] at hholds hhead
    obtain ⟨-, n, hn, hrest⟩ := hholds.chain
    obtain ⟨c, hc, rfl⟩ := Option.map_eq_some_iff.mp hn
    obtain ⟨L', hL', hoff⟩ := pop_takenOff (L := s.list i) hhead hc
    have hnodup := hholds.chain.nodup
    rw [List.map_cons, List.nodup_cons] at hnodup
    have hold : ∀ a, a ≠ top.1 → L'.heap a = s.heap a := fun a ha => by
      rw [hoff.heap]
      exact Function.update_of_ne ha _ _
    have hkept : ∀ a ∈ l.map Prod.fst, L'.heap a = s.heap a := fun a ha =>
      hold a fun heq => hnodup.1 (heq ▸ ha)
    refine ⟨L', hL', h.put (Nat.le_of_eq hoff.fresh.symm) (fun j hj a ha => hold a fun heq => ?_)
      ⟨?_, fun p hp => ?_, ?_⟩ (fun j hj => ?_)
      fun p hp => ?_⟩
    · have := h.apart i j (Ne.symm hj)
      rw [hl] at this
      exact this (List.mem_map_of_mem List.mem_cons_self) (heq ▸ ha)
    · simp only [Stacks.put, Function.update_self]
      rw [hoff.head]
      refine hrest.congr fun a ha => ?_
      show (L'.heap a).map Cell.next = (s.heap a).map Cell.next
      rw [hkept a ha]
    · show (L'.heap p.1).map Cell.val = _
      rw [hkept p.1 (List.mem_map_of_mem hp)]
      exact hholds.val p (List.mem_cons_of_mem _ hp)
    · simp only [Stacks.put, Function.update_self]
      rw [hoff.count]
      show (s.stack i).count - 1 = _
      rw [hholds.count, List.length_cons, UInt32.ofNat_add]
      exact UInt32.add_sub_cancel _ _
    · have := h.apart i j (Ne.symm hj)
      rw [hl, List.map_cons, List.disjoint_cons_left] at this
      exact this.2
    · have hlt := h.below i p (hl ▸ List.mem_cons_of_mem _ hp)
      rw [hoff.fresh]
      exact hlt

/-- If the stack is the old one under a new top, the element has pointed below. -/
theorem next_of_lifo (h : StackInv s t) (htop : OnTop (s.list i) c L')
    (hlifo : Lifo (s.put i L') (Function.update t i ((s.fresh, c.val) :: t i))) : c.next = (s.stack i).head := by
  have hchain := (hlifo.holds i).chain
  rw [Function.update_self] at hchain
  obtain ⟨-, n, hn, hrest⟩ := hchain
  have hcell : (L'.heap s.fresh).map Cell.next = some n := hn
  rw [htop.heap] at hcell
  have hnext : c.next = n := by
    rw [show (s.list i).fresh = s.fresh from rfl, Function.update_self] at hcell
    exact Option.some.inj hcell
  rw [hnext, hrest.start, ← (h.holds i).chain.start]

/-- The empty stack of a new connection -/
def Stacks.addEmpty (s : Stacks α) : Stacks α :=
  { s with stack := Function.update s.stack (s.handles + 1) .zero, handles := s.handles + 1 }

theorem addEmpty_new (s : Stacks α) : s.addEmpty.stack (s.handles + 1) = .zero := Function.update_self _ _ _

theorem addEmpty_global (s : Stacks α) : s.addEmpty.stack 0 = s.stack 0 :=
  Function.update_of_ne (Nat.succ_ne_zero s.handles).symm CbStkMeta.zero s.stack

theorem StackInv.addEmpty (h : StackInv s t) : StackInv s.addEmpty (Function.update t (s.handles + 1) []) := by
  refine ⟨⟨fun j => ?_, fun j k hjk => ?_⟩, fun j p hp => ?_⟩
  · by_cases hj : j = s.handles + 1
    · subst hj
      rw [Function.update_self]
      exact ⟨by rw [addEmpty_new]; rfl, by simp, by rw [addEmpty_new]; rfl⟩
    · rw [Function.update_of_ne hj]
      exact (h.holds j).congr (Function.update_of_ne hj _ _) fun _ _ => rfl
  · by_cases hj : j = s.handles + 1
    · simp [hj]
    · by_cases hk : k = s.handles + 1
      · simp [hk]
      · rw [Function.update_of_ne hj, Function.update_of_ne hk]
        exact h.apart j k hjk
  · by_cases hj : j = s.handles + 1
    · simp [hj] at hp
    · rw [Function.update_of_ne hj] at hp
      exact h.below j p hp

/-- A new connection gets an empty stack, or a copy of the top of the global one. -/
theorem StackInv.add [Inhabited α] (h : StackInv s t) :
    ((s.stack 0).head = none ∧ t 0 = [] ∧ Stacks.upkNetAddSocketHandle s = some s.addEmpty) ∨
    ∃ top c L', (s.stack 0).head = some top ∧ s.heap top = some c ∧ (∃ l, t 0 = (top, c.val) :: l) ∧
      OnTop (s.addEmpty.list (s.handles + 1)) c L' ∧
      Stacks.upkNetAddSocketHandle s = some (s.addEmpty.put (s.handles + 1) L') := by
  have hglobal : Function.update s.stack (s.handles + 1) CbStkMeta.zero 0 = s.stack 0 := addEmpty_global s
  have hhead := (h.holds 0).chain.start
  have hval := (h.holds 0).val
  have hchain := (h.holds 0).chain
  cases hl : t 0 with
  | nil =>
    rw [hl] at hhead
    refine Or.inl ⟨hhead, rfl, ?_⟩
    unfold Stacks.upkNetAddSocketHandle
    dsimp only
    rw [hglobal, hhead]
    rfl
  | cons top l =>
    rw [hl] at hhead hval hchain
    obtain ⟨-, n, hn, -⟩ := hchain
    obtain ⟨c, hc, -⟩ := Option.map_eq_some_iff.mp hn
    have hc' : s.heap top.1 = some c := hc
    obtain ⟨L', hL', htop⟩ := push_onTop c (s.addEmpty.list (s.handles + 1))
    have hcval : c.val = top.2 := by
      have := hval top List.mem_cons_self
      rw [UpkList.val?, hc] at this
      exact Option.some.inj this
    refine Or.inr ⟨top.1, c, L', hhead, hc', ⟨l, by rw [hcval]⟩, htop, ?_⟩
    have hpush : upkCallbackStackPush c (s.addEmpty.list (s.handles + 1)) = some L' := hL'
    unfold Stacks.upkNetAddSocketHandle
    dsimp only
    rw [hglobal, hhead]
    show (s.heap top.1 >>= _) = _
    rw [hc', Option.bind_eq_bind, Option.bind_some]
    show (upkCallbackStackPush c (s.addEmpty.list (s.handles + 1)) >>= _) = _
    rw [hpush]
    rfl

theorem stackSpec_add {top : Addr × α} (hl : t 0 = top :: l) :
    stackSpec s .add t = Function.update (Function.update t (s.handles + 1) []) (s.handles + 1)
      ((s.fresh, top.2) :: Function.update t (s.handles + 1) [] (s.handles + 1)) := by
  rw [stackSpec, hl, Function.update_idem, Function.update_self]
  rfl

variable [Inhabited α] {call : StackCall α}

/-- **What a call needs.** -/
theorem pointsBelow_of_lifo (h : StackInv s t) (hstep : stackStep s call = some s')
    (hlifo : Lifo s' (stackSpec s call t)) : PointsBelow s call := by
  cases call with
  | init handlers => trivial
  | add =>
    rw [stackStep] at hstep
    rcases h.add with ⟨hhead, -, -⟩ | ⟨top, c, L', hhead, hcell, ⟨l, hl⟩, htop, hadd⟩
    · intro top htop
      rw [hhead] at htop
      cases htop
    · intro top' htop' c' hc'
      obtain rfl := Option.some.inj (hhead.symm.trans htop')
      obtain rfl := Option.some.inj (hcell.symm.trans hc')
      obtain rfl := Option.some.inj (hadd.symm.trans hstep)
      rw [stackSpec_add hl] at hlifo
      exact (next_of_lifo h.addEmpty htop hlifo).trans (congrArg CbStkMeta.head (addEmpty_new s))
  | push i state =>
    rw [stackStep] at hstep
    split at hstep
    · rename_i hi
      obtain ⟨L', hL', htop⟩ := push_onTop state (s.list (i + 1))
      rw [hL'] at hstep
      obtain rfl := Option.some.inj hstep
      exact ⟨hi, next_of_lifo h htop hlifo⟩
    · cases hstep
  | pop i =>
    rw [stackStep] at hstep
    split at hstep
    · assumption
    · cases hstep

/-- **What a call does.** -/
theorem StackInv.step (h : StackInv s t) (hbelow : PointsBelow s call) :
    ∃ s', stackStep s call = some s' ∧ StackInv s' (stackSpec s call t) := by
  cases call with
  | init handlers =>
    obtain ⟨L', hL', htop⟩ := init_onTop handlers (s.list 0)
    refine ⟨s.put 0 L', ?_, h.onTop htop rfl⟩
    rw [stackStep, hL']
    rfl
  | add =>
    rcases h.add with ⟨-, hl, hadd⟩ | ⟨top, c, L', hhead, hcell, ⟨l, hl⟩, htop, hadd⟩
    · refine ⟨s.addEmpty, hadd, ?_⟩
      have hspec : stackSpec s .add t = Function.update t (s.handles + 1) [] := by
        rw [stackSpec, hl]
        rfl
      rw [hspec]
      exact h.addEmpty
    · have hempty : (s.addEmpty.stack (s.handles + 1)).head = none := congrArg CbStkMeta.head (addEmpty_new s)
      refine ⟨_, hadd, ?_⟩
      rw [stackSpec_add hl]
      exact h.addEmpty.onTop htop ((hbelow top hhead c hcell).trans hempty.symm)
  | push i state =>
    obtain ⟨hi, hnext⟩ := hbelow
    obtain ⟨L', hL', htop⟩ := push_onTop state (s.list (i + 1))
    refine ⟨s.put (i + 1) L', ?_, h.onTop htop hnext⟩
    rw [stackStep, if_pos hi, hL']
    rfl
  | pop i =>
    obtain ⟨L', hL', hinv⟩ := h.pop
    refine ⟨s.put (i + 1) L', ?_, hinv⟩
    have hi : i < s.handles := hbelow
    rw [stackStep, if_pos hi, hL']
    rfl

/-- **The callback stacks.** In a run of pushes and pops on the stacks of connections that are added meanwhile, the
stacks are the sequences that they should be, and share no nodes, exactly if every element that is pushed already points
to the top of the stack that it is pushed on. -/
theorem lifo_iff (calls : List (StackCall α)) :
    Machine.Tracks stackStep stackSpec Lifo Stacks.init (fun _ => []) calls ↔
      Machine.Guarded stackStep PointsBelow Stacks.init calls :=
  Machine.tracks_iff_guarded (fun _ _ h => h.toLifo) (fun _ _ _ _ h hstep hlifo => pointsBelow_of_lifo h hstep hlifo)
    (fun _ _ _ h hbelow => h.step hbelow) init_stackInv

/-- Two elements whose pointer is `NULL` are pushed on one stack, or a connection is added while the global stack has
two elements: the top of the stack does not lead to what should be below it. -/
theorem not_lifo_null :
    ¬Machine.Tracks stackStep stackSpec Lifo Stacks.init (fun _ => []) [.add, .push 0 ⟨none, 1⟩, .push 0 ⟨none, (2 : Nat)⟩] ∧
      ¬Machine.Tracks stackStep stackSpec Lifo Stacks.init (fun _ => []) [.init 1, .init (2 : Nat), .add] := by
  constructor
  · rintro ⟨-, s₁, h₁, -, s₂, h₂, -, s₃, h₃, hlifo⟩
    obtain rfl := Option.some.inj h₁
    obtain rfl := Option.some.inj h₂
    obtain rfl := Option.some.inj h₃
    obtain ⟨-, n, hn, hbelow, -⟩ := (hlifo.holds 1).chain
    obtain rfl : none = n := Option.some.inj hn
    cases hbelow
  · rintro ⟨-, s₁, h₁, -, s₂, h₂, -, s₃, h₃, hlifo⟩
    obtain rfl := Option.some.inj h₁
    obtain rfl := Option.some.inj h₂
    obtain rfl := Option.some.inj h₃
    obtain ⟨-, n, hn, hend⟩ := (hlifo.holds 1).chain
    obtain rfl : some 0 = n := Option.some.inj hn
    cases hend

end Upkeeper
