import Upkeeper.UpkList.Basic
/-!
# The `UPKDLIST` macros (`upk_types.h`)

A doubly linked list has the meta node of a `UPKLIST`, over cells that also hold a `prev` pointer. As there, the
memory of the cells is part of the state, and a macro is a function into `Option`, with `none` for a load or a store
through `NULL` or through a freed pointer.

`visits` and `visitsReverse` are the nodes that the loops `UPKDLIST_FOREACH` and `UPKDLIST_FOREACH_REVERSE` come to.
-/

namespace Upkeeper

/-- A list node: its `prev` and `next` pointers and its other fields. -/
structure DCell (α : Type) where
  prev : Option Addr
  next : Option Addr
  val : α

/-- The meta node, with the memory of the nodes. `calloc` hands out `fresh`. -/
structure UpkDList (α : Type) where
  heap : Addr → Option (DCell α)
  fresh : Addr
  head : Option Addr
  tail : Option Addr
  prevp : Option Addr
  nextp : Option Addr
  tempp : Option Addr
  thisp : Option Addr
  count : UInt32

namespace UpkDList

variable {α : Type}

/-! ### Memory -/

/-- The pointer `next` of the cell `a`, if `a` is allocated. -/
def next (D : UpkDList α) (a : Addr) : Option (Option Addr) := (D.heap a).map DCell.next

/-- The pointer `prev` of the cell `a`, if `a` is allocated. -/
def prev (D : UpkDList α) (a : Addr) : Option (Option Addr) := (D.heap a).map DCell.prev

/-- A store to the cell that `p` points to -/
def modify (D : UpkDList α) (p : Option Addr) (f : DCell α → DCell α) : Option (UpkDList α) := do
  let a ← p
  let c ← D.heap a
  some { D with heap := Function.update D.heap a (some (f c)) }

/-- `p->next = q` -/
def setNext (D : UpkDList α) (p q : Option Addr) : Option (UpkDList α) := D.modify p fun c => { c with next := q }

/-- `p->prev = q` -/
def setPrev (D : UpkDList α) (p q : Option Addr) : Option (UpkDList α) := D.modify p fun c => { c with prev := q }

/-- `free(p)` -/
def free (D : UpkDList α) (p : Option Addr) : Option (UpkDList α) := do
  let a ← p
  let _ ← D.heap a
  some { D with heap := Function.update D.heap a none }

/-- The successor of `p`, with `NULL` after `NULL`. -/
def nextOf (D : UpkDList α) : Option Addr → Option (Option Addr)
  | none => some none
  | some a => D.next a

/-- The predecessor of `p`, with `NULL` before `NULL`. -/
def prevOf (D : UpkDList α) : Option Addr → Option (Option Addr)
  | none => some none
  | some a => D.prev a

/-- `_UPKDLIST_NEXTNODE` -/
def nextNode (D : UpkDList α) : Option (Option Addr) := D.nextOf D.thisp

/-- `_UPKDLIST_PREVNODE` -/
def prevNode (D : UpkDList α) : Option (Option Addr) := D.prevOf D.thisp

/-! ### The macros -/

/-- `UPKDLIST_INIT` -/
def init : UpkDList α :=
  { heap := fun _ => none, fresh := 0, head := none, tail := none, prevp := none, nextp := none,
    tempp := none, thisp := none, count := 0 }

/-- `_UPKDLIST_NEWNODE`; `default` is the zeroed node. -/
def newNode [Inhabited α] (D : UpkDList α) : UpkDList α :=
  { D with
    heap := Function.update D.heap D.fresh (some ⟨none, none, default⟩)
    fresh := D.fresh + 1
    tempp := some D.fresh }

/-- `if(thisp) { thisp->next = tempp; tempp->prev = thisp; }` -/
def linkAfterThis (D : UpkDList α) : Option (UpkDList α) :=
  if D.thisp = none then some D
  else do
    let D ← D.setNext D.thisp D.tempp
    D.setPrev D.tempp D.thisp

/-- `if(thisp) { tempp->prev = thisp->prev; thisp->prev = tempp; }` -/
def linkBeforeThis (D : UpkDList α) : Option (UpkDList α) :=
  if D.thisp = none then some D
  else do
    let p ← D.prevNode
    let D ← D.setPrev D.tempp p
    D.setPrev D.thisp D.tempp

/-- `if(! prevp) { head = q; } else { prevp->next = q; }` -/
def linkPrevp (D : UpkDList α) (q : Option Addr) : Option (UpkDList α) :=
  if D.prevp = none then some { D with head := q } else D.setNext D.prevp q

/-- `if(! nextp) { tail = q; } else { nextp->prev = q; }` -/
def linkNextp (D : UpkDList α) (q : Option Addr) : Option (UpkDList α) :=
  if D.nextp = none then some { D with tail := q } else D.setPrev D.nextp q

/-- `UPKDLIST_APPEND_THIS` -/
def appendThis [Inhabited α] (D : UpkDList α) : Option (UpkDList α) := do
  let D := D.newNode
  let D ← D.setNext D.tempp D.nextp
  let D ← D.linkAfterThis
  let D := { D with tail := if D.nextp = none then D.tempp else D.tail }
  let D := { D with head := if D.prevp = none ∧ D.count = 0 then D.tempp else D.head }
  some { D with count := D.count + 1, thisp := D.tempp }

/-- `UPKDLIST_APPEND` -/
def append [Inhabited α] (D : UpkDList α) : Option (UpkDList α) := do
  let D := { D with thisp := D.tail }
  let p ← if D.thisp = none then some D.head else D.prevNode
  let D := { D with prevp := p }
  D.appendThis

/-- `UPKDLIST_PREPEND_THIS` -/
def prependThis [Inhabited α] (D : UpkDList α) : Option (UpkDList α) := do
  let D := D.newNode
  let D ← D.setNext D.tempp D.thisp
  let D ← D.linkBeforeThis
  let D := { D with tail := if D.nextp = none then D.tempp else D.tail }
  let D ← D.linkPrevp D.tempp
  some { D with count := D.count + 1, thisp := D.tempp }

/-- `UPKDLIST_PREPEND` -/
def prepend [Inhabited α] (D : UpkDList α) : Option (UpkDList α) :=
  { D with prevp := none, thisp := D.head }.prependThis

/-- `_UPKDLIST_FOREACH_INIT` -/
def foreachInit (D : UpkDList α) : Option (UpkDList α) := do
  let D := { D with tempp := none, prevp := none, thisp := D.head }
  let n ← D.nextNode
  some { D with nextp := n }

/-- `_UPKDLIST_FOREACH_CONTINUE`; `prevp` is set twice. -/
def foreachContinue (D : UpkDList α) : Option (UpkDList α) := do
  let D := { D with tempp := none, prevp := D.thisp, thisp := D.nextp }
  let n ← D.nextNode
  let D := { D with nextp := n }
  let p ← D.prevNode
  some { D with prevp := p }

/-- `_UPKDLIST_FOREACH_R_INIT` -/
def foreachReverseInit (D : UpkDList α) : Option (UpkDList α) := do
  let D := { D with tempp := none, nextp := none, thisp := D.tail }
  let p ← D.prevNode
  some { D with prevp := p }

/-- `_UPKDLIST_FOREACH_R_CONTINUE`; `nextp` is set twice. -/
def foreachReverseContinue (D : UpkDList α) : Option (UpkDList α) := do
  let D := { D with tempp := none, nextp := D.thisp, thisp := D.prevp }
  let p ← D.prevNode
  let D := { D with prevp := p }
  let n ← D.nextNode
  some { D with nextp := n }

/-- `UPKDLIST_HEAD`: a `UPKDLIST_FOREACH` that breaks at once -/
def headThis (D : UpkDList α) : Option (UpkDList α) := D.foreachInit

/-- `UPKDLIST_TAIL`: a `UPKDLIST_FOREACH_REVERSE` that breaks at once -/
def tailThis (D : UpkDList α) : Option (UpkDList α) := D.foreachReverseInit

/-- `UPKDLIST_UNLINK` -/
def unlink (D : UpkDList α) : Option (UpkDList α) :=
  if D.thisp = none then some D
  else do
    let D ← D.linkPrevp D.nextp
    let D ← D.linkNextp D.prevp
    let D ← D.free D.thisp
    some { D with thisp := none, count := D.count - 1 }

/-- The nodes that a loop visits from the current one on, with the step that it takes at the end of its body. The
number of iterations is bounded by `fuel`; running out of it is `none`. -/
def visitsFrom (step : UpkDList α → Option (UpkDList α)) : Nat → UpkDList α → Option (List Addr)
  | 0, _ => none
  | fuel + 1, D =>
    match D.thisp with
    | none => some []
    | some a => do
      let D ← step D
      let as ← visitsFrom step fuel D
      some (a :: as)

/-- The nodes that `UPKDLIST_FOREACH` visits -/
def visits (fuel : Nat) (D : UpkDList α) : Option (List Addr) := do
  let D ← D.foreachInit
  visitsFrom foreachContinue fuel D

/-- The nodes that `UPKDLIST_FOREACH_REVERSE` visits -/
def visitsReverse (fuel : Nat) (D : UpkDList α) : Option (List Addr) := do
  let D ← D.foreachReverseInit
  visitsFrom foreachReverseContinue fuel D

end UpkDList

end Upkeeper
