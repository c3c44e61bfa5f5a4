import Mathlib.Logic.Function.Basic
import Upkeeper.Library.Chain
/-!
# The `UPKLIST` macros (`upk_types.h`)

A list is a meta node with the pointers `head`, `tail`, `prevp`, `nextp`, `tempp`, `thisp` and a 32-bit
`count`, over cells that hold a `next` pointer and the rest of the node (`val`). The memory of a list's cells
is part of its state. Pointers are `Option Addr`, with `none` for `NULL`. A macro is a function into `Option`:
`none` is a load or a store through `NULL` or through a freed pointer.
-/

namespace Upkeeper

/-- The address of a list node. -/
abbrev Addr := Nat

/-- A list node: its `next` pointer and its other fields. -/
structure Cell (α : Type) where
  next : Option Addr
  val : α

/-- The meta node, with the memory of the nodes. `calloc` hands out `fresh`. -/
structure UpkList (α : Type) where
  heap : Addr → Option (Cell α)
  fresh : Addr
  head : Option Addr
  tail : Option Addr
  prevp : Option Addr
  nextp : Option Addr
  tempp : Option Addr
  thisp : Option Addr
  count : UInt32

namespace UpkList

variable {α : Type}

/-! ### Memory -/

/-- The pointer held by the cell `a`, if `a` is allocated. -/
def next (L : UpkList α) (a : Addr) : Option (Option Addr) := (L.heap a).map Cell.next

/-- The rest of the cell `a`. -/
def val? (L : UpkList α) (a : Addr) : Option α := (L.heap a).map Cell.val

/-- `p->next = q` -/
def setNext (L : UpkList α) (p q : Option Addr) : Option (UpkList α) := do
  let a ← p
  let c ← L.heap a
  some { L with heap := Function.update L.heap a (some { c with next := q }) }

/-- `p->field = …` -/
def modifyVal (L : UpkList α) (p : Option Addr) (f : α → α) : Option (UpkList α) := do
  let a ← p
  let c ← L.heap a
  some { L with heap := Function.update L.heap a (some { c with val := f c.val }) }

/-- `free(p)` -/
def free (L : UpkList α) (p : Option Addr) : Option (UpkList α) := do
  let a ← p
  let _ ← L.heap a
  some { L with heap := Function.update L.heap a none }

/-- The successor of `p`, with `NULL` after `NULL`. -/
def nextOf (L : UpkList α) : Option Addr → Option (Option Addr)
  | none => some none
  | some a => L.next a

/-- `_UPKLIST_NEXTNODE` -/
def nextNode (L : UpkList α) : Option (Option Addr) := L.nextOf L.thisp

/-! ### The macros -/

/-- `UPKLIST_INIT` -/
def init : UpkList α :=
  { heap := fun _ => none, fresh := 0, head := none, tail := none, prevp := none, nextp := none,
    tempp := none, thisp := none, count := 0 }

/-- `_UPKLIST_NEWNODE`; `default` is the zeroed node. -/
def newNode [Inhabited α] (L : UpkList α) : UpkList α :=
  { L with
    heap := Function.update L.heap L.fresh (some ⟨none, default⟩)
    fresh := L.fresh + 1
    tempp := some L.fresh }

/-- `UPKLIST_APPEND_THIS` -/
def appendThis [Inhabited α] (L : UpkList α) : Option (UpkList α) := do
  let L := L.newNode
  let L ← L.setNext L.tempp L.nextp
  let L := { L with tail := if L.nextp = none then L.tempp else L.tail }
  let L := { L with head := if L.prevp = none ∧ L.count = 0 then L.tempp else L.head }
  let L ← if L.thisp = none then some L else L.setNext L.thisp L.tempp
  some { L with count := L.count + 1, thisp := L.tempp }

/-- `UPKLIST_APPEND` -/
def append [Inhabited α] (L : UpkList α) : Option (UpkList α) := do
  let L := { L with thisp := L.tail }
  let L := { L with prevp := if L.prevp = none then L.head else L.prevp }
  let L ← L.appendThis
  some { L with prevp := none }

/-- `UPKLIST_PREPEND_THIS` -/
def prependThis [Inhabited α] (L : UpkList α) : Option (UpkList α) := do
  let L := L.newNode
  let L ← L.setNext L.tempp L.thisp
  let L := { L with tail := if L.nextp = none then L.tempp else L.tail }
  let L ← if L.prevp = none then some { L with head := L.tempp } else L.setNext L.prevp L.tempp
  some { L with count := L.count + 1, thisp := L.tempp }

/-- `UPKLIST_PREPEND` -/
def prepend [Inhabited α] (L : UpkList α) : Option (UpkList α) :=
  { L with prevp := none, thisp := L.head }.prependThis

/-- `_UPKLIST_FOREACH_INIT` -/
def foreachInit (L : UpkList α) : Option (UpkList α) := do
  let L := { L with tempp := none, prevp := none, thisp := L.head }
  let n ← L.nextNode
  some { L with nextp := n }

/-- `_UPKLIST_FOREACH_CONTINUE` -/
def foreachContinue (L : UpkList α) : Option (UpkList α) := do
  let L := { L with tempp := none, prevp := L.thisp, thisp := L.nextp }
  let n ← L.nextNode
  some { L with nextp := n }

/-- One iteration of `UPKLIST_FOREACH`: the body, which also carries a state `ω` of the surrounding code, and the
step to the next node. -/
def foreachStep {ω : Type} (body : UpkList α × ω → Option (UpkList α × ω)) (x : UpkList α × ω) :
    Option (UpkList α × ω) := do
  let (L, w) ← body x
  let L ← L.foreachContinue
  some (L, w)

/-- The loop of `UPKLIST_FOREACH` from its current node on. The number of iterations is bounded by `fuel`; running
out of it is `none`. -/
def foreachFrom {ω : Type} (body : UpkList α × ω → Option (UpkList α × ω)) :
    Nat → UpkList α × ω → Option (UpkList α × ω)
  | 0, _ => none
  | fuel + 1, x =>
    match x.1.thisp with
    | none => some x
    | some _ => foreachStep body x >>= foreachFrom body fuel

/-- `UPKLIST_FOREACH` with a body that does not leave the loop -/
def foreach {ω : Type} (body : UpkList α × ω → Option (UpkList α × ω)) (fuel : Nat) (L : UpkList α) (w : ω) :
    Option (UpkList α × ω) := do
  let L ← L.foreachInit
  foreachFrom body fuel (L, w)

/-- `UPKLIST_HEAD`: a `UPKLIST_FOREACH` that breaks at once -/
def headThis (L : UpkList α) : Option (UpkList α) := L.foreachInit

/-- `UPKLIST_UNLINK` -/
def unlink (L : UpkList α) : Option (UpkList α) :=
  if L.thisp = none then some L
  else do
    let L ← if L.prevp = none then some { L with head := L.nextp } else L.setNext L.prevp L.nextp
    let L := { L with tail := if L.nextp = none then L.prevp else L.tail }
    let L ← L.free L.thisp
    some { L with thisp := none, count := L.count - 1 }

/-! ### What the operations do to `next` -/

@[simp] theorem next_mk (f : Addr → Option (Cell α)) (fr : Addr) (h t p n te th : Option Addr)
    (k : UInt32) :
    (UpkList.mk f fr h t p n te th k).next = fun a => (f a).map Cell.next := rfl

theorem map_next_heap (L : UpkList α) (a : Addr) : (L.heap a).map Cell.next = L.next a := rfl

theorem map_next_update (f : Addr → Option (Cell α)) (a : Addr) (c : Option (Cell α)) (x : Addr) :
    (Function.update f a c x).map Cell.next
      = Function.update (fun x => (f x).map Cell.next) a (c.map Cell.next) x := by
  by_cases h : x = a
  · subst h
    simp
  · simp [h]

theorem next_eq_some {L : UpkList α} {a : Addr} {n : Option Addr} :
    L.next a = some n ↔ ∃ v, L.heap a = some ⟨n, v⟩ := by
  constructor
  · intro h
    obtain ⟨c, hc, rfl⟩ := Option.map_eq_some_iff.mp h
    exact ⟨c.val, hc⟩
  · rintro ⟨v, hv⟩
    simp [next, hv]

end UpkList

end Upkeeper
