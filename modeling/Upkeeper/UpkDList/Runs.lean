import Upkeeper.Library.Machine
import Upkeeper.UpkDList.Refine
/-!
# Runs of the doubly linked list macros

A run takes the macros in any order from `UPKDLIST_INIT`, with the two loops taken apart as for `UPKLIST`. The
invariant is that of a `UPKLIST` for the `next` pointers, and a chain of `prev` pointers from `tail` through the
reversed sequence.

The cursor that the loops leave behind is right in both directions. But `UPKDLIST_APPEND_THIS` does not set the `prev`
pointer of the node behind the new one, and the inserting macros leave a cursor that the next macro may not expect, as
those of a `UPKLIST` do. So a run represents the intended sequence exactly as long as every macro finds the list as it
needs it (`Fits`).
-/

namespace Upkeeper.UpkDList

open Chain (Seg)

variable {α : Type}

/-- The list macros, with `UPKDLIST_FOREACH` and `UPKDLIST_FOREACH_REVERSE` taken apart. -/
inductive Macro
  | append
  | prepend
  | head
  | tail
  | foreachInit
  | foreachContinue
  | foreachReverseInit
  | foreachReverseContinue
  | appendThis
  | prependThis
  | unlink
  deriving DecidableEq, Repr

/-- Run one macro. -/
def exec [Inhabited α] (D : UpkDList α) : Macro → Option (UpkDList α)
  | .append => D.append
  | .prepend => D.prepend
  | .head => D.headThis
  | .tail => D.tailThis
  | .foreachInit => D.foreachInit
  | .foreachContinue => D.foreachContinue
  | .foreachReverseInit => D.foreachReverseInit
  | .foreachReverseContinue => D.foreachReverseContinue
  | .appendThis => D.appendThis
  | .prependThis => D.prependThis
  | .unlink => D.unlink

/-- What the macro is meant to do to the sequence of nodes: add last, add first, insert after or before the current
node, remove the current node. New nodes are allocated at `fresh`. -/
def intend (D : UpkDList α) (m : Macro) (l : List Addr) : List Addr :=
  match m, D.thisp with
  | .append, _ => l ++ [D.fresh]
  | .prepend, _ => D.fresh :: l
  | .appendThis, some a => UpkList.insertAfter a D.fresh l
  | .prependThis, some a => UpkList.insertBefore a D.fresh l
  | .unlink, some a => l.erase a
  | _, _ => l

/-- **The list represents the sequence of nodes `l`**: it has `count` nodes, the `next` pointers lead from `head`
through `l` to `tail`, each node is pointed back to by the next one, the first one points back to nothing, and the two
loops visit `l` and its reverse. -/
structure Represents (D : UpkDList α) (l : List Addr) : Prop where
  count : D.count.toNat = l.length
  chain : Seg D.next D.head l none
  tail : D.tail = l.getLast?
  prev : ∀ l₁ a b l₂, l = l₁ ++ a :: b :: l₂ → D.prev b = some (some a)
  first : ∀ a ∈ D.head, D.prev a = some none
  visits : ∀ fuel, l.length < fuel → D.visits fuel = some l ∧ D.visitsReverse fuel = some l.reverse

/-- The list and the cursor are as the macro needs them. `UPKDLIST_APPEND` links the new last node to `nextp`,
`UPKDLIST_PREPEND` moves `tail` unless there is a `nextp`, `UPKDLIST_APPEND_THIS` is right at the last node only, and
the others at the current node trust `prevp` and `nextp` to be its neighbours. -/
def Fits (D : UpkDList α) : Macro → Prop
  | .append => D.nextp = none ∧ D.count ≠ 0xffffffff
  | .prepend => (D.head ≠ none → D.nextp ≠ none) ∧ D.count ≠ 0xffffffff
  | .appendThis => D.thisp ≠ none ∧ D.thisp = D.tail ∧ D.nextp = none ∧ D.count ≠ 0xffffffff
  | .prependThis => D.thisp ≠ none ∧ D.toUpkList.PrevOk ∧ D.nextp ≠ none ∧ D.count ≠ 0xffffffff
  | .unlink => D.thisp = none ∨ D.toUpkList.PrevOk ∧ D.toUpkList.NextOk
  | .head | .tail | .foreachInit | .foreachContinue | .foreachReverseInit | .foreachReverseContinue => True

/-! ### The invariant -/

/-- What a run of the macros keeps: the invariant of a `UPKLIST`, and the chain back. -/
structure Inv (D : UpkDList α) (l : List Addr) : Prop where
  forth : D.toUpkList.Inv l
  back : Seg D.prev D.tail l.reverse none

variable {D D' : UpkDList α} {l l₁ l₂ : List Addr} {a : Addr} {p q n : Option Addr} {m : Macro}

theorem init_inv : Inv (init : UpkDList α) [] := ⟨UpkList.init_inv, rfl⟩

theorem Inv.chain (h : Inv D l) : Seg D.next D.head l none := by
  rw [← toUpkList_next]
  exact h.forth.chain

theorem Inv.isSome (h : Inv D l) (ha : a ∈ l) : (D.heap a).isSome := by
  obtain ⟨n, hn⟩ := h.chain.allocated ha
  obtain ⟨c, hc, -⟩ := Option.map_eq_some_iff.mp hn
  exact Option.isSome_iff_exists.mpr ⟨c, hc⟩

theorem Inv.prev_eq (h : Inv D (l₁ ++ a :: l₂)) : D.prev a = some l₁.getLast? := by
  have hback := h.back
  rw [List.reverse_append, List.reverse_cons, List.append_assoc, List.singleton_append] at hback
  rw [(Chain.seg_split.mp hback).2.1, List.head?_reverse]

theorem Inv.nextOf (h : Inv D l) (hp : ∀ a ∈ p, a ∈ l) : ∃ n, D.nextOf p = some n ∧ ∀ a ∈ n, a ∈ l := by
  cases p with
  | none => exact ⟨none, rfl, by simp⟩
  | some a =>
    obtain ⟨n, hn⟩ := h.chain.allocated (hp a rfl)
    exact ⟨n, hn, h.chain.next_mem (hp a rfl) hn⟩

theorem Inv.prevOf (h : Inv D l) (hp : ∀ a ∈ p, a ∈ l) : ∃ n, D.prevOf p = some n ∧ ∀ a ∈ n, a ∈ l := by
  cases p with
  | none => exact ⟨none, rfl, by simp⟩
  | some a =>
    have ha : a ∈ l.reverse := List.mem_reverse.mpr (hp a rfl)
    obtain ⟨n, hn⟩ := h.back.allocated ha
    exact ⟨n, hn, fun b hb => List.mem_reverse.mp (h.back.next_mem ha hn b hb)⟩

/-! ### The cursor -/

/-- The cursor has been moved to `p`, and its neighbours are known. -/
structure MovedTo (D : UpkDList α) (p : Option Addr) (D' : UpkDList α) : Prop where
  next : D'.next = D.next
  prev : D'.prev = D.prev
  thisp : D'.thisp = p
  nextp : D.nextOf p = some D'.nextp
  prevp : D.prevOf p = some D'.prevp

theorem MovedTo.nextNode (h : MovedTo D p D') : D'.nextNode = some D'.nextp := by
  rw [UpkDList.nextNode, h.thisp, ← h.nextp]
  cases p with
  | none => rfl
  | some a => exact congrFun h.next a

theorem MovedTo.prevNode (h : MovedTo D p D') : D'.prevNode = some D'.prevp := by
  rw [UpkDList.prevNode, h.thisp, ← h.prevp]
  cases p with
  | none => rfl
  | some a => exact congrFun h.prev a

theorem Inv.setCursor (h : Inv D l) {te : Option Addr} (hq : ∀ a ∈ q, a ∈ l) (hp : ∀ a ∈ p, a ∈ l)
    (hn : ∀ a ∈ n, a ∈ l) : Inv { D with tempp := te, prevp := q, thisp := p, nextp := n } l :=
  ⟨h.forth.setCursor hq hp hn, h.back⟩

theorem Inv.moveTo (h : Inv D l) (hp : ∀ a ∈ p, a ∈ l) : ∃ n q, D.nextOf p = some n ∧ D.prevOf p = some q ∧
    Inv { D with tempp := none, prevp := q, thisp := p, nextp := n } l := by
  obtain ⟨n, hn, hnmem⟩ := h.nextOf hp
  obtain ⟨q, hq, hqmem⟩ := h.prevOf hp
  exact ⟨n, q, hn, hq, h.setCursor hqmem hp hnmem⟩

theorem Inv.head_mem (h : Inv D l) : ∀ a ∈ D.head, a ∈ l := fun _ ha => List.mem_of_mem_head? (h.chain.start ▸ ha)

theorem Inv.tail_mem (h : Inv D l) : ∀ a ∈ D.tail, a ∈ l := fun _ ha =>
  List.mem_reverse.mp (List.mem_of_mem_head? (h.back.start ▸ ha))

theorem Inv.live (h : Inv D l) (hp : ∀ a ∈ p, a ∈ l) : ∀ a ∈ p, (D.heap a).isSome := fun a ha => h.isSome (hp a ha)

theorem Inv.thisp_mem (h : Inv D l) : ∀ a ∈ D.thisp, a ∈ l := h.forth.thisp_mem

theorem Inv.nextp_mem (h : Inv D l) : ∀ a ∈ D.nextp, a ∈ l := h.forth.nextp_mem

theorem Inv.prevp_mem (h : Inv D l) : ∀ a ∈ D.prevp, a ∈ l := h.forth.prevp_mem

theorem Inv.prevOf_head (h : Inv D l) : D.prevOf D.head = some none := by
  rw [h.chain.start]
  cases l with
  | nil => rfl
  | cons a l =>
    have hcut : Inv D ([] ++ a :: l) := h
    exact hcut.prev_eq

theorem Inv.nextOf_tail (h : Inv D l) : D.nextOf D.tail = some none := by
  rw [h.back.start, List.head?_reverse]
  rcases List.eq_nil_or_concat' l with rfl | ⟨m, a, rfl⟩
  · rfl
  · rw [List.getLast?_concat]
    exact (Chain.seg_split.mp h.chain).2.1

theorem foreachInit_inv (h : Inv D l) : ∃ D', D.foreachInit = some D' ∧ Inv D' l ∧ MovedTo D D.head D' := by
  obtain ⟨n, q, hn, hq, hinv⟩ := h.moveTo h.head_mem
  obtain rfl : q = none := Option.some.inj (hq.symm.trans h.prevOf_head)
  refine ⟨_, ?_, hinv, rfl, rfl, rfl, hn, hq⟩
  show (D.nextOf D.head >>= _) = _
  rw [hn]
  rfl

theorem foreachReverseInit_inv (h : Inv D l) :
    ∃ D', D.foreachReverseInit = some D' ∧ Inv D' l ∧ MovedTo D D.tail D' := by
  obtain ⟨n, q, hn, hq, hinv⟩ := h.moveTo h.tail_mem
  obtain rfl : n = none := Option.some.inj (hn.symm.trans h.nextOf_tail)
  refine ⟨_, ?_, hinv, rfl, rfl, rfl, hn, hq⟩
  show (D.prevOf D.tail >>= _) = _
  rw [hq]
  rfl

theorem foreachContinue_inv (h : Inv D l) : ∃ D', D.foreachContinue = some D' ∧ Inv D' l ∧ MovedTo D D.nextp D' := by
  obtain ⟨n, q, hn, hq, hinv⟩ := h.moveTo h.nextp_mem
  refine ⟨_, ?_, hinv, rfl, rfl, rfl, hn, hq⟩
  show (D.nextOf D.nextp >>= _) = _
  rw [hn]
  show (D.prevOf D.nextp >>= _) = _
  rw [hq]
  rfl

theorem foreachReverseContinue_inv (h : Inv D l) :
    ∃ D', D.foreachReverseContinue = some D' ∧ Inv D' l ∧ MovedTo D D.prevp D' := by
  obtain ⟨n, q, hn, hq, hinv⟩ := h.moveTo h.prevp_mem
  refine ⟨_, ?_, hinv, rfl, rfl, rfl, hn, hq⟩
  show (D.prevOf D.prevp >>= _) = _
  rw [hq]
  show (D.nextOf D.prevp >>= _) = _
  rw [hn]
  rfl

/-! ### The loops -/

theorem visitsFrom_eq {step : UpkDList α → Option (UpkDList α)} {J : UpkDList α → Prop}
    {link : Addr → Option (Option Addr)} {v : List Addr} {fuel : Nat}
    (hstep : ∀ D a n, J D → D.thisp = some a → link a = some n → ∃ D', step D = some D' ∧ J D' ∧ D'.thisp = n)
    (hD : J D) (hv : Seg link D.thisp v none) (hfuel : v.length < fuel) : visitsFrom step fuel D = some v := by
  induction fuel generalizing D v with
  | zero => exact absurd hfuel (Nat.not_lt_zero _)
  | succ fuel ih =>
    unfold visitsFrom
    cases v with
    | nil =>
      have hthis : D.thisp = none := hv
      rw [hthis]
    | cons a v =>
      obtain ⟨hthis, n, hn, hv⟩ := hv
      obtain ⟨D', hD', hgood, hthis'⟩ := hstep D a n hD hthis hn
      rw [hthis]
      dsimp only
      rw [hD', Option.bind_eq_bind, Option.bind_some, ih hgood (hthis'.symm ▸ hv) (Nat.lt_of_succ_lt_succ hfuel)]
      rfl

theorem Inv.visits_eq (h : Inv D l) {fuel : Nat} (hfuel : l.length < fuel) : D.visits fuel = some l := by
  obtain ⟨D₁, h₁, hinv, hmoved⟩ := foreachInit_inv h
  unfold visits
  rw [h₁, Option.bind_eq_bind, Option.bind_some]
  -- in the loop `nextp` is the successor of the current node
  refine visitsFrom_eq (J := fun E => Inv E l ∧ E.next = D.next ∧ E.nextNode = some E.nextp) ?_
    ⟨hinv, hmoved.next, hmoved.nextNode⟩ (hmoved.thisp ▸ h.chain) hfuel
  rintro E a n ⟨hE, hnext, hnextp⟩ hthis hn
  obtain ⟨E', hE', hinv', hmoved'⟩ := foreachContinue_inv hE
  refine ⟨E', hE', ⟨hinv', hmoved'.next.trans hnext, hmoved'.nextNode⟩, hmoved'.thisp.trans ?_⟩
  rw [nextNode, hthis, UpkDList.nextOf, hnext, hn] at hnextp
  exact (Option.some.inj hnextp).symm

theorem Inv.visitsReverse_eq (h : Inv D l) {fuel : Nat} (hfuel : l.length < fuel) :
    D.visitsReverse fuel = some l.reverse := by
  obtain ⟨D₁, h₁, hinv, hmoved⟩ := foreachReverseInit_inv h
  unfold visitsReverse
  rw [h₁, Option.bind_eq_bind, Option.bind_some]
  -- in this loop `prevp` is the predecessor of the current node
  refine visitsFrom_eq (J := fun E => Inv E l ∧ E.prev = D.prev ∧ E.prevNode = some E.prevp) ?_
    ⟨hinv, hmoved.prev, hmoved.prevNode⟩ (hmoved.thisp ▸ h.back) (by rwa [List.length_reverse])
  rintro E a n ⟨hE, hprev, hprevp⟩ hthis hn
  obtain ⟨E', hE', hinv', hmoved'⟩ := foreachReverseContinue_inv hE
  refine ⟨E', hE', ⟨hinv', hmoved'.prev.trans hprev, hmoved'.prevNode⟩, hmoved'.thisp.trans ?_⟩
  rw [prevNode, hthis, UpkDList.prevOf, hprev, hn] at hprevp
  exact (Option.some.inj hprevp).symm

theorem Inv.represents (h : Inv D l) : Represents D l where
  count := h.forth.count
  chain := h.chain
  tail := h.forth.tail
  prev l₁ a b l₂ hl := by
    have hcut : l = (l₁ ++ [a]) ++ b :: l₂ := by rw [hl, List.append_assoc, List.singleton_append]
    subst hcut
    rw [h.prev_eq, List.getLast?_concat]
  first a ha := by
    have := h.prevOf_head
    rw [Option.mem_def.mp ha] at this
    exact this
  visits fuel hfuel := ⟨h.visits_eq hfuel, h.visitsReverse_eq hfuel⟩

theorem Represents.rep (h : Represents D l) : D.toUpkList.Rep l := ⟨toUpkList_next ▸ h.chain, h.tail, h.count⟩

/-! ### Inserting and removing -/

theorem Inv.pushLast (h : Inv D l) (hforth : D'.toUpkList.Inv (l ++ [D.fresh]))
    (hprev : D'.prev = Function.update D.prev D.fresh (some D.tail)) : Inv D' (l ++ [D.fresh]) where
  forth := hforth
  back := by
    have hfresh : D.fresh ∉ l.reverse := fun hmem => h.forth.fresh_notMem (List.mem_reverse.mp hmem)
    have htail : D'.tail = some D.fresh := hforth.tail.trans List.getLast?_concat
    rw [htail, hprev, List.reverse_concat]
    exact h.back.insert_start hfresh

theorem Inv.insert (h : Inv D (l₁ ++ a :: l₂)) (hforth : D'.toUpkList.Inv (l₁ ++ D.fresh :: a :: l₂))
    (hprev : D'.prev = Function.update (Function.update D.prev D.fresh (some l₁.getLast?)) a (some (some D.fresh))) :
    Inv D' (l₁ ++ D.fresh :: a :: l₂) where
  forth := hforth
  back := by
    have hrev : (l₁ ++ a :: l₂).reverse = l₂.reverse ++ a :: l₁.reverse := by simp
    have hrev' : (l₁ ++ D.fresh :: a :: l₂).reverse = l₂.reverse ++ a :: D.fresh :: l₁.reverse := by simp
    have hfresh : D.fresh ∉ l₂.reverse ++ a :: l₁.reverse := by
      rw [← hrev, List.mem_reverse]
      exact h.forth.fresh_notMem
    have htail : D'.tail = D.tail := by
      rw [show D'.tail = _ from hforth.tail, show D.tail = _ from h.forth.tail]
      simp
    rw [htail, hprev, hrev', ← List.head?_reverse]
    exact (hrev ▸ h.back).insert_after hfresh

theorem Inv.remove (h : Inv D (l₁ ++ a :: l₂)) (hforth : D'.toUpkList.Inv (l₁ ++ l₂))
    (hnil : l₂ = [] → D'.prev = Function.update D.prev a none)
    (hcons : ∀ n, l₂.head? = some n → D'.prev = Function.update (Function.update D.prev n (some l₁.getLast?)) a none) :
    Inv D' (l₁ ++ l₂) where
  forth := hforth
  back := by
    have hback := h.back
    have htail : D'.tail = (l₁ ++ l₂).getLast? := hforth.tail
    cases l₂ with
    | nil =>
      rw [List.append_nil] at htail
      rw [List.reverse_append, List.reverse_singleton, List.singleton_append] at hback
      rw [hnil rfl, htail, List.append_nil, ← List.head?_reverse]
      exact hback.remove_start
    | cons n l₃ =>
      have hrev : (l₁ ++ a :: n :: l₃).reverse = l₃.reverse ++ n :: a :: l₁.reverse := by simp
      have hrev' : (l₁ ++ n :: l₃).reverse = l₃.reverse ++ n :: l₁.reverse := by simp
      have hsame : D'.tail = D.tail := by
        rw [htail, show D.tail = _ from h.forth.tail]
        simp
      rw [hcons n rfl, hsame, hrev', ← List.head?_reverse]
      exact (hrev ▸ hback).remove_after

section Link

variable [Inhabited α]

theorem appendThis_inv (h : Inv D l) (hthis : D.thisp = D.tail) (hnext : D.nextp = none)
    (hcount : D.count ≠ 0xffffffff) : ∃ D', D.appendThis = some D' ∧ Inv D' (l ++ [D.fresh]) := by
  obtain ⟨L', hL', hinv⟩ := UpkList.appendThis_last_inv h.forth hthis hnext hcount
  have hforget := appendThis_forgets D
  rw [hL'] at hforget
  obtain ⟨D', hD', rfl⟩ := hforget.exists_eq
  refine ⟨D', hD', h.pushLast hinv ?_⟩
  rw [prev_appendThis hD', hthis]

theorem append_eq (h : Inv D l) :
    ∃ p, D.append = ({ D with thisp := D.tail, prevp := p } : UpkDList α).appendThis ∧
      Inv { D with thisp := D.tail, prevp := p } l := by
  obtain ⟨q, hq, hqmem⟩ := h.prevOf h.tail_mem
  by_cases htail : D.tail = none
  · refine ⟨D.head, ?_, h.setCursor h.head_mem h.tail_mem h.nextp_mem⟩
    unfold append
    dsimp only
    rw [if_pos htail]
    rfl
  · refine ⟨q, ?_, h.setCursor hqmem h.tail_mem h.nextp_mem⟩
    unfold append
    dsimp only
    rw [if_neg htail]
    show (D.prevOf D.tail >>= _) = _
    rw [hq]
    rfl

theorem append_inv (h : Inv D l) (hnext : D.nextp = none) (hcount : D.count ≠ 0xffffffff) :
    ∃ D', D.append = some D' ∧ Inv D' (l ++ [D.fresh]) := by
  obtain ⟨p, happ, hinv⟩ := append_eq h
  rw [happ]
  exact appendThis_inv hinv rfl hnext hcount

theorem prependThis_inv (h : Inv D (l₁ ++ a :: l₂)) (hthis : D.thisp = some a) (hprev : D.prevp = l₁.getLast?)
    (hnext : D.nextp ≠ none) (hcount : D.count ≠ 0xffffffff) :
    ∃ D', D.prependThis = some D' ∧ Inv D' (l₁ ++ D.fresh :: a :: l₂) := by
  obtain ⟨L', hL', hinv⟩ := UpkList.prependThis_inv h.forth hthis hprev hnext hcount
  have hforget := prependThis_forgets (h.live h.thisp_mem)
  rw [hL'] at hforget
  obtain ⟨D', hD', rfl⟩ := hforget.exists_eq
  have hne : a ≠ D.fresh := ne_of_mem_of_not_mem (h.thisp_mem a hthis) h.forth.fresh_notMem
  exact ⟨D', hD', h.insert hinv (prev_prependThis hD' hthis hne h.prev_eq)⟩

theorem prepend_inv (h : Inv D l) (hnext : D.head ≠ none → D.nextp ≠ none) (hcount : D.count ≠ 0xffffffff) :
    ∃ D', D.prepend = some D' ∧ Inv D' (D.fresh :: l) := by
  have hhead := h.chain.start
  have hM : Inv { D with prevp := none, thisp := D.head } l := h.setCursor (by simp) h.head_mem h.nextp_mem
  cases l with
  | nil =>
    obtain ⟨L', hL', hinv⟩ := UpkList.prepend_inv h.forth hnext hcount
    have hforget := prepend_forgets (h.live h.head_mem)
    rw [hL'] at hforget
    obtain ⟨D', hD', rfl⟩ := hforget.exists_eq
    refine ⟨D', hD', h.pushLast hinv ?_⟩
    rw [show D.tail = none from h.back.start]
    have hD'' : ({ D with prevp := none, thisp := D.head } : UpkDList α).prependThis = some D' := hD'
    have hprev := prev_prependThis_null hD'' hhead
    exact hprev
  | cons a l =>
    have hnext' : D.nextp ≠ none := hnext (hhead ▸ Option.some_ne_none a)
    have hM' : Inv { D with prevp := none, thisp := D.head } ([] ++ a :: l) := hM
    exact prependThis_inv hM' hhead rfl hnext' hcount

end Link

theorem unlink_inv (h : Inv D (l₁ ++ a :: l₂)) (hthis : D.thisp = some a) (hprev : D.prevp = l₁.getLast?)
    (hnext : D.nextp = l₂.head?) : ∃ D', D.unlink = some D' ∧ Inv D' (l₁ ++ l₂) := by
  obtain ⟨L', hL', hinv⟩ := UpkList.unlink_inv h.forth hthis hprev hnext
  have hforget := unlink_forgets (h.live h.nextp_mem)
  rw [hL'] at hforget
  obtain ⟨D', hD', rfl⟩ := hforget.exists_eq
  obtain ⟨hnone, hsome⟩ := prev_unlink hD' hthis
  refine ⟨D', hD', h.remove hinv (fun hl₂ => hnone ?_) fun n hn => ?_⟩
  · rw [hnext, hl₂]
    rfl
  · rw [hsome n (hnext.trans hn), hprev]

/-! ### One macro -/

theorem intend_toUpkList (D : UpkDList α) (l : List Addr) :
    D.intend .appendThis l = D.toUpkList.intend .appendThis l ∧
      D.intend .prependThis l = D.toUpkList.intend .prependThis l ∧
      D.intend .unlink l = D.toUpkList.intend .unlink l := by
  unfold intend UpkList.intend
  rw [show D.toUpkList.thisp = D.thisp from rfl]
  cases D.thisp with
  | none => exact ⟨rfl, rfl, rfl⟩
  | some a => exact ⟨rfl, rfl, rfl⟩

variable [Inhabited α]

/-- **A macro that finds the list as it needs it does what it is meant to do.** -/
theorem exec_inv (h : Inv D l) (hm : D.Fits m) : ∃ D', D.exec m = some D' ∧ Inv D' (D.intend m l) := by
  cases m with
  | append => simpa [exec, intend] using append_inv h hm.1 hm.2
  | prepend => simpa [exec, intend] using prepend_inv h hm.1 hm.2
  | head =>
    obtain ⟨D', hD', hinv, -⟩ := foreachInit_inv h
    exact ⟨D', hD', hinv⟩
  | tail =>
    obtain ⟨D', hD', hinv, -⟩ := foreachReverseInit_inv h
    exact ⟨D', hD', hinv⟩
  | foreachInit =>
    obtain ⟨D', hD', hinv, -⟩ := foreachInit_inv h
    exact ⟨D', hD', hinv⟩
  | foreachContinue =>
    obtain ⟨D', hD', hinv, -⟩ := foreachContinue_inv h
    exact ⟨D', hD', hinv⟩
  | foreachReverseInit =>
    obtain ⟨D', hD', hinv, -⟩ := foreachReverseInit_inv h
    exact ⟨D', hD', hinv⟩
  | foreachReverseContinue =>
    obtain ⟨D', hD', hinv, -⟩ := foreachReverseContinue_inv h
    exact ⟨D', hD', hinv⟩
  | appendThis =>
    obtain ⟨hthis, hlast, hnext, hcount⟩ := hm
    obtain ⟨a, ha⟩ := Option.ne_none_iff_exists'.mp hthis
    obtain ⟨D', hD', hinv⟩ := appendThis_inv h hlast hnext hcount
    refine ⟨D', hD', ?_⟩
    have hla : l.getLast? = some a := h.forth.tail.symm.trans (hlast.symm.trans ha)
    obtain ⟨m, rfl⟩ := List.getLast?_eq_some_iff.mp hla
    have hm := (UpkList.notMem_of_nodup h.forth.nodup).1
    simpa [intend, ha, UpkList.insertAfter_append_cons hm] using hinv
  | prependThis =>
    obtain ⟨hthis, hprev, hnext, hcount⟩ := hm
    obtain ⟨a, ha⟩ := Option.ne_none_iff_exists'.mp hthis
    obtain ⟨l₁, l₂, rfl, hl₁⟩ := h.forth.split ha
    obtain ⟨D', hD', hinv⟩ := prependThis_inv h ha ((h.forth.prevOk_iff ha).mp hprev) hnext hcount
    refine ⟨D', hD', ?_⟩
    simpa [intend, ha, UpkList.insertBefore_append_cons hl₁] using hinv
  | unlink =>
    rcases hthis : D.thisp with _ | a
    · exact ⟨D, if_pos hthis, by simpa [intend, hthis] using h⟩
    · obtain ⟨hprev, hnext⟩ := hm.resolve_left (by simp [hthis])
      obtain ⟨l₁, l₂, rfl, hl₁⟩ := h.forth.split hthis
      obtain ⟨D', hD', hinv⟩ :=
        unlink_inv h hthis ((h.forth.prevOk_iff hthis).mp hprev) ((h.forth.nextOk_iff hthis).mp hnext)
      refine ⟨D', hD', ?_⟩
      simpa [intend, hthis, UpkList.erase_append_cons hl₁] using hinv

/-- A node behind the new one still points back to the current node. -/
theorem appendThis_needs (h : Inv D (l₁ ++ a :: l₂)) (ha : D.thisp = some a) (hD' : D.appendThis = some D')
    (hrep : Represents D' (l₁ ++ a :: D.fresh :: l₂)) : l₂ = [] := by
  cases l₂ with
  | nil => rfl
  | cons b l₂ =>
    have hb : b ∈ l₁ ++ a :: b :: l₂ := by simp
    have hne : b ≠ D.fresh := ne_of_mem_of_not_mem hb h.forth.fresh_notMem
    have hnew : D'.prev b = some (some D.fresh) :=
      hrep.prev (l₁ ++ [a]) D.fresh b l₂ (by rw [List.append_assoc, List.singleton_append])
    have hold : D.prev b = some (some a) := h.represents.prev l₁ a b l₂ rfl
    rw [prev_appendThis hD', Function.update_of_ne hne, hold, Option.some.injEq, Option.some.injEq] at hnew
    exact absurd (hnew ▸ h.thisp_mem a ha) h.forth.fresh_notMem

theorem append_needs (h : Inv D l) (hD' : D.append = some D') (hrep : Represents D' (l ++ [D.fresh])) :
    D.nextp = none ∧ D.count ≠ 0xffffffff := by
  obtain ⟨p, happ, hM⟩ := append_eq h
  rw [happ] at hD'
  rcases List.eq_nil_or_concat' l with rfl | ⟨m, a, rfl⟩
  · refine ⟨h.forth.cursor_nil.2.2, ?_⟩
    have hcount : D.count = 0 := h.forth.count_eq_zero.mpr rfl
    rw [hcount]
    decide
  · have htail : D.tail = some a := h.forth.tail.trans List.getLast?_concat
    have hforget := appendThis_forgets { D with thisp := D.tail, prevp := p }
    rw [hD'] at hforget
    rw [List.append_assoc] at hrep
    exact UpkList.appendThis_needs hM.forth htail hforget.eq_some hrep.rep

/-- **Only a macro that finds the list as it needs it does what it is meant to do.** -/
theorem exec_needs (h : Inv D l) (hD' : D.exec m = some D') (hrep : Represents D' (D.intend m l)) : D.Fits m := by
  cases m with
  | append => exact append_needs h hD' (by simpa [intend] using hrep)
  | prepend =>
    have hforget := prepend_forgets (h.live h.head_mem)
    rw [show D.prepend = some D' from hD'] at hforget
    have hrep' : Represents D' (D.fresh :: l) := by simpa [intend] using hrep
    exact UpkList.prepend_needs h.forth hforget.eq_some hrep'.rep
  | appendThis =>
    have hforget := appendThis_forgets D
    rw [show D.appendThis = some D' from hD'] at hforget
    obtain ⟨hthis, hnext, hcount⟩ : D.toUpkList.Fits .appendThis :=
      UpkList.exec_needs h.forth hforget.eq_some ((intend_toUpkList D l).1 ▸ hrep.rep)
    obtain ⟨a, ha⟩ := Option.ne_none_iff_exists'.mp hthis
    obtain ⟨l₁, l₂, rfl, hl₁⟩ := h.forth.split ha
    have ha' : D.thisp = some a := ha
    obtain rfl : l₂ = [] := by
      refine appendThis_needs h ha' hD' ?_
      simpa [intend, ha', UpkList.insertAfter_append_cons hl₁] using hrep
    refine ⟨hthis, ha'.trans ?_, (h.forth.nextOk_iff ha).mp hnext, hcount⟩
    exact (h.forth.tail.trans List.getLast?_concat).symm
  | prependThis =>
    have hforget := prependThis_forgets (h.live h.thisp_mem)
    rw [show D.prependThis = some D' from hD'] at hforget
    exact UpkList.exec_needs (m := .prependThis) h.forth hforget.eq_some ((intend_toUpkList D l).2.1 ▸ hrep.rep)
  | unlink =>
    have hforget := unlink_forgets (h.live h.nextp_mem)
    rw [show D.unlink = some D' from hD'] at hforget
    exact UpkList.exec_needs (m := .unlink) h.forth hforget.eq_some ((intend_toUpkList D l).2.2 ▸ hrep.rep)
  | _ => trivial

/-- **A run from `UPKDLIST_INIT` represents the intended sequence at every point, in both directions, exactly when every
macro of it found the list as it needs it.** -/
theorem dlist_represents_iff (ms : List Macro) :
    Machine.Tracks exec intend Represents (init : UpkDList α) [] ms ↔
      Machine.Guarded exec Fits (init : UpkDList α) ms :=
  Machine.tracks_iff_guarded (fun _ _ (h : Inv _ _) => h.represents) (fun _ _ _ _ h => exec_needs h)
    (fun _ _ _ h => exec_inv h) init_inv

/-- The second of two `UPKDLIST_PREPEND`s makes the new first node the `tail`, and a `UPKDLIST_APPEND_THIS` at the
first of two nodes leaves the second one pointing back to the first. -/
theorem not_represents_prepend_appendThis :
    ¬Machine.Tracks exec intend Represents (init : UpkDList Unit) [] [.prepend, .prepend] ∧
      ¬Machine.Tracks exec intend Represents (init : UpkDList Unit) [] [.append, .append, .head, .appendThis] := by
  constructor
  · rintro ⟨-, D₁, h₁, -, D₂, h₂, hrep⟩
    obtain rfl := Option.some.inj h₁
    obtain rfl := Option.some.inj h₂
    exact absurd hrep.tail (by decide)
  · rintro ⟨-, D₁, h₁, -, D₂, h₂, -, D₃, h₃, -, D₄, h₄, hrep⟩
    obtain rfl := Option.some.inj h₁
    obtain rfl := Option.some.inj h₂
    obtain rfl := Option.some.inj h₃
    obtain rfl := Option.some.inj h₄
    exact absurd (hrep.prev [0] 2 1 [] rfl) (by decide)

end Upkeeper.UpkDList
