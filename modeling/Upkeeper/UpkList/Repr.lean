import Mathlib.Data.UInt
import Upkeeper.UpkList.Basic
/-!
# What a well-formed `UPKLIST` represents

`Rep L l`: the chain from `head` is the list of nodes `l`, `tail` is its last node and `count` its length. The
macros also read the cursor `prevp`, `thisp`, `nextp` that earlier macros left behind, so the invariant `Inv` of
a run adds that the memory holds the nodes of `l` and nothing else, and that the cursor does not dangle.

The last part reads the cursor off the chain: `NextOk` says that `nextp` is the successor of the current node,
`PrevOk` that `prevp` is its predecessor.
-/

namespace Upkeeper.UpkList

open Chain (Seg)

variable {α : Type} {L L' : UpkList α} {l l₁ l₂ : List Addr} {a t : Addr}

/-- **The list represents the sequence of nodes `l`.** -/
structure Rep (L : UpkList α) (l : List Addr) : Prop where
  chain : Seg L.next L.head l none
  tail : L.tail = l.getLast?
  count : L.count.toNat = l.length

theorem Rep.nodup (h : Rep L l) : l.Nodup := h.chain.nodup

theorem Rep.head (h : Rep L l) : L.head = l.head? := h.chain.start

theorem Rep.unique {l' : List Addr} (h : Rep L l) (h' : Rep L l') : l = l' := h.chain.unique h'.chain

/-- What a run of the macros keeps, besides `Rep`. -/
structure Inv (L : UpkList α) (l : List Addr) : Prop extends Rep L l where
  live : ∀ a, (∃ n, L.next a = some n) ↔ a ∈ l
  fresh : ∀ a ∈ l, a < L.fresh
  prevp_mem : ∀ a ∈ L.prevp, a ∈ l
  thisp_mem : ∀ a ∈ L.thisp, a ∈ l
  nextp_mem : ∀ a ∈ L.nextp, a ∈ l

theorem init_inv : Inv (init : UpkList α) [] where
  chain := rfl
  tail := rfl
  count := rfl
  live := by simp [init, next]
  fresh := by simp
  prevp_mem := by simp [init]
  thisp_mem := by simp [init]
  nextp_mem := by simp [init]

theorem Inv.fresh_notMem (h : Inv L l) : L.fresh ∉ l := fun hm => absurd (h.fresh _ hm) (lt_irrefl _)

theorem Inv.cell (h : Inv L l) (ha : a ∈ l) : ∃ c, L.heap a = some c := by
  obtain ⟨n, hn⟩ := (h.live a).mpr ha
  obtain ⟨v, hv⟩ := next_eq_some.mp hn
  exact ⟨_, hv⟩

theorem Inv.cursor_nil (h : Inv L []) : L.prevp = none ∧ L.thisp = none ∧ L.nextp = none :=
  ⟨Option.eq_none_iff_forall_not_mem.mpr fun a ha => List.not_mem_nil (h.prevp_mem a ha),
    Option.eq_none_iff_forall_not_mem.mpr fun a ha => List.not_mem_nil (h.thisp_mem a ha),
    Option.eq_none_iff_forall_not_mem.mpr fun a ha => List.not_mem_nil (h.nextp_mem a ha)⟩

/-- The nodes that the chain from `head` leads to. A cycle is followed for as many nodes as were ever allocated. -/
def nodes (L : UpkList α) : List Addr := Chain.walk L.next L.fresh L.head

theorem length_le_of_lt {n : Nat} (hnodup : l.Nodup) (hlt : ∀ a ∈ l, a < n) : l.length ≤ n := by
  have hsub : l ⊆ List.range n := fun a ha => List.mem_range.mpr (hlt a ha)
  have hle := (hnodup.subperm hsub).length_le
  rwa [List.length_range] at hle

theorem Inv.length_le_fresh (h : Inv L l) : l.length ≤ L.fresh := length_le_of_lt h.nodup h.fresh

theorem Inv.nodes_eq (h : Inv L l) : L.nodes = l := h.chain.walk_eq h.length_le_fresh

/-! ### The operations on sequences -/

/-- Insert `t` after `a`. -/
def insertAfter (a t : Addr) : List Addr → List Addr
  | [] => []
  | x :: l => if x = a then x :: t :: l else x :: insertAfter a t l

/-- Insert `t` before `a`. -/
def insertBefore (a t : Addr) : List Addr → List Addr
  | [] => []
  | x :: l => if x = a then t :: x :: l else x :: insertBefore a t l

theorem insertAfter_append_cons (h : a ∉ l₁) :
    insertAfter a t (l₁ ++ a :: l₂) = l₁ ++ a :: t :: l₂ := by
  induction l₁ with
  | nil => simp [insertAfter]
  | cons x l₁ ih =>
    rw [List.mem_cons, not_or] at h
    rw [List.cons_append, insertAfter, if_neg (Ne.symm h.1), ih h.2, List.cons_append]

theorem insertBefore_append_cons (h : a ∉ l₁) :
    insertBefore a t (l₁ ++ a :: l₂) = l₁ ++ t :: a :: l₂ := by
  induction l₁ with
  | nil => simp [insertBefore]
  | cons x l₁ ih =>
    rw [List.mem_cons, not_or] at h
    rw [List.cons_append, insertBefore, if_neg (Ne.symm h.1), ih h.2, List.cons_append]

theorem erase_append_cons (h : a ∉ l₁) : (l₁ ++ a :: l₂).erase a = l₁ ++ l₂ := by
  rw [List.erase_append_right _ h, List.erase_cons_head]

theorem notMem_of_nodup (h : (l₁ ++ a :: l₂).Nodup) : a ∉ l₁ ∧ a ∉ l₂ := by
  have h' := List.nodup_append.mp h
  exact ⟨fun ha => h'.2.2 a ha a List.mem_cons_self rfl, (List.nodup_cons.mp h'.2.1).1⟩

/-! ### The counter -/

theorem count_succ {c : UInt32} : (c + 1).toNat = c.toNat + 1 ↔ c ≠ 0xffffffff := by
  rw [UInt32.toNat_add, Ne, ← UInt32.toNat_inj]
  have h : c.toNat < 2 ^ 32 := c.toNat_lt
  simp only [UInt32.reduceToNat]
  omega

theorem count_pred {c : UInt32} {k : Nat} (h : c.toNat = k + 1) : (c - 1).toNat = k := by
  rw [UInt32.toNat_sub_of_le, h]
  · rfl
  · rw [UInt32.le_iff_toNat_le, h]
    exact Nat.le_add_left 1 k

theorem Rep.count_eq_zero (h : Rep L l) : L.count = 0 ↔ l = [] := by
  rw [← UInt32.toNat_inj, h.count, ← List.length_eq_zero_iff]
  rfl

/-! ### The cursor -/

/-- `nextp` is the successor of the current node. -/
def NextOk (L : UpkList α) : Prop := L.nextNode = some L.nextp

/-- `prevp` is the predecessor of the current node. -/
def PrevOk (L : UpkList α) : Prop :=
  match L.prevp with
  | none => L.head = L.thisp
  | some p => L.next p = some L.thisp

theorem Inv.nextOk_iff (h : Inv L (l₁ ++ a :: l₂)) (ha : L.thisp = some a) :
    L.NextOk ↔ L.nextp = l₂.head? := by
  have hn := (Chain.seg_split.mp h.chain).2.1
  simp only [NextOk, nextNode, nextOf, ha, hn, Option.some.injEq]
  exact eq_comm

theorem Inv.prevOk_iff (h : Inv L (l₁ ++ a :: l₂)) (ha : L.thisp = some a) :
    L.PrevOk ↔ L.prevp = l₁.getLast? := by
  have hpred := h.chain.pred
  constructor
  · intro hp
    rw [PrevOk, ha] at hp
    rcases hprev : L.prevp with _ | p
    · -- `a` is the head, so nothing stands before it
      rw [hprev] at hp
      rcases List.eq_nil_or_concat l₁ with rfl | ⟨m, p, rfl⟩
      · rfl
      · have hhead := h.head
        have hnot := (notMem_of_nodup h.nodup).1
        rw [hp] at hhead
        cases m with
        | nil => simp_all
        | cons y m => simp_all
    · rw [hprev] at hp
      exact (h.chain.pred_unique (h.prevp_mem p hprev) hp).symm
  · intro hp
    rw [PrevOk, ha, hp]
    rcases hl : l₁.getLast? with _ | p
    · rw [hl] at hpred
      exact hpred
    · rw [hl] at hpred
      exact hpred

end Upkeeper.UpkList
