import Upkeeper.UpkList.Repr
/-!
# Each macro on a well-formed list

For every macro, three facts in this order: the state it computes (`…_eq`), that it keeps the invariant when the
cursor and the counter are as it needs them (`…_inv`), and that it needs them so (`…_needs`): whenever the result
represents the intended sequence, they were.
-/

namespace Upkeeper.UpkList

open Chain (Seg)

variable {α : Type} {L L' : UpkList α} {l l' l₁ l₂ : List Addr} {a p t : Addr}

/-! ### `UPKLIST_FOREACH` -/

theorem Inv.nextOf (h : Inv L l) {q : Option Addr} (hq : ∀ a ∈ q, a ∈ l) :
    ∃ n, L.nextOf q = some n ∧ ∀ a ∈ n, a ∈ l := by
  cases q with
  | none => exact ⟨none, rfl, by simp⟩
  | some a =>
    obtain ⟨n, hn⟩ := (h.live a).mpr (hq a rfl)
    exact ⟨n, hn, h.chain.next_mem (hq a rfl) hn⟩

theorem Inv.setCursor (h : Inv L l) {te pr th nx : Option Addr} (hpr : ∀ a ∈ pr, a ∈ l)
    (hth : ∀ a ∈ th, a ∈ l) (hnx : ∀ a ∈ nx, a ∈ l) :
    Inv { L with tempp := te, prevp := pr, thisp := th, nextp := nx } l :=
  ⟨⟨h.chain, h.tail, h.count⟩, h.live, h.fresh, hpr, hth, hnx⟩

theorem foreachInit_eq {n : Option Addr} (hn : L.nextOf L.head = some n) :
    L.foreachInit = some { L with tempp := none, prevp := none, thisp := L.head, nextp := n } := by
  show (L.nextOf L.head >>= fun n => _) = _
  rw [hn]
  rfl

theorem foreachContinue_eq {n : Option Addr} (hn : L.nextOf L.nextp = some n) :
    L.foreachContinue = some { L with tempp := none, prevp := L.thisp, thisp := L.nextp, nextp := n } := by
  show (L.nextOf L.nextp >>= fun n => _) = _
  rw [hn]
  rfl

theorem foreachInit_inv (h : Inv L l) : ∃ L', L.foreachInit = some L' ∧ Inv L' l := by
  have hhead : ∀ a ∈ L.head, a ∈ l := fun a ha => List.mem_of_mem_head? (h.head ▸ ha)
  obtain ⟨n, hn, hmem⟩ := h.nextOf hhead
  exact ⟨_, foreachInit_eq hn, h.setCursor (by simp) hhead hmem⟩

theorem foreachContinue_inv (h : Inv L l) : ∃ L', L.foreachContinue = some L' ∧ Inv L' l := by
  obtain ⟨n, hn, hmem⟩ := h.nextOf h.nextp_mem
  exact ⟨_, foreachContinue_eq hn, h.setCursor h.thisp_mem h.nextp_mem hmem⟩

/-! ### Linking a new node -/

/-- What the four inserting macros have in common. -/
structure Linked (L L' : UpkList α) : Prop where
  count : L'.count = L.count + 1
  tail : L'.tail = if L.nextp = none then some L.fresh else L.tail
  fresh : L'.fresh = L.fresh + 1
  prevp : ∀ a ∈ L'.prevp, a ∈ L.prevp
  thisp : L'.thisp = some L.fresh
  nextp : L'.nextp = L.nextp
  live : ∀ a, (∃ n, L'.next a = some n) ↔ a = L.fresh ∨ ∃ n, L.next a = some n

theorem Linked.inv (hL : Linked L L') (h : Inv L l) (hmem : ∀ x, x ∈ l' ↔ x = L.fresh ∨ x ∈ l)
    (hlen : l'.length = l.length + 1) (hchain : Seg L'.next L'.head l' none) (htail : L'.tail = l'.getLast?)
    (hcount : L.count ≠ 0xffffffff) : Inv L' l' where
  chain := hchain
  tail := htail
  count := by rw [hL.count, count_succ.mpr hcount, h.count, hlen]
  live x := by rw [hL.live, hmem, h.live]
  fresh x hx := by
    rw [hL.fresh]
    rcases (hmem x).mp hx with rfl | hx
    · exact Nat.lt_succ_self _
    · exact Nat.lt_succ_of_lt (h.fresh x hx)
  prevp_mem x hx := (hmem x).mpr (Or.inr (h.prevp_mem x (hL.prevp x hx)))
  thisp_mem x hx := by
    rw [hL.thisp] at hx
    exact (hmem x).mpr (Or.inl (Option.some.inj hx).symm)
  nextp_mem x hx := by
    rw [hL.nextp] at hx
    exact (hmem x).mpr (Or.inr (h.nextp_mem x hx))

/-- An insertion is only counted if the counter did not wrap around. -/
theorem Linked.count_needs (hL : Linked L L') (h : Inv L l) (hrep : Rep L' l')
    (hlen : l'.length = l.length + 1) : L.count ≠ 0xffffffff := by
  rw [← count_succ, ← hL.count, hrep.count, h.count, hlen]

theorem Linked.tail_needs (hL : Linked L L') (hrep : Rep L' l')
    (hlast : l'.getLast? ≠ some L.fresh) : L.nextp ≠ none := by
  intro hnext
  have htail := hL.tail
  rw [if_pos hnext, hrep.tail] at htail
  exact hlast htail

theorem exists_update {f : Addr → Option (Option Addr)} {n : Option Addr} {x : Addr} :
    (∃ m, Function.update f a (some n) x = some m) ↔ x = a ∨ ∃ m, f x = some m := by
  by_cases hx : x = a
  · subst hx
    simp
  · simp [hx]

theorem exists_update_update {f : Addr → Option (Option Addr)} {n m : Option Addr} {x : Addr}
    (hp : ∃ m, f p = some m) :
    (∃ k, Function.update (Function.update f a (some n)) p (some m) x = some k)
      ↔ x = a ∨ ∃ k, f x = some k := by
  rw [exists_update, exists_update]
  constructor
  · rintro (rfl | h)
    · exact Or.inr hp
    · exact h
  · exact Or.inr

section Link

variable [Inhabited α]

/-! ### `UPKLIST_APPEND_THIS` -/

theorem appendThis_eq (h : Inv L l) (hthis : L.thisp = some a) :
    ∃ L', L.appendThis = some L' ∧ Linked L L' ∧ L'.head = L.head ∧ L'.prevp = L.prevp ∧
      L'.next = Function.update (Function.update L.next L.fresh (some L.nextp)) a (some (some L.fresh)) := by
  have ha := h.thisp_mem a hthis
  obtain ⟨c, hc⟩ := h.cell ha
  have hne : a ≠ L.fresh := ne_of_mem_of_not_mem ha h.fresh_notMem
  have hcount : L.count ≠ 0 := fun h0 => by
    rw [h.count_eq_zero.mp h0] at ha
    cases ha
  simp only [appendThis, newNode, setNext, hthis, Option.bind_eq_bind, Option.bind_some, Function.update_self,
    Function.update_idem, reduceCtorEq, if_false, Function.update_of_ne hne, hc, hcount, and_false,
    Option.some.injEq, exists_eq_left', next_mk, map_next_update, map_next_heap, Option.map_some, and_true]
  refine ⟨rfl, rfl, rfl, fun _ hx => hx, rfl, rfl, fun x => ?_⟩
  simp only [next_mk, map_next_update, map_next_heap, Option.map_some]
  exact exists_update_update ((h.live a).mpr ha)

/-- With no current node the new one is counted all the same. -/
theorem appendThis_null_count (hthis : L.thisp = none) :
    ∃ L', L.appendThis = some L' ∧ L'.count = L.count + 1 := by
  simp [appendThis, newNode, setNext, hthis]

theorem appendThis_inv (h : Inv L (l₁ ++ a :: l₂)) (hthis : L.thisp = some a) (hnext : L.nextp = l₂.head?)
    (hcount : L.count ≠ 0xffffffff) :
    ∃ L', L.appendThis = some L' ∧ Inv L' (l₁ ++ a :: L.fresh :: l₂) := by
  obtain ⟨L', hL', hlink, hhead, -, hnxt⟩ := appendThis_eq h hthis
  refine ⟨L', hL', hlink.inv h ?_ ?_ ?_ ?_ hcount⟩
  · intro x
    simp only [List.mem_append, List.mem_cons]
    tauto
  · simp only [List.length_append, List.length_cons]
    omega
  · rw [hnxt, hhead, hnext]
    exact h.chain.insert_after h.fresh_notMem
  · rw [hlink.tail, h.tail, hnext]
    cases l₂ <;> simp

theorem appendThis_needs (h : Inv L (l₁ ++ a :: l₂)) (hthis : L.thisp = some a)
    (hL' : L.appendThis = some L') (hrep : Rep L' (l₁ ++ a :: L.fresh :: l₂)) :
    L.nextp = l₂.head? ∧ L.count ≠ 0xffffffff := by
  obtain ⟨_, hL'', hlink, -, -, hnxt⟩ := appendThis_eq h hthis
  obtain rfl := Option.some.inj (hL'.symm.trans hL'')
  have hne : L.fresh ≠ a := (ne_of_mem_of_not_mem (h.thisp_mem a hthis) h.fresh_notMem).symm
  constructor
  · have hchain : Seg L'.next L'.head ((l₁ ++ [a]) ++ L.fresh :: l₂) none := by simpa using hrep.chain
    have hsucc := (Chain.seg_split.mp hchain).2.1
    rw [hnxt, Function.update_of_ne hne, Function.update_self] at hsucc
    exact Option.some.inj hsucc
  · refine hlink.count_needs h hrep ?_
    simp only [List.length_append, List.length_cons]
    omega

theorem appendThis_nil_eq (h : Inv L []) :
    ∃ L', L.appendThis = some L' ∧ Linked L L' ∧ L'.head = some L.fresh ∧
      L'.next = Function.update L.next L.fresh (some none) := by
  obtain ⟨hprev, hthis, hnext⟩ := h.cursor_nil
  have hcount : L.count = 0 := h.count_eq_zero.mpr rfl
  simp only [appendThis, newNode, setNext, hprev, hthis, hnext, hcount, Option.bind_eq_bind, Option.bind_some,
    Function.update_self, Function.update_idem, if_true, and_self, Option.some.injEq, exists_eq_left', next_mk,
    map_next_update, map_next_heap, Option.map_some, and_true]
  refine ⟨by rw [hcount], by rw [hnext]; rfl, rfl, by simp, rfl, hnext.symm, fun x => ?_⟩
  simp only [next_mk, map_next_update, map_next_heap, Option.map_some]
  exact exists_update

theorem appendThis_last_inv (h : Inv L l) (hthis : L.thisp = L.tail) (hnext : L.nextp = none)
    (hcount : L.count ≠ 0xffffffff) : ∃ L', L.appendThis = some L' ∧ Inv L' (l ++ [L.fresh]) := by
  rcases List.eq_nil_or_concat' l with rfl | ⟨m, a, rfl⟩
  · obtain ⟨L', hL', hlink, hhead, hnxt⟩ := appendThis_nil_eq h
    refine ⟨L', hL', hlink.inv h (by simp) rfl ?_ ?_ hcount⟩
    · rw [hhead, hnxt]
      have hnil : Seg L.next none [] none := rfl
      exact hnil.insert_start List.not_mem_nil
    · rw [hlink.tail, if_pos hnext]
      rfl
  · have ha : L.thisp = some a := by rw [hthis, h.tail, List.getLast?_concat]
    rw [List.append_assoc]
    exact appendThis_inv h ha hnext hcount

/-! ### `UPKLIST_APPEND` -/

theorem append_eq_bind (h : Inv L l) :
    ∃ p, L.append = ({ L with thisp := L.tail, prevp := p }.appendThis >>= fun L => some { L with prevp := none }) ∧
      Inv { L with thisp := L.tail, prevp := p } l := by
  have hhead : ∀ x ∈ L.head, x ∈ l := fun x hx => List.mem_of_mem_head? (h.head ▸ hx)
  have htail : ∀ x ∈ L.tail, x ∈ l := fun x hx => List.mem_of_getLast? (h.tail ▸ hx)
  refine ⟨if L.prevp = none then L.head else L.prevp, rfl, h.setCursor ?_ htail h.nextp_mem⟩
  split
  · exact hhead
  · exact h.prevp_mem

theorem append_nil_eq (h : Inv L []) :
    ∃ L', L.append = some L' ∧ Linked L L' ∧ L'.head = some L.fresh ∧
      L'.next = Function.update L.next L.fresh (some none) := by
  obtain ⟨p, happ, hM⟩ := append_eq_bind h
  obtain ⟨L', hL', hlink, hhead, hnxt⟩ := appendThis_nil_eq hM
  refine ⟨{ L' with prevp := none }, ?_, ?_, hhead, hnxt⟩
  · rw [happ, hL']
    rfl
  · exact ⟨hlink.count, hlink.tail, hlink.fresh, by simp, hlink.thisp, hlink.nextp, hlink.live⟩

theorem append_nil_val (h : Inv L []) (hL' : L.append = some L') : L'.val? L.fresh = some default := by
  obtain ⟨hprev, -, hnext⟩ := h.cursor_nil
  have hhead : L.head = none := h.head
  have htail : L.tail = none := h.tail
  simp only [append, appendThis, newNode, setNext, hprev, hnext, hhead, htail, Option.bind_eq_bind, Option.bind_some,
    Function.update_self, Function.update_idem, if_true, Option.some.injEq] at hL'
  subst hL'
  simp [val?]

theorem append_concat_eq (h : Inv L (l ++ [a])) :
    ∃ L', L.append = some L' ∧ Linked L L' ∧ L'.head = L.head ∧
      L'.next = Function.update (Function.update L.next L.fresh (some L.nextp)) a (some (some L.fresh)) := by
  have htail : L.tail = some a := by rw [h.tail, List.getLast?_concat]
  obtain ⟨p, happ, hM⟩ := append_eq_bind h
  obtain ⟨L', hL', hlink, hhead, -, hnxt⟩ := appendThis_eq hM htail
  refine ⟨{ L' with prevp := none }, ?_, ?_, hhead, hnxt⟩
  · rw [happ, hL']
    rfl
  · exact ⟨hlink.count, hlink.tail, hlink.fresh, by simp, hlink.thisp, hlink.nextp, hlink.live⟩

theorem append_linked (h : Inv L l) : ∃ L', L.append = some L' ∧ Linked L L' := by
  rcases List.eq_nil_or_concat' l with rfl | ⟨m, a, rfl⟩
  · obtain ⟨L', hL', hlink, -⟩ := append_nil_eq h
    exact ⟨L', hL', hlink⟩
  · obtain ⟨L', hL', hlink, -⟩ := append_concat_eq h
    exact ⟨L', hL', hlink⟩

theorem append_inv (h : Inv L l) (hnext : L.nextp = none) (hcount : L.count ≠ 0xffffffff) :
    ∃ L', L.append = some L' ∧ Inv L' (l ++ [L.fresh]) := by
  obtain ⟨p, happ, hM⟩ := append_eq_bind h
  obtain ⟨L', hL', hinv⟩ := appendThis_last_inv hM rfl hnext hcount
  refine ⟨{ L' with prevp := none }, ?_, hinv.setCursor (by simp) hinv.thisp_mem hinv.nextp_mem⟩
  rw [happ, hL']
  rfl

theorem append_needs (h : Inv L l) (hL' : L.append = some L') (hrep : Rep L' (l ++ [L.fresh])) :
    L.nextp = none ∧ L.count ≠ 0xffffffff := by
  have hsucc := (Chain.seg_split.mp hrep.chain).2.1
  rcases List.eq_nil_or_concat' l with rfl | ⟨m, a, rfl⟩
  · obtain ⟨_, hL'', hlink, -, -⟩ := append_nil_eq h
    obtain rfl := Option.some.inj (hL'.symm.trans hL'')
    exact ⟨h.cursor_nil.2.2, hlink.count_needs h hrep (by simp)⟩
  · obtain ⟨_, hL'', hlink, -, hnxt⟩ := append_concat_eq h
    obtain rfl := Option.some.inj (hL'.symm.trans hL'')
    have hne : L.fresh ≠ a := (ne_of_mem_of_not_mem (by simp) h.fresh_notMem).symm
    rw [hnxt, Function.update_of_ne hne, Function.update_self] at hsucc
    exact ⟨Option.some.inj hsucc, hlink.count_needs h hrep (by simp)⟩

/-! ### `UPKLIST_PREPEND_THIS` -/

theorem prependThis_start_eq (hprev : L.prevp = none) :
    ∃ L', L.prependThis = some L' ∧ Linked L L' ∧ L'.head = some L.fresh ∧
      L'.next = Function.update L.next L.fresh (some L.thisp) := by
  simp only [prependThis, newNode, setNext, hprev, Option.bind_eq_bind, Option.bind_some, Function.update_self,
    Function.update_idem, if_true, Option.some.injEq, exists_eq_left', next_mk, map_next_update, map_next_heap,
    Option.map_some, and_true]
  refine ⟨rfl, rfl, rfl, by simp, rfl, rfl, fun x => ?_⟩
  simp only [next_mk, map_next_update, map_next_heap, Option.map_some]
  exact exists_update

theorem prependThis_after_eq (h : Inv L l) (hprev : L.prevp = some p) :
    ∃ L', L.prependThis = some L' ∧ Linked L L' ∧ L'.head = L.head ∧
      L'.next = Function.update (Function.update L.next L.fresh (some L.thisp)) p (some (some L.fresh)) := by
  have hp := h.prevp_mem p hprev
  obtain ⟨c, hc⟩ := h.cell hp
  have hne : p ≠ L.fresh := ne_of_mem_of_not_mem hp h.fresh_notMem
  simp only [prependThis, newNode, setNext, hprev, Option.bind_eq_bind, Option.bind_some, Function.update_self,
    Function.update_idem, reduceCtorEq, if_false, Function.update_of_ne hne, hc, Option.some.injEq,
    exists_eq_left', next_mk, map_next_update, map_next_heap, Option.map_some, and_true]
  refine ⟨rfl, rfl, rfl, by simp [hprev], rfl, rfl, fun x => ?_⟩
  simp only [next_mk, map_next_update, map_next_heap, Option.map_some]
  exact exists_update_update ((h.live p).mpr hp)

theorem prependThis_inv (h : Inv L (l₁ ++ a :: l₂)) (hthis : L.thisp = some a)
    (hprev : L.prevp = l₁.getLast?) (hnext : L.nextp ≠ none) (hcount : L.count ≠ 0xffffffff) :
    ∃ L', L.prependThis = some L' ∧ Inv L' (l₁ ++ L.fresh :: a :: l₂) := by
  have hmem : ∀ x, x ∈ l₁ ++ L.fresh :: a :: l₂ ↔ x = L.fresh ∨ x ∈ l₁ ++ a :: l₂ := by
    intro x
    simp only [List.mem_append, List.mem_cons]
    tauto
  have hlen : (l₁ ++ L.fresh :: a :: l₂).length = (l₁ ++ a :: l₂).length + 1 := by
    simp only [List.length_append, List.length_cons]
    omega
  rcases List.eq_nil_or_concat' l₁ with rfl | ⟨m, p, rfl⟩
  · obtain ⟨L', hL', hlink, hhead, hnxt⟩ := prependThis_start_eq hprev
    refine ⟨L', hL', hlink.inv h hmem hlen ?_ ?_ hcount⟩
    · have hstart : L.head = L.thisp := h.head.trans hthis.symm
      rw [hhead, hnxt, ← hstart]
      exact h.chain.insert_start h.fresh_notMem
    · rw [hlink.tail, if_neg hnext, h.tail]
      rfl
  · rw [List.getLast?_concat] at hprev
    obtain ⟨L', hL', hlink, hhead, hnxt⟩ := prependThis_after_eq h hprev
    refine ⟨L', hL', hlink.inv h hmem hlen ?_ ?_ hcount⟩
    · have hchain : Seg L.next L.head (m ++ p :: a :: l₂) none := by simpa using h.chain
      have hfresh : L.fresh ∉ m ++ p :: a :: l₂ := by simpa using h.fresh_notMem
      rw [hhead, hnxt, hthis]
      simpa using hchain.insert_after hfresh
    · rw [hlink.tail, if_neg hnext, h.tail]
      simp

theorem prependThis_needs (h : Inv L (l₁ ++ a :: l₂)) (hL' : L.prependThis = some L')
    (hrep : Rep L' (l₁ ++ L.fresh :: a :: l₂)) :
    L.prevp = l₁.getLast? ∧ L.nextp ≠ none ∧ L.count ≠ 0xffffffff := by
  have hlen : (l₁ ++ L.fresh :: a :: l₂).length = (l₁ ++ a :: l₂).length + 1 := by
    simp only [List.length_append, List.length_cons]
    omega
  have hlast : (l₁ ++ L.fresh :: a :: l₂).getLast? ≠ some L.fresh := by
    intro hl
    refine h.fresh_notMem ?_
    have hl' : (a :: l₂).getLast? = some L.fresh := by simpa using hl
    exact List.mem_append_right _ (List.mem_of_getLast? hl')
  rcases hprev : L.prevp with _ | p
  · obtain ⟨_, hL'', hlink, hhead, -⟩ := prependThis_start_eq hprev
    obtain rfl := Option.some.inj (hL'.symm.trans hL'')
    refine ⟨?_, hlink.tail_needs hrep hlast, hlink.count_needs h hrep hlen⟩
    cases l₁ with
    | nil => rfl
    | cons x l₁ =>
      -- the new node is the head, so it cannot stand after `x`
      have hx : some L.fresh = some x := hhead.symm.trans hrep.head
      exact absurd (Option.some.inj hx ▸ List.mem_cons_self) h.fresh_notMem
  · obtain ⟨_, hL'', hlink, -, hnxt⟩ := prependThis_after_eq h hprev
    obtain rfl := Option.some.inj (hL'.symm.trans hL'')
    refine ⟨?_, hlink.tail_needs hrep hlast, hlink.count_needs h hrep hlen⟩
    have hp : p ∈ l₁ ++ L.fresh :: a :: l₂ := by
      have := h.prevp_mem p hprev
      simp only [List.mem_append, List.mem_cons] at this ⊢
      tauto
    have hpx : L'.next p = some (some L.fresh) := by rw [hnxt, Function.update_self]
    exact (hrep.chain.pred_unique hp hpx).symm

/-! ### `UPKLIST_PREPEND` -/

theorem prepend_eq (L : UpkList α) :
    ∃ L', L.prepend = some L' ∧ Linked L L' ∧ L'.head = some L.fresh ∧
      L'.next = Function.update L.next L.fresh (some L.head) := by
  have hprev : { L with prevp := none, thisp := L.head }.prevp = none := rfl
  obtain ⟨L', hL', hlink, hhead, hnxt⟩ := prependThis_start_eq hprev
  exact ⟨L', hL', ⟨hlink.count, hlink.tail, hlink.fresh, fun x hx => absurd (hlink.prevp x hx) (by simp),
    hlink.thisp, hlink.nextp, hlink.live⟩, hhead, hnxt⟩

theorem prepend_inv (h : Inv L l) (hnext : L.head ≠ none → L.nextp ≠ none) (hcount : L.count ≠ 0xffffffff) :
    ∃ L', L.prepend = some L' ∧ Inv L' (L.fresh :: l) := by
  obtain ⟨L', hL', hlink, hhead, hnxt⟩ := prepend_eq L
  refine ⟨L', hL', hlink.inv h (fun x => List.mem_cons) rfl ?_ ?_ hcount⟩
  · rw [hhead, hnxt]
    exact h.chain.insert_start h.fresh_notMem
  · cases l with
    | nil => rw [hlink.tail, if_pos h.cursor_nil.2.2, List.getLast?_singleton]
    | cons x l =>
      have hhead : L.head ≠ none := by simp [h.head]
      rw [hlink.tail, if_neg (hnext hhead), h.tail, List.getLast?_cons_cons]

theorem prepend_needs (h : Inv L l) (hL' : L.prepend = some L') (hrep : Rep L' (L.fresh :: l)) :
    (L.head ≠ none → L.nextp ≠ none) ∧ L.count ≠ 0xffffffff := by
  obtain ⟨_, hL'', hlink, -, -⟩ := prepend_eq L
  obtain rfl := Option.some.inj (hL'.symm.trans hL'')
  refine ⟨fun hhead => hlink.tail_needs hrep fun hlast => ?_, hlink.count_needs h hrep rfl⟩
  cases l with
  | nil => exact hhead h.head
  | cons x l =>
    rw [List.getLast?_cons_cons] at hlast
    exact h.fresh_notMem (List.mem_of_getLast? hlast)

end Link

/-! ### `UPKLIST_UNLINK` -/

/-- What a `UPKLIST_UNLINK` of the node `a` does, wherever the cursor stands. -/
structure Unlinked (L : UpkList α) (a : Addr) (L' : UpkList α) : Prop where
  count : L'.count = L.count - 1
  tail : L'.tail = if L.nextp = none then L.prevp else L.tail
  fresh : L'.fresh = L.fresh
  prevp : L'.prevp = L.prevp
  thisp : L'.thisp = none
  nextp : L'.nextp = L.nextp
  live : ∀ x, (∃ n, L'.next x = some n) ↔ x ≠ a ∧ ∃ n, L.next x = some n
  val : ∀ x, x ≠ a → L'.val? x = L.val? x

theorem exists_update_none {f : Addr → Option (Option Addr)} {x : Addr} :
    (∃ m, Function.update f a none x = some m) ↔ x ≠ a ∧ ∃ m, f x = some m := by
  by_cases hx : x = a
  · subst hx
    simp
  · simp [hx]

theorem unlink_eq_self (hthis : L.thisp = none) : L.unlink = some L := by
  rw [unlink, if_pos hthis]

theorem unlink_start_eq {n : Option Addr} (hthis : L.thisp = some a) (ha : L.next a = some n)
    (hprev : L.prevp = none) :
    ∃ L', L.unlink = some L' ∧ Unlinked L a L' ∧ L'.head = L.nextp ∧
      L'.next = Function.update L.next a none := by
  obtain ⟨v, hv⟩ := next_eq_some.mp ha
  simp only [unlink, free, hthis, hprev, hv, reduceCtorEq, if_false, if_true, Option.bind_eq_bind,
    Option.bind_some, Option.some.injEq, exists_eq_left', next_mk, map_next_update, map_next_heap,
    Option.map_none, and_true]
  refine ⟨rfl, by rw [hprev], rfl, hprev.symm, rfl, rfl, fun x => ?_, fun x hx => ?_⟩
  · simp only [next_mk, map_next_update, map_next_heap, Option.map_none]
    exact exists_update_none
  · simp [val?, hx]

theorem unlink_after_eq {n m : Option Addr} (hthis : L.thisp = some a) (ha : L.next a = some n)
    (hprev : L.prevp = some p) (hp : L.next p = some m) :
    ∃ L', L.unlink = some L' ∧ Unlinked L a L' ∧ L'.head = L.head ∧
      L'.next = Function.update (Function.update L.next p (some L.nextp)) a none := by
  obtain ⟨v, hv⟩ := next_eq_some.mp ha
  obtain ⟨w, hw⟩ := next_eq_some.mp hp
  obtain ⟨c, hc⟩ : ∃ c, Function.update L.heap p (some ⟨L.nextp, w⟩) a = some c := by
    by_cases hap : a = p
    · exact ⟨_, by rw [hap, Function.update_self]⟩
    · exact ⟨_, by rw [Function.update_of_ne hap, hv]⟩
  simp only [unlink, setNext, free, hthis, hprev, hw, hc, reduceCtorEq, if_false, Option.bind_eq_bind,
    Option.bind_some, Option.some.injEq, exists_eq_left', next_mk, map_next_update, map_next_heap,
    Option.map_none, Option.map_some, and_true]
  refine ⟨rfl, by rw [hprev], rfl, hprev.symm, rfl, rfl, fun x => ?_, fun x hx => ?_⟩
  · simp only [next_mk, map_next_update, map_next_heap, Option.map_none, Option.map_some]
    rw [exists_update_none, exists_update]
    refine and_congr_right fun _ => ⟨?_, Or.inr⟩
    rintro (rfl | h)
    · exact ⟨m, hp⟩
    · exact h
  · by_cases hxp : x = p
    · subst hxp
      simp [val?, hx, hw]
    · simp [val?, hx, hxp]

theorem unlink_inv (h : Inv L (l₁ ++ a :: l₂)) (hthis : L.thisp = some a) (hprev : L.prevp = l₁.getLast?)
    (hnext : L.nextp = l₂.head?) : ∃ L', L.unlink = some L' ∧ Inv L' (l₁ ++ l₂) := by
  obtain ⟨n, ha⟩ := (h.live a).mpr (h.thisp_mem a hthis)
  obtain ⟨hl₁, hl₂⟩ := notMem_of_nodup h.nodup
  have hmem : ∀ x, x ∈ l₁ ++ l₂ ↔ x ≠ a ∧ x ∈ l₁ ++ a :: l₂ := by
    intro x
    simp only [List.mem_append, List.mem_cons]
    constructor
    · rintro (hx | hx)
      · exact ⟨ne_of_mem_of_not_mem hx hl₁, Or.inl hx⟩
      · exact ⟨ne_of_mem_of_not_mem hx hl₂, Or.inr (Or.inr hx)⟩
    · rintro ⟨hne, hx | hx | hx⟩
      · exact Or.inl hx
      · exact absurd hx hne
      · exact Or.inr hx
  have hinv : ∀ {L' : UpkList α}, Unlinked L a L' → Seg L'.next L'.head (l₁ ++ l₂) none → Inv L' (l₁ ++ l₂) := by
    intro L' hun hchain
    refine ⟨⟨hchain, ?_, ?_⟩, ?_, ?_, ?_, ?_, ?_⟩
    · rw [hun.tail, hnext, hprev, h.tail]
      cases l₂ <;> simp
    · rw [hun.count]
      refine count_pred ?_
      rw [h.count]
      simp only [List.length_append, List.length_cons]
      omega
    · intro x
      rw [hun.live, h.live, hmem]
    · intro x hx
      rw [hun.fresh]
      exact h.fresh x ((hmem x).mp hx).2
    · intro x hx
      rw [hun.prevp, hprev] at hx
      exact List.mem_append_left _ (List.mem_of_getLast? hx)
    · simp [hun.thisp]
    · intro x hx
      rw [hun.nextp, hnext] at hx
      exact List.mem_append_right _ (List.mem_of_mem_head? hx)
  rcases List.eq_nil_or_concat' l₁ with rfl | ⟨m, p, rfl⟩
  · obtain ⟨L', hL', hun, hhead, hnxt⟩ := unlink_start_eq hthis ha hprev
    refine ⟨L', hL', hinv hun ?_⟩
    rw [hhead, hnxt, hnext]
    exact h.chain.remove_start
  · rw [List.getLast?_concat] at hprev
    obtain ⟨k, hp⟩ := (h.live p).mpr (h.prevp_mem p hprev)
    obtain ⟨L', hL', hun, hhead, hnxt⟩ := unlink_after_eq hthis ha hprev hp
    refine ⟨L', hL', hinv hun ?_⟩
    have hchain : Seg L.next L.head (m ++ p :: a :: l₂) none := by simpa using h.chain
    rw [hhead, hnxt, hnext]
    simpa using hchain.remove_after

theorem unlink_needs (h : Inv L (l₁ ++ a :: l₂)) (hthis : L.thisp = some a) (hL' : L.unlink = some L')
    (hrep : Rep L' (l₁ ++ l₂)) : L.prevp = l₁.getLast? ∧ L.nextp = l₂.head? := by
  obtain ⟨n, ha⟩ := (h.live a).mpr (h.thisp_mem a hthis)
  obtain ⟨hl₁, hl₂⟩ := notMem_of_nodup h.nodup
  have hnot : a ∉ l₁ ++ l₂ := by simp [hl₁, hl₂]
  -- the node before `a` must no longer point to `a`
  have hkept : ∀ m q, l₁ = m ++ [q] → L'.next q ≠ some (some a) := by
    rintro m q rfl hq
    exact hnot (hrep.chain.next_mem (by simp) hq a rfl)
  have hpred : ∀ m q, l₁ = m ++ [q] → L.next q = some (some a) ∧ q ≠ a := by
    rintro m q rfl
    refine ⟨by simpa using h.chain.pred, fun hq => hl₁ (by simp [hq])⟩
  rcases hprev : L.prevp with _ | p
  · obtain ⟨_, hL'', hun, hhead, hnxt⟩ := unlink_start_eq hthis ha hprev
    obtain rfl := Option.some.inj (hL'.symm.trans hL'')
    rcases List.eq_nil_or_concat' l₁ with rfl | ⟨m, q, rfl⟩
    · exact ⟨rfl, hhead.symm.trans hrep.head⟩
    · obtain ⟨hq, hqa⟩ := hpred m q rfl
      refine absurd ?_ (hkept m q rfl)
      rw [hnxt, Function.update_of_ne hqa, hq]
  · obtain ⟨k, hp⟩ := (h.live p).mpr (h.prevp_mem p hprev)
    obtain ⟨_, hL'', hun, hhead, hnxt⟩ := unlink_after_eq hthis ha hprev hp
    obtain rfl := Option.some.inj (hL'.symm.trans hL'')
    rcases List.eq_nil_or_concat' l₁ with rfl | ⟨m, q, rfl⟩
    · have hhd : some a = l₂.head? := by
        rw [← List.nil_append l₂, ← hrep.head, hhead, h.head]
        rfl
      exact absurd (List.mem_of_mem_head? hhd.symm) hl₂
    · obtain ⟨hq, hqa⟩ := hpred m q rfl
      by_cases hqp : q = p
      · subst hqp
        refine ⟨by rw [List.getLast?_concat], ?_⟩
        have hchain : Seg L'.next L'.head (m ++ q :: l₂) none := by simpa using hrep.chain
        have hsucc := (Chain.seg_split.mp hchain).2.1
        rw [hnxt, Function.update_of_ne hqa, Function.update_self] at hsucc
        exact Option.some.inj hsucc
      · refine absurd ?_ (hkept m q rfl)
        rw [hnxt, Function.update_of_ne hqa, Function.update_of_ne hqp, hq]

/-! ### Writing to a node -/

/-- What an assignment to the node `a` does. -/
structure Modified (L : UpkList α) (a : Addr) (f : α → α) (L' : UpkList α) : Prop where
  prevp : L'.prevp = L.prevp
  thisp : L'.thisp = L.thisp
  nextp : L'.nextp = L.nextp
  val : L'.val? a = (L.val? a).map f

theorem modifyVal_inv (h : Inv L l) (ha : a ∈ l) (f : α → α) :
    ∃ L', L.modifyVal (some a) f = some L' ∧ Inv L' l ∧ Modified L a f L' := by
  obtain ⟨c, hc⟩ := h.cell ha
  have hnext : Function.update L.next a (some c.next) = L.next := by
    apply Function.update_eq_self_iff.mpr
    rw [next, hc]
    rfl
  simp only [modifyVal, hc, Option.bind_eq_bind, Option.bind_some, Option.some.injEq, exists_eq_left']
  refine ⟨⟨⟨?_, h.tail, h.count⟩, ?_, h.fresh, h.prevp_mem, h.thisp_mem, h.nextp_mem⟩, rfl, rfl, rfl, ?_⟩
  · simpa only [next_mk, map_next_update, map_next_heap, Option.map_some, hnext] using h.chain
  · simpa only [next_mk, map_next_update, map_next_heap, Option.map_some, hnext] using h.live
  · simp [val?, hc]

/-! ### Without the invariant -/

theorem exists_modifyVal {v : α} (h : L.val? a = some v) (f : α → α) :
    ∃ L', L.modifyVal (some a) f = some L' ∧ Modified L a f L' ∧ ∀ x, (L'.heap x).isSome = (L.heap x).isSome := by
  obtain ⟨c, hc, rfl⟩ := Option.map_eq_some_iff.mp h
  simp only [modifyVal, hc, Option.bind_eq_bind, Option.bind_some, Option.some.injEq, exists_eq_left']
  refine ⟨⟨rfl, rfl, rfl, ?_⟩, fun x => ?_⟩
  · simp [val?, hc]
  · by_cases hx : x = a
    · subst hx
      simp [hc]
    · simp [hx]

/-- An unlink of the node `a` gets to its end if the cursor has not lost the node before it. -/
theorem exists_unlink_iff (hthis : L.thisp = some a) (ha : (L.heap a).isSome) :
    (∃ L', L.unlink = some L') ↔ ∀ p ∈ L.prevp, (L.heap p).isSome := by
  obtain ⟨c, hc⟩ := Option.isSome_iff_exists.mp ha
  have hnext : L.next a = some c.next := next_eq_some.mpr ⟨c.val, hc⟩
  cases hprev : L.prevp with
  | none =>
    obtain ⟨L', hL', -⟩ := unlink_start_eq hthis hnext hprev
    exact iff_of_true ⟨L', hL'⟩ (by simp)
  | some p =>
    cases hp : L.heap p with
    | none =>
      refine iff_of_false ?_ (by simp [hp])
      simp [unlink, hthis, hprev, setNext, hp]
    | some d =>
      obtain ⟨L', hL', -⟩ := unlink_after_eq hthis hnext hprev (next_eq_some.mpr ⟨d.val, hp⟩)
      exact iff_of_true ⟨L', hL'⟩ (by simp [hp])

theorem unlink_freed (hthis : L.thisp = some a) (ha : (L.heap a).isSome) (h : L.unlink = some L') :
    L'.heap a = none := by
  obtain ⟨c, hc⟩ := Option.isSome_iff_exists.mp ha
  have hnext : L.next a = some c.next := next_eq_some.mpr ⟨c.val, hc⟩
  have hunlinked : Unlinked L a L' := by
    cases hprev : L.prevp with
    | none =>
      obtain ⟨L'', hL'', hunlinked, -⟩ := unlink_start_eq hthis hnext hprev
      rwa [Option.some.inj (h.symm.trans hL'')]
    | some p =>
      obtain ⟨d, hd⟩ := Option.isSome_iff_exists.mp ((exists_unlink_iff hthis ha).mp ⟨L', h⟩ p hprev)
      obtain ⟨L'', hL'', hunlinked, -⟩ := unlink_after_eq hthis hnext hprev (next_eq_some.mpr ⟨d.val, hd⟩)
      rwa [Option.some.inj (h.symm.trans hL'')]
  cases hfree : L'.heap a with
  | none => rfl
  | some d => exact absurd rfl ((hunlinked.live a).mp ⟨d.next, next_eq_some.mpr ⟨d.val, hfree⟩⟩).1

/-! ### What the nodes hold -/

theorem val_setNext {p q : Option Addr} (h : L.setNext p q = some L') : L'.val? = L.val? := by
  cases p with
  | none => cases h
  | some a =>
    unfold setNext at h
    cases hc : L.heap a with
    | none =>
      simp only [hc, Option.bind_eq_bind, Option.bind_some, Option.bind_none] at h
      cases h
    | some c =>
      simp only [hc, Option.bind_eq_bind, Option.bind_some, Option.some.injEq] at h
      subst h
      funext x
      by_cases hx : x = a
      · subst hx
        simp [val?, hc]
      · simp [val?, hx]

theorem val_modifyVal {f : α → α} (h : L.modifyVal (some a) f = some L') :
    L'.val? = Function.update L.val? a ((L.val? a).map f) := by
  unfold modifyVal at h
  cases hc : L.heap a with
  | none =>
    simp only [hc, Option.bind_eq_bind, Option.bind_some, Option.bind_none] at h
    cases h
  | some c =>
    simp only [hc, Option.bind_eq_bind, Option.bind_some, Option.some.injEq] at h
    subst h
    funext x
    by_cases hx : x = a
    · subst hx
      simp [val?, hc]
    · simp [val?, hx]

theorem val_foreachInit (h : L.foreachInit = some L') : L'.val? = L.val? := by
  obtain ⟨n, -, h⟩ := Option.bind_eq_some_iff.mp h
  rw [← Option.some.inj h]
  rfl

theorem val_foreachContinue (h : L.foreachContinue = some L') : L'.val? = L.val? := by
  obtain ⟨n, -, h⟩ := Option.bind_eq_some_iff.mp h
  rw [← Option.some.inj h]
  rfl

theorem val_append [Inhabited α] (h : L.append = some L') : L'.val? = Function.update L.val? L.fresh (some default) := by
  unfold append appendThis at h
  simp only [Option.bind_eq_bind, Option.bind_eq_some_iff] at h
  obtain ⟨L₃, ⟨L₁, h₁, h₃⟩, h⟩ := h
  have hval₁ := val_setNext h₁
  have hval₃ : L₃.val? = L₁.val? := by
    split at h₃
    · obtain rfl := Option.some.inj h₃
      rfl
    · obtain ⟨L₂, h₂, h₃⟩ := Option.bind_eq_some_iff.mp h₃
      obtain rfl := Option.some.inj h₃
      show L₂.val? = _
      rw [val_setNext h₂]
      rfl
  obtain rfl := Option.some.inj h
  show L₃.val? = _
  rw [hval₃, hval₁]
  funext x
  by_cases hx : x = L.fresh
  · subst hx
    simp [val?, newNode]
  · simp [val?, newNode, hx]

theorem val_prepend [Inhabited α] (h : L.prepend = some L') :
    L'.val? = Function.update L.val? L.fresh (some default) := by
  simp only [prepend, prependThis, newNode, setNext, Option.bind_eq_bind, Option.bind_some, Function.update_self,
    Function.update_idem, if_true, Option.some.injEq] at h
  subst h
  funext x
  by_cases hx : x = L.fresh
  · subst hx
    simp [val?]
  · simp [val?, hx]

end Upkeeper.UpkList
