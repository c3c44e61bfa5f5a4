import Upkeeper.UpkList.Ops
/-!
# Exchanging two nodes (`upk_types.h`: `UPKLIST_SWAP`)

The macro is given two nodes and their predecessors. It redirects the predecessors and then exchanges the `next`
pointers of the two nodes, which is right for neighbours too. It moves neither `head` nor `tail`, and the first node has
no predecessor. So it exchanges two nodes unless one of them is the first or the last (`swap_rep_iff`).
-/

namespace Upkeeper.UpkList

open Chain (Seg exchange)

variable {α : Type}

/-- `p->next` -/
def loadNext (L : UpkList α) (p : Option Addr) : Option (Option Addr) := do
  let a ← p
  L.next a

/-- `UPKLIST_SWAP` -/
def swap [Inhabited α] (L : UpkList α) (a aprev b bprev : Option Addr) : Option (UpkList α) := do
  let L := L.newNode
  let L ← L.setNext aprev b
  let L ← L.setNext bprev a
  let n ← L.loadNext a
  let L ← L.setNext L.tempp n
  let n ← L.loadNext b
  let L ← L.setNext a n
  let n ← L.loadNext L.tempp
  let L ← L.setNext b n
  let L ← L.free L.tempp
  some { L with tempp := none }

/-- The node before `a`, or `NULL` -/
def predecessor (l : List Addr) (a : Addr) : Option Addr := (l.takeWhile (· ≠ a)).getLast?

variable {L L' : UpkList α} {l l₁ l₂ : List Addr} {a b p q x : Addr}

theorem predecessor_eq (ha : a ∉ l₁) : predecessor (l₁ ++ a :: l₂) a = l₁.getLast? := by
  have hl₁ : ∀ x ∈ l₁, decide (x ≠ a) = true := fun x hx => decide_eq_true (ne_of_mem_of_not_mem hx ha)
  rw [predecessor, List.takeWhile_append_of_pos hl₁, List.takeWhile_cons_of_neg (by simp), List.append_nil]

theorem exists_predecessor (h : Seg L.next L.head l none) (ha : a ∈ l) (hhead : l.head? ≠ some a) :
    ∃ p ∈ l, predecessor l a = some p ∧ L.next p = some (some a) := by
  obtain ⟨l₁, l₂, rfl⟩ := List.append_of_mem ha
  have hpred := h.pred
  rw [predecessor_eq (notMem_of_nodup h.nodup).1]
  cases hlast : l₁.getLast? with
  | none =>
    rw [List.getLast?_eq_none_iff.mp hlast] at hhead
    exact absurd rfl hhead
  | some p =>
    rw [hlast] at hpred
    exact ⟨p, List.mem_append_left _ (List.mem_of_getLast? hlast), rfl, hpred⟩

theorem predecessor_head (hhead : l.head? = some a) : predecessor l a = none := by
  obtain ⟨l', rfl⟩ := List.head?_eq_some_iff.mp hhead
  exact @predecessor_eq [] l' a List.not_mem_nil

/-! ### Stores -/

/-- The meta nodes are the same. -/
structure SameMeta (L L' : UpkList α) : Prop where
  fresh : L'.fresh = L.fresh
  head : L'.head = L.head
  tail : L'.tail = L.tail
  prevp : L'.prevp = L.prevp
  nextp : L'.nextp = L.nextp
  tempp : L'.tempp = L.tempp
  thisp : L'.thisp = L.thisp
  count : L'.count = L.count

theorem SameMeta.trans {M : UpkList α} (h : SameMeta L M) (h' : SameMeta M L') : SameMeta L L' :=
  ⟨h'.fresh.trans h.fresh, h'.head.trans h.head, h'.tail.trans h.tail, h'.prevp.trans h.prevp, h'.nextp.trans h.nextp,
    h'.tempp.trans h.tempp, h'.thisp.trans h.thisp, h'.count.trans h.count⟩

theorem setNext_meta {p q : Option Addr} (h : L.setNext p q = some L') : SameMeta L L' := by
  obtain ⟨a, -, h⟩ := Option.bind_eq_some_iff.mp h
  obtain ⟨c, -, h⟩ := Option.bind_eq_some_iff.mp h
  obtain rfl := Option.some.inj h
  exact ⟨rfl, rfl, rfl, rfl, rfl, rfl, rfl, rfl⟩

theorem free_meta {p : Option Addr} (h : L.free p = some L') : SameMeta L L' := by
  obtain ⟨a, -, h⟩ := Option.bind_eq_some_iff.mp h
  obtain ⟨c, -, h⟩ := Option.bind_eq_some_iff.mp h
  obtain rfl := Option.some.inj h
  exact ⟨rfl, rfl, rfl, rfl, rfl, rfl, rfl, rfl⟩

theorem exists_setNext (hp : ∃ n, L.next p = some n) (q : Option Addr) :
    ∃ L', L.setNext (some p) q = some L' ∧ L'.next = Function.update L.next p (some q) ∧
      ∀ x, (∃ n, L.next x = some n) → ∃ n, L'.next x = some n := by
  obtain ⟨n, hn⟩ := hp
  obtain ⟨v, hv⟩ := next_eq_some.mp hn
  simp only [setNext, hv, Option.bind_eq_bind, Option.bind_some, Option.some.injEq, exists_eq_left']
  have hnext : UpkList.next { L with heap := Function.update L.heap p (some ⟨q, v⟩) } =
      Function.update L.next p (some q) := funext (map_next_update _ _ _)
  refine ⟨hnext, fun x hx => ?_⟩
  rw [hnext]
  exact exists_update.mpr (.inr hx)

theorem exists_free (hp : ∃ n, L.next p = some n) :
    ∃ L', L.free (some p) = some L' ∧ L'.next = Function.update L.next p none := by
  obtain ⟨n, hn⟩ := hp
  obtain ⟨v, hv⟩ := next_eq_some.mp hn
  simp only [free, hv, Option.bind_eq_bind, Option.bind_some, Option.some.injEq, exists_eq_left']
  exact funext (map_next_update _ _ _)

theorem swap_ne {t : Addr} (ha : a ≠ t) (hb : b ≠ t) (hx : x ≠ t) : Equiv.swap a b x ≠ t := by
  rw [Equiv.swap_apply_def]
  split_ifs
  · exact hb
  · exact ha
  · exact hx

theorem update_exchange {f : Addr → Option (Option Addr)} {u v : Option Addr} {t : Addr} (hu : f a = some u)
    (hv : f b = some v) :
    Function.update (Function.update (Function.update (Function.update f t (some u)) a (some v)) b (some u)) t none =
      Function.update (f ∘ Equiv.swap a b) t none := by
  funext x
  by_cases hxt : x = t
  · rw [hxt, Function.update_self, Function.update_self]
  rw [Function.update_of_ne hxt, Function.update_of_ne hxt, Function.comp_apply]
  by_cases hxb : x = b
  · rw [hxb, Function.update_self, Equiv.swap_apply_right, hu]
  rw [Function.update_of_ne hxb]
  by_cases hxa : x = a
  · rw [hxa, Function.update_self, Equiv.swap_apply_left, hv]
  rw [Function.update_of_ne hxa, Function.update_of_ne hxt, Equiv.swap_apply_of_ne_of_ne hxa hxb]

variable [Inhabited α]

theorem next_newNode (L : UpkList α) : L.newNode.next = Function.update L.next L.fresh (some none) :=
  funext (map_next_update _ _ _)

theorem swap_eq (hp : ∃ n, L.next p = some n) (hq : ∃ n, L.next q = some n) (ha : ∃ n, L.next a = some n)
    (hb : ∃ n, L.next b = some n) (hpt : p ≠ L.fresh) (hqt : q ≠ L.fresh) (hat : a ≠ L.fresh)
    (hbt : b ≠ L.fresh) :
    ∃ L', L.swap (some a) (some p) (some b) (some q) = some L' ∧
      L'.next = Function.update (exchange L.next a p b q) L.fresh none := by
  have hlive (x : Addr) (hx : ∃ n, L.next x = some n) : ∃ n, L.newNode.next x = some n := by
    rw [next_newNode]
    exact exists_update.mpr (.inr hx)
  have htemp : ∃ n, L.newNode.next L.fresh = some n := by
    rw [next_newNode]
    exact exists_update.mpr (.inl rfl)
  obtain ⟨L₁, h₁, n₁, hlive₁⟩ := exists_setNext (hlive p hp) (some b)
  obtain ⟨L₂, h₂, n₂, hlive₂⟩ := exists_setNext (hlive₁ q (hlive q hq)) (some a)
  obtain ⟨u, hu⟩ := hlive₂ a (hlive₁ a (hlive a ha))
  obtain ⟨v, hv⟩ := hlive₂ b (hlive₁ b (hlive b hb))
  obtain ⟨L₃, h₃, n₃, hlive₃⟩ := exists_setNext (hlive₂ _ (hlive₁ _ htemp)) u
  obtain ⟨L₄, h₄, n₄, hlive₄⟩ := exists_setNext (hlive₃ a ⟨u, hu⟩) v
  obtain ⟨L₅, h₅, n₅, hlive₅⟩ := exists_setNext (hlive₄ b (hlive₃ b ⟨v, hv⟩)) u
  obtain ⟨L₆, h₆, n₆⟩ := exists_free (hlive₅ _ (hlive₄ _ (hlive₃ _ (hlive₂ _ (hlive₁ _ htemp)))))
  have hb₃ : L₃.next b = some v := by rw [n₃, Function.update_of_ne hbt, hv]
  have ht₄ : L₄.next L.fresh = some u := by rw [n₄, Function.update_of_ne hat.symm, n₃, Function.update_self]
  have m₂ := (setNext_meta h₁).trans (setNext_meta h₂)
  have m₄ := (m₂.trans (setNext_meta h₃)).trans (setNext_meta h₄)
  have m₅ := m₄.trans (setNext_meta h₅)
  have hload₂ : L₂.loadNext (some a) = some u := hu
  have hload₃ : L₃.loadNext (some b) = some v := hb₃
  have hload₄ : L₄.loadNext L₄.tempp = some u := by
    rw [m₄.tempp]
    exact ht₄
  have hstore₃ : L₂.setNext L₂.tempp u = some L₃ := by
    rw [m₂.tempp]
    exact h₃
  have hfree : L₅.free L₅.tempp = some L₆ := by
    rw [m₅.tempp]
    exact h₆
  refine ⟨{ L₆ with tempp := none }, ?_, ?_⟩
  · simp only [swap, h₁, h₂, hload₂, hstore₃, hload₃, h₄, hload₄, h₅, hfree, Option.bind_eq_bind, Option.bind_some]
  · show L₆.next = _
    rw [n₆, n₅, n₄, n₃, update_exchange hu hv, n₂, n₁, next_newNode, Function.update_comm hpt.symm,
      Function.update_comm hqt.symm]
    funext x
    by_cases hx : x = L.fresh
    · rw [hx, Function.update_self, Function.update_self]
    · rw [Function.update_of_ne hx, Function.update_of_ne hx, Function.comp_apply,
        Function.update_of_ne (swap_ne hat hbt hx), exchange]

theorem swap_stores {a p b q : Option Addr} (h : L.swap a p b q = some L') :
    ∃ M M', SameMeta L.newNode M ∧ (∀ x, M.val? x = L.newNode.val? x) ∧ M.free M.tempp = some M' ∧
      L' = { M' with tempp := none } := by
  simp only [swap, Option.bind_eq_bind, Option.bind_eq_some_iff, Option.some.injEq] at h
  obtain ⟨L₁, h₁, L₂, h₂, u, -, L₃, h₃, v, -, L₄, h₄, w, -, L₅, h₅, L₆, h₆, rfl⟩ := h
  have m₂ := (setNext_meta h₁).trans (setNext_meta h₂)
  have m₅ := ((m₂.trans (setNext_meta h₃)).trans (setNext_meta h₄)).trans (setNext_meta h₅)
  refine ⟨L₅, L₆, m₅, fun x => ?_, h₆, rfl⟩
  rw [val_setNext h₅, val_setNext h₄, val_setNext h₃, val_setNext h₂, val_setNext h₁]

theorem swap_meta {a p b q : Option Addr} (h : L.swap a p b q = some L') :
    L'.head = L.head ∧ L'.tail = L.tail ∧ L'.count = L.count ∧ L'.prevp = L.prevp ∧ L'.thisp = L.thisp ∧
      L'.nextp = L.nextp ∧ L'.fresh = L.fresh + 1 := by
  obtain ⟨M, M', hmeta, -, hfree, rfl⟩ := swap_stores h
  have m := hmeta.trans (free_meta hfree)
  exact ⟨m.head, m.tail, m.count, m.prevp, m.thisp, m.nextp, m.fresh⟩

theorem swap_val {a p b q : Option Addr} (h : L.swap a p b q = some L') (hx : x ≠ L.fresh) : L'.val? x = L.val? x := by
  obtain ⟨M, M', hmeta, hval, hfree, rfl⟩ := swap_stores h
  rw [hmeta.tempp] at hfree
  obtain ⟨c, -, hfree⟩ := Option.bind_eq_some_iff.mp hfree
  obtain rfl := Option.some.inj hfree
  have hfreed : (Function.update M.heap L.fresh none x).map Cell.val = M.val? x := by
    rw [Function.update_of_ne hx]
    rfl
  have hnew : L.newNode.val? x = L.val? x := by simp [val?, newNode, hx]
  exact hfreed.trans ((hval x).trans hnew)

theorem swap_null_left {a b q : Option Addr} : L.swap a none b q = none := rfl

theorem swap_null_right {a p b : Option Addr} : L.swap a p b none = none := by
  simp only [swap, setNext, Option.bind_eq_bind, Option.bind_none, Option.bind_fun_none]

theorem swap_mem (ha : a ∈ l) (hb : b ∈ l) : Equiv.swap a b x ∈ l ↔ x ∈ l := by
  rw [Equiv.swap_apply_def]
  split_ifs with hxa hxb
  · exact iff_of_true hb (hxa ▸ ha)
  · exact iff_of_true ha (hxb ▸ hb)
  · rfl

theorem mem_map_swap (ha : a ∈ l) (hb : b ∈ l) : x ∈ l.map (Equiv.swap a b) ↔ x ∈ l := by
  rw [List.mem_map]
  constructor
  · rintro ⟨y, hy, rfl⟩
    exact (swap_mem ha hb).mpr hy
  · intro hx
    exact ⟨Equiv.swap a b x, (swap_mem ha hb).mpr hx, Equiv.swap_apply_self a b x⟩

theorem map_swap_of_ne {p : Option Addr} (hp : p ≠ some a ∧ p ≠ some b) : p.map (Equiv.swap a b) = p := by
  cases p with
  | none => rfl
  | some x =>
    rw [Option.map_some, Equiv.swap_apply_of_ne_of_ne]
    · exact fun hx => hp.1 (congrArg some hx)
    · exact fun hx => hp.2 (congrArg some hx)

/-- **Two inner nodes are exchanged**, be they neighbours or not, and nothing else changes. -/
theorem swap_inv (h : Inv L l) (ha : a ∈ l) (hb : b ∈ l) (hhead : l.head? ≠ some a ∧ l.head? ≠ some b)
    (hlast : l.getLast? ≠ some a ∧ l.getLast? ≠ some b) :
    ∃ L', L.swap (some a) (predecessor l a) (some b) (predecessor l b) = some L' ∧
      Inv L' (l.map (Equiv.swap a b)) ∧ ∀ x ∈ l, L'.val? x = L.val? x := by
  obtain ⟨p, hp, hpred, hpa⟩ := exists_predecessor h.chain ha hhead.1
  obtain ⟨q, hq, hqred, hqb⟩ := exists_predecessor h.chain hb hhead.2
  have hfresh {x : Addr} (hx : x ∈ l) : x ≠ L.fresh := fun heq => h.fresh_notMem (heq ▸ hx)
  obtain ⟨L', hL', hnext⟩ := swap_eq ((h.live p).mpr hp) ((h.live q).mpr hq) ((h.live a).mpr ha) ((h.live b).mpr hb)
    (hfresh hp) (hfresh hq) (hfresh ha) (hfresh hb)
  rw [hpred, hqred]
  obtain ⟨mhead, mtail, mcount, mprevp, mthisp, mnextp, mfresh⟩ := swap_meta hL'
  have hmem {x : Addr} : x ∈ l.map (Equiv.swap a b) ↔ x ∈ l := mem_map_swap ha hb
  have hnew : L.fresh ∉ l.map (Equiv.swap a b) := fun hx => h.fresh_notMem (hmem.mp hx)
  have hchain := (h.chain.exchange ha hb hp hq hpa hqb).update hnew none
  have hlive (x : Addr) : (∃ n, L'.next x = some n) ↔ x ∈ l.map (Equiv.swap a b) := by
    rw [hnext]
    by_cases hx : x = L.fresh
    · rw [hx, Function.update_self]
      exact iff_of_false (by simp) hnew
    · rw [Function.update_of_ne hx, exchange, exists_update, exists_update, h.live, hmem, ← swap_mem (x := x) ha hb]
      constructor
      · rintro (hxq | hxp | hx)
        · exact hxq ▸ hq
        · exact hxp ▸ hp
        · exact hx
      · exact fun hx => .inr (.inr hx)
  have hinv : Inv L' (l.map (Equiv.swap a b)) :=
    { chain := by
        rw [hnext, mhead]
        rwa [map_swap_of_ne (h.head ▸ hhead)] at hchain
      tail := by rw [mtail, h.tail, List.getLast?_map, map_swap_of_ne hlast]
      count := by rw [mcount, h.count, List.length_map]
      live := hlive
      fresh := fun x hx => by
        rw [mfresh]
        exact (h.fresh x (hmem.mp hx)).trans (Nat.lt_succ_self _)
      prevp_mem := by
        rw [mprevp]
        exact fun x hx => hmem.mpr (h.prevp_mem x hx)
      thisp_mem := by
        rw [mthisp]
        exact fun x hx => hmem.mpr (h.thisp_mem x hx)
      nextp_mem := by
        rw [mnextp]
        exact fun x hx => hmem.mpr (h.nextp_mem x hx) }
  exact ⟨L', hL', hinv, fun x hx => swap_val hL' (hfresh hx)⟩

/-- **`UPKLIST_SWAP` exchanges two nodes if and only if neither of them is the first or the last one.** -/
theorem swap_rep_iff (h : Inv L l) (ha : a ∈ l) (hb : b ∈ l) (hab : a ≠ b) :
    (∃ L', L.swap (some a) (predecessor l a) (some b) (predecessor l b) = some L' ∧
        Rep L' (l.map (Equiv.swap a b))) ↔
      (l.head? ≠ some a ∧ l.head? ≠ some b) ∧ l.getLast? ≠ some a ∧ l.getLast? ≠ some b := by
  constructor
  · rintro ⟨L', hL', hrep⟩
    refine ⟨⟨fun hhead => ?_, fun hhead => ?_⟩, ?_⟩
    · rw [predecessor_head hhead, swap_null_left] at hL'
      cases hL'
    · rw [predecessor_head hhead, swap_null_right] at hL'
      cases hL'
    · -- `tail` has stayed where it was
      have htail : l.getLast?.map (Equiv.swap a b) = l.getLast? := by
        rw [← List.getLast?_map, ← hrep.tail, (swap_meta hL').2.1, h.tail]
      constructor
      · intro hlast
        rw [hlast, Option.map_some, Equiv.swap_apply_left] at htail
        exact hab (Option.some.inj htail).symm
      · intro hlast
        rw [hlast, Option.map_some, Equiv.swap_apply_right] at htail
        exact hab (Option.some.inj htail)
  · rintro ⟨hhead, hlast⟩
    obtain ⟨L', hL', hinv, _⟩ := swap_inv h ha hb hhead hlast
    exact ⟨L', hL', hinv.toRep⟩

end Upkeeper.UpkList
