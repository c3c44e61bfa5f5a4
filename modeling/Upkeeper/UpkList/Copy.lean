import Mathlib.Data.Set.List
import Upkeeper.UpkList.Filter
/-!
# Lists of values

`Holds L vs`: the nodes of the list hold the values `vs`, in this order. A pass that only reads the list goes through
these values (`foreach_reading`), and so does one that unlinks every node (`foreach_unlinking`). Values that are appended
one after another stand behind those that were there, exactly if the cursor and the counter of the list let them
(`appendAll_iff`): behind a `nextp` that is not `NULL`, each append links its node into a ring.
-/

namespace Upkeeper.UpkList

open Chain (Seg)

variable {α ω : Type} {L M : UpkList α} {l rest : List Addr} {vs ws : List α} {a : Addr} {v : α} {f : ω → α → Option ω}

/-- **The list holds the values `vs`.** -/
def Holds (L : UpkList α) (vs : List α) : Prop := ∃ l, Inv L l ∧ l.map L.val? = vs.map some

theorem holds_init : Holds (init : UpkList α) [] := ⟨[], init_inv, rfl⟩

/-- The values of the nodes that the chain from `head` leads to -/
def entries (L : UpkList α) : List α := L.nodes.filterMap L.val?

theorem Holds.entries_eq (h : Holds L vs) : L.entries = vs := by
  obtain ⟨l, hinv, hvs⟩ := h
  have hval : l.filterMap L.val? = (l.map L.val?).filterMap id := (List.filterMap_map (g := id)).symm
  rw [entries, hinv.nodes_eq, hval, hvs, List.filterMap_map]
  exact List.filterMap_some

theorem Inv.holds (h : Inv L l) : Holds L L.entries := by
  have hval : l.map L.val? ∈ Set.range (List.map some) := by
    rw [Set.range_list_map]
    intro v hv
    obtain ⟨a, ha, rfl⟩ := List.mem_map.mp hv
    obtain ⟨c, hc⟩ := h.cell ha
    exact ⟨c.val, by rw [val?, hc]; rfl⟩
  obtain ⟨vs, hvs⟩ := hval
  have hholds : Holds L vs := ⟨l, h, hvs.symm⟩
  exact hholds.entries_eq.symm ▸ hholds

theorem Holds.sound (h : Holds L vs) : ∃ l, Inv L l := h.imp fun _ => And.left

theorem Holds.count (h : Holds L vs) : L.count.toNat = vs.length := by
  obtain ⟨l, hinv, hvs⟩ := h
  have hlen := congrArg List.length hvs
  rw [List.length_map, List.length_map] at hlen
  rw [hinv.count, hlen]

theorem Holds.count_ne_max (h : Holds L vs) (hlen : vs.length + 1 < 2 ^ 32) : L.count ≠ 0xffffffff := by
  intro hmax
  have hcount := h.count
  rw [hmax] at hcount
  have hmaxNat : (0xffffffff : UInt32).toNat = 2 ^ 32 - 1 := rfl
  omega

/-! ### Writing to a node -/

theorem modifyVal_eq {c : Cell α} (hc : L.heap a = some c) (g : α → α) :
    L.modifyVal (some a) g = some { L with heap := Function.update L.heap a (some { c with val := g c.val }) } := by
  simp only [modifyVal, hc, Option.bind_eq_bind, Option.bind_some]

theorem modifyVal_modifyVal (L : UpkList α) (f g : α → α) :
    ((L.modifyVal L.thisp f).bind fun M => M.modifyVal M.thisp g) = L.modifyVal L.thisp (g ∘ f) := by
  cases hthis : L.thisp with
  | none => rfl
  | some a =>
    cases hc : L.heap a with
    | none => simp only [modifyVal, hc, Option.bind_eq_bind, Option.bind_some, Option.bind_none]
    | some c =>
      simp only [modifyVal, hthis, hc, Option.bind_eq_bind, Option.bind_some, Function.update_self, Function.update_idem,
        Function.comp_apply]

theorem next_writeVal {c : Cell α} (hc : L.heap a = some c) (v : α) :
    ({ L with heap := Function.update L.heap a (some { c with val := v }) } : UpkList α).next = L.next := by
  have hself : Function.update L.next a (some c.next) = L.next :=
    Function.update_eq_self_iff.mpr (by rw [next, hc]; rfl)
  simpa only [next_mk, map_next_update, map_next_heap, Option.map_some] using hself

/-! ### Passes over a list -/

/-- The body of a pass that reads the current node -/
def reading (f : ω → α → Option ω) : UpkList α × ω → Option (UpkList α × ω)
  | (L, w) => do
    let a ← L.thisp
    let c ← L.heap a
    let w ← f w c.val
    some (L, w)

/-- The body of a pass that reads the current node, writes to it, and unlinks it -/
def unlinking (f : ω → α → Option ω) (g : α → α) : UpkList α × ω → Option (UpkList α × ω)
  | (L, w) => do
    let a ← L.thisp
    let c ← L.heap a
    let w ← f w c.val
    let L ← L.modifyVal L.thisp g
    let L ← L.unlink
    some (L, w)

/-- The nodes `rest` lie ahead of the cursor, and hold `vs`. -/
structure Facing (M : UpkList α) (rest : List Addr) (vs : List α) : Prop where
  thisp : M.thisp = rest.head?
  nextp : M.nextp = rest.tail.head?
  chain : Seg M.next rest.head? rest none
  val : rest.map M.val? = vs.map some

theorem Facing.uncons (h : Facing M (a :: rest) vs) :
    ∃ v ws, vs = v :: ws ∧ M.val? a = some v ∧ rest.map M.val? = ws.map some := by
  have hval := h.val
  cases vs with
  | nil => cases hval
  | cons v ws =>
    obtain ⟨hv, hrest⟩ := List.cons.inj hval
    exact ⟨v, ws, rfl, hv, hrest⟩

theorem Facing.nil (h : Facing M [] vs) : vs = [] := List.map_eq_nil_iff.mp h.val.symm

/-- Only the cursor has moved. -/
structure Moved (L M : UpkList α) : Prop where
  heap : M.heap = L.heap
  fresh : M.fresh = L.fresh
  head : M.head = L.head
  inv : ∀ l, Inv L l → Inv M l

theorem Moved.refl (L : UpkList α) : Moved L L := ⟨rfl, rfl, rfl, fun _ h => h⟩

theorem Moved.trans {N : UpkList α} (h : Moved L M) (h' : Moved M N) : Moved L N :=
  ⟨h'.heap.trans h.heap, h'.fresh.trans h.fresh, h'.head.trans h.head, fun l hl => h'.inv l (h.inv l hl)⟩

theorem Moved.next (h : Moved L M) : M.next = L.next := by
  funext a
  rw [UpkList.next, h.heap]
  rfl

theorem Moved.val (h : Moved L M) : M.val? = L.val? := by
  funext a
  rw [val?, h.heap]
  rfl

theorem facing_foreachInit (h : Seg L.next L.head l none) (hvs : l.map L.val? = vs.map some) :
    ∃ M, L.foreachInit = some M ∧ Moved L M ∧ Facing M l vs ∧ M.prevp = none := by
  have hstart : L.head = l.head? := h.start
  have hchain : Seg L.next l.head? l none := hstart ▸ h
  have hnext : L.nextOf L.head = some l.tail.head? := by rw [hstart, nextOf_head hchain]
  refine ⟨_, foreachInit_eq hnext, ⟨rfl, rfl, rfl, fun l' hl' => ?_⟩, ⟨hstart, rfl, hchain, hvs⟩, rfl⟩
  obtain rfl := h.unique hl'.chain
  refine hl'.setCursor (by simp) ?_ ?_
  · exact fun a ha => List.mem_of_mem_head? (hstart ▸ ha)
  · exact fun a ha => List.mem_of_mem_tail (List.mem_of_mem_head? ha)

theorem foreachStep_reading (hf : Facing M (a :: rest) (v :: vs)) :
    ∃ M', Moved M M' ∧ Facing M' rest vs ∧ ∀ w, foreachStep (reading f) (M, w) = (f w v).map fun w => (M', w) := by
  obtain ⟨hcell, hrest⟩ := List.cons.inj hf.val
  obtain ⟨c, hc, rfl⟩ := Option.map_eq_some_iff.mp hcell
  have hthis : M.thisp = some a := hf.thisp
  have hnext : M.nextp = rest.head? := hf.nextp
  have hchain : Seg M.next rest.head? rest none := (Chain.seg_uncons.mp hf.chain).2.2
  have hcont := foreachContinue_eq ((congrArg M.nextOf hnext).trans (nextOf_head hchain))
  refine ⟨{ M with tempp := none, prevp := M.thisp, thisp := M.nextp, nextp := rest.tail.head? },
    ⟨rfl, rfl, rfl, fun l h => ?_⟩, ⟨hnext, rfl, hchain, hrest⟩, fun w => ?_⟩
  · obtain ⟨n, hn, hmem⟩ := h.nextOf h.nextp_mem
    obtain rfl : rest.tail.head? = n := by
      rw [hnext, nextOf_head hchain] at hn
      exact Option.some.inj hn
    exact h.setCursor h.thisp_mem h.nextp_mem hmem
  · simp only [foreachStep, reading, hthis, hc, Option.bind_eq_bind, Option.bind_some]
    cases f w c.val with
    | none => rfl
    | some w' =>
      simp only [Option.bind_some, hcont, Option.map_some]
      rw [hthis]

theorem foreachFrom_reading {fuel : Nat} (hf : Facing M rest vs) (hfuel : rest.length < fuel) :
    ∃ M', Moved M M' ∧ M'.nextp = none ∧
      ∀ w, foreachFrom (reading f) fuel (M, w) = (vs.foldlM f w).map fun w => (M', w) := by
  induction rest generalizing M vs fuel with
  | nil =>
    obtain ⟨fuel, rfl⟩ := Nat.exists_eq_succ_of_ne_zero (Nat.ne_of_gt hfuel)
    obtain rfl := hf.nil
    have hthis : M.thisp = none := hf.thisp
    refine ⟨M, .refl M, hf.nextp, fun w => ?_⟩
    simp only [foreachFrom, hthis]
    rfl
  | cons a rest ih =>
    obtain ⟨fuel, rfl⟩ := Nat.exists_eq_succ_of_ne_zero (Nat.ne_of_gt (Nat.lt_of_le_of_lt (Nat.zero_le _) hfuel))
    obtain ⟨v, ws, rfl, -, -⟩ := hf.uncons
    have hthis : M.thisp = some a := hf.thisp
    obtain ⟨N, hmoved, hfN, hstep⟩ := foreachStep_reading (f := f) hf
    obtain ⟨M', hmoved', hnext, hrun⟩ := ih hfN (Nat.lt_of_succ_lt_succ hfuel)
    refine ⟨M', hmoved.trans hmoved', hnext, fun w => ?_⟩
    simp only [foreachFrom, hthis, hstep, List.foldlM_cons]
    cases f w v with
    | none => rfl
    | some w' => exact hrun w'

theorem foreach_reading_chain {fuel : Nat} (h : Seg L.next L.head l none) (hvs : l.map L.val? = vs.map some)
    (hfuel : l.length < fuel) :
    ∃ L', Moved L L' ∧ L'.nextp = none ∧
      ∀ w, L.foreach (reading f) fuel w = (vs.foldlM f w).map fun w => (L', w) := by
  obtain ⟨M, hM, hmoved, hf, -⟩ := facing_foreachInit h hvs
  obtain ⟨L', hmoved', hnext, hrun⟩ := foreachFrom_reading (f := f) hf hfuel
  refine ⟨L', hmoved.trans hmoved', hnext, fun w => ?_⟩
  simp only [foreach, hM, Option.bind_eq_bind, Option.bind_some, hrun]

/-- **A pass that reads the list goes through its values**, and leaves the cursor behind them. -/
theorem foreach_reading {fuel : Nat} (h : Holds L vs) (hfuel : L.fresh < fuel) :
    ∃ L', Holds L' vs ∧ L'.nextp = none ∧ L'.count = L.count ∧
      ∀ w, L.foreach (reading f) fuel w = (vs.foldlM f w).map fun w => (L', w) := by
  obtain ⟨l, hinv, hvs⟩ := h
  obtain ⟨L', hmoved, hnext, hrun⟩ :=
    foreach_reading_chain (f := f) hinv.chain hvs (Nat.lt_of_le_of_lt hinv.length_le_fresh hfuel)
  have hinv' := hmoved.inv l hinv
  refine ⟨L', ⟨l, hinv', by rw [hmoved.val, hvs]⟩, hnext, ?_, hrun⟩
  rw [← UInt32.toNat_inj, hinv'.count, hinv.count]

theorem foreachStep_unlinking (g : α → α) (hf : Facing M (a :: rest) (v :: vs)) (hprev : M.prevp = none) :
    ∃ M', Facing M' rest vs ∧ M'.prevp = none ∧
      ∀ w, foreachStep (unlinking f g) (M, w) = (f w v).map fun w => (M', w) := by
  obtain ⟨hcell, hrest⟩ := List.cons.inj hf.val
  obtain ⟨c, hc, rfl⟩ := Option.map_eq_some_iff.mp hcell
  have hthis : M.thisp = some a := hf.thisp
  have hnext : M.nextp = rest.head? := hf.nextp
  obtain ⟨-, ha, hchain⟩ := Chain.seg_uncons.mp hf.chain
  have hnot : a ∉ rest := (List.nodup_cons.mp hf.chain.nodup).1
  -- the node that has been written to, and is then unlinked as the first one
  let W : UpkList α := { M with heap := Function.update M.heap a (some { c with val := g c.val }) }
  have hwrite : M.modifyVal M.thisp g = some W := hthis ▸ modifyVal_eq hc g
  have hnextW : W.next = M.next := next_writeVal hc (g c.val)
  obtain ⟨N, hN, hun, -, hnextN⟩ := unlink_start_eq (L := W) hthis (by rw [hnextW]; exact ha) hprev
  have hsegN : Seg N.next rest.head? rest none := by
    rw [hnextN, hnextW]
    exact hchain.update hnot _
  have hnextpN : N.nextp = rest.head? := hun.nextp.trans hnext
  have hcont := foreachContinue_eq ((congrArg N.nextOf hnextpN).trans (nextOf_head hsegN))
  refine ⟨{ N with tempp := none, prevp := N.thisp, thisp := N.nextp, nextp := rest.tail.head? },
    ⟨hnextpN, rfl, hsegN, ?_⟩, hun.thisp, fun w => ?_⟩
  · rw [← hrest]
    refine List.map_congr_left fun x hx => ?_
    have hne : x ≠ a := ne_of_mem_of_not_mem hx hnot
    show N.val? x = M.val? x
    rw [hun.val x hne]
    simp only [val?, W, Function.update_of_ne hne]
  · simp only [foreachStep, unlinking, hwrite, Option.bind_eq_bind]
    rw [hthis]
    simp only [hc, Option.bind_some]
    cases f w c.val with
    | none => rfl
    | some w' => simp only [Option.bind_some, hN, hcont, Option.map_some]

theorem foreachFrom_unlinking (g : α → α) {fuel : Nat} (hf : Facing M rest vs) (hprev : M.prevp = none)
    (hfuel : rest.length < fuel) :
    ∃ M', ∀ w, foreachFrom (unlinking f g) fuel (M, w) = (vs.foldlM f w).map fun w => (M', w) := by
  induction rest generalizing M vs fuel with
  | nil =>
    obtain ⟨fuel, rfl⟩ := Nat.exists_eq_succ_of_ne_zero (Nat.ne_of_gt hfuel)
    obtain rfl := hf.nil
    have hthis : M.thisp = none := hf.thisp
    refine ⟨M, fun w => ?_⟩
    simp only [foreachFrom, hthis]
    rfl
  | cons a rest ih =>
    obtain ⟨fuel, rfl⟩ := Nat.exists_eq_succ_of_ne_zero (Nat.ne_of_gt (Nat.lt_of_le_of_lt (Nat.zero_le _) hfuel))
    obtain ⟨v, ws, rfl, -, -⟩ := hf.uncons
    have hthis : M.thisp = some a := hf.thisp
    obtain ⟨N, hfN, hprevN, hstep⟩ := foreachStep_unlinking (f := f) g hf hprev
    obtain ⟨M', hrun⟩ := ih hfN hprevN (Nat.lt_of_succ_lt_succ hfuel)
    refine ⟨M', fun w => ?_⟩
    simp only [foreachFrom, hthis, hstep, List.foldlM_cons]
    cases f w v with
    | none => rfl
    | some w' => exact hrun w'

theorem foreach_unlinking_chain (g : α → α) {fuel : Nat} (h : Seg L.next L.head l none)
    (hvs : l.map L.val? = vs.map some) (hfuel : l.length < fuel) :
    ∃ L', ∀ w, L.foreach (unlinking f g) fuel w = (vs.foldlM f w).map fun w => (L', w) := by
  obtain ⟨M, hM, -, hf, hprev⟩ := facing_foreachInit h hvs
  obtain ⟨L', hrun⟩ := foreachFrom_unlinking (f := f) g hf hprev hfuel
  refine ⟨L', fun w => ?_⟩
  simp only [foreach, hM, Option.bind_eq_bind, Option.bind_some, hrun]

/-- **A pass that unlinks every node goes through the values of the list**, too. -/
theorem foreach_unlinking (g : α → α) {fuel : Nat} (h : Holds L vs) (hfuel : L.fresh < fuel) :
    ∃ L', ∀ w, L.foreach (unlinking f g) fuel w = (vs.foldlM f w).map fun w => (L', w) := by
  obtain ⟨l, hinv, hvs⟩ := h
  exact foreach_unlinking_chain g hinv.chain hvs (Nat.lt_of_le_of_lt hinv.length_le_fresh hfuel)

/-! ### Appending values -/

/-- `UPKLIST_APPEND`, and the contents of the new node -/
def appendVal [Inhabited α] (L : UpkList α) (v : α) : Option (UpkList α) := do
  let L ← L.append
  L.modifyVal L.thisp fun _ => v

variable {D D' : UpkList α}

section Append

variable [Inhabited α]

theorem Holds.appendVal (h : Holds D vs) (hnext : D.nextp = none) (hcount : D.count ≠ 0xffffffff) (v : α) :
    ∃ D', D.appendVal v = some D' ∧ Holds D' (vs ++ [v]) ∧ D'.nextp = none := by
  obtain ⟨l, hinv, hvs⟩ := h
  obtain ⟨L, happ, hinv₁⟩ := append_inv hinv hnext hcount
  obtain ⟨L', happ', hlink⟩ := append_linked hinv
  obtain rfl := Option.some.inj (happ.symm.trans happ')
  have hthis : L.thisp = some D.fresh := hlink.thisp
  obtain ⟨D', hD', hinv', hmod⟩ := modifyVal_inv hinv₁ (List.mem_append_right _ (List.mem_singleton_self _)) fun _ => v
  refine ⟨D', ?_, ⟨l ++ [D.fresh], hinv', ?_⟩, hmod.nextp.trans (hlink.nextp.trans hnext)⟩
  · simp only [UpkList.appendVal, happ, Option.bind_eq_bind, Option.bind_some, hthis, hD']
  · have hval : D'.val? = Function.update D.val? D.fresh (some v) := by
      rw [val_modifyVal hD', val_append happ, Function.update_self, Function.update_idem]
      rfl
    rw [hval, List.map_append, List.map_append, ← hvs, List.map_singleton, Function.update_self]
    refine congrArg (· ++ _) (List.map_congr_left fun x hx => ?_)
    exact Function.update_of_ne (ne_of_mem_of_not_mem hx hinv.fresh_notMem) _ _

theorem Holds.appendAll (h : Holds D vs) (hnext : D.nextp = none) (hlen : vs.length + ws.length < 2 ^ 32) :
    ∃ D', ws.foldlM UpkList.appendVal D = some D' ∧ Holds D' (vs ++ ws) ∧ D'.nextp = none := by
  induction ws generalizing D vs with
  | nil => exact ⟨D, rfl, (List.append_nil vs).symm ▸ h, hnext⟩
  | cons w ws ih =>
    rw [List.length_cons] at hlen
    obtain ⟨D₁, hD₁, h₁, hnext₁⟩ := h.appendVal hnext (h.count_ne_max (by omega)) w
    obtain ⟨D', hD', h', hnext'⟩ := ih h₁ hnext₁ (by rw [List.length_append, List.length_singleton]; omega)
    refine ⟨D', ?_, by rwa [List.append_assoc] at h', hnext'⟩
    rw [List.foldlM_cons, hD₁]
    exact hD'

end Append

/-! ### Appending behind a `nextp` -/

/-- A list that ends in `a`, with a `nextp` that leads back into it -/
structure Hooked (D : UpkList α) (m : List Addr) (a : Addr) : Prop where
  nodup : (m ++ [a]).Nodup
  below : ∀ x ∈ m ++ [a], x < D.fresh
  tail : D.tail = some a
  nextp : ∃ x ∈ m ++ [a], D.nextp = some x
  head : D.head ≠ none
  chain : Seg D.next D.head m (some a)
  allocated : ∃ n, D.next a = some n

/-- A node has been linked behind it, and leads back. -/
structure Ring (D : UpkList α) (m : List Addr) (a : Addr) : Prop extends Hooked D m a where
  closed : ∃ y, Seg D.next D.head (m ++ [a, y]) D.nextp

theorem Ring.not_holds {m : List Addr} {a : Addr} (h : Ring D m a) : ¬ Holds D vs := by
  rintro ⟨l, hinv, -⟩
  obtain ⟨x, hx, hnext⟩ := h.nextp
  obtain ⟨y, hchain⟩ := h.closed
  rw [hnext] at hchain
  have hmem : x ∈ m ++ [a, y] := by
    simp only [List.mem_append, List.mem_cons] at hx ⊢
    tauto
  exact hchain.not_null_of_ring hmem hinv.chain

theorem Inv.hooked {l : List Addr} (h : Inv D l) (hnext : D.nextp ≠ none) : ∃ m a, Hooked D m a := by
  obtain ⟨x, hx⟩ := Option.ne_none_iff_exists'.mp hnext
  have hmem := h.nextp_mem x hx
  rcases List.eq_nil_or_concat' l with rfl | ⟨m, a, rfl⟩
  · cases hmem
  · obtain ⟨hchain, ha, -⟩ := Chain.seg_split.mp h.chain
    refine ⟨m, a, h.nodup, h.fresh, by rw [h.tail, List.getLast?_concat], ⟨x, hmem, hx⟩, ?_, hchain, _, ha⟩
    rw [h.head]
    simp

/-- The node is linked between the tail and `nextp`, and does not become the tail. -/
theorem Hooked.append [Inhabited α] {m : List Addr} {a : Addr} (h : Hooked D m a) : ∃ D', D.append = some D' ∧ Ring D' m a ∧
    D'.thisp = some D.fresh ∧ ∃ c, D'.heap D.fresh = some c := by
  obtain ⟨n, hn⟩ := h.allocated
  obtain ⟨w, hc⟩ := next_eq_some.mp hn
  obtain ⟨x, hx, hnext⟩ := h.nextp
  have hne : a ≠ D.fresh := Nat.ne_of_lt (h.below a (List.mem_append_right _ (List.mem_singleton_self a)))
  have hprev : (if D.prevp = none then D.head else D.prevp) ≠ none := by
    split
    · exact h.head
    · assumption
  have happ : D.append = some { D with
      heap := Function.update (Function.update D.heap D.fresh (some ⟨D.nextp, default⟩)) a (some ⟨some D.fresh, w⟩)
      fresh := D.fresh + 1
      prevp := none
      thisp := some D.fresh
      tempp := some D.fresh
      count := D.count + 1 } := by
    simp only [UpkList.append, appendThis, newNode, setNext, h.tail, hnext, hprev, Option.bind_eq_bind, Option.bind_some,
      Function.update_self, Function.update_idem, Function.update_of_ne hne, hc, reduceCtorEq, if_false, false_and]
  have hfresh : D.fresh ∉ m := fun hmem => absurd (h.below _ (List.mem_append_left _ hmem)) (lt_irrefl _)
  have ha : a ∉ m := fun hmem => (List.nodup_append.mp h.nodup).2.2 a hmem a (List.mem_singleton_self a) rfl
  let f := Function.update (Function.update D.next D.fresh (some D.nextp)) a (some (some D.fresh))
  have hnextf (y : Addr) : (Function.update (Function.update D.heap D.fresh (some ⟨D.nextp, default⟩)) a
      (some ⟨some D.fresh, w⟩) y).map Cell.next = f y := by
    simp only [map_next_update, map_next_heap, Option.map_some, f]
  have hchain : Seg f D.head m (some a) := (h.chain.update hfresh _).update ha _
  refine ⟨_, happ, ⟨⟨h.nodup, fun y hy => ?_, h.tail, ⟨x, hx, hnext⟩, h.head, ?_, ?_⟩, D.fresh, ?_⟩, rfl, ?_⟩
  · exact Nat.lt_succ_of_lt (h.below y hy)
  · exact hchain.congr fun y _ => hnextf y
  · exact ⟨_, (hnextf a).trans (Function.update_self _ _ _)⟩
  · have hring : Seg f D.head (m ++ [a, D.fresh]) D.nextp := by
      refine Chain.seg_append.mpr ⟨some a, hchain, rfl, some D.fresh, Function.update_self _ _ _, rfl, D.nextp, ?_, rfl⟩
      exact (Function.update_of_ne hne.symm _ _).trans (Function.update_self _ _ _)
    exact hring.congr fun y _ => hnextf y
  · exact ⟨_, (Function.update_of_ne hne.symm _ _).trans (Function.update_self _ _ _)⟩

theorem Ring.modifyVal {m : List Addr} {a x : Addr} {c : Cell α} (h : Ring D m a) (hc : D.heap x = some c) (g : α → α) :
    ∃ D', D.modifyVal (some x) g = some D' ∧ Ring D' m a := by
  obtain ⟨⟨hnodup, hbelow, htail, hnextp, hhead, hchain, hallocated⟩, hclosed⟩ := h
  rw [← next_writeVal hc (g c.val)] at hchain hallocated hclosed
  exact ⟨_, modifyVal_eq hc g, ⟨hnodup, hbelow, htail, hnextp, hhead, hchain, hallocated⟩, hclosed⟩

section Append

variable [Inhabited α] {m : List Addr}

theorem Hooked.appendVal (h : Hooked D m a) (v : α) : ∃ D', D.appendVal v = some D' ∧ Ring D' m a := by
  obtain ⟨D₁, happ, hring, hthis, c, hc⟩ := h.append
  obtain ⟨D', hD', hring'⟩ := hring.modifyVal hc fun _ => v
  refine ⟨D', ?_, hring'⟩
  simp only [UpkList.appendVal, happ, Option.bind_eq_bind, Option.bind_some, hthis, hD']

theorem Hooked.appendAll (h : Hooked D m a) (hws : ws ≠ []) :
    ∃ D', ws.foldlM UpkList.appendVal D = some D' ∧ Ring D' m a := by
  induction ws generalizing D with
  | nil => exact absurd rfl hws
  | cons w ws ih =>
    obtain ⟨D₁, hD₁, hring⟩ := h.appendVal w
    rw [List.foldlM_cons, hD₁]
    by_cases hnil : ws = []
    · subst hnil
      exact ⟨D₁, rfl, hring⟩
    · exact ih hring.toHooked hnil

/-- **Values are appended behind those of the list exactly if no `nextp` is left and the counter does not wrap around.** -/
theorem appendAll_iff (h : Holds D vs) (hws : ws ≠ []) :
    (∃ D', ws.foldlM UpkList.appendVal D = some D' ∧ Holds D' (vs ++ ws)) ↔
      D.nextp = none ∧ vs.length + ws.length < 2 ^ 32 := by
  constructor
  · rintro ⟨D', hD', hholds⟩
    refine ⟨by_contra fun hnext => ?_, ?_⟩
    · obtain ⟨l, hinv, -⟩ := h
      obtain ⟨m, a, hhook⟩ := hinv.hooked hnext
      obtain ⟨D'', hD'', hring⟩ := hhook.appendAll hws
      obtain rfl := Option.some.inj (hD'.symm.trans hD'')
      exact hring.not_holds hholds
    · rw [← List.length_append, ← hholds.count]
      exact D'.count.toNat_lt
  · rintro ⟨hnext, hlen⟩
    obtain ⟨D', hD', hholds, -⟩ := h.appendAll hnext hlen
    exact ⟨D', hD', hholds⟩

end Append

/-! ### Prepending values -/

/-- The chain from `head` holds the values `vs`. A list need not be more than that where nothing reads its tail:
`UPKLIST_PREPEND` takes the new node for the last one as long as `nextp` is `NULL`. -/
def Stacked (L : UpkList α) (vs : List α) : Prop :=
  ∃ l, Seg L.next L.head l none ∧ l.map L.val? = vs.map some ∧ ∀ a ∈ l, a < L.fresh

theorem stacked_init : Stacked (init : UpkList α) [] := ⟨[], rfl, rfl, by simp⟩

/-- `UPKLIST_PREPEND`, and the contents of the new node -/
def prependVal [Inhabited α] (L : UpkList α) (v : α) : Option (UpkList α) := do
  let L ← L.prepend
  L.modifyVal L.thisp fun _ => v

theorem Stacked.prependVal [Inhabited α] (h : Stacked L vs) (v : α) :
    ∃ L', L.prependVal v = some L' ∧ Stacked L' (v :: vs) := by
  obtain ⟨l, hchain, hvs, hlt⟩ := h
  obtain ⟨M, hM, hlink, hhead, hnext⟩ := prepend_eq L
  have hnot : L.fresh ∉ l := fun hmem => Nat.lt_irrefl _ (hlt _ hmem)
  have hvalM := val_prepend hM
  obtain ⟨c, hc, -⟩ : ∃ c, M.heap L.fresh = some c ∧ c.val = default :=
    Option.map_eq_some_iff.mp (by rw [← val?, hvalM, Function.update_self])
  let L' : UpkList α := { M with heap := Function.update M.heap L.fresh (some { c with val := v }) }
  have hL' : M.modifyVal M.thisp (fun _ => v) = some L' := hlink.thisp ▸ modifyVal_eq hc fun _ => v
  have hval : L'.val? = Function.update L.val? L.fresh (some v) := by
    rw [val_modifyVal (hlink.thisp ▸ hL'), hvalM, Function.update_self, Function.update_idem]
    rfl
  refine ⟨L', ?_, L.fresh :: l, ?_, ?_, fun a ha => ?_⟩
  · rw [UpkList.prependVal, hM]
    exact hL'
  · rw [next_writeVal hc v, hnext]
    show Seg _ M.head _ _
    rw [hhead]
    exact hchain.insert_start hnot
  · rw [hval, List.map_cons, List.map_cons, Function.update_self, ← hvs]
    refine congrArg (_ :: ·) (List.map_congr_left fun x hx => ?_)
    exact Function.update_of_ne (ne_of_mem_of_not_mem hx hnot) _ _
  · show a < M.fresh
    rw [hlink.fresh]
    rcases List.mem_cons.mp ha with rfl | ha
    · exact Nat.lt_succ_self _
    · exact Nat.lt_succ_of_lt (hlt a ha)

theorem Stacked.foreach_reading {fuel : Nat} (h : Stacked L vs) (hfuel : L.fresh < fuel) :
    ∃ L', Stacked L' vs ∧ L'.fresh = L.fresh ∧
      ∀ w, L.foreach (reading f) fuel w = (vs.foldlM f w).map fun w => (L', w) := by
  obtain ⟨l, hchain, hvs, hlt⟩ := h
  have hlen := length_le_of_lt hchain.nodup hlt
  obtain ⟨L', hmoved, -, hrun⟩ := foreach_reading_chain (f := f) hchain hvs (Nat.lt_of_le_of_lt hlen hfuel)
  refine ⟨L', ⟨l, ?_, ?_, ?_⟩, hmoved.fresh, hrun⟩
  · rw [hmoved.next, hmoved.head]
    exact hchain
  · rw [hmoved.val, hvs]
  · rw [hmoved.fresh]
    exact hlt

theorem Stacked.foreach_unlinking (g : α → α) {fuel : Nat} (h : Stacked L vs) (hfuel : L.fresh < fuel) :
    ∃ L', ∀ w, L.foreach (unlinking f g) fuel w = (vs.foldlM f w).map fun w => (L', w) := by
  obtain ⟨l, hchain, hvs, hlt⟩ := h
  exact foreach_unlinking_chain g hchain hvs (Nat.lt_of_le_of_lt (length_le_of_lt hchain.nodup hlt) hfuel)

end Upkeeper.UpkList
