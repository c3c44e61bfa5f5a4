import Upkeeper.UpkList.Copy
/-!
# Passes that write to the nodes

The body of such a pass sees the current node and a state of the surrounding code, and writes to both.
`foreach_updating` is its loop rule: what each visit takes from the nodes that are left to the next ones, the pass takes
from all of them to none, and the list of the nodes stays as it is.
-/

namespace Upkeeper.UpkList

open Chain (Seg)

variable {α ω : Type} {L M : UpkList α} {l pre rest : List Addr} {a : Addr} {w : ω}
  {f : ω → Addr → α → Option (α × ω)}

/-- The body of a pass that writes to the current node -/
def updating (f : ω → Addr → α → Option (α × ω)) : UpkList α × ω → Option (UpkList α × ω)
  | (L, w) => do
    let a ← L.thisp
    let c ← L.heap a
    let (v, w) ← f w a c.val
    let L ← L.modifyVal L.thisp fun _ => v
    some (L, w)

theorem fresh_modifyVal {p : Option Addr} {g : α → α} (h : L.modifyVal p g = some M) : M.fresh = L.fresh := by
  simp only [modifyVal, Option.bind_eq_bind, Option.bind_eq_some_iff] at h
  obtain ⟨a, -, c, -, h⟩ := h
  rw [← Option.some.inj h]

/-- Where the pass stands: the nodes `pre` have been visited, and `rest` have not. -/
structure Standing (L M : UpkList α) (pre rest : List Addr) : Prop where
  inv : Inv M (pre ++ rest)
  thisp : M.thisp = rest.head?
  nextp : M.nextp = rest.tail.head?
  fresh : M.fresh = L.fresh
  count : M.count = L.count

theorem standing_foreachInit (h : Inv L l) :
    ∃ M, L.foreachInit = some M ∧ M.val? = L.val? ∧ Standing L M [] l := by
  have hstart : L.head = l.head? := h.head
  have hchain : Seg L.next l.head? l none := hstart ▸ h.chain
  have hnext : L.nextOf L.head = some l.tail.head? := by rw [hstart, nextOf_head hchain]
  refine ⟨_, foreachInit_eq hnext, rfl, h.setCursor (by simp) ?_ ?_, hstart, rfl, rfl, rfl⟩
  · exact fun a ha => List.mem_of_mem_head? (hstart ▸ ha)
  · exact fun a ha => List.mem_of_mem_tail (List.mem_of_mem_head? ha)

theorem Standing.visit (h : Standing L M pre (a :: rest)) {v v' : α} {w' : ω} (hv : M.val? a = some v)
    (hf : f w a v = some (v', w')) :
    ∃ N, foreachStep (updating f) (M, w) = some (N, w') ∧ N.val? = Function.update M.val? a (some v') ∧
      Standing L N (pre ++ [a]) rest := by
  have hthis : M.thisp = some a := h.thisp
  have hmem : a ∈ pre ++ a :: rest := List.mem_append_right _ List.mem_cons_self
  obtain ⟨c, hc⟩ := h.inv.cell hmem
  obtain rfl : c.val = v := by
    rw [val?, hc] at hv
    exact Option.some.inj hv
  obtain ⟨K, hK, hinv, hmod⟩ := modifyVal_inv h.inv hmem fun _ => v'
  have hnextp : K.nextp = rest.head? := hmod.nextp.trans h.nextp
  have hchain : Seg K.next rest.head? rest none := by
    have hsplit := (Chain.seg_split.mp hinv.chain).2.2
    rwa [hsplit.start] at hsplit
  have hcont := foreachContinue_eq ((congrArg K.nextOf hnextp).trans (nextOf_head hchain))
  have hval : K.val? = Function.update M.val? a (some v') := by
    rw [val_modifyVal hK, hv]
    rfl
  have hcount : K.count = M.count := by
    rw [← UInt32.toNat_inj, hinv.count, h.inv.count]
  have hsame : pre ++ [a] ++ rest = pre ++ a :: rest := by simp
  refine ⟨{ K with tempp := none, prevp := K.thisp, thisp := K.nextp, nextp := rest.tail.head? }, ?_, hval,
    ⟨hsame.symm ▸ hinv.setCursor hinv.thisp_mem hinv.nextp_mem ?_, hnextp, rfl, (fresh_modifyVal hK).trans h.fresh,
      hcount.trans h.count⟩⟩
  · simp only [foreachStep, updating, hthis, hc, hf, Option.bind_eq_bind, Option.bind_some, hK, hcont]
  · intro x hx
    exact List.mem_append_right _ (List.mem_cons_of_mem _ (List.mem_of_mem_tail (List.mem_of_mem_head? hx)))

/-- **Loop rule for a pass that writes to the nodes.** -/
theorem foreach_updating {J : List Addr → (Addr → Option α) → ω → Prop} {fuel : Nat}
    (hstep : ∀ a rest val w v, J (a :: rest) val w → val a = some v →
      ∃ v' w', f w a v = some (v', w') ∧ J rest (Function.update val a (some v')) w')
    (h : Inv L l) (hfuel : L.fresh < fuel) (hJ : J l L.val? w) :
    ∃ L' w', L.foreach (updating f) fuel w = some (L', w') ∧ Inv L' l ∧ L'.nextp = none ∧ L'.fresh = L.fresh ∧
      L'.count = L.count ∧ J [] L'.val? w' := by
  have hfrom : ∀ (rest pre : List Addr) (M : UpkList α) (w : ω) (fuel : Nat), Standing L M pre rest →
      rest.length < fuel → J rest M.val? w →
      ∃ L' w', foreachFrom (updating f) fuel (M, w) = some (L', w') ∧ Standing L L' (pre ++ rest) [] ∧
        J [] L'.val? w' := by
    intro rest
    induction rest with
    | nil =>
      intro pre M w fuel hM hfuel hJ
      obtain ⟨fuel, rfl⟩ := Nat.exists_eq_succ_of_ne_zero (Nat.ne_of_gt hfuel)
      have hthis : M.thisp = none := hM.thisp
      refine ⟨M, w, ?_, by simpa using hM, hJ⟩
      simp only [foreachFrom, hthis]
    | cons a rest ih =>
      intro pre M w fuel hM hfuel hJ
      obtain ⟨fuel, rfl⟩ := Nat.exists_eq_succ_of_ne_zero (Nat.ne_of_gt (Nat.lt_of_le_of_lt (Nat.zero_le _) hfuel))
      have hthis : M.thisp = some a := hM.thisp
      obtain ⟨c, hc⟩ := hM.inv.cell (List.mem_append_right _ List.mem_cons_self)
      have hv : M.val? a = some c.val := by rw [val?, hc]; rfl
      obtain ⟨v', w', hf, hJ'⟩ := hstep a rest M.val? w c.val hJ hv
      obtain ⟨N, hN, hval, hstand⟩ := hM.visit hv hf
      rw [← hval] at hJ'
      obtain ⟨L', w'', hrun, hend, hJ''⟩ := ih (pre ++ [a]) N w' fuel hstand (Nat.lt_of_succ_lt_succ hfuel) hJ'
      refine ⟨L', w'', ?_, by simpa using hend, hJ''⟩
      simp only [foreachFrom, hthis, hN, Option.bind_eq_bind, Option.bind_some]
      exact hrun
  obtain ⟨M, hM, hval, hstand⟩ := standing_foreachInit h
  rw [← hval] at hJ
  obtain ⟨L', w', hrun, hend, hJ'⟩ :=
    hfrom l [] M w fuel hstand (Nat.lt_of_le_of_lt h.length_le_fresh hfuel) hJ
  have hinv : Inv L' l := by simpa using hend.inv
  refine ⟨L', w', ?_, hinv, hend.nextp, hend.fresh, hend.count, hJ'⟩
  simp only [foreach, hM, Option.bind_eq_bind, Option.bind_some, hrun]

theorem Inv.appendVal [Inhabited α] (h : Inv L l) (hnext : L.nextp = none) (hcount : L.count ≠ 0xffffffff) (v : α) :
    ∃ L', L.appendVal v = some L' ∧ Inv L' (l ++ [L.fresh]) ∧ L'.nextp = none ∧ L'.fresh = L.fresh + 1 ∧
      L'.val? = Function.update L.val? L.fresh (some v) := by
  obtain ⟨M, happ, hinv⟩ := append_inv h hnext hcount
  obtain ⟨M', happ', hlink⟩ := append_linked h
  obtain rfl := Option.some.inj (happ.symm.trans happ')
  have hthis : M.thisp = some L.fresh := hlink.thisp
  obtain ⟨L', hL', hinv', hmod⟩ := modifyVal_inv hinv (List.mem_append_right _ (List.mem_singleton_self _)) fun _ => v
  refine ⟨L', ?_, hinv', hmod.nextp.trans (hlink.nextp.trans hnext), (fresh_modifyVal hL').trans hlink.fresh, ?_⟩
  · simp only [UpkList.appendVal, happ, Option.bind_eq_bind, Option.bind_some, hthis, hL']
  · rw [val_modifyVal hL', val_append happ, Function.update_self, Function.update_idem]
    rfl

end Upkeeper.UpkList
