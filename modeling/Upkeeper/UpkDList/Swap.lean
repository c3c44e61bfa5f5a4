import Upkeeper.UpkDList.Runs
import Upkeeper.UpkList.Swap
/-!
# Exchanging two nodes of a `UPKDLIST` (`upk_types.h`: `UPKDLIST_SWAP`)

The macro exchanges the `prev` pointers of the two nodes, but leaves those of the nodes behind them as they are. One of
the two is not the last node, and the node behind it still points back to it. So no two nodes are exchanged in a list that
is then right in both directions (`not_represents_swap`).
-/

namespace Upkeeper.UpkDList

variable {α : Type}

/-- `p->next` -/
def loadNext (D : UpkDList α) (p : Option Addr) : Option (Option Addr) := do
  let a ← p
  D.next a

/-- `p->prev` -/
def loadPrev (D : UpkDList α) (p : Option Addr) : Option (Option Addr) := do
  let a ← p
  D.prev a

/-- `UPKDLIST_SWAP` -/
def swap [Inhabited α] (D : UpkDList α) (a b : Option Addr) : Option (UpkDList α) := do
  let D := D.newNode
  let p ← D.loadPrev a
  let D ← D.setNext p b
  let p ← D.loadPrev b
  let D ← D.setNext p a
  let n ← D.loadNext a
  let D ← D.setNext D.tempp n
  let p ← D.loadPrev a
  let D ← D.setPrev D.tempp p
  let n ← D.loadNext b
  let D ← D.setNext a n
  let p ← D.loadPrev b
  let D ← D.setPrev a p
  let n ← D.loadNext D.tempp
  let D ← D.setNext b n
  let p ← D.loadPrev D.tempp
  let D ← D.setPrev b p
  let D ← D.free D.tempp
  some { D with tempp := none }

variable {D D' : UpkDList α} {l : List Addr} {a b x : Addr}

theorem prev_swap [Inhabited α] (h : D.swap (some a) (some b) = some D') (ha : a ≠ D.fresh) (hb : b ≠ D.fresh)
    (hx : x ≠ D.fresh) : D'.prev x = D.prev (Equiv.swap a b x) := by
  obtain ⟨_, -, h⟩ := Option.bind_eq_some_iff.mp h
  obtain ⟨D₁, h₁, h⟩ := Option.bind_eq_some_iff.mp h
  obtain ⟨_, -, h⟩ := Option.bind_eq_some_iff.mp h
  obtain ⟨D₂, h₂, h⟩ := Option.bind_eq_some_iff.mp h
  obtain ⟨_, -, h⟩ := Option.bind_eq_some_iff.mp h
  obtain ⟨D₃, h₃, h⟩ := Option.bind_eq_some_iff.mp h
  obtain ⟨u, hu, h⟩ := Option.bind_eq_some_iff.mp h
  obtain ⟨D₄, h₄, h⟩ := Option.bind_eq_some_iff.mp h
  obtain ⟨_, -, h⟩ := Option.bind_eq_some_iff.mp h
  obtain ⟨D₅, h₅, h⟩ := Option.bind_eq_some_iff.mp h
  obtain ⟨v, hv, h⟩ := Option.bind_eq_some_iff.mp h
  obtain ⟨D₆, h₆, h⟩ := Option.bind_eq_some_iff.mp h
  obtain ⟨_, -, h⟩ := Option.bind_eq_some_iff.mp h
  obtain ⟨D₇, h₇, h⟩ := Option.bind_eq_some_iff.mp h
  obtain ⟨w, hw, h⟩ := Option.bind_eq_some_iff.mp h
  obtain ⟨D₈, h₈, h⟩ := Option.bind_eq_some_iff.mp h
  obtain ⟨D₉, h₉, h⟩ := Option.bind_eq_some_iff.mp h
  obtain rfl := Option.some.inj h
  have t₃ : D₃.tempp = some D.fresh :=
    ((modify_meta h₃).2.1.trans (modify_meta h₂).2.1).trans (modify_meta h₁).2.1
  have t₇ : D₇.tempp = some D.fresh :=
    (((modify_meta h₇).2.1.trans (modify_meta h₆).2.1).trans (modify_meta h₅).2.1).trans ((modify_meta h₄).2.1.trans t₃)
  have t₈ : D₈.tempp = some D.fresh := (modify_meta h₈).2.1.trans t₇
  rw [t₃] at h₄
  rw [t₇] at hw
  rw [t₈] at h₉
  have p₃ : D₃.prev = Function.update D.prev D.fresh (some none) := by
    rw [prev_setNext h₃, prev_setNext h₂, prev_setNext h₁, prev_newNode]
  have hu₃ : D₃.prev a = some u := hu
  have hv₃ : D₃.prev b = some v := by
    have hv₅ : D₅.prev b = some v := hv
    rwa [prev_setNext h₅, prev_setPrev h₄, Function.update_of_ne hb] at hv₅
  have hwu : w = u := by
    have hw₇ : D₇.prev D.fresh = some w := hw
    rw [prev_setNext h₇, prev_setPrev h₆, Function.update_of_ne ha.symm, prev_setNext h₅, prev_setPrev h₄,
      Function.update_self] at hw₇
    exact (Option.some.inj hw₇).symm
  show D₉.prev x = _
  rw [prev_free h₉, prev_setPrev h₈, prev_setNext h₇, prev_setPrev h₆, prev_setNext h₅, prev_setPrev h₄, hwu,
    UpkList.update_exchange hu₃ hv₃, Function.update_of_ne hx, Function.comp_apply, p₃,
    Function.update_of_ne (UpkList.swap_ne ha hb hx)]

variable [Inhabited α]

/-- The node behind one that is not the last still points back to it. -/
theorem not_represents_of_not_last (h : Inv D l) (ha : a ∈ l) (hb : b ∈ l) (hab : a ≠ b) {c : Addr}
    (hc : c = a ∨ c = b) (hlast : l.getLast? ≠ some c) (h' : D.swap (some a) (some b) = some D') :
    ¬ Represents D' (l.map (Equiv.swap a b)) := by
  intro hrep
  have hfresh {x : Addr} (hx : x ∈ l) : x ≠ D.fresh := ne_of_mem_of_not_mem hx h.forth.fresh_notMem
  have hcl : c ∈ l := by
    rcases hc with rfl | rfl
    · exact ha
    · exact hb
  obtain ⟨l₁, l₂, rfl⟩ := List.append_of_mem hcl
  cases l₂ with
  | nil => exact hlast List.getLast?_concat
  | cons d l₂ =>
    have hback : D.prev d = some (some c) := h.represents.prev l₁ c d l₂ rfl
    have hback' : D'.prev (Equiv.swap a b d) = some (some (Equiv.swap a b c)) :=
      hrep.prev (l₁.map (Equiv.swap a b)) _ _ (l₂.map (Equiv.swap a b)) (by simp)
    have hd : Equiv.swap a b d ∈ l₁ ++ c :: d :: l₂ := (UpkList.swap_mem ha hb).mpr (by simp)
    rw [prev_swap h' (hfresh ha) (hfresh hb) (hfresh hd), Equiv.swap_apply_self, hback] at hback'
    have hfix : c = Equiv.swap a b c := Option.some.inj (Option.some.inj hback')
    rcases hc with rfl | rfl
    · rw [Equiv.swap_apply_left] at hfix
      exact hab hfix
    · rw [Equiv.swap_apply_right] at hfix
      exact hab hfix.symm

/-- **`UPKDLIST_SWAP` exchanges no two nodes.** -/
theorem not_represents_swap (h : Inv D l) (ha : a ∈ l) (hb : b ∈ l) (hab : a ≠ b) :
    ¬ ∃ D', D.swap (some a) (some b) = some D' ∧ Represents D' (l.map (Equiv.swap a b)) := by
  rintro ⟨D', h', hrep⟩
  by_cases hlast : l.getLast? = some a
  · have hlast' : l.getLast? ≠ some b := fun hb' => hab (Option.some.inj (hlast.symm.trans hb'))
    exact not_represents_of_not_last h ha hb hab (.inr rfl) hlast' h' hrep
  · exact not_represents_of_not_last h ha hb hab (.inl rfl) hlast h' hrep

/-- **Exchanging two nodes.** `UPKLIST_SWAP`, given the predecessors, exchanges two nodes of a list if and only if neither
of them is the first or the last one. `UPKDLIST_SWAP` does so in no list. -/
theorem swap_transposes_iff :
    (∀ (L : UpkList α) (l : List Addr) (a b : Addr), L.Inv l → a ∈ l → b ∈ l → a ≠ b →
      ((∃ L', L.swap (some a) (UpkList.predecessor l a) (some b) (UpkList.predecessor l b) = some L' ∧
          L'.Rep (l.map (Equiv.swap a b))) ↔
        (l.head? ≠ some a ∧ l.head? ≠ some b) ∧ l.getLast? ≠ some a ∧ l.getLast? ≠ some b)) ∧
      ∀ (D : UpkDList α) (l : List Addr) (a b : Addr), D.Inv l → a ∈ l → b ∈ l → a ≠ b →
        ¬ ∃ D', D.swap (some a) (some b) = some D' ∧ D'.Represents (l.map (Equiv.swap a b)) :=
  ⟨fun _ _ _ _ h ha hb hab => UpkList.swap_rep_iff h ha hb hab,
    fun _ _ _ _ h ha hb hab => not_represents_swap h ha hb hab⟩

theorem exists_five : (∃ L : UpkList Unit, L.Inv [0, 1, 2, 3, 4]) ∧ ∃ D : UpkDList Unit, D.Inv [0, 1, 2, 3, 4] := by
  constructor
  · obtain ⟨L₁, h₁, i₁⟩ := UpkList.append_inv (UpkList.init_inv (α := Unit)) rfl (by decide)
    obtain rfl := Option.some.inj h₁
    obtain ⟨L₂, h₂, i₂⟩ := UpkList.append_inv i₁ rfl (by decide)
    obtain rfl := Option.some.inj h₂
    obtain ⟨L₃, h₃, i₃⟩ := UpkList.append_inv i₂ rfl (by decide)
    obtain rfl := Option.some.inj h₃
    obtain ⟨L₄, h₄, i₄⟩ := UpkList.append_inv i₃ rfl (by decide)
    obtain rfl := Option.some.inj h₄
    obtain ⟨L₅, -, i₅⟩ := UpkList.append_inv i₄ rfl (by decide)
    exact ⟨L₅, i₅⟩
  · obtain ⟨D₁, h₁, i₁⟩ := append_inv (init_inv (α := Unit)) rfl (by decide)
    obtain rfl := Option.some.inj h₁
    obtain ⟨D₂, h₂, i₂⟩ := append_inv i₁ rfl (by decide)
    obtain rfl := Option.some.inj h₂
    obtain ⟨D₃, h₃, i₃⟩ := append_inv i₂ rfl (by decide)
    obtain rfl := Option.some.inj h₃
    obtain ⟨D₄, h₄, i₄⟩ := append_inv i₃ rfl (by decide)
    obtain rfl := Option.some.inj h₄
    obtain ⟨D₅, -, i₅⟩ := append_inv i₄ rfl (by decide)
    exact ⟨D₅, i₅⟩

/-- The second and the fourth of five nodes are exchanged in a `UPKLIST`, and not in a `UPKDLIST`. -/
theorem swap_transposes_five : ∃ (L : UpkList Unit) (D : UpkDList Unit),
    L.Inv [0, 1, 2, 3, 4] ∧ D.Inv [0, 1, 2, 3, 4] ∧
      (∃ L', L.swap (some 1) (some 0) (some 3) (some 2) = some L' ∧ L'.Rep [0, 3, 2, 1, 4]) ∧
      ¬ ∃ D', D.swap (some 1) (some 3) = some D' ∧ D'.Represents [0, 3, 2, 1, 4] := by
  obtain ⟨⟨L, hL⟩, D, hD⟩ := exists_five
  have hlist := swap_transposes_iff.1 L _ 1 3 hL (by decide) (by decide) (by decide)
  have hdlist := swap_transposes_iff.2 D _ 1 3 hD (by decide) (by decide) (by decide)
  exact ⟨L, D, hL, hD, hlist.mpr (by decide), hdlist⟩

/-- Neither the last two of five nodes are exchanged in a `UPKLIST`, nor the second and the fourth in a `UPKDLIST`. -/
theorem swap_not_transposes : (∃ L : UpkList Unit, L.Inv [0, 1, 2, 3, 4] ∧
      ¬ ∃ L', L.swap (some 3) (some 2) (some 4) (some 3) = some L' ∧ L'.Rep [0, 1, 2, 4, 3]) ∧
    ∃ D : UpkDList Unit, D.Inv [0, 1, 2, 3, 4] ∧
      ¬ ∃ D', D.swap (some 1) (some 3) = some D' ∧ D'.Represents [0, 3, 2, 1, 4] := by
  obtain ⟨⟨L, hL⟩, D, hD⟩ := exists_five
  have hlist := UpkList.swap_rep_iff hL (a := 3) (b := 4) (by decide) (by decide) (by decide)
  exact ⟨⟨L, hL, hlist.not.mpr (by decide)⟩, D, hD, not_represents_swap hD (by decide) (by decide) (by decide)⟩

end Upkeeper.UpkDList
