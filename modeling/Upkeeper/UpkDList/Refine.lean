import Upkeeper.UpkDList.Basic
import Upkeeper.UpkList.Runs
/-!
# A `UPKDLIST` without its `prev` pointers

Without the `prev` pointers a list is a `UPKLIST` (`toUpkList`), and the macros that insert and remove at the current
node do to it what the `UPKLIST` macros of the same names do (`Forgets`). So what is known of these holds of the
`next` pointers here, and what is left is where the `prev` pointers lead.
-/

namespace Upkeeper

/-- A cell without its `prev` pointer -/
def DCell.toCell {α : Type} (c : DCell α) : Cell α := ⟨c.next, c.val⟩

namespace UpkDList

variable {α : Type}

/-! ### Without the `prev` pointers -/

/-- The list without the `prev` pointers -/
def toUpkList (D : UpkDList α) : UpkList α where
  heap a := (D.heap a).map DCell.toCell
  fresh := D.fresh
  head := D.head
  tail := D.tail
  prevp := D.prevp
  nextp := D.nextp
  tempp := D.tempp
  thisp := D.thisp
  count := D.count

/-- Without the `prev` pointers, the result of `x` is that of `y`. -/
def Forgets (x : Option (UpkDList α)) (y : Option (UpkList α)) : Prop := x.map toUpkList = y

variable {D D' : UpkDList α} {p q : Option Addr} {a x : Addr}

theorem toUpkList_next : D.toUpkList.next = D.next := by
  funext a
  show ((D.heap a).map DCell.toCell).map Cell.next = (D.heap a).map DCell.next
  rw [Option.map_map]
  rfl

theorem map_toCell_update (f : Addr → Option (DCell α)) (a : Addr) (c : Option (DCell α)) :
    (fun x => (Function.update f a c x).map DCell.toCell)
      = Function.update (fun x => (f x).map DCell.toCell) a (c.map DCell.toCell) := by
  funext x
  by_cases h : x = a
  · subst h
    simp
  · simp [h]

theorem Forgets.bind {x : Option (UpkDList α)} {y : Option (UpkList α)} {f : UpkDList α → Option (UpkDList α)}
    {g : UpkList α → Option (UpkList α)} (h : Forgets x y) (hf : ∀ D, x = some D → Forgets (f D) (g D.toUpkList)) :
    Forgets (x >>= f) (y >>= g) := by
  cases x with
  | none =>
    subst h
    rfl
  | some D =>
    subst h
    exact hf D rfl

theorem Forgets.bind_silent {x : Option (UpkDList α)} {L : UpkList α} {f : UpkDList α → Option (UpkDList α)}
    {y : Option (UpkList α)} (h : Forgets x (some L)) (hf : ∀ D, x = some D → D.toUpkList = L → Forgets (f D) y) :
    Forgets (x >>= f) y := by
  obtain ⟨D, hD, hL⟩ := Option.map_eq_some_iff.mp h
  subst hD
  exact hf D rfl hL

theorem Forgets.exists_eq {x : Option (UpkDList α)} {L : UpkList α} (h : Forgets x (some L)) :
    ∃ D, x = some D ∧ D.toUpkList = L := Option.map_eq_some_iff.mp h

theorem Forgets.eq_some {y : Option (UpkList α)} (h : Forgets (some D) y) : y = some D.toUpkList := h.symm

theorem modify_eq_some {f : DCell α → DCell α} (h : D.modify p f = some D') :
    ∃ a c, p = some a ∧ D.heap a = some c ∧ D' = { D with heap := Function.update D.heap a (some (f c)) } := by
  obtain ⟨a, ha, h⟩ := Option.bind_eq_some_iff.mp h
  obtain ⟨c, hc, h⟩ := Option.bind_eq_some_iff.mp h
  exact ⟨a, c, ha, hc, (Option.some.inj h).symm⟩

theorem modify_isSome {f : DCell α → DCell α} (h : D.modify p f = some D') :
    (D'.heap x).isSome = (D.heap x).isSome := by
  obtain ⟨a, c, -, hc, rfl⟩ := modify_eq_some h
  by_cases hx : x = a
  · subst hx
    simp [hc]
  · simp [hx]

theorem setNext_forgets (D : UpkDList α) (p q : Option Addr) : Forgets (D.setNext p q) (D.toUpkList.setNext p q) := by
  cases p with
  | none => rfl
  | some a =>
    unfold Forgets setNext modify UpkList.setNext
    cases hc : D.heap a with
    | none => simp [toUpkList, hc]
    | some c =>
      simp only [toUpkList, hc, Option.bind_eq_bind, Option.bind_some, Option.map_some, map_toCell_update]
      rfl

theorem setPrev_forgets (ha : (D.heap a).isSome) (q : Option Addr) :
    Forgets (D.setPrev (some a) q) (some D.toUpkList) := by
  obtain ⟨c, hc⟩ := Option.isSome_iff_exists.mp ha
  have hsame : Function.update (fun x => (D.heap x).map DCell.toCell) a (some c.toCell)
      = fun x => (D.heap x).map DCell.toCell := by
    rw [Function.update_eq_self_iff, hc]
    rfl
  unfold Forgets setPrev modify
  simp only [hc, Option.bind_eq_bind, Option.bind_some, Option.map_some, toUpkList, map_toCell_update]
  exact congrArg _ (by rw [show DCell.toCell { c with prev := q } = c.toCell from rfl, hsame])

theorem free_forgets (D : UpkDList α) (p : Option Addr) : Forgets (D.free p) (D.toUpkList.free p) := by
  cases p with
  | none => rfl
  | some a =>
    unfold Forgets free UpkList.free
    cases hc : D.heap a with
    | none => simp [toUpkList, hc]
    | some c => simp [toUpkList, hc, map_toCell_update]

theorem newNode_toUpkList [Inhabited α] (D : UpkDList α) : D.newNode.toUpkList = D.toUpkList.newNode := by
  simp only [newNode, UpkList.newNode, toUpkList, map_toCell_update]
  rfl

theorem newNode_isSome [Inhabited α] (h : (D.heap x).isSome) : (D.newNode.heap x).isSome := by
  by_cases hx : x = D.fresh
  · subst hx
    simp [newNode]
  · simpa [newNode, hx] using h

/-! ### The `prev` pointers -/

theorem prev_update {c : Option (DCell α)} (h : D'.heap = Function.update D.heap a c) :
    D'.prev = Function.update D.prev a (c.map DCell.prev) := by
  funext x
  unfold prev
  rw [h]
  by_cases hx : x = a
  · rw [hx, Function.update_self, Function.update_self]
  · rw [Function.update_of_ne hx, Function.update_of_ne hx]

theorem prev_setNext (h : D.setNext p q = some D') : D'.prev = D.prev := by
  obtain ⟨a, c, -, hc, rfl⟩ := modify_eq_some h
  rw [prev_update (D := D) rfl, Function.update_eq_self_iff, prev, hc]
  rfl

theorem prev_setPrev (h : D.setPrev (some a) q = some D') : D'.prev = Function.update D.prev a (some q) := by
  obtain ⟨b, c, hb, hc, rfl⟩ := modify_eq_some h
  obtain rfl := Option.some.inj hb
  exact prev_update (c := some { c with prev := q }) rfl

theorem prev_free (h : D.free (some a) = some D') : D'.prev = Function.update D.prev a none := by
  obtain ⟨c, hc, h⟩ := Option.bind_eq_some_iff.mp h
  obtain rfl := Option.some.inj h
  exact prev_update (c := none) rfl

theorem prev_newNode [Inhabited α] (D : UpkDList α) :
    D.newNode.prev = Function.update D.prev D.fresh (some none) :=
  prev_update (c := some ⟨none, none, default⟩) rfl

/-! ### The macros -/

theorem modify_meta {f : DCell α → DCell α} (h : D.modify p f = some D') :
    D'.fresh = D.fresh ∧ D'.tempp = D.tempp ∧ D'.thisp = D.thisp ∧ D'.prevp = D.prevp ∧ D'.nextp = D.nextp := by
  obtain ⟨a, c, -, -, rfl⟩ := modify_eq_some h
  exact ⟨rfl, rfl, rfl, rfl, rfl⟩

theorem linkAfterThis_forgets (ha : D.tempp = some a) (hlive : (D.heap a).isSome) :
    Forgets D.linkAfterThis (if D.thisp = none then some D.toUpkList else D.toUpkList.setNext D.thisp D.tempp) := by
  unfold linkAfterThis
  by_cases hthis : D.thisp = none
  · rw [if_pos hthis, if_pos hthis]
    rfl
  · rw [if_neg hthis, if_neg hthis]
    rw [← bind_pure (D.toUpkList.setNext _ _)]
    refine (setNext_forgets D D.thisp D.tempp).bind fun D₁ h₁ => ?_
    rw [(modify_meta h₁).2.1, ha]
    exact setPrev_forgets ((modify_isSome h₁).trans hlive) _

theorem linkPrevp_forgets (D : UpkDList α) (q : Option Addr) : Forgets (D.linkPrevp q)
    (if D.prevp = none then some { D.toUpkList with head := q } else D.toUpkList.setNext D.prevp q) := by
  unfold linkPrevp
  by_cases hprev : D.prevp = none
  · rw [if_pos hprev, if_pos hprev]
    rfl
  · rw [if_neg hprev, if_neg hprev]
    exact setNext_forgets D _ _

theorem linkNextp_forgets (hlive : ∀ a ∈ D.nextp, (D.heap a).isSome) (q : Option Addr) :
    Forgets (D.linkNextp q) (some { D.toUpkList with tail := if D.nextp = none then q else D.tail }) := by
  unfold linkNextp
  by_cases hnext : D.nextp = none
  · rw [if_pos hnext, if_pos hnext]
    rfl
  · rw [if_neg hnext, if_neg hnext]
    obtain ⟨a, ha⟩ := Option.ne_none_iff_exists'.mp hnext
    rw [ha]
    exact setPrev_forgets (hlive a ha) q

theorem linkBeforeThis_forgets (ha : D.tempp = some a) (hlive : (D.heap a).isSome)
    (hthis : ∀ b ∈ D.thisp, (D.heap b).isSome) : Forgets D.linkBeforeThis (some D.toUpkList) := by
  unfold linkBeforeThis
  cases hb : D.thisp with
  | none => rfl
  | some b =>
    obtain ⟨c, hc⟩ := Option.isSome_iff_exists.mp (hthis b hb)
    have hprev : D.prevNode = some c.prev := by
      unfold prevNode prevOf prev
      rw [hb]
      dsimp only
      rw [hc]
      rfl
    rw [if_neg (Option.some_ne_none b), hprev, Option.bind_eq_bind, Option.bind_some, ha]
    refine (setPrev_forgets hlive c.prev).bind_silent fun D₁ h₁ hL => ?_
    rw [(modify_meta h₁).2.2.1, hb, ← hL]
    exact setPrev_forgets ((modify_isSome h₁).trans (hthis b hb)) _

section Link

variable [Inhabited α]

/-- The new node is linked before `tail` and `head` are set. -/
theorem appendThis_order (L : UpkList α) : L.appendThis = (L.newNode.setNext (some L.fresh) L.nextp >>= fun L =>
    (if L.thisp = none then some L else L.setNext L.thisp L.tempp) >>= fun L =>
      some { L with
        tail := if L.nextp = none then L.tempp else L.tail
        head := if L.prevp = none ∧ L.count = 0 then L.tempp else L.head
        count := L.count + 1
        thisp := L.tempp }) := by
  unfold UpkList.appendThis
  refine Option.bind_congr fun L₁ _ => ?_
  cases hthis : L₁.thisp with
  | none => simp
  | some a => cases hc : L₁.heap a <;> simp [hthis, UpkList.setNext, hc]

theorem appendThis_forgets (D : UpkDList α) : Forgets D.appendThis D.toUpkList.appendThis := by
  rw [appendThis_order, ← newNode_toUpkList]
  unfold appendThis
  refine (setNext_forgets D.newNode _ _).bind fun D₁ h₁ => ?_
  refine (linkAfterThis_forgets ((modify_meta h₁).2.1) ?_).bind fun D₂ _ => rfl
  rw [modify_isSome h₁]
  simp [newNode]

theorem prependThis_order (L : UpkList α) : L.prependThis = (L.newNode.setNext (some L.fresh) L.thisp >>= fun L =>
    (if L.prevp = none then some { L with tail := if L.nextp = none then L.tempp else L.tail, head := L.tempp }
      else { L with tail := if L.nextp = none then L.tempp else L.tail }.setNext L.prevp L.tempp) >>= fun L =>
      some { L with count := L.count + 1, thisp := L.tempp }) := by
  unfold UpkList.prependThis
  refine Option.bind_congr fun L₁ _ => ?_
  by_cases hprev : L₁.prevp = none
  · simp [hprev]
  · simp [hprev]

theorem prependThis_forgets (hthis : ∀ b ∈ D.thisp, (D.heap b).isSome) :
    Forgets D.prependThis D.toUpkList.prependThis := by
  rw [prependThis_order, ← newNode_toUpkList]
  unfold prependThis
  refine (setNext_forgets D.newNode _ _).bind fun D₁ h₁ => ?_
  obtain ⟨hfresh, htempp, hthisp, -, -⟩ := modify_meta h₁
  refine (linkBeforeThis_forgets htempp ?_ fun b hb => ?_).bind_silent fun D₂ _ hL => ?_
  · rw [modify_isSome h₁]
    simp [newNode]
  · rw [modify_isSome h₁]
    exact newNode_isSome (hthis b (hthisp ▸ hb))
  · rw [← hL]
    exact (linkPrevp_forgets _ _).bind fun D₃ _ => rfl

theorem prepend_forgets (hhead : ∀ b ∈ D.head, (D.heap b).isSome) : Forgets D.prepend D.toUpkList.prepend :=
  prependThis_forgets hhead

end Link

theorem linkPrevp_nextp (h : D.linkPrevp q = some D') :
    D'.nextp = D.nextp ∧ D'.prevp = D.prevp ∧ D'.thisp = D.thisp ∧ D'.prev = D.prev ∧
      ∀ x, (D'.heap x).isSome = (D.heap x).isSome := by
  unfold linkPrevp at h
  split at h
  · obtain rfl := Option.some.inj h
    exact ⟨rfl, rfl, rfl, rfl, fun x => rfl⟩
  · obtain ⟨-, -, hthisp, hprevp, hnextp⟩ := modify_meta h
    exact ⟨hnextp, hprevp, hthisp, prev_setNext h, fun x => modify_isSome h⟩

theorem unlink_order (L : UpkList α) : L.unlink = if L.thisp = none then some L
    else (if L.prevp = none then some { L with head := L.nextp } else L.setNext L.prevp L.nextp) >>= fun L =>
      some { L with tail := if L.nextp = none then L.prevp else L.tail } >>= fun L =>
      L.free L.thisp >>= fun L => some { L with thisp := none, count := L.count - 1 } := by
  unfold UpkList.unlink
  by_cases hthis : L.thisp = none
  · rw [if_pos hthis, if_pos hthis]
  · rw [if_neg hthis, if_neg hthis]
    by_cases hprev : L.prevp = none
    · simp [hprev]
    · simp [hprev]

theorem unlink_forgets (hnext : ∀ b ∈ D.nextp, (D.heap b).isSome) : Forgets D.unlink D.toUpkList.unlink := by
  rw [unlink_order]
  unfold unlink
  by_cases hthis : D.thisp = none
  · have hthis' : D.toUpkList.thisp = none := hthis
    rw [if_pos hthis, if_pos hthis']
    rfl
  · have hthis' : ¬D.toUpkList.thisp = none := hthis
    rw [if_neg hthis, if_neg hthis']
    refine (linkPrevp_forgets D _).bind fun D₁ h₁ => ?_
    obtain ⟨hnextp, -, -, -, hlive⟩ := linkPrevp_nextp h₁
    refine (linkNextp_forgets (fun b hb => ?_) _).bind fun D₂ _ => (free_forgets D₂ _).bind fun D₃ _ => rfl
    rw [hlive]
    exact hnext b (hnextp ▸ hb)

/-! ### Where the `prev` pointers lead -/

theorem prev_linkAfterThis (h : D.linkAfterThis = some D') (ha : D.tempp = some a) (hnew : D.prev a = some none) :
    D'.prev = Function.update D.prev a (some D.thisp) := by
  unfold linkAfterThis at h
  split at h
  · rename_i hthis
    obtain rfl := Option.some.inj h
    rw [hthis, Function.update_eq_self_iff.mpr hnew.symm]
  · obtain ⟨D₁, h₁, h⟩ := Option.bind_eq_some_iff.mp h
    obtain ⟨-, htempp, hthisp, -, -⟩ := modify_meta h₁
    rw [htempp, ha, hthisp] at h
    rw [prev_setPrev h, prev_setNext h₁]

theorem prev_linkBeforeThis {b : Addr} (h : D.linkBeforeThis = some D') (ha : D.tempp = some a) (hb : D.thisp = some b)
    (hp : D.prev b = some p) :
    D'.prev = Function.update (Function.update D.prev a (some p)) b (some (some a)) := by
  have hprev : D.prevNode = some p := by
    rw [prevNode, hb]
    exact hp
  unfold linkBeforeThis at h
  rw [if_neg (hb ▸ Option.some_ne_none b), hprev, Option.bind_eq_bind, Option.bind_some] at h
  obtain ⟨D₁, h₁, h⟩ := Option.bind_eq_some_iff.mp h
  obtain ⟨-, htempp, hthisp, -, -⟩ := modify_meta h₁
  rw [ha] at h₁
  rw [hthisp, hb, htempp, ha] at h
  rw [prev_setPrev h, prev_setPrev h₁]

theorem prev_appendThis [Inhabited α] (h : D.appendThis = some D') :
    D'.prev = Function.update D.prev D.fresh (some D.thisp) := by
  obtain ⟨D₁, h₁, h⟩ := Option.bind_eq_some_iff.mp h
  obtain ⟨D₂, h₂, h⟩ := Option.bind_eq_some_iff.mp h
  obtain rfl := Option.some.inj h
  obtain ⟨-, htempp, hthisp, -, -⟩ := modify_meta h₁
  have hprev := (prev_setNext h₁).trans (prev_newNode D)
  have hlink := prev_linkAfterThis h₂ htempp (by rw [hprev, Function.update_self])
  rw [hprev, Function.update_idem, hthisp] at hlink
  exact hlink

theorem prev_prependThis [Inhabited α] {b : Addr} (h : D.prependThis = some D') (hb : D.thisp = some b)
    (hne : b ≠ D.fresh) (hp : D.prev b = some p) :
    D'.prev = Function.update (Function.update D.prev D.fresh (some p)) b (some (some D.fresh)) := by
  obtain ⟨D₁, h₁, h⟩ := Option.bind_eq_some_iff.mp h
  obtain ⟨D₂, h₂, h⟩ := Option.bind_eq_some_iff.mp h
  obtain ⟨D₃, h₃, h⟩ := Option.bind_eq_some_iff.mp h
  obtain rfl := Option.some.inj h
  obtain ⟨-, htempp, hthisp, -, -⟩ := modify_meta h₁
  have hprev := (prev_setNext h₁).trans (prev_newNode D)
  have hp' : D₁.prev b = some p := by rw [hprev, Function.update_of_ne hne, hp]
  have hlink := prev_linkBeforeThis h₂ htempp (hthisp.trans hb) hp'
  rw [hprev, Function.update_idem] at hlink
  exact (linkPrevp_nextp h₃).2.2.2.1.trans hlink

theorem prev_prependThis_null [Inhabited α] (h : D.prependThis = some D') (hthis : D.thisp = none) :
    D'.prev = Function.update D.prev D.fresh (some none) := by
  obtain ⟨D₁, h₁, h⟩ := Option.bind_eq_some_iff.mp h
  obtain ⟨D₂, h₂, h⟩ := Option.bind_eq_some_iff.mp h
  obtain ⟨D₃, h₃, h⟩ := Option.bind_eq_some_iff.mp h
  obtain rfl := Option.some.inj h
  have hthisp : D₁.thisp = none := (modify_meta h₁).2.2.1.trans hthis
  have hlink : D₁ = D₂ := by
    unfold linkBeforeThis at h₂
    rw [if_pos hthisp] at h₂
    exact Option.some.inj h₂
  subst hlink
  exact (linkPrevp_nextp h₃).2.2.2.1.trans ((prev_setNext h₁).trans (prev_newNode D))

theorem prev_linkNextp (h : D.linkNextp q = some D') :
    D'.thisp = D.thisp ∧ (D.nextp = none → D'.prev = D.prev) ∧
      ∀ n, D.nextp = some n → D'.prev = Function.update D.prev n (some q) := by
  unfold linkNextp at h
  split at h
  · rename_i hnext
    obtain rfl := Option.some.inj h
    refine ⟨rfl, fun _ => rfl, fun n hn => ?_⟩
    rw [hnext] at hn
    cases hn
  · rename_i hnext
    refine ⟨(modify_meta h).2.2.1, fun hn => absurd hn hnext, fun n hn => ?_⟩
    rw [hn] at h
    exact prev_setPrev h

theorem prev_unlink (h : D.unlink = some D') (ha : D.thisp = some a) :
    (D.nextp = none → D'.prev = Function.update D.prev a none) ∧
      ∀ n, D.nextp = some n → D'.prev = Function.update (Function.update D.prev n (some D.prevp)) a none := by
  unfold unlink at h
  rw [if_neg (ha ▸ Option.some_ne_none a)] at h
  obtain ⟨D₁, h₁, h⟩ := Option.bind_eq_some_iff.mp h
  obtain ⟨D₂, h₂, h⟩ := Option.bind_eq_some_iff.mp h
  obtain ⟨D₃, h₃, h⟩ := Option.bind_eq_some_iff.mp h
  obtain rfl := Option.some.inj h
  obtain ⟨hnextp, hprevp, hthisp, hprev, -⟩ := linkPrevp_nextp h₁
  obtain ⟨hthisp', hnone, hsome⟩ := prev_linkNextp h₂
  rw [hthisp', hthisp, ha] at h₃
  have hfree : D₃.prev = Function.update D₂.prev a none := prev_free h₃
  refine ⟨fun hn => ?_, fun n hn => ?_⟩
  · rw [← hprev, ← hnone (hnextp.trans hn)]
    exact hfree
  · rw [← hprev, ← hprevp, ← hsome n (hnextp.trans hn)]
    exact hfree

end UpkDList

end Upkeeper
