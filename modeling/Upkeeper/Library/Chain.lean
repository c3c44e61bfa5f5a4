import Mathlib.Data.List.Basic
import Mathlib.Data.List.Nodup
import Mathlib.Logic.Equiv.Basic
import Mathlib.Logic.Function.Basic
/-!
# Linked chains

A memory of singly linked cells is a function `next`: `next a = none` when `a` is not allocated, and
`next a = some n` when the cell `a` holds the pointer `n` (`n = none` is NULL). `Seg next a l b` says that the
pointers lead from `a` through the cells `l`, in this order, to `b`. A chain that reaches NULL is acyclic
(`Seg.nodup`) and determined by where it starts (`Seg.unique`).
-/

namespace Chain

variable {ι : Type*}

/-- Following `next` from `a` visits exactly the cells `l` and arrives at `b`. -/
def Seg (next : ι → Option (Option ι)) : Option ι → List ι → Option ι → Prop
  | a, [], b => a = b
  | a, x :: l, b => a = some x ∧ ∃ n, next x = some n ∧ Seg next n l b

variable {next next' : ι → Option (Option ι)} {a b c : Option ι} {p q x y : ι} {l l₁ l₂ : List ι}

@[simp] theorem seg_nil : Seg next a [] b ↔ a = b := Iff.rfl

@[simp] theorem seg_cons :
    Seg next a (x :: l) b ↔ a = some x ∧ ∃ n, next x = some n ∧ Seg next n l b := Iff.rfl

/-- The cells on the way from `a`, at most so many of them -/
def walk (next : ι → Option (Option ι)) : Nat → Option ι → List ι
  | 0, _ => []
  | _, none => []
  | k + 1, some x =>
    match next x with
    | none => []
    | some n => x :: walk next k n

theorem seg_append :
    Seg next a (l₁ ++ l₂) b ↔ ∃ c, Seg next a l₁ c ∧ Seg next c l₂ b := by
  induction l₁ generalizing a with
  | nil => simp
  | cons x l₁ ih =>
    simp only [List.cons_append, seg_cons, ih]
    constructor
    · rintro ⟨rfl, n, hn, c, h₁, h₂⟩
      exact ⟨c, ⟨rfl, n, hn, h₁⟩, h₂⟩
    · rintro ⟨c, ⟨rfl, n, hn, h₁⟩, h₂⟩
      exact ⟨rfl, n, hn, c, h₁, h₂⟩

theorem Seg.congr (h : Seg next a l b) (heq : ∀ x ∈ l, next' x = next x) : Seg next' a l b := by
  induction l generalizing a with
  | nil => exact h
  | cons x l ih =>
    obtain ⟨rfl, n, hn, h⟩ := h
    refine ⟨rfl, n, ?_, ih h fun y hy => heq y (List.mem_cons_of_mem _ hy)⟩
    rw [heq x List.mem_cons_self, hn]

theorem Seg.turn (h : Seg next a (x :: l) a) : ∃ n, next x = some n ∧ Seg next n (l ++ [x]) n := by
  obtain ⟨ha, n, hn, hrest⟩ := h
  exact ⟨n, hn, seg_append.mpr ⟨a, hrest, ha, n, hn, rfl⟩⟩

theorem Seg.head_eq (h : Seg next a (x :: l) b) : a = some x := h.1

theorem Seg.start (h : Seg next a l none) : a = l.head? := by
  cases l with
  | nil => exact h
  | cons x l => exact h.1

theorem Seg.allocated (h : Seg next a l b) (hx : x ∈ l) : ∃ n, next x = some n := by
  induction l generalizing a with
  | nil => cases hx
  | cons y l ih =>
    obtain ⟨-, n, hn, h⟩ := h
    rcases List.mem_cons.mp hx with rfl | hx
    · exact ⟨n, hn⟩
    · exact ih h hx

theorem Seg.walk_eq {k : Nat} (h : Seg next a l none) (hk : l.length ≤ k) : walk next k a = l := by
  induction l generalizing a k with
  | nil =>
    obtain rfl : a = none := h
    cases k <;> rfl
  | cons x l ih =>
    obtain ⟨rfl, n, hn, h⟩ := h
    obtain ⟨k, rfl⟩ := Nat.exists_eq_add_one_of_ne_zero (Nat.ne_of_gt (Nat.lt_of_lt_of_le (Nat.succ_pos _) hk))
    have hrest := ih h (Nat.le_of_succ_le_succ hk)
    unfold walk
    rw [hn]
    exact congrArg (x :: ·) hrest

theorem Seg.unique (h₁ : Seg next a l₁ none) (h₂ : Seg next a l₂ none) : l₁ = l₂ := by
  induction l₁ generalizing a l₂ with
  | nil =>
    cases l₂ with
    | nil => rfl
    | cons y l₂ =>
      obtain rfl : a = none := h₁
      exact absurd h₂.1 (by simp)
  | cons x l₁ ih =>
    obtain ⟨rfl, n, hn, h₁⟩ := h₁
    cases l₂ with
    | nil => exact absurd h₂ (by simp)
    | cons y l₂ =>
      obtain ⟨hxy, m, hm, h₂⟩ := h₂
      obtain rfl : x = y := Option.some.inj hxy
      obtain rfl : n = m := Option.some.inj (hn.symm.trans hm)
      rw [ih h₁ h₂]

theorem Seg.resume (h : Seg next a l b) (h' : Seg next a l₁ none) : ∃ l₂, l₁ = l ++ l₂ ∧ Seg next b l₂ none := by
  induction l generalizing a l₁ with
  | nil =>
    obtain rfl : a = b := h
    exact ⟨l₁, rfl, h'⟩
  | cons x l ih =>
    obtain ⟨rfl, n, hn, h⟩ := h
    cases l₁ with
    | nil => exact absurd h' (by simp)
    | cons y l₁ =>
      obtain ⟨hxy, m, hm, h'⟩ := h'
      obtain rfl : x = y := Option.some.inj hxy
      obtain rfl : n = m := Option.some.inj (hn.symm.trans hm)
      obtain ⟨l₂, rfl, h₂⟩ := ih h h'
      exact ⟨l₂, rfl, h₂⟩

theorem Seg.not_null_of_ring (h : Seg next a l (some x)) (hx : x ∈ l) : ¬ Seg next a l₁ none := by
  intro h'
  obtain ⟨m, m', rfl⟩ := List.append_of_mem hx
  obtain ⟨c, hm, hring⟩ := seg_append.mp h
  obtain rfl : c = some x := hring.1
  obtain ⟨s, -, hs⟩ := hm.resume h'
  obtain ⟨s', rfl, hs'⟩ := hring.resume hs
  have hlen := congrArg List.length (hs.unique hs')
  simp only [List.length_append, List.length_cons] at hlen
  omega

theorem seg_split : Seg next a (l₁ ++ x :: l₂) none ↔
    Seg next a l₁ (some x) ∧ next x = some l₂.head? ∧ Seg next l₂.head? l₂ none := by
  rw [seg_append]
  constructor
  · rintro ⟨c, h₁, rfl, n, hn, h₂⟩
    obtain rfl := h₂.start
    exact ⟨h₁, hn, h₂⟩
  · rintro ⟨h₁, hn, h₂⟩
    exact ⟨some x, h₁, rfl, _, hn, h₂⟩

theorem seg_uncons : Seg next a (x :: l) none ↔ a = some x ∧ next x = some l.head? ∧ Seg next l.head? l none :=
  @seg_split _ _ _ _ [] l

/-- **A chain that reaches NULL passes through no cell twice.** -/
theorem Seg.nodup (h : Seg next a l none) : l.Nodup := by
  induction l generalizing a with
  | nil => exact List.nodup_nil
  | cons x l ih =>
    have htail := h
    obtain ⟨-, n, hn, h'⟩ := h
    refine List.nodup_cons.mpr ⟨fun hx => ?_, ih h'⟩
    -- a second visit of `x` would lead through the rest of the chain again, and a shorter one at that
    obtain ⟨l₁, l₂, rfl⟩ := List.append_of_mem hx
    have hagain : Seg next n l₂ none := by
      obtain ⟨-, hx', h₂⟩ := seg_split.mp h'
      obtain rfl : n = l₂.head? := Option.some.inj (hn.symm.trans hx')
      exact h₂
    have hlen := congrArg List.length (h'.unique hagain)
    simp only [List.length_append, List.length_cons] at hlen
    omega

theorem Seg.next_mem (h : Seg next a l none) (hx : x ∈ l) {n : Option ι} (hn : next x = some n) :
    ∀ y ∈ n, y ∈ l := by
  obtain ⟨l₁, l₂, rfl⟩ := List.append_of_mem hx
  obtain ⟨-, hx', -⟩ := seg_split.mp h
  obtain rfl : n = l₂.head? := Option.some.inj (hn.symm.trans hx')
  intro y hy
  exact List.mem_append_right _ (List.mem_cons_of_mem _ (List.mem_of_mem_head? hy))

theorem Seg.pred (h : Seg next a (l₁ ++ x :: l₂) none) :
    match l₁.getLast? with
    | none => a = some x
    | some p => next p = some (some x) := by
  obtain ⟨h₁, -, -⟩ := seg_split.mp h
  rcases List.eq_nil_or_concat l₁ with rfl | ⟨l, p, rfl⟩
  · exact h₁
  · rw [List.concat_eq_append] at h₁ ⊢
    obtain ⟨c, -, -, n, hn, rfl⟩ := seg_append.mp h₁
    simpa using hn

theorem Seg.pred_unique (h : Seg next a (l₁ ++ x :: l₂) none) {p : ι} (hp : p ∈ l₁ ++ x :: l₂)
    (hpx : next p = some (some x)) : l₁.getLast? = some p := by
  obtain ⟨m₁, m₂, hm⟩ := List.append_of_mem hp
  have hnd := h.nodup
  rw [hm] at h
  obtain ⟨-, hp', h₂⟩ := seg_split.mp h
  obtain hx : m₂.head? = some x := (Option.some.inj (hpx.symm.trans hp')).symm
  cases m₂ with
  | nil => simp at hx
  | cons z m₂ =>
    obtain rfl : z = x := by simpa using hx
    -- the same cell splits the list twice, so the prefixes agree
    have hsplit : l₁ ++ z :: l₂ = (m₁ ++ [p]) ++ z :: m₂ := by simpa using hm
    have hnd' := List.nodup_append.mp hnd
    have h₁ : z ∉ l₁ := fun hz => hnd'.2.2 z hz z List.mem_cons_self rfl
    have h₂ : z ∉ l₂ := (List.nodup_cons.mp hnd'.2.1).1
    have hpre : l₁ = m₁ ++ [p] := ((List.append_cons_inj_of_notMem h₁ h₂).mp hsplit).1
    rw [hpre]
    simp

theorem Seg.pred_eq (h : Seg next a l none) (hx : x ∈ l) (hp : p ∈ l) (hq : q ∈ l) (hpx : next p = some (some x))
    (hqx : next q = some (some x)) : p = q := by
  obtain ⟨l₁, l₂, rfl⟩ := List.append_of_mem hx
  exact Option.some.inj ((h.pred_unique hp hpx).symm.trans (h.pred_unique hq hqx))

theorem Seg.map {κ : Type*} {next' : κ → Option (Option κ)} (σ : ι → κ) (h : Seg next a l b)
    (hσ : ∀ x ∈ l, next' (σ x) = (next x).map (Option.map σ)) : Seg next' (a.map σ) (l.map σ) (b.map σ) := by
  induction l generalizing a with
  | nil => exact congrArg (Option.map σ) h
  | cons x l ih =>
    obtain ⟨rfl, n, hn, h⟩ := h
    refine ⟨rfl, n.map σ, ?_, ih h fun y hy => hσ y (List.mem_cons_of_mem _ hy)⟩
    rw [hσ x List.mem_cons_self, hn]
    rfl

section Update

variable [DecidableEq ι]

theorem Seg.update (h : Seg next a l b) (hx : x ∉ l) (v : Option (Option ι)) :
    Seg (Function.update next x v) a l b :=
  h.congr fun _ hy => Function.update_of_ne (ne_of_mem_of_not_mem hy hx) _ _

theorem Seg.insert_start {t : ι} (h : Seg next a l none) (ht : t ∉ l) :
    Seg (Function.update next t (some a)) (some t) (t :: l) none :=
  ⟨rfl, a, Function.update_self .., h.update ht _⟩

theorem Seg.insert_after {t : ι} (h : Seg next a (l₁ ++ x :: l₂) none) (ht : t ∉ l₁ ++ x :: l₂) :
    Seg (Function.update (Function.update next t (some l₂.head?)) x (some (some t))) a
      (l₁ ++ x :: t :: l₂) none := by
  obtain ⟨h₁, -, h₂⟩ := seg_split.mp h
  have hnd := List.nodup_append.mp h.nodup
  have hx₁ : x ∉ l₁ := fun hx => hnd.2.2 x hx x List.mem_cons_self rfl
  have hx₂ : x ∉ l₂ := (List.nodup_cons.mp hnd.2.1).1
  simp only [List.mem_append, List.mem_cons, not_or] at ht
  refine seg_split.mpr ⟨(h₁.update ht.1 _).update hx₁ _, Function.update_self .., rfl, l₂.head?, ?_, ?_⟩
  · rw [Function.update_of_ne ht.2.1, Function.update_self]
  · exact (h₂.update ht.2.2 _).update hx₂ _

theorem Seg.remove_start (h : Seg next a (x :: l) none) :
    Seg (Function.update next x none) l.head? l none :=
  (seg_uncons.mp h).2.2.update (List.nodup_cons.mp h.nodup).1 _

theorem Seg.remove_after (h : Seg next a (l₁ ++ x :: y :: l₂) none) :
    Seg (Function.update (Function.update next x (some l₂.head?)) y none) a (l₁ ++ x :: l₂) none := by
  obtain ⟨h₁, -, -, n, -, h₂⟩ := seg_split.mp h
  obtain rfl := h₂.start
  have hnd := List.nodup_append.mp h.nodup
  obtain ⟨hx, hnd₂⟩ := List.nodup_cons.mp hnd.2.1
  rw [List.mem_cons, not_or] at hx
  have hx₁ : x ∉ l₁ := fun hx => hnd.2.2 x hx x List.mem_cons_self rfl
  have hy₁ : y ∉ l₁ := fun hy => hnd.2.2 y hy y (by simp) rfl
  have hy₂ : y ∉ l₂ := (List.nodup_cons.mp hnd₂).1
  refine seg_split.mpr ⟨(h₁.update hx₁ _).update hy₁ _, ?_, (h₂.update hx.2 _).update hy₂ _⟩
  rw [Function.update_of_ne hx.1, Function.update_self]

/-- What the cells hold once `p` points to `y` and `q` to `x`, and then `x` and `y` have exchanged what they hold -/
def exchange (next : ι → Option (Option ι)) (x p y q : ι) (c : ι) : Option (Option ι) :=
  Function.update (Function.update next p (some (some y))) q (some (some x)) (Equiv.swap x y c)

/-- **Exchanging two cells** with their predecessors exchanges their places in the chain. -/
theorem Seg.exchange (h : Seg next a l none) (hx : x ∈ l) (hy : y ∈ l) (hp : p ∈ l) (hq : q ∈ l)
    (hpx : next p = some (some x)) (hqy : next q = some (some y)) :
    Seg (exchange next x p y q) (a.map (Equiv.swap x y)) (l.map (Equiv.swap x y)) none := by
  refine h.map (Equiv.swap x y) fun z hz => ?_
  rw [Chain.exchange, Equiv.swap_apply_self]
  by_cases hzq : z = q
  · rw [hzq, Function.update_self, hqy, Option.map_some, Option.map_some, Equiv.swap_apply_right]
  by_cases hzp : z = p
  · rw [Function.update_of_ne hzq, hzp, Function.update_self, hpx, Option.map_some, Option.map_some,
      Equiv.swap_apply_left]
  rw [Function.update_of_ne hzq, Function.update_of_ne hzp]
  obtain ⟨n, hn⟩ := h.allocated hz
  rw [hn, Option.map_some]
  cases n with
  | none => rfl
  | some w =>
    -- nothing else points to `x` or `y`
    have hwx : w ≠ x := by
      rintro rfl
      exact hzp (h.pred_eq hx hz hp hn hpx)
    have hwy : w ≠ y := by
      rintro rfl
      exact hzq (h.pred_eq hy hz hq hn hqy)
    rw [Option.map_some, Equiv.swap_apply_of_ne_of_ne hwx hwy]

end Update

end Chain
