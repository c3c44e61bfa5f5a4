import Mathlib.Data.List.Basic
/-!
# Partial state machines

A machine takes inputs one after another; `step s i = none` is a fault. `run` folds the step over the inputs.
An abstract machine follows it: `abs s i` is what the input `i`, taken in the concrete state `s`, does to the
abstract state.

`Tracks R` says that the run never faults and that every state it reaches is related by `R` to the abstract
state. `Guarded G` says that every step of the run meets the condition `G` on the state before it. When some
strengthening `Inv` of `R` is kept by exactly the guarded steps, the two are the same (`tracks_iff_guarded`).
-/

namespace Machine

variable {σ τ ι : Type*} (step : σ → ι → Option σ)

/-- Take the inputs one after another. -/
def run : σ → List ι → Option σ
  | s, [] => some s
  | s, i :: is => step s i >>= fun s' => run s' is

/-- The run never faults, and every state it reaches is related to the abstract one. -/
def Tracks (abs : σ → ι → τ → τ) (R : σ → τ → Prop) : σ → τ → List ι → Prop
  | s, t, [] => R s t
  | s, t, i :: is => R s t ∧ ∃ s', step s i = some s' ∧ Tracks abs R s' (abs s i t) is

/-- The run never faults, and every state it reaches meets the condition. -/
def Safe (I : σ → Prop) : σ → List ι → Prop
  | s, [] => I s
  | s, i :: is => I s ∧ ∃ s', step s i = some s' ∧ Safe I s' is

/-- Every step of the run is taken in a state that meets the condition. -/
def Guarded (G : σ → ι → Prop) : σ → List ι → Prop
  | _, [] => True
  | s, i :: is => G s i ∧ ∀ s', step s i = some s' → Guarded G s' is

theorem guarded_cons_none {G : σ → ι → Prop} {s : σ} {i : ι} {is : List ι} (h : step s i = none) :
    Guarded step G s (i :: is) ↔ G s i := and_iff_left fun s' hs' => by simp [h] at hs'

theorem guarded_cons_some {G : σ → ι → Prop} {s s' : σ} {i : ι} {is : List ι} (h : step s i = some s') :
    Guarded step G s (i :: is) ↔ G s i ∧ Guarded step G s' is :=
  and_congr_right fun _ => ⟨fun hG => hG s' h, fun hG _ hs => Option.some.inj (h.symm.trans hs) ▸ hG⟩

instance decidableGuarded {G : σ → ι → Prop} [∀ s i, Decidable (G s i)] :
    (s : σ) → (is : List ι) → Decidable (Guarded step G s is)
  | _, [] => isTrue trivial
  | s, i :: is =>
    match h : step s i with
    | none => decidable_of_iff _ (guarded_cons_none step h).symm
    | some s' =>
      have : Decidable (Guarded step G s' is) := decidableGuarded s' is
      decidable_of_iff _ (guarded_cons_some step h).symm

/-- Every state that the run reaches meets the condition. -/
def Always (I : σ → Prop) : σ → List ι → Prop
  | s, [] => I s
  | s, i :: is => I s ∧ ∀ s', step s i = some s' → Always I s' is

variable {step} {abs : σ → ι → τ → τ} {R Inv : σ → τ → Prop} {G : σ → ι → Prop}
  {s s' : σ} {t : τ} {i : ι} {is : List ι}

@[simp] theorem run_nil : run step s [] = some s := rfl

@[simp] theorem run_cons : run step s (i :: is) = step s i >>= fun s' => run step s' is := rfl

theorem run_append (is js : List ι) : run step s (is ++ js) = run step s is >>= fun s' => run step s' js := by
  induction is generalizing s with
  | nil => rfl
  | cons i is ih =>
    rw [List.cons_append, run_cons, run_cons, bind_assoc]
    congr 1
    funext s'
    exact ih

theorem run_concat (is : List ι) (i : ι) : run step s (is ++ [i]) = run step s is >>= fun s' => step s' i := by
  rw [run_append]
  congr 1
  funext s'
  exact bind_pure _

theorem Guarded.append {js : List ι} (hG : Guarded step G s is) (hrun : run step s is = some s')
    (hjs : Guarded step G s' js) : Guarded step G s (is ++ js) := by
  induction is generalizing s with
  | nil =>
    obtain rfl := Option.some.inj hrun
    exact hjs
  | cons j is ih =>
    refine ⟨hG.1, fun s₁ hs₁ => ih (hG.2 s₁ hs₁) ?_⟩
    rwa [run_cons, hs₁] at hrun

theorem Guarded.concat (hG : Guarded step G s is) (hrun : run step s is = some s') (hi : G s' i) :
    Guarded step G s (is ++ [i]) := hG.append hrun ⟨hi, fun _ _ => trivial⟩

theorem Tracks.here (h : Tracks step abs R s t is) : R s t := by
  cases is with
  | nil => exact h
  | cons i is => exact h.1

theorem Guarded.and {H : σ → ι → Prop} (hG : Guarded step G s is) (hH : Guarded step H s is) :
    Guarded step (fun s i => G s i ∧ H s i) s is := by
  induction is generalizing s with
  | nil => trivial
  | cons i is ih => exact ⟨⟨hG.1, hH.1⟩, fun s' hs' => ih (hG.2 s' hs') (hH.2 s' hs')⟩

theorem Guarded.imp {H : σ → ι → Prop} (himp : ∀ s i, G s i → H s i) (hG : Guarded step G s is) : Guarded step H s is := by
  induction is generalizing s with
  | nil => trivial
  | cons i is ih => exact ⟨himp s i hG.1, fun s' hs' => ih (hG.2 s' hs')⟩

theorem guarded_true (s : σ) (is : List ι) : Guarded step (fun _ _ => True) s is := by
  induction is generalizing s with
  | nil => trivial
  | cons i is ih => exact ⟨trivial, fun s' _ => ih s'⟩

theorem guarded_congr {H : σ → ι → Prop} (h : ∀ s i, G s i ↔ H s i) : Guarded step G s is ↔ Guarded step H s is := by
  induction is generalizing s with
  | nil => exact Iff.rfl
  | cons i is ih => exact and_congr (h s i) (forall₂_congr fun s' _ => ih)

theorem guarded_iff_of_inv {J : σ → Prop} {H : σ → ι → Prop} (hiff : ∀ s i, J s → (G s i ↔ H s i))
    (hstep : ∀ s i s', J s → H s i → step s i = some s' → J s') (h : J s) :
    Guarded step G s is ↔ Guarded step H s is := by
  induction is generalizing s with
  | nil => exact Iff.rfl
  | cons i is ih =>
    constructor
    · rintro ⟨hG, hrest⟩
      have hH := (hiff s i h).mp hG
      exact ⟨hH, fun s' hs' => (ih (hstep s i s' h hH hs')).mp (hrest s' hs')⟩
    · rintro ⟨hH, hrest⟩
      exact ⟨(hiff s i h).mpr hH, fun s' hs' => (ih (hstep s i s' h hH hs')).mpr (hrest s' hs')⟩

theorem Guarded.mono {J : σ → Prop} {H : σ → ι → Prop} (hstep : ∀ s i s', J s → G s i → step s i = some s' → J s')
    (himp : ∀ s i, J s → G s i → H s i) (h : J s) (hG : Guarded step G s is) : Guarded step H s is := by
  induction is generalizing s with
  | nil => trivial
  | cons i is ih => exact ⟨himp s i h hG.1, fun s' hs' => ih (hstep s i s' h hG.1 hs') (hG.2 s' hs')⟩

/-- **Step lemma to run lemma.** A guarded run keeps an invariant that every guarded step keeps. -/
theorem tracks_of_guarded (hsuf : ∀ s t i, Inv s t → G s i → ∃ s', step s i = some s' ∧ Inv s' (abs s i t))
    (h : Inv s t) (hG : Guarded step G s is) : Tracks step abs Inv s t is := by
  induction is generalizing s t with
  | nil => exact h
  | cons i is ih =>
    obtain ⟨s', hs', hInv⟩ := hsuf s t i h hG.1
    exact ⟨h, s', hs', ih hInv (hG.2 s' hs')⟩

/-- **Step lemma to run lemma**, for a property of the states. -/
theorem always_of_guarded {I J : σ → Prop} (hI : ∀ s, J s → I s)
    (hstep : ∀ s i s', J s → G s i → step s i = some s' → J s') (h : J s) (hG : Guarded step G s is) :
    Always step I s is := by
  induction is generalizing s with
  | nil => exact hI s h
  | cons i is ih => exact ⟨hI s h, fun s' hs' => ih (hstep s i s' h hG.1 hs') (hG.2 s' hs')⟩

theorem Always.run {I : σ → Prop} (h : Always step I s is) (hrun : Machine.run step s is = some s') : I s' := by
  induction is generalizing s with
  | nil =>
    obtain rfl := Option.some.inj hrun
    exact h
  | cons i is ih =>
    obtain ⟨s₁, hs₁, hrun⟩ := Option.bind_eq_some_iff.mp hrun
    exact ih (h.2 s₁ hs₁) hrun

/-- **Step lemma to run lemma**, for steps that do not fault. -/
theorem safe_of_guarded {I J : σ → Prop} (hI : ∀ s, J s → I s)
    (hstep : ∀ s i, J s → G s i → ∃ s', step s i = some s' ∧ J s') (h : J s) (hG : Guarded step G s is) :
    Safe step I s is := by
  induction is generalizing s with
  | nil => exact hI s h
  | cons i is ih =>
    obtain ⟨s', hs', hJ⟩ := hstep s i h hG.1
    exact ⟨hI s h, s', hs', ih hJ (hG.2 s' hs')⟩

theorem safe_iff_guarded {I : σ → Prop} (hnec : ∀ s i s', I s → step s i = some s' → I s' → G s i)
    (hsuf : ∀ s i, I s → G s i → ∃ s', step s i = some s' ∧ I s') (h : I s) : Safe step I s is ↔ Guarded step G s is := by
  constructor
  · intro hsafe
    induction is generalizing s with
    | nil => trivial
    | cons i is ih =>
      obtain ⟨-, s', hs', hrest⟩ := hsafe
      have hI : I s' := by
        cases is with
        | nil => exact hrest
        | cons i is => exact hrest.1
      refine ⟨hnec s i s' h hs' hI, fun s'' hs'' => ?_⟩
      obtain rfl : s' = s'' := Option.some.inj (hs'.symm.trans hs'')
      exact ih hI hrest
  · exact safe_of_guarded (fun _ h => h) hsuf h

theorem Safe.run {I : σ → Prop} (h : Safe step I s is) : ∃ s', Machine.run step s is = some s' ∧ I s' := by
  induction is generalizing s with
  | nil => exact ⟨s, rfl, h⟩
  | cons i is ih =>
    obtain ⟨-, s', hs', h⟩ := h
    obtain ⟨s'', hrun, hI⟩ := ih h
    exact ⟨s'', by simp [hs', hrun], hI⟩

theorem Tracks.run (h : Tracks step abs R s t is) (hrun : Machine.run step s is = some s') : ∃ t', R s' t' := by
  induction is generalizing s t with
  | nil =>
    obtain rfl := Option.some.inj hrun
    exact ⟨t, h⟩
  | cons i is ih =>
    obtain ⟨-, s₁, hs₁, h⟩ := h
    exact ih h (by rwa [run_cons, hs₁] at hrun)

theorem Tracks.mono (hR : ∀ s t, Inv s t → R s t) (h : Tracks step abs Inv s t is) :
    Tracks step abs R s t is := by
  induction is generalizing s t with
  | nil => exact hR s t h
  | cons i is ih =>
    obtain ⟨hI, s', hs', h⟩ := h
    exact ⟨hR s t hI, s', hs', ih h⟩

/-- A run is tracked exactly when all its steps are guarded, if the guard is what a step needs to keep the
relation. -/
theorem tracks_iff_guarded (hR : ∀ s t, Inv s t → R s t)
    (hnec : ∀ s t i s', Inv s t → step s i = some s' → R s' (abs s i t) → G s i)
    (hsuf : ∀ s t i, Inv s t → G s i → ∃ s', step s i = some s' ∧ Inv s' (abs s i t))
    (h : Inv s t) : Tracks step abs R s t is ↔ Guarded step G s is := by
  constructor
  · intro htr
    induction is generalizing s t with
    | nil => trivial
    | cons i is ih =>
      obtain ⟨-, s', hs', htr⟩ := htr
      have hG := hnec s t i s' h hs' htr.here
      obtain ⟨s'', hs'', hInv⟩ := hsuf s t i h hG
      obtain rfl : s' = s'' := Option.some.inj (hs'.symm.trans hs'')
      refine ⟨hG, fun s'' hs'' => ?_⟩
      obtain rfl : s' = s'' := Option.some.inj (hs'.symm.trans hs'')
      exact ih hInv htr
  · intro hG
    exact (tracks_of_guarded hsuf h hG).mono hR

end Machine
