/-!
# Preconditions and postconditions of stateful programs

`Triple P m Q` says that the program `m`, run in a state that meets `P`, returns a value and ends in a state that meet
`Q`. The rules follow the shape of a program: each of them takes the triples of its parts.
-/

namespace Hoare

variable {σ α β : Type}

/-- What `m` returns and where it ends, when it is run where `P` holds -/
def Triple (P : σ → Prop) (m : StateM σ α) (Q : α → σ → Prop) : Prop :=
  ∀ s a s', P s → m s = (a, s') → Q a s'

/-- The program keeps the condition. -/
def Keeps (P : σ → Prop) (m : StateM σ α) : Prop := Triple P m fun _ => P

variable {P P' : σ → Prop} {Q Q' : α → σ → Prop} {R : β → σ → Prop} {m m' : StateM σ α} {f : α → StateM σ β}

theorem Triple.of_run (h : ∀ s, P s → Q (m s).1 (m s).2) : Triple P m Q := by
  intro s a s' hP hrun
  have hQ := h s hP
  rw [hrun] at hQ
  exact hQ

theorem Triple.run {s : σ} (h : Triple P m Q) (hP : P s) : Q (m s).1 (m s).2 := h s _ _ hP rfl

theorem Triple.pure {a : α} (h : ∀ s, P s → Q a s) : Triple P (Pure.pure a) Q := by
  intro s a' s' hP hrun
  obtain ⟨rfl, rfl⟩ := Prod.mk.inj hrun
  exact h _ hP

theorem Triple.bind (hm : Triple P m Q) (hf : ∀ a, Triple (Q a) (f a) R) : Triple P (m >>= f) R := by
  intro s b s'' hP hrun
  exact hf _ _ _ _ (hm s _ _ hP rfl) hrun

theorem Triple.seq {m₁ : StateM σ Unit} {m₂ : StateM σ β} {Q₁ : σ → Prop} (h₁ : Triple P m₁ fun _ => Q₁)
    (h₂ : Triple Q₁ m₂ R) : Triple P (m₁ >>= fun _ => m₂) R := h₁.bind fun _ => h₂

theorem Triple.conseq (hP : ∀ s, P' s → P s) (hQ : ∀ a s, Q a s → Q' a s) (h : Triple P m Q) : Triple P' m Q' :=
  fun s a s' hs hrun => hQ a s' (h s a s' (hP s hs) hrun)

theorem Triple.of_fact {p : Prop} (h : p → Triple P m Q) : Triple (fun s => P s ∧ p) m Q :=
  fun s a s' hs hrun => h hs.2 s a s' hs.1 hrun

theorem Triple.of_exists {γ : Type} {P : γ → σ → Prop} (h : ∀ c, Triple (P c) m Q) : Triple (fun s => ∃ c, P c s) m Q :=
  fun s a s' ⟨c, hs⟩ hrun => h c s a s' hs hrun

theorem Triple.ite {c : Prop} [Decidable c] (ht : c → Triple P m Q) (he : ¬ c → Triple P m' Q) :
    Triple P (if c then m else m') Q := by
  split
  · exact ht ‹_›
  · exact he ‹_›

theorem Keeps.pure {a : α} : Keeps P (Pure.pure a : StateM σ α) := Triple.pure fun _ h => h

theorem Keeps.bind (hm : Keeps P m) (hf : ∀ a, Keeps P (f a)) : Keeps P (m >>= f) := Triple.bind hm hf

theorem Keeps.ite {c : Prop} [Decidable c] (ht : c → Keeps P m) (he : ¬ c → Keeps P m') :
    Keeps P (if c then m else m') := Triple.ite ht he

end Hoare
