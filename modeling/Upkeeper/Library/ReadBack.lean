import Upkeeper.Library.Search
/-!
# Texts that can be read from the left

`ReadsBack f` says that what `f` writes of an element can be told from whatever is written behind it. A sequence of such
texts can be read back too if what follows it starts none of them (`ReadsBack.flatMap`). Other texts end where an element
stands that is not in them (`span_unique`), or where a separator stands for the first time (`separator_unique`).
-/

namespace ReadBack

variable {α β : Type}

/-- Whatever stands behind the text of an element, the element and the rest can be read from it. -/
def ReadsBack (f : α → List β) : Prop := ∀ ⦃a a' r r'⦄, f a ++ r = f a' ++ r' → a = a' ∧ r = r'

theorem ReadsBack.flatMap {f : α → List β} (hf : ReadsBack f) {stop : β} (hstop : ∀ a r r', f a ++ r ≠ stop :: r')
    {as as' : List α} {r r' : List β} (h : as.flatMap f ++ stop :: r = as'.flatMap f ++ stop :: r') : as = as' ∧ r = r' := by
  induction as generalizing as' with
  | nil =>
    cases as' with
    | nil => exact ⟨rfl, (List.cons.inj h).2⟩
    | cons a' as' =>
      rw [List.flatMap_cons, List.append_assoc] at h
      exact absurd h.symm (hstop a' _ _)
  | cons a as ih =>
    cases as' with
    | nil =>
      rw [List.flatMap_cons, List.append_assoc] at h
      exact absurd h (hstop a _ _)
    | cons a' as' =>
      rw [List.flatMap_cons, List.flatMap_cons, List.append_assoc, List.append_assoc] at h
      obtain ⟨rfl, hrest⟩ := hf h
      obtain ⟨rfl, hr⟩ := ih hrest
      exact ⟨rfl, hr⟩

theorem span_unique {p : β → Prop} {a b r r' : List β} {c d : β} (ha : ∀ x ∈ a, p x) (hb : ∀ x ∈ b, p x) (hc : ¬ p c)
    (hd : ¬ p d) (h : a ++ c :: r = b ++ d :: r') : a = b ∧ c = d ∧ r = r' := by
  induction a generalizing b with
  | nil =>
    cases b with
    | nil => exact ⟨rfl, List.cons.inj h⟩
    | cons y b =>
      obtain ⟨rfl, -⟩ := List.cons.inj h
      exact absurd (hb _ List.mem_cons_self) hc
  | cons x a ih =>
    cases b with
    | nil =>
      obtain ⟨rfl, -⟩ := List.cons.inj h
      exact absurd (ha _ List.mem_cons_self) hd
    | cons y b =>
      obtain ⟨rfl, hrest⟩ := List.cons.inj h
      obtain ⟨rfl, hcd⟩ := ih (fun z hz => ha z (List.mem_cons_of_mem _ hz))
        (fun z hz => hb z (List.mem_cons_of_mem _ hz)) hrest
      exact ⟨rfl, hcd⟩

/-- Two texts without the separator that are followed by it are the same if what they are the start of is. -/
theorem separator_unique {c : β} {t a b r r' : List β} (hc : c ∉ t) (ha : ¬ (c :: t) <:+: a) (hb : ¬ (c :: t) <:+: b)
    (h : a ++ (c :: t ++ r) = b ++ (c :: t ++ r')) : a = b ∧ r = r' := by
  have hfirst := Search.firstAt_of_not_infix (b := r) hc ha
  have hfirst' := Search.firstAt_of_not_infix (b := r') hc hb
  rw [List.append_assoc] at hfirst hfirst'
  rw [h] at hfirst
  obtain ⟨rfl, hrest⟩ := List.append_inj h (hfirst.unique hfirst')
  exact ⟨rfl, List.append_cancel_left hrest⟩

end ReadBack
