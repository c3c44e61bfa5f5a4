import Mathlib.Data.List.Nodup
import Mathlib.Data.Set.List
/-!
# Tables that keep the order of insertion

A table is the list of its entries, the oldest first. To add under a key that is there replaces the value and leaves the
entry where it is. A list of entries in which no key comes twice is the table that is made of it (`ofList_of_nodup`),
and the table of any other list is shorter than the list (`nodup_of_length`).
-/

namespace Table

variable {κ ν : Type} [DecidableEq κ]

/-- Put the value under the key. -/
def add (t : List (κ × ν)) (k : κ) (v : ν) : List (κ × ν) :=
  if k ∈ t.map Prod.fst then t.map fun e => if e.1 = k then (k, v) else e else t ++ [(k, v)]

/-- Put the entries into a table, one after another. -/
def addAll (t es : List (κ × ν)) : List (κ × ν) := es.foldl (fun t e => add t e.1 e.2) t

/-- The table that is made of the entries -/
def ofList (es : List (κ × ν)) : List (κ × ν) := addAll [] es

variable {t es : List (κ × ν)} {k : κ} {v : ν}

theorem add_of_notMem (h : k ∉ t.map Prod.fst) : add t k v = t ++ [(k, v)] := if_neg h

theorem length_add_of_mem (h : k ∈ t.map Prod.fst) : (add t k v).length = t.length := by
  rw [add, if_pos h, List.length_map]

theorem add_ne_nil : add t k v ≠ [] := by
  by_cases h : k ∈ t.map Prod.fst
  · intro hnil
    have hlen := length_add_of_mem (v := v) h
    rw [hnil] at hlen
    rw [List.length_eq_zero_iff.mp hlen.symm] at h
    exact List.not_mem_nil h
  · simp [add_of_notMem h]

theorem addAll_ne_nil (h : t ≠ []) : addAll t es ≠ [] := by
  induction es generalizing t with
  | nil => exact h
  | cons e es ih => exact ih add_ne_nil

theorem ofList_ne_nil (h : es ≠ []) : ofList es ≠ [] := by
  cases es with
  | nil => exact absurd rfl h
  | cons e es =>
    show addAll (add [] e.1 e.2) es ≠ []
    exact addAll_ne_nil add_ne_nil

theorem keys_add_of_mem (h : k ∈ t.map Prod.fst) : (add t k v).map Prod.fst = t.map Prod.fst := by
  rw [add, if_pos h, List.map_map]
  refine List.map_congr_left fun e _ => ?_
  by_cases he : e.1 = k
  · simp [he]
  · simp [he]

theorem mem_of_mem_add {e : κ × ν} (h : e ∈ add t k v) : e = (k, v) ∨ e ∈ t := by
  unfold add at h
  split at h
  · obtain ⟨e', he', rfl⟩ := List.mem_map.mp h
    by_cases hk : e'.1 = k
    · exact Or.inl (if_pos hk)
    · rw [if_neg hk]
      exact Or.inr he'
  · rcases List.mem_append.mp h with h | h
    · exact Or.inr h
    · exact Or.inl (List.mem_singleton.mp h)

theorem mem_of_mem_addAll {e : κ × ν} (h : e ∈ addAll t es) : e ∈ t ∨ e ∈ es := by
  induction es generalizing t with
  | nil => exact Or.inl h
  | cons e' es ih =>
    rcases ih h with h | h
    · rcases mem_of_mem_add h with rfl | h
      · exact Or.inr List.mem_cons_self
      · exact Or.inl h
    · exact Or.inr (List.mem_cons_of_mem _ h)

theorem mem_of_mem_ofList {e : κ × ν} (h : e ∈ ofList es) : e ∈ es :=
  (mem_of_mem_addAll h).resolve_left List.not_mem_nil

theorem ofList_map {α : Type} (f : α → κ × ν) (l : List α) : ∃ l', List.map f l' = ofList (l.map f) := by
  refine Set.mem_range.mp ?_
  rw [Set.range_list_map]
  intro e he
  obtain ⟨a, -, ha⟩ := List.mem_map.mp (mem_of_mem_ofList he)
  exact ⟨a, ha⟩

theorem addAll_of_nodup (h : ((t ++ es).map Prod.fst).Nodup) : addAll t es = t ++ es := by
  induction es generalizing t with
  | nil => rw [List.append_nil]; rfl
  | cons e es ih =>
    have hcons : t ++ e :: es = (t ++ [e]) ++ es := by simp
    have hnew : e.1 ∉ t.map Prod.fst := by
      rw [List.map_append, List.map_cons] at h
      exact fun hmem => (List.nodup_append.mp h).2.2 _ hmem _ List.mem_cons_self rfl
    rw [hcons] at h ⊢
    rw [← ih h]
    show addAll (add t e.1 e.2) es = _
    rw [add_of_notMem hnew]

theorem ofList_of_nodup (h : (es.map Prod.fst).Nodup) : ofList es = es := addAll_of_nodup (t := []) h

/-- Every entry that is added finds its key there, or makes the table longer. -/
theorem length_addAll (ht : (t.map Prod.fst).Nodup) : (addAll t es).length ≤ t.length + es.length ∧
    ((addAll t es).length = t.length + es.length → ((t ++ es).map Prod.fst).Nodup) := by
  induction es generalizing t with
  | nil => simpa [addAll] using ht
  | cons e es ih =>
    by_cases hmem : e.1 ∈ t.map Prod.fst
    · have hlen := (ih (t := add t e.1 e.2) (by rwa [keys_add_of_mem hmem])).1
      rw [length_add_of_mem hmem] at hlen
      have hshort : (addAll t (e :: es)).length ≤ t.length + es.length := hlen
      rw [List.length_cons]
      exact ⟨by omega, fun heq => by omega⟩
    · have hnodup : ((t ++ [e]).map Prod.fst).Nodup := by
        rw [List.map_append, List.map_singleton]
        exact List.nodup_append.mpr ⟨ht, List.nodup_singleton _, fun a ha b hb hab =>
          hmem (List.mem_singleton.mp hb ▸ hab ▸ ha)⟩
      obtain ⟨hle, heq⟩ := ih hnodup
      have hstep : addAll t (e :: es) = addAll (t ++ [e]) es := by
        show addAll (add t e.1 e.2) es = _
        rw [add_of_notMem hmem]
      rw [hstep, List.length_cons]
      rw [List.length_append, List.length_singleton] at hle heq
      refine ⟨by omega, fun h => ?_⟩
      have := heq (by omega)
      rwa [List.append_assoc, List.singleton_append] at this

/-- **Only a list in which no key comes twice is as long as its table.** -/
theorem nodup_of_length (h : es.length ≤ (ofList es).length) : (es.map Prod.fst).Nodup := by
  obtain ⟨hle, heq⟩ : (ofList es).length ≤ 0 + es.length ∧ _ := length_addAll List.nodup_nil
  exact heq (le_antisymm hle ((Nat.zero_add _).le.trans h))

end Table
