import Mathlib.Data.List.Nodup
/-!
# Grouping the rows of a table

`groupsOf key rows` puts the rows that have a key in common together, in the order in which their keys come first. A table
that was written block by block, each block under a key of its own, is taken apart into just these blocks.
-/

namespace Group

variable {ρ κ β : Type} [DecidableEq κ] {key : ρ → κ}

/-- The rows, grouped by their keys -/
def groupsOf (key : ρ → κ) (rows : List ρ) : List (List ρ) :=
  (rows.map key).eraseDups.map fun k => rows.filter fun r => key r = k

@[simp] theorem groupsOf_nil : groupsOf key [] = [] := rfl

theorem eraseDups_block {k : κ} {ks rest : List κ} (hne : ks ≠ []) (hks : ∀ k' ∈ ks, k' = k) (hrest : k ∉ rest) :
    (ks ++ rest).eraseDups = k :: rest.eraseDups := by
  obtain ⟨k', tail, rfl⟩ := List.exists_cons_of_ne_nil hne
  obtain rfl := hks k' List.mem_cons_self
  rw [List.cons_append, List.eraseDups_cons, List.filter_append]
  have htail : tail.filter (fun b => !b == k') = [] := by
    refine List.filter_eq_nil_iff.mpr fun b hb => ?_
    simp [hks b (List.mem_cons_of_mem _ hb)]
  have hother : rest.filter (fun b => !b == k') = rest := by
    refine List.filter_eq_self.mpr fun b hb => ?_
    have hne : b ≠ k' := fun h => hrest (h ▸ hb)
    simpa using hne
  rw [htail, hother, List.nil_append]

/-- **Rows that were written in blocks** are grouped into the blocks. -/
theorem groupsOf_flatMap {f : β → List ρ} {id : β → κ} {blocks : List β} (hne : ∀ b ∈ blocks, f b ≠ [])
    (hkey : ∀ b ∈ blocks, ∀ r ∈ f b, key r = id b) (hnodup : (blocks.map id).Nodup) :
    groupsOf key (blocks.flatMap f) = blocks.map f := by
  induction blocks with
  | nil => rfl
  | cons b blocks ih =>
    obtain ⟨hfresh, hnodup⟩ := List.nodup_cons.mp hnodup
    have ih := ih (fun b' hb' => hne b' (List.mem_cons_of_mem _ hb')) (fun b' hb' => hkey b' (List.mem_cons_of_mem _ hb'))
      hnodup
    have hrest (r : ρ) (hr : r ∈ blocks.flatMap f) : key r ∈ blocks.map id := by
      obtain ⟨b', hb', hr⟩ := List.mem_flatMap.mp hr
      rw [hkey b' (List.mem_cons_of_mem _ hb') r hr]
      exact List.mem_map_of_mem hb'
    have hids : ((f b).map key ++ (blocks.flatMap f).map key).eraseDups =
        id b :: ((blocks.flatMap f).map key).eraseDups := by
      refine eraseDups_block (by simpa using hne b List.mem_cons_self) ?_ ?_
      · intro k hk
        obtain ⟨r, hr, rfl⟩ := List.mem_map.mp hk
        exact hkey b List.mem_cons_self r hr
      · intro hmem
        obtain ⟨r, hr, hk⟩ := List.mem_map.mp hmem
        exact hfresh (hk ▸ hrest r hr)
    unfold groupsOf at ih ⊢
    rw [List.flatMap_cons, List.map_append, hids, List.map_cons, List.map_cons, ← ih]
    congr 1
    · rw [List.filter_append, List.filter_eq_self.mpr, List.filter_eq_nil_iff.mpr, List.append_nil]
      · intro r hr
        have hother : key r ≠ id b := fun h => hfresh (h ▸ hrest r hr)
        simpa using hother
      · intro r hr
        simpa using hkey b List.mem_cons_self r hr
    · refine List.map_congr_left fun k hk => ?_
      have hother : id b ≠ k := by
        rintro rfl
        obtain ⟨r, hr, hk⟩ := List.mem_map.mp (List.mem_eraseDups.mp hk)
        exact hfresh (hk ▸ hrest r hr)
      rw [List.filter_append, List.filter_eq_nil_iff.mpr, List.nil_append]
      intro r hr
      simpa [hkey b List.mem_cons_self r hr] using hother

theorem length_groupsOf_le {k : κ} {rows : List ρ} (h : ∀ r ∈ rows, key r = k) : (groupsOf key rows).length ≤ 1 := by
  unfold groupsOf
  rw [List.length_map]
  cases rows with
  | nil => simp
  | cons r rows =>
    have hids : ((r :: rows).map key ++ []).eraseDups = k :: ([] : List _).eraseDups := by
      refine eraseDups_block (by simp) (fun k' hk' => ?_) List.not_mem_nil
      obtain ⟨r', hr', rfl⟩ := List.mem_map.mp hk'
      exact h r' hr'
    rw [List.append_nil] at hids
    rw [hids]
    simp

end Group
