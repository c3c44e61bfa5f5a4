import Upkeeper.Buddy.Supervise
/-!
# The restart rate (`user_max_restarts`, `user_restart_window`, `rapid_respawn_count`)

`rapid_respawn_count` bounds from above how many starts lie within one window before the latest start (`Counts`). A
start is let through only while the count is within its limit, so no window holds more starts than that, wherever it
lies.
-/

namespace Upkeeper

/-- The times of the starts, from a history -/
def starts : List Entry → List Int
  | [] => []
  | .started t :: log => t :: starts log
  | _ :: log => starts log

/-- The starts in the half-open interval of `width` from `t` on -/
def startsWithin (t width : Int) (log : List Entry) : Nat := (starts log).countP fun x => decide (t ≤ x ∧ x < t + width)

/-- `rapid_respawn_count` does not wrap. -/
def NeverWraps (log : List Entry) : Prop := ∀ c, .counted c ∈ log → c ≠ 0xffffffff

variable {cfg : BuddyConfig}

/-- The starts that are less than a window before the latest one -/
def recentStarts (cfg : BuddyConfig) (v : View) : Nat :=
  (starts v.log).countP fun x => decide (v.respawnTimestamp - cfg.userRestartWindow < x)

/-- What the count says about the starts -/
structure Counts (cfg : BuddyConfig) (v : View) : Prop where
  latest : ∀ x ∈ starts v.log, x ≤ v.respawnTimestamp ∧ v.respawnTimestamp ≤ v.clock
  recent : recentStarts cfg v ≤ v.rapidRespawnCount.toNat + 1
  bound : ∀ t, startsWithin t cfg.userRestartWindow v.log ≤ cfg.userMaxRestarts.toNat + 1

theorem Counts.of_starts {v v' : View} (h : Counts cfg v) (hstarts : starts v'.log = starts v.log)
    (hrespawn : v'.respawnTimestamp = v.respawnTimestamp) (hclock : v.clock ≤ v'.clock)
    (hcount : v.rapidRespawnCount.toNat ≤ v'.rapidRespawnCount.toNat) : Counts cfg v' := by
  refine ⟨fun x hx => ?_, ?_, fun t => ?_⟩
  · rw [hstarts] at hx
    obtain ⟨hle, hclock'⟩ := h.latest x hx
    rw [hrespawn]
    exact ⟨hle, hclock'.trans hclock⟩
  · have hrecent := h.recent
    unfold recentStarts at hrecent ⊢
    rw [hstarts, hrespawn]
    omega
  · unfold startsWithin
    rw [hstarts]
    exact h.bound t

theorem count_cases (cfg : BuddyConfig) (v : View) :
    v.respawnTimestamp + cfg.userRestartWindow > v.clock ∧
        v.count cfg = { v with rapidRespawnCount := v.rapidRespawnCount + 1, log := .counted v.rapidRespawnCount :: v.log } ∨
      v.respawnTimestamp + cfg.userRestartWindow ≤ v.clock ∧ v.count cfg = { v with rapidRespawnCount := 0 } := by
  unfold View.count
  split
  · next h => exact Or.inl ⟨h, rfl⟩
  · next h => exact Or.inr ⟨Int.not_lt.mp h, rfl⟩

theorem toNat_succ {c : UInt32} (h : c ≠ 0xffffffff) : (c + 1).toNat = c.toNat + 1 := by
  have hlt := c.toNat_lt
  have hne : c.toNat ≠ 0xffffffff := fun heq => h (UInt32.toNat_inj.mp heq)
  rw [UInt32.toNat_add, show (1 : UInt32).toNat = 1 from rfl]
  omega

theorem Counts.recent_at {v : View} (h : Counts cfg v) (hwrap : NeverWraps (v.count cfg).log) {t : Int} (ht : v.clock ≤ t) :
    (starts v.log).countP (fun x => decide (t - cfg.userRestartWindow < x)) ≤ (v.count cfg).rapidRespawnCount.toNat := by
  rcases count_cases cfg v with ⟨hsoon, hcount⟩ | ⟨hlate, hcount⟩
  · rw [hcount] at hwrap ⊢
    have hno : v.rapidRespawnCount ≠ 0xffffffff := hwrap _ List.mem_cons_self
    dsimp only
    rw [toNat_succ hno]
    refine le_trans (List.countP_mono_left fun x hx hlt => ?_) h.recent
    obtain ⟨-, hclock⟩ := h.latest x hx
    simp only [decide_eq_true_eq] at hlt ⊢
    omega
  · rw [hcount]
    refine Nat.le_of_eq (List.countP_eq_zero.mpr fun x hx => ?_)
    obtain ⟨hle, hclock⟩ := h.latest x hx
    simp only [decide_eq_true_eq]
    omega

theorem starts_count (v : View) : starts (v.count cfg).log = starts v.log := by
  rcases v.count_log cfg with h | h <;> rw [h]
  rfl

theorem starts_execEntries (pid : Int) (log : List Entry) : starts (View.execEntries .start pid ++ log) = starts log := by
  unfold View.execEntries
  split
  · rfl
  · split <;> rfl

/-- Refusing a start advances the count, since a count of zero is never refused. -/
theorem Counts.refuse {v : View} (h : Counts cfg v) (hwrap : NeverWraps (v.count cfg).log)
    (hmany : (v.count cfg).rapidRespawnCount > cfg.userMaxRestarts) :
    Counts cfg { v.count cfg with log := .refused :: (v.count cfg).log } := by
  rcases count_cases cfg v with ⟨-, hcount⟩ | ⟨-, hcount⟩
  · rw [hcount] at hwrap ⊢
    refine h.of_starts rfl rfl (Int.le_refl _) ?_
    have hsucc := toNat_succ (hwrap _ List.mem_cons_self)
    dsimp only
    omega
  · rw [hcount] at hmany
    exact absurd hmany (by simp)

/-- **A start keeps to the rate.** -/
theorem Counts.start {v : View} (h : Counts cfg v) (hwrap : NeverWraps (v.count cfg).log)
    (hfew : ¬ (v.count cfg).rapidRespawnCount > cfg.userMaxRestarts) (pid : Int) {t : Int} (ht : v.clock ≤ t) :
    Counts cfg { v.count cfg with
      procPid := pid, respawnTimestamp := t, clock := t
      log := .started t :: (View.execEntries .start pid ++ (v.count cfg).log) } := by
  have hrecent := h.recent_at hwrap ht
  have hlimit : (v.count cfg).rapidRespawnCount.toNat ≤ cfg.userMaxRestarts.toNat :=
    UInt32.le_iff_toNat_le.mp (by simpa using hfew)
  have hstarts : starts (.started t :: (View.execEntries .start pid ++ (v.count cfg).log)) = t :: starts v.log := by
    rw [starts, starts_execEntries, starts_count]
  refine ⟨fun x hx => ?_, ?_, fun a => ?_⟩
  · dsimp only at hx ⊢
    rw [hstarts] at hx
    rcases List.mem_cons.mp hx with rfl | hx
    · exact ⟨Int.le_refl _, Int.le_refl _⟩
    · obtain ⟨hle, hclock⟩ := h.latest x hx
      exact ⟨by omega, Int.le_refl _⟩
  · unfold recentStarts
    dsimp only
    rw [hstarts, List.countP_cons]
    split <;> omega
  · unfold startsWithin
    dsimp only
    rw [hstarts, List.countP_cons]
    by_cases hin : a ≤ t ∧ t < a + cfg.userRestartWindow
    · -- the other starts of this window are recent
      have hwithin : (starts v.log).countP (fun x => decide (a ≤ x ∧ x < a + cfg.userRestartWindow)) ≤
          (starts v.log).countP (fun x => decide (t - cfg.userRestartWindow < x)) := by
        refine List.countP_mono_left fun x _ hx => ?_
        simp only [decide_eq_true_eq] at hx ⊢
        omega
      rw [if_pos (decide_eq_true hin)]
      omega
    · rw [if_neg (by simpa using hin), Nat.add_zero]
      exact h.bound a

theorem NeverWraps.tail {e : Entry} {log : List Entry} (h : NeverWraps (e :: log)) : NeverWraps log :=
  fun c hc => h c (List.mem_cons_of_mem _ hc)

theorem Counts.step {v v' : View} (h : Counts cfg v) (hwrap : NeverWraps v'.log) (hs : View.Step cfg v v') :
    Counts cfg v' := by
  cases hs with
  | wait t ht => exact h.of_starts rfl rfl ht (Nat.le_refl _)
  | note e he =>
    refine h.of_starts ?_ rfl (Int.le_refl _) (Nat.le_refl _)
    cases e with
    | started t => cases he
    | _ => rfl
  | tested _ => exact h.of_starts rfl rfl (Int.le_refl _) (Nat.le_refl _)
  | signalling => exact h.of_starts rfl rfl (Int.le_refl _) (Nat.le_refl _)
  | kill signal _ => exact h.of_starts rfl rfl (Int.le_refl _) (Nat.le_refl _)
  | clear => exact h.of_starts rfl rfl (Int.le_refl _) (Nat.le_refl _)
  | reap pid _ =>
    unfold View.terminate
    split
    · exact h.of_starts rfl rfl (Int.le_refl _) (Nat.le_refl _)
    · exact h.of_starts rfl rfl (Int.le_refl _) (Nat.le_refl _)
  | refuse _ hmany => exact h.refuse hwrap.tail hmany
  | start pid t _ hfew _ ht =>
    refine h.start (fun c hc => hwrap c ?_) hfew pid ht
    exact List.mem_cons_of_mem _ (List.mem_append_right _ hc)

/-- **Restart rate bound.** In a run in which `rapid_respawn_count` does not wrap, no half-open interval of
`user_restart_window` seconds holds more than `user_max_restarts + 1` executions of the start action. -/
theorem restart_rate (cfg : BuddyConfig) (size : Nat) (uuid : List UInt8) (answers : Nat → Answer) (clock : Int)
    (turns : Nat)
    (hwrap : NeverWraps (System.after cfg size uuid answers clock turns).2.log) (t : Int) :
    startsWithin t cfg.userRestartWindow (System.after cfg size uuid answers clock turns).2.log ≤
      cfg.userMaxRestarts.toNat + 1 := by
  have hinit : NeverWraps (System.init size uuid answers clock).view.log →
      Counts cfg (System.init size uuid answers clock).view :=
    fun _ => ⟨fun x hx => absurd hx List.not_mem_nil, Nat.zero_le _, fun _ => Nat.zero_le _⟩
  have hstep : ∀ v v', (NeverWraps v.log → Counts cfg v) → View.Step cfg v v' → NeverWraps v'.log → Counts cfg v' := by
    intro v v' h hs hwrap
    exact (h fun c hc => hwrap c (hs.log_suffix.subset hc)).step hwrap hs
  exact (System.invariant (I := fun v => NeverWraps v.log → Counts cfg v) hstep hinit turns hwrap).bound t

/-- A restart follows the first start. -/
theorem restart_rate_restart :
    startsWithin 998 5 (System.after exampleConfig 4 [] (exampleAnswers [4, 0, 0, 0] [18] []) 0 3).2.log ≤ 11 := by
  have hlog : (System.after exampleConfig 4 [] (exampleAnswers [4, 0, 0, 0] [18] []) 0 3).2.log =
      [.cleared 100, .started 1000, .forked .start 100, .counted 0, .reaped 100 true, .started 1000,
       .forked .start 100] := by
    decide +kernel
  refine restart_rate exampleConfig 4 [] (exampleAnswers [4, 0, 0, 0] [18] []) 0 3 (fun c hc => ?_) 998
  rw [hlog] at hc
  simp only [List.mem_cons, Entry.counted.injEq, List.not_mem_nil] at hc
  rcases hc with h | h | h | rfl | h | h | h | h
  all_goals first | decide | cases h

end Upkeeper
