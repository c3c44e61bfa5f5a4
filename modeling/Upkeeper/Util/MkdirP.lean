import Upkeeper.Config.Types
import Upkeeper.Library.Path
import Upkeeper.UpkList.Copy
/-!
# Creating directories (`upk_util.c`: `upk_mkdir_p`)

`upk_mkdir_p` prepends what `dirname` yields to a list until that is `"/"`, and then goes through the list. From a path
in `"/"` the loop ends and the list is top down: the path and its ancestors below the root, each once and behind its own
ancestors. From any other path it does not end: a relative path comes to `"."`, which is its own parent, and a path with
exactly two leading slashes to `"//"` (`upkMkdirP_topDown_iff`).
-/

namespace Upkeeper

open UpkList (init reading unlinking Stacked)
open Path (root Rooted Ancestor)

/-- The string of a `upk_stringlist_t`. Its `prev` pointer is not used. -/
abbrev StringNode := CharBuf upkMaxStringLen

instance : Inhabited StringNode := ⟨strncpyString .empty⟩

/-- `EEXIST` -/
def eexist : Nat := 17

/-- The system calls: whether `stat` succeeds, and what `mkdir` does, with its `errno` if it fails -/
structure DirCalls (φ : Type) where
  stat : φ → CStr → Bool
  mkdir : φ → CStr → φ × Option Nat

/-- The file system, the paths that the pass has considered, the directories it has created, and its warnings -/
structure MkdirRun (φ : Type) where
  fs : φ
  considered : List CStr
  count : Nat
  warnings : List (CStr × Nat)

/-- The body of the pass -/
def MkdirRun.consider {φ : Type} (calls : DirCalls φ) (r : MkdirRun φ) (string : StringNode) : MkdirRun φ :=
  let r := { r with considered := r.considered ++ [string.toCStr] }
  if calls.stat r.fs string.toCStr then r
  else
    match calls.mkdir r.fs string.toCStr with
    | (fs, none) => { r with fs := fs, count := r.count + 1 }
    | (fs, some errno) =>
      { r with fs := fs, warnings := if errno = eexist then r.warnings else r.warnings ++ [(string.toCStr, errno)] }

/-- The loop that collects the ancestors. The number of its iterations is bounded by `fuel`. -/
def collectParents : Nat → CStr → UpkList StringNode → Option (UpkList StringNode)
  | 0, _, _ => none
  | fuel + 1, buf, pathlist =>
    let (pdir, buf) := dirname buf
    if strncmpEq 2 (cstr "/").chars pdir.chars = false ∧ pdir ≠ .empty then do
      let pathlist ← pathlist.prependVal (strncpyString pdir)
      collectParents fuel buf pathlist
    else some pathlist

/-- `upk_mkdir_p` -/
def upkMkdirP {φ : Type} (calls : DirCalls φ) (fuel : Nat) (fs : φ) (path : CStr) : Option (MkdirRun φ) := do
  let buf := strncpyString path
  let pathlist ← (init : UpkList StringNode).prependVal (strncpyString path)
  let pathlist ← collectParents fuel buf.toCStr pathlist
  let (pathlist, r) ← pathlist.foreach (reading fun r string => some (r.consider calls string)) (pathlist.fresh + 1)
    ⟨fs, [], 0, []⟩
  -- `UPKLIST_FREE`
  let _ ← pathlist.foreach (unlinking (fun _ _ => some ()) id) (pathlist.fresh + 1) ()
  some r

/-- **Top down:** the path and each ancestor below the root is considered once, each ancestor before its descendants. -/
structure TopDown (path : CStr) (considered : List CStr) : Prop where
  once : considered.Nodup
  mem : ∀ t, t ∈ considered ↔ t = path ∨ Ancestor t path ∧ t ≠ root
  ordered : considered.Pairwise fun s t => ¬ Ancestor t s

variable {φ : Type} {calls : DirCalls φ} {fs : φ} {path parent : CStr} {ts : List CStr} {vs : List StringNode}
  {L : UpkList StringNode} {fuel : Nat}

/-! ### The order -/

theorem TopDown.single (h : (dirname path).1 = root) : TopDown path [path] where
  once := List.nodup_singleton path
  mem t := by
    rw [List.mem_singleton, Path.ancestor_iff, h]
    constructor
    · exact Or.inl
    · rintro (heq | ⟨rfl | ha, hne⟩)
      · exact heq
      · exact absurd rfl hne
      · exact absurd (Path.ancestor_root ha) hne
  ordered := List.pairwise_singleton _ _

/-- **Step lemma:** a path comes behind the ancestors of its parent. -/
theorem TopDown.snoc (h : TopDown parent ts) (hparent : (dirname path).1 = parent) (hroot : parent ≠ root)
    (hrooted : Rooted parent) (hlt : parent.chars.length < path.chars.length) : TopDown path (ts ++ [path]) := by
  have hshort : ∀ t ∈ ts, Rooted t ∧ t.chars.length < path.chars.length := by
    intro t ht
    rcases (h.mem t).mp ht with rfl | ⟨ha, -⟩
    · exact ⟨hrooted, hlt⟩
    · obtain ⟨hr, hle⟩ := ha.rooted hrooted
      exact ⟨hr, hle.trans_lt hlt⟩
  refine ⟨?_, fun t => ?_, ?_⟩
  · rw [List.nodup_append]
    refine ⟨h.once, List.nodup_singleton path, fun s hs t ht heq => ?_⟩
    obtain rfl := List.mem_singleton.mp ht
    exact absurd (hshort s hs).2 (heq ▸ lt_irrefl _)
  · rw [List.mem_append, List.mem_singleton, h.mem, @Path.ancestor_iff t path, hparent]
    constructor
    · rintro ((rfl | ⟨ha, hne⟩) | rfl)
      · exact Or.inr ⟨Or.inl rfl, hroot⟩
      · exact Or.inr ⟨Or.inr ha, hne⟩
      · exact Or.inl rfl
    · rintro (rfl | ⟨rfl | ha, hne⟩)
      · exact Or.inr rfl
      · exact Or.inl (Or.inl rfl)
      · exact Or.inl (Or.inr ⟨ha, hne⟩)
  · rw [List.pairwise_append]
    refine ⟨h.ordered, List.pairwise_singleton _ _, fun s hs t ht ha => ?_⟩
    obtain rfl := List.mem_singleton.mp ht
    obtain ⟨hr, hlen⟩ := hshort s hs
    exact absurd (ha.rooted hr).2 (Nat.not_le_of_lt hlen)

/-! ### The loop -/

theorem notRoot_iff {pdir : CStr} : strncmpEq 2 (cstr "/").chars pdir.chars = false ↔ pdir ≠ root := by
  have hroot : textUpTo 2 (cstr "/").chars = [Path.slash] := by decide
  rw [strncmpEq, hroot, CStr.textUpTo_eq, beq_eq_false_iff_ne, Ne, Ne, Path.eq_root_iff, not_iff_not]
  constructor
  · intro h
    rcases hchars : pdir.chars with _ | ⟨c, _ | ⟨d, rest⟩⟩
    · rw [hchars] at h
      cases h
    · rw [hchars] at h
      exact h.symm
    · rw [hchars] at h
      cases h
  · intro h
    rw [h]
    rfl

theorem collectParents_none (h : ¬ Rooted path) : collectParents fuel path L = none := by
  induction fuel generalizing path L with
  | zero => rfl
  | succ fuel ih =>
    obtain ⟨hnext, hroot, hempty⟩ := Path.dirname_of_not_rooted h
    simp only [collectParents]
    rw [if_pos ⟨notRoot_iff.mpr hroot, hempty⟩, Option.bind_eq_bind, Option.bind_eq_none_iff]
    exact fun L' _ => ih hnext

theorem collectParents_topDown (h : Rooted path) (hfuel : path.chars.length < fuel)
    (hlen : path.chars.length < upkMaxStringLen) (hL : Stacked L (strncpyString path :: vs)) :
    ∃ L' ws, collectParents fuel path L = some L' ∧ Stacked L' (ws ++ vs) ∧
      TopDown path (ws.map CharBuf.toCStr) := by
  induction fuel generalizing path L vs with
  | zero => exact absurd hfuel (Nat.not_lt_zero _)
  | succ fuel ih =>
    obtain ⟨parent, hparent, hrooted, hor⟩ := h.dirname
    have hcopy : (strncpyString path).toCStr = path := CharBuf.strncpy_eq (Nat.le_sub_one_of_lt hlen)
    simp only [collectParents, hparent]
    rcases hor with rfl | ⟨hroot, hempty, hlt⟩
    · have hstop : ¬ (strncmpEq 2 (cstr "/").chars root.chars = false ∧ root ≠ .empty) :=
        fun h => notRoot_iff.mp h.1 rfl
      rw [if_neg hstop]
      refine ⟨L, [strncpyString path], rfl, hL, ?_⟩
      rw [List.map_singleton, hcopy]
      exact TopDown.single (congrArg Prod.fst hparent)
    · rw [if_pos ⟨notRoot_iff.mpr hroot, hempty⟩]
      obtain ⟨L₁, hL₁, hstacked⟩ := hL.prependVal (strncpyString parent)
      obtain ⟨L', ws, hrun, hL', htop⟩ := ih hrooted (by omega) (hlt.trans hlen) hstacked
      refine ⟨L', ws ++ [strncpyString path], ?_, ?_, ?_⟩
      · rw [hL₁]
        exact hrun
      · rwa [List.append_assoc]
      · rw [List.map_append, List.map_singleton, hcopy]
        exact htop.snoc (congrArg Prod.fst hparent) hroot hrooted hlt

/-! ### The pass -/

theorem consider_considered (r : MkdirRun φ) (string : StringNode) :
    (r.consider calls string).considered = r.considered ++ [string.toCStr] := by
  unfold MkdirRun.consider
  dsimp only
  split
  · rfl
  · split <;> rfl

theorem foldl_consider (r : MkdirRun φ) (ws : List StringNode) :
    (ws.foldl (MkdirRun.consider calls) r).considered = r.considered ++ ws.map CharBuf.toCStr := by
  induction ws generalizing r with
  | nil => exact (List.append_nil _).symm
  | cons w ws ih =>
    rw [List.foldl_cons, ih, consider_considered, List.append_assoc, List.map_cons, List.singleton_append]

theorem upkMkdirP_rooted (h : Rooted path) (hlen : path.chars.length < upkMaxStringLen) (calls : DirCalls φ) (fs : φ) :
    ∃ r, upkMkdirP calls (path.chars.length + 1) fs path = some r ∧ TopDown path r.considered := by
  have hcopy : (strncpyString path).toCStr = path := CharBuf.strncpy_eq (Nat.le_sub_one_of_lt hlen)
  obtain ⟨L₁, hL₁, hstacked₁⟩ := UpkList.stacked_init.prependVal (strncpyString path)
  obtain ⟨L₂, ws, hL₂, hstacked₂, htop⟩ := collectParents_topDown h (Nat.lt_succ_self _) hlen hstacked₁
  obtain ⟨L₃, hstacked₃, -, hread⟩ := hstacked₂.foreach_reading
    (f := fun r string => some (MkdirRun.consider calls r string)) (Nat.lt_succ_self _)
  obtain ⟨L₄, hfree⟩ := hstacked₃.foreach_unlinking (f := fun (_ : Unit) _ => some ()) id (Nat.lt_succ_self _)
  have hfold : ∀ r : MkdirRun φ, (ws ++ []).foldlM (fun r string => some (r.consider calls string)) r =
      some (ws.foldl (MkdirRun.consider calls) r) := fun r => by
    rw [List.append_nil]
    exact List.foldlM_pure
  have hunit : (ws ++ []).foldlM (fun (_ : Unit) _ => some ()) () = some () := List.foldlM_pure
  refine ⟨ws.foldl (MkdirRun.consider calls) ⟨fs, [], 0, []⟩, ?_, ?_⟩
  · simp only [upkMkdirP, hL₁, hcopy, hL₂, hread, hfold, hfree, hunit, Option.bind_eq_bind, Option.bind_some,
      Option.map_some]
  · rw [foldl_consider]
    exact htop

theorem upkMkdirP_none (h : ¬ Rooted path) (hlen : path.chars.length < upkMaxStringLen) :
    upkMkdirP calls fuel fs path = none := by
  have hcopy : (strncpyString path).toCStr = path := CharBuf.strncpy_eq (Nat.le_sub_one_of_lt hlen)
  unfold upkMkdirP
  simp only [hcopy, collectParents_none h, Option.bind_eq_bind, Option.bind_none, Option.bind_fun_none]

/-- **The function returns, having gone top down, exactly if the path begins with a slash, but not with exactly two.** -/
theorem upkMkdirP_topDown_iff (calls : DirCalls φ) (fs : φ) (path : CStr)
    (hlen : path.chars.length < upkMaxStringLen) :
    (∃ fuel r, upkMkdirP calls fuel fs path = some r ∧ TopDown path r.considered) ↔
      Path.leading path ≠ 0 ∧ Path.leading path ≠ 2 := by
  constructor
  · rintro ⟨fuel, r, hrun, -⟩
    by_contra h
    rw [upkMkdirP_none h hlen] at hrun
    cases hrun
  · intro h
    obtain ⟨r, hrun, htop⟩ := upkMkdirP_rooted h hlen calls fs
    exact ⟨_, r, hrun, htop⟩

/-- A file system that consists of its directories -/
def plainCalls : DirCalls (List CStr) where
  stat fs path := path ∈ fs
  mkdir fs path := if path ∈ fs then (fs, some eexist) else (path :: fs, none)

theorem upkMkdirP_topDown_absolute :
    ∃ fuel r, upkMkdirP plainCalls fuel [] (cstr "/srv/upkeeper") = some r ∧
      TopDown (cstr "/srv/upkeeper") r.considered :=
  (upkMkdirP_topDown_iff plainCalls [] (cstr "/srv/upkeeper") (by decide)).mpr (by decide)

/-- From a relative path the loop prepends `"."` for ever. -/
theorem not_upkMkdirP_topDown_relative :
    ¬ ∃ fuel r, upkMkdirP plainCalls fuel [] (cstr "upkeeper") = some r ∧ TopDown (cstr "upkeeper") r.considered := by
  rintro ⟨fuel, r, hrun, -⟩
  rw [upkMkdirP_none (by decide) (by decide)] at hrun
  cases hrun

end Upkeeper
