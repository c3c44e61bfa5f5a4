import Mathlib.Tactic.SplitIfs
import Upkeeper.Library.Path
/-!
# What a path names

A path is resolved one component after another. `SameFile p q` says that two paths name the same file in every file
system, where a name may lead anywhere: a directory need not be the parent of what its entries lead to, as with symbolic
links. `".."` leads to the parent, and the root is its own. The `ladder` tells paths apart: each other name climbs by
the same number of steps.
-/

namespace Path

/-- `"."` -/
def dot : List UInt8 := [46]

/-- `".."` -/
def dotdot : List UInt8 := [46, 46]

/-- The names in a path: what stands between its slashes. Several slashes are as good as one. -/
def components (path : List UInt8) : List (List UInt8) := (path.splitOn slash).filter (· ≠ [])

/-- Where the names lead from each directory of a file system. No name leads on from what is not a directory. -/
structure Names (ν : Type) where
  root : ν
  lookup : ν → List UInt8 → Option ν
  lookup_dot : ∀ d n x, lookup d n = some x → lookup d dot = some d
  root_dotdot : lookup root dotdot = some root

namespace Names

variable {ν : Type} {fs : Names ν} {d x : ν} {n : List UInt8} {ns : List (List UInt8)}

/-- Where the names lead, one after another -/
def walk (fs : Names ν) (d : ν) (ns : List (List UInt8)) : Option ν := ns.foldlM fs.lookup d

/-- What the path names, for a process whose working directory is the root -/
def resolve (fs : Names ν) (path : CStr) : Option ν := fs.walk fs.root (components path.chars)

theorem walk_append (ns ms : List (List UInt8)) :
    fs.walk d (ns ++ ms) = (fs.walk d ns).bind fun x => fs.walk x ms :=
  List.foldlM_append

theorem walk_cons : fs.walk d (n :: ns) = (fs.lookup d n).bind fun x => fs.walk x ns := List.foldlM_cons

theorem walk_dot_cons : fs.walk d (dot :: n :: ns) = fs.walk d (n :: ns) := by
  rw [walk_cons, walk_cons]
  cases hdot : fs.lookup d dot with
  | none =>
    cases hn : fs.lookup d n with
    | none => rfl
    | some x =>
      rw [fs.lookup_dot d n x hn] at hdot
      cases hdot
  | some x =>
    obtain rfl : d = x := Option.some.inj ((fs.lookup_dot d dot x hdot).symm.trans hdot)
    rw [Option.bind_some, walk_cons]

theorem walk_root (h : ∀ c ∈ ns, c = dot ∨ c = dotdot) : fs.walk fs.root ns = some fs.root := by
  induction ns with
  | nil => rfl
  | cons n ns ih =>
    have hn : fs.lookup fs.root n = some fs.root := by
      rcases h n List.mem_cons_self with rfl | rfl
      · exact fs.lookup_dot _ _ _ fs.root_dotdot
      · exact fs.root_dotdot
    rw [walk_cons, hn]
    exact ih fun c hc => h c (List.mem_cons_of_mem _ hc)

end Names

/-- The paths name the same file, whatever the file system. -/
def SameFile (p q : CStr) : Prop := ∀ (ν : Type) (fs : Names ν), fs.resolve p = fs.resolve q

theorem sameFile_of_components {p q : CStr} (h : components p.chars = components q.chars) : SameFile p q := by
  intro _ fs
  rw [Names.resolve, h]
  rfl

/-! ### Components -/

theorem components_append (a b : List UInt8) : components (a ++ slash :: b) = components a ++ components b := by
  rw [components, List.splitOn_append_cons_self, List.filter_append]
  rfl

@[simp] theorem components_nil : components [] = [] := rfl

theorem components_name {n : List UInt8} (hne : n ≠ []) (hslash : slash ∉ n) : components n = [n] := by
  rw [components, List.splitOn_eq_singleton hslash]
  exact List.filter_cons_of_pos (by simpa using hne)

/-! ### A file system that tells paths apart -/

/-- A ladder: a name leads `m` steps up, and `".."` one step down. -/
def ladder (m : Nat) : Names Nat where
  root := 0
  lookup d n := some (if n = dot then d else if n = dotdot then d - 1 else d + m)
  lookup_dot _ _ _ _ := by simp
  root_dotdot := rfl

/-- Where the names lead on the ladder -/
def climb (m : Nat) (d : Nat) (ns : List (List UInt8)) : Nat :=
  ns.foldl (fun d n => if n = dot then d else if n = dotdot then d - 1 else d + m) d

theorem walk_ladder (m d : Nat) (ns : List (List UInt8)) : (ladder m).walk d ns = some (climb m d ns) :=
  List.foldlM_pure

theorem climb_cons (m d : Nat) (n : List UInt8) (ns : List (List UInt8)) :
    climb m d (n :: ns) = climb m (if n = dot then d else if n = dotdot then d - 1 else d + m) ns := rfl

theorem climb_append (m d : Nat) (ns ms : List (List UInt8)) : climb m d (ns ++ ms) = climb m (climb m d ns) ms :=
  List.foldl_append

theorem le_climb (m d : Nat) (ns : List (List UInt8)) : d ≤ climb m d ns + ns.length := by
  induction ns generalizing d with
  | nil => exact Nat.le_refl d
  | cons n ns ih =>
    have hstep := ih (if n = dot then d else if n = dotdot then d - 1 else d + m)
    rw [climb_cons, List.length_cons]
    split_ifs at hstep ⊢ <;> omega

theorem le_climb_of_mem {m d : Nat} {ns : List (List UInt8)} (h : ∃ n ∈ ns, n ≠ dot ∧ n ≠ dotdot) :
    m ≤ climb m d ns + ns.length := by
  induction ns generalizing d with
  | nil => simp at h
  | cons n ns ih =>
    rw [climb_cons, List.length_cons]
    by_cases hn : n ≠ dot ∧ n ≠ dotdot
    · rw [if_neg hn.1, if_neg hn.2]
      have hle := le_climb m (d + m) ns
      omega
    · obtain ⟨x, hx, hplain⟩ := h
      have hrest : ∃ n ∈ ns, n ≠ dot ∧ n ≠ dotdot := by
        rcases List.mem_cons.mp hx with rfl | hx
        · exact absurd hplain hn
        · exact ⟨x, hx, hplain⟩
      have hle := ih (d := if n = dot then d else if n = dotdot then d - 1 else d + m) hrest
      omega

theorem not_sameFile {p q : CStr} (m : Nat) (h : climb m 0 (components p.chars) ≠ climb m 0 (components q.chars)) :
    ¬ SameFile p q := by
  intro hsame
  have hladder := hsame Nat (ladder m)
  rw [Names.resolve, Names.resolve, walk_ladder, walk_ladder] at hladder
  exact h (Option.some.inj hladder)

/-! ### A name too many -/

variable {p q : CStr} {ns : List (List UInt8)} {n x file : List UInt8}

theorem not_sameFile_insert (hx : x ≠ dot ∧ x ≠ dotdot) (hfile : file ≠ dot ∧ file ≠ dotdot)
    (hp : components p.chars = ns ++ [n, x, file]) (hq : components q.chars = ns ++ [n, file]) : ¬ SameFile p q := by
  refine not_sameFile 1 ?_
  rw [hp, hq, climb_append, climb_append, climb_cons, climb_cons, climb_cons, climb_cons, climb_cons, if_neg hx.1,
    if_neg hx.2, if_neg hfile.1, if_neg hfile.2, if_neg hfile.1, if_neg hfile.2]
  exact Nat.succ_ne_self _

/-- **A name may be given twice** if it is `"."`, or if it is `".."` and leads from the root to the root. -/
theorem sameFile_repeat_iff (hfile : file ≠ dot ∧ file ≠ dotdot) (hp : components p.chars = ns ++ [n, n, file])
    (hq : components q.chars = ns ++ [n, file]) :
    SameFile p q ↔ n = dot ∨ n = dotdot ∧ ∀ c ∈ ns, c = dot ∨ c = dotdot := by
  constructor
  · intro h
    by_cases hdot : n = dot
    · exact Or.inl hdot
    by_cases hdotdot : n = dotdot
    · refine Or.inr ⟨hdotdot, fun c hc => ?_⟩
      by_contra hplain
      rw [not_or] at hplain
      -- from high on the ladder, one step down is not two
      have hne : dotdot ≠ dot := by decide
      have hhigh := le_climb_of_mem (m := ns.length + 2) (d := 0) ⟨c, hc, hplain⟩
      refine not_sameFile (ns.length + 2) ?_ h
      rw [hp, hq, climb_append, climb_append, climb_cons, climb_cons, climb_cons, climb_cons, climb_cons, hdotdot,
        if_neg hne, if_pos rfl, if_neg hne, if_pos rfl, if_neg hfile.1, if_neg hfile.2, if_neg hfile.1, if_neg hfile.2]
      show _ - 1 - 1 + _ ≠ _ - 1 + _
      omega
    · exact absurd h (not_sameFile_insert ⟨hdot, hdotdot⟩ hfile hp hq)
  · rintro (rfl | ⟨rfl, hns⟩) ν fs
    · rw [Names.resolve, Names.resolve, hp, hq, Names.walk_append, Names.walk_append]
      exact congrArg _ (funext fun x => Names.walk_dot_cons)
    · have hroot : ∀ ms, fs.walk fs.root (dotdot :: ms) = fs.walk fs.root ms := fun ms => by
        rw [Names.walk_cons, fs.root_dotdot, Option.bind_some]
      rw [Names.resolve, Names.resolve, hp, hq, Names.walk_append, Names.walk_append, Names.walk_root hns,
        Option.bind_some, Option.bind_some, hroot]

end Path
