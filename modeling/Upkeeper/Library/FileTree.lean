import Mathlib.Data.Finset.Image
import Mathlib.Data.List.Iterate
import Upkeeper.Library.Names
/-!
# A tree of files that are removed

The state of a `FileSystem` is the set of its entries, a directory with a name each. Entries are only removed here, so
what an entry stands for does not change, and a path leads where it led before or nowhere (`stat_mono`). What a symbolic
link leads to is left to the file system: all that is known is that a removal can only break it. `unlink` and `rmdir` keep
the entries `WellFormed`, a tree without loose parts. `prune es x` is what is left of the entries without those below `x`.
-/

namespace FileTree

open Path (dot dotdot slash components)

/-- A name in a directory -/
abbrev Name := List UInt8

inductive Kind
  | file
  | dir
  | link
  deriving DecidableEq

/-- An entry: a directory, and a name in it -/
abbrev DirEntry (ι : Type) := ι × Name

/-- A name that is no path of its own -/
structure Proper (n : Name) : Prop where
  nonempty : n ≠ []
  noSlash : slash ∉ n
  notDot : n ≠ dot
  notDotdot : n ≠ dotdot

theorem components_child (path : List UInt8) {n : Name} (hn : Proper n) :
    components (path ++ slash :: n) = components path ++ [n] := by
  rw [Path.components_append, Path.components_name hn.nonempty hn.noSlash]

/-- What does not change: the kinds of the files, what each entry stands for, and where each directory is. -/
structure FileSystem (ι : Type) where
  kind : ι → Kind
  node : DirEntry ι → ι
  parent : ι → ι
  depth : ι → Nat
  root : ι
  cwd : ι
  /-- What a symbolic link leads to, by way of these entries -/
  follow : Finset (DirEntry ι) → ι → Option ι
  depth_root : depth root = 0
  depth_parent : ∀ x, depth (parent x) = depth x - 1
  follow_mono : ∀ es es' x, es' ⊆ es → follow es' x = none ∨ follow es' x = follow es x

namespace FileSystem

variable {ι : Type} (fs : FileSystem ι)

/-- Where a path starts -/
def start (path : List UInt8) : ι := if path.head? = some slash then fs.root else fs.cwd

/-! ### Trees -/

/-- The entries are those of a tree: each directory but the root is an entry of its parent, and of no other. -/
structure WellFormed (es : Finset (DirEntry ι)) : Prop where
  proper : ∀ e ∈ es, Proper e.2
  dir : ∀ e ∈ es, fs.kind e.1 = .dir
  linked : ∀ e ∈ es, e.1 = fs.root ∨ ∃ e' ∈ es, fs.node e' = e.1
  child : ∀ e ∈ es, fs.kind (fs.node e) = .dir → fs.parent (fs.node e) = e.1 ∧ fs.depth (fs.node e) = fs.depth e.1 + 1
  unique : ∀ e ∈ es, ∀ e' ∈ es, fs.kind (fs.node e) = .dir → fs.node e' = fs.node e → e' = e

/-- `c` is a directory in `x`. -/
structure Child (x c : ι) : Prop where
  parent : fs.parent c = x
  depth : fs.depth c = fs.depth x + 1

/-- `y` is `x`, or somewhere below it. -/
def Below (x y : ι) : Prop := x ∈ List.iterate fs.parent y (fs.depth y + 1)

variable {fs} {es es' : Finset (DirEntry ι)} {c d x y : ι} {n : Name} {e : DirEntry ι} {path : List UInt8}

theorem start_child (hpath : path ≠ []) (n : Name) : fs.start (path ++ slash :: n) = fs.start path := by
  unfold start
  rw [List.head?_append_of_ne_nil path hpath]

theorem below_iff : fs.Below x y ↔ ∃ k ≤ fs.depth y, fs.parent^[k] y = x := by
  rw [Below, List.mem_iterate]
  simp only [Nat.lt_succ_iff, eq_comm (a := x)]

theorem below_refl (x : ι) : fs.Below x x := below_iff.mpr ⟨0, Nat.zero_le _, rfl⟩

theorem depth_iterate (k : Nat) (y : ι) : fs.depth (fs.parent^[k] y) = fs.depth y - k := by
  induction k generalizing y with
  | zero => rfl
  | succ k ih => rw [Function.iterate_succ_apply, ih, fs.depth_parent, Nat.sub_sub, Nat.add_comm 1 k]

theorem Below.depth_le (h : fs.Below x y) : fs.depth x ≤ fs.depth y := by
  obtain ⟨k, -, rfl⟩ := below_iff.mp h
  rw [depth_iterate]
  exact Nat.sub_le _ _

theorem Child.not_below (h : fs.Child x c) : ¬ fs.Below c x := fun hbelow => by
  have hle := hbelow.depth_le
  have hdepth := h.depth
  omega

theorem Child.below (h : fs.Child x c) (hbelow : fs.Below c y) : fs.Below x y := by
  obtain ⟨k, hk, rfl⟩ := below_iff.mp hbelow
  have hdepth := h.depth
  rw [depth_iterate] at hdepth
  refine below_iff.mpr ⟨k + 1, by omega, ?_⟩
  rw [Function.iterate_succ_apply', h.parent]

theorem Child.below_of_below (h : fs.Child y c) (hbelow : fs.Below x y) : fs.Below x c := by
  obtain ⟨k, hk, rfl⟩ := below_iff.mp hbelow
  have hdepth := h.depth
  refine below_iff.mpr ⟨k + 1, by omega, ?_⟩
  rw [Function.iterate_succ_apply, h.parent]

theorem Child.eq_of_below {c' : ι} (hc : fs.Child d c) (hc' : fs.Child d c') (hbelow : fs.Below c y)
    (hbelow' : fs.Below c' y) : c = c' := by
  obtain ⟨k, hk, rfl⟩ := below_iff.mp hbelow
  obtain ⟨k', hk', rfl⟩ := below_iff.mp hbelow'
  have hdepth := hc.depth
  have hdepth' := hc'.depth
  rw [depth_iterate] at hdepth hdepth'
  obtain rfl : k = k' := by omega
  rfl

theorem WellFormed.childOf (h : fs.WellFormed es) (hmem : e ∈ es) (hdir : fs.kind (fs.node e) = .dir) :
    fs.Child e.1 (fs.node e) := ⟨(h.child e hmem hdir).1, (h.child e hmem hdir).2⟩

theorem WellFormed.mem_of_entry (h : fs.WellFormed es) (h' : fs.WellFormed es') (hsub : es' ⊆ es) (hmem : e ∈ es)
    (hdir : fs.kind (fs.node e) = .dir) (hn : (fs.node e, n) ∈ es') : e ∈ es' := by
  rcases h'.linked _ hn with hroot | ⟨a, ha, hnode⟩
  · have hdepth := (h.childOf hmem hdir).depth
    rw [show fs.node e = fs.root from hroot, fs.depth_root] at hdepth
    omega
  · rwa [← h.unique e hmem a (hsub ha) hdir hnode]

theorem WellFormed.below_split (h : fs.WellFormed es) (hmem : e ∈ es) (hbelow : fs.Below x e.1) (hne : e.1 ≠ x) :
    ∃ n, (x, n) ∈ es ∧ fs.kind (fs.node (x, n)) = .dir ∧ fs.Below (fs.node (x, n)) e.1 := by
  obtain ⟨k, hk, hx⟩ := below_iff.mp hbelow
  clear hbelow
  induction k generalizing e with
  | zero => exact absurd hx hne
  | succ k ih =>
    rcases h.linked e hmem with hroot | ⟨a, ha, hnode⟩
    · rw [hroot, fs.depth_root] at hk
      exact absurd hk (Nat.not_succ_le_zero k)
    · have hdir : fs.kind (fs.node a) = .dir := hnode ▸ h.dir e hmem
      have hchild := h.childOf ha hdir
      rw [hnode] at hchild
      by_cases hax : a.1 = x
      · obtain ⟨d, n⟩ := a
        obtain rfl : d = x := hax
        exact ⟨n, ha, hdir, hnode ▸ below_refl _⟩
      · rw [Function.iterate_succ_apply, hchild.parent] at hx
        have hk' : k ≤ fs.depth a.1 := by
          have hdepth := hchild.depth
          omega
        obtain ⟨n, hn, hkind, hb⟩ := ih ha hax hk' hx
        exact ⟨n, hn, hkind, hchild.below_of_below hb⟩

theorem WellFormed.dir_of_below (h : fs.WellFormed es) (hmem : e ∈ es) (hbelow : fs.Below x e.1) :
    fs.kind x = .dir := by
  by_cases hex : e.1 = x
  · exact hex ▸ h.dir e hmem
  · obtain ⟨n, hn, -⟩ := h.below_split hmem hbelow hex
    exact h.dir _ hn

/-! ### System calls -/

variable (fs) in
/-- What is found where a name stands for `x`: links are followed. -/
def target (es : Finset (DirEntry ι)) (x : ι) : Option ι := if fs.kind x = .link then fs.follow es x else some x

theorem target_dir (es : Finset (DirEntry ι)) (h : fs.kind x = .dir) : fs.target es x = some x :=
  if_neg (by rw [h]; decide)

theorem target_mono (h : es' ⊆ es) (x : ι) : fs.target es' x = none ∨ fs.target es' x = fs.target es x := by
  unfold target
  split_ifs
  · exact fs.follow_mono es es' x h
  · exact Or.inr rfl

variable [DecidableEq ι]

variable (fs) in
/-- What a name leads to from a directory -/
def step (es : Finset (DirEntry ι)) (d : ι) (n : Name) : Option ι :=
  if fs.kind d ≠ .dir then none
  else if n = dot then some d
  else if n = dotdot then some (fs.parent d)
  else if (d, n) ∈ es then fs.target es (fs.node (d, n))
  else none

variable (fs) in
/-- `stat`: what the path leads to. The empty path leads nowhere. -/
def stat (es : Finset (DirEntry ι)) (path : List UInt8) : Option ι :=
  if path = [] then none else (components path).foldlM (fs.step es) (fs.start path)

variable (fs) in
/-- The entry that the last name of a path stands for, which is not followed -/
def lastEntry (es : Finset (DirEntry ι)) (path : List UInt8) : Option (DirEntry ι) := do
  let n ← (components path).getLast?
  let d ← (components path).dropLast.foldlM (fs.step es) (fs.start path)
  if (d, n) ∈ es then some (d, n) else none

/-- The names in a directory -/
def names (es : Finset (DirEntry ι)) (d : ι) : Finset Name := (es.filter fun e => e.1 = d).image Prod.snd

variable (fs) in
/-- `opendir`, with the names that `readdir` is going to yield -/
def opendir (es : Finset (DirEntry ι)) (path : List UInt8) : Option (Finset Name) := do
  let d ← fs.stat es path
  if fs.kind d = .dir then some (names es d) else none

variable (fs) in
/-- `unlink`, of what is no directory -/
def unlink (es : Finset (DirEntry ι)) (path : List UInt8) : Option (Finset (DirEntry ι)) := do
  let e ← fs.lastEntry es path
  if fs.kind (fs.node e) = .dir then none else some (es.erase e)

variable (fs) in
/-- `rmdir`, of an empty directory -/
def rmdir (es : Finset (DirEntry ι)) (path : List UInt8) : Option (Finset (DirEntry ι)) := do
  let e ← fs.lastEntry es path
  if fs.kind (fs.node e) = .dir ∧ names es (fs.node e) = ∅ then some (es.erase e) else none

@[simp] theorem mem_names : n ∈ names es d ↔ (d, n) ∈ es := by
  simp [names]

theorem dir_of_step (h : fs.step es d n = some x) : fs.kind d = .dir := by
  by_contra hd
  rw [step, if_pos hd] at h
  cases h

theorem step_of_mem (h : fs.WellFormed es) (hmem : (d, n) ∈ es) :
    fs.step es d n = fs.target es (fs.node (d, n)) := by
  have hproper := h.proper _ hmem
  rw [step, if_neg (not_not.mpr (h.dir _ hmem)), if_neg hproper.notDot, if_neg hproper.notDotdot, if_pos hmem]

theorem step_of_notMem (hn : Proper n) (hmem : (d, n) ∉ es) : fs.step es d n = none := by
  unfold step
  rw [if_neg hn.notDot, if_neg hn.notDotdot, if_neg hmem, ite_self]

theorem stat_of_ne_nil (es : Finset (DirEntry ι)) (hpath : path ≠ []) :
    fs.stat es path = (components path).foldlM (fs.step es) (fs.start path) := if_neg hpath

theorem stat_child (es : Finset (DirEntry ι)) (hpath : path ≠ []) (hn : Proper n) :
    fs.stat es (path ++ slash :: n) = (fs.stat es path).bind fun d => fs.step es d n := by
  rw [stat_of_ne_nil es (List.append_ne_nil_of_left_ne_nil hpath _), stat_of_ne_nil es hpath, components_child path hn,
    start_child hpath, List.foldlM_append]
  refine congrArg _ (funext fun d => ?_)
  rw [List.foldlM_cons]
  cases fs.step es d n <;> rfl

theorem opendir_eq_some {ns : Finset Name} : fs.opendir es path = some ns ↔
    ∃ d, fs.stat es path = some d ∧ fs.kind d = .dir ∧ ns = names es d := by
  simp only [opendir, Option.bind_eq_bind, Option.bind_eq_some_iff, Option.ite_none_right_eq_some, Option.some.injEq,
    eq_comm (a := ns)]

theorem opendir_slash (es : Finset (DirEntry ι)) (hpath : path ≠ []) :
    fs.opendir es (path ++ [slash]) = fs.opendir es path := by
  rw [opendir, opendir, stat_of_ne_nil es (List.append_ne_nil_of_left_ne_nil hpath _), stat_of_ne_nil es hpath,
    start_child hpath, Path.components_append, Path.components_nil, List.append_nil]

theorem lastEntry_slash (es : Finset (DirEntry ι)) (hpath : path ≠ []) :
    fs.lastEntry es (path ++ [slash]) = fs.lastEntry es path := by
  rw [lastEntry, lastEntry, start_child hpath, Path.components_append, Path.components_nil, List.append_nil]

theorem lastEntry_child (es : Finset (DirEntry ι)) (hpath : path ≠ []) (hn : Proper n) :
    fs.lastEntry es (path ++ slash :: n) =
      (fs.stat es path).bind fun d => if (d, n) ∈ es then some (d, n) else none := by
  rw [lastEntry, components_child path hn, List.getLast?_concat, List.dropLast_concat, start_child hpath,
    stat_of_ne_nil es hpath]
  rfl

theorem lastEntry_eq_some : fs.lastEntry es path = some e ↔
    ∃ ns d n, components path = ns ++ [n] ∧ ns.foldlM (fs.step es) (fs.start path) = some d ∧ (d, n) ∈ es ∧ e = (d, n) := by
  rcases List.eq_nil_or_concat' (components path) with hnil | ⟨ns, n, hns⟩
  · simp [lastEntry, hnil]
  · simp only [lastEntry, hns, List.getLast?_concat, List.dropLast_concat, Option.bind_eq_bind, Option.bind_some,
      Option.bind_eq_some_iff, Option.ite_none_right_eq_some, Option.some.injEq]
    constructor
    · rintro ⟨d, hd, hmem, rfl⟩
      exact ⟨ns, d, n, rfl, hd, hmem, rfl⟩
    · rintro ⟨ns', d, n', heq, hd, hmem, rfl⟩
      obtain ⟨rfl, hn⟩ := List.append_inj' heq rfl
      obtain rfl := List.singleton_inj.mp hn
      exact ⟨d, hd, hmem, rfl⟩

theorem WellFormed.stat_of_lastEntry (h : fs.WellFormed es) (hlast : fs.lastEntry es path = some e) :
    fs.stat es path = fs.target es (fs.node e) := by
  obtain ⟨ns, d, n, hns, hd, hmem, rfl⟩ := lastEntry_eq_some.mp hlast
  have hpath : path ≠ [] := by
    rintro rfl
    cases hlast
  rw [stat_of_ne_nil es hpath, hns, List.foldlM_append, hd]
  show (fs.step es d n >>= fun x => pure x) = _
  rw [step_of_mem h hmem]
  exact bind_pure _

theorem mem_of_lastEntry (hlast : fs.lastEntry es path = some e) : e ∈ es := by
  obtain ⟨-, d, n, -, -, hmem, rfl⟩ := lastEntry_eq_some.mp hlast
  exact hmem

theorem unlink_eq_some {out : Finset (DirEntry ι)} : fs.unlink es path = some out ↔
    ∃ e, fs.lastEntry es path = some e ∧ fs.kind (fs.node e) ≠ .dir ∧ out = es.erase e := by
  simp only [unlink, Option.bind_eq_bind, Option.bind_eq_some_iff, Option.ite_none_left_eq_some, Option.some.injEq,
    eq_comm (a := out), Ne]

theorem rmdir_eq_some {out : Finset (DirEntry ι)} : fs.rmdir es path = some out ↔
    ∃ e, fs.lastEntry es path = some e ∧ fs.kind (fs.node e) = .dir ∧ names es (fs.node e) = ∅ ∧ out = es.erase e := by
  simp only [rmdir, Option.bind_eq_bind, Option.bind_eq_some_iff, Option.ite_none_right_eq_some, Option.some.injEq,
    eq_comm (a := out), and_assoc]

/-! ### Fewer entries -/

variable (fs) in
theorem step_mono (h : es' ⊆ es) (d : ι) (n : Name) : fs.step es' d n = none ∨ fs.step es' d n = fs.step es d n := by
  unfold step
  by_cases hmem : (d, n) ∈ es'
  · rw [if_pos hmem, if_pos (h hmem)]
    split_ifs
    · exact Or.inr rfl
    · exact Or.inr rfl
    · exact Or.inr rfl
    · exact target_mono h _
  · rw [if_neg hmem]
    split_ifs
    · exact Or.inr rfl
    · exact Or.inr rfl
    · exact Or.inr rfl
    · exact Or.inl rfl
    · exact Or.inl rfl

variable (fs) in
theorem walk_mono (h : es' ⊆ es) (d : ι) (ns : List Name) :
    ns.foldlM (fs.step es') d = none ∨ ns.foldlM (fs.step es') d = ns.foldlM (fs.step es) d := by
  induction ns generalizing d with
  | nil => exact Or.inr rfl
  | cons n ns ih =>
    rw [List.foldlM_cons, List.foldlM_cons]
    rcases step_mono fs h d n with hs | hs
    · exact Or.inl (by rw [hs]; rfl)
    · rw [hs]
      cases fs.step es d n with
      | none => exact Or.inl rfl
      | some x => exact ih x

variable (fs) in
/-- **A path leads where it led before, or nowhere.** -/
theorem stat_mono (h : es' ⊆ es) (path : List UInt8) : fs.stat es' path = none ∨ fs.stat es' path = fs.stat es path := by
  unfold stat
  split_ifs
  · exact Or.inl rfl
  · exact walk_mono fs h _ _

theorem stat_of_subset (h : es' ⊆ es) (hstat : fs.stat es' path = some x) : fs.stat es path = some x := by
  rcases stat_mono fs h path with hs | hs
  · rw [hs] at hstat
    cases hstat
  · rw [← hs, hstat]

theorem lastEntry_of_subset (h : es' ⊆ es) (hlast : fs.lastEntry es' path = some e) :
    fs.lastEntry es path = some e := by
  obtain ⟨ns, d, n, hns, hd, hmem, rfl⟩ := lastEntry_eq_some.mp hlast
  refine lastEntry_eq_some.mpr ⟨ns, d, n, hns, ?_, h hmem, rfl⟩
  rcases walk_mono fs h (fs.start path) ns with hw | hw
  · rw [hw] at hd
    cases hd
  · rw [← hw, hd]

variable (fs) in
/-- The path leads to `x`, if anywhere. -/
def LeadsTo (es : Finset (DirEntry ι)) (path : List UInt8) (x : ι) : Prop := ∀ y, fs.stat es path = some y → y = x

theorem leadsTo_of_stat (h : fs.stat es path = some x) : fs.LeadsTo es path x :=
  fun _ hy => (Option.some.inj (h.symm.trans hy)).symm

theorem LeadsTo.mono (h : fs.LeadsTo es path x) (hsub : es' ⊆ es) : fs.LeadsTo es' path x :=
  fun y hy => h y (stat_of_subset hsub hy)

theorem WellFormed.erase (h : fs.WellFormed es) (he : fs.kind (fs.node e) = .dir → names es (fs.node e) = ∅) :
    fs.WellFormed (es.erase e) where
  proper a ha := h.proper a (Finset.mem_of_mem_erase ha)
  dir a ha := h.dir a (Finset.mem_of_mem_erase ha)
  linked a ha := by
    have hmem := Finset.mem_of_mem_erase ha
    refine (h.linked a hmem).imp_right ?_
    rintro ⟨b, hb, hnode⟩
    refine ⟨b, Finset.mem_erase.mpr ⟨?_, hb⟩, hnode⟩
    rintro rfl
    have hname : a.2 ∈ names es (fs.node b) := mem_names.mpr (hnode ▸ hmem)
    rw [he (hnode ▸ h.dir a hmem)] at hname
    cases hname
  child a ha := h.child a (Finset.mem_of_mem_erase ha)
  unique a ha b hb := h.unique a (Finset.mem_of_mem_erase ha) b (Finset.mem_of_mem_erase hb)

theorem WellFormed.unlink {out : Finset (DirEntry ι)} (h : fs.WellFormed es) (hout : fs.unlink es path = some out) :
    out ⊆ es ∧ fs.WellFormed out := by
  obtain ⟨e, -, hkind, rfl⟩ := unlink_eq_some.mp hout
  exact ⟨Finset.erase_subset _ _, h.erase fun hdir => absurd hdir hkind⟩

theorem WellFormed.rmdir {out : Finset (DirEntry ι)} (h : fs.WellFormed es) (hout : fs.rmdir es path = some out) :
    out ⊆ es ∧ fs.WellFormed out := by
  obtain ⟨e, -, -, hempty, rfl⟩ := rmdir_eq_some.mp hout
  exact ⟨Finset.erase_subset _ _, h.erase fun _ => hempty⟩

/-! ### Whole directories -/

instance (x y : ι) : Decidable (fs.Below x y) := inferInstanceAs (Decidable (_ ∈ _))

variable (fs) in
/-- The entries without those of the directories below `x` -/
def prune (es : Finset (DirEntry ι)) (x : ι) : Finset (DirEntry ι) := es.filter fun e => ¬ fs.Below x e.1

variable (fs) in
/-- The entries without this one, and without those below it -/
def clearEntry (es : Finset (DirEntry ι)) (e : DirEntry ι) : Finset (DirEntry ι) :=
  (if fs.kind (fs.node e) = .dir then fs.prune es (fs.node e) else es).erase e

variable (fs) in
/-- The entries without those of this name in `d`, and without those below them -/
def clear (es : Finset (DirEntry ι)) (d : ι) (ns : List Name) : Finset (DirEntry ι) :=
  ns.foldl (fun es n => if (d, n) ∈ es then fs.clearEntry es (d, n) else es) es

@[simp] theorem mem_prune : e ∈ fs.prune es x ↔ e ∈ es ∧ ¬ fs.Below x e.1 := Finset.mem_filter

theorem mem_clearEntry {a : DirEntry ι} : a ∈ fs.clearEntry es e ↔
    a ∈ es ∧ a ≠ e ∧ ¬ (fs.kind (fs.node e) = .dir ∧ fs.Below (fs.node e) a.1) := by
  unfold clearEntry
  split_ifs with hdir
  · simp only [Finset.mem_erase, mem_prune, hdir, true_and]
    tauto
  · simp only [Finset.mem_erase, hdir, false_and, not_false_eq_true, and_true]
    tauto

theorem clearEntry_subset : fs.clearEntry es e ⊆ es := fun _ ha => (mem_clearEntry.mp ha).1

theorem names_prune (es : Finset (DirEntry ι)) (x : ι) : names (fs.prune es x) x = ∅ := by
  ext n
  simp [below_refl]

theorem WellFormed.prune (h : fs.WellFormed es) (x : ι) : fs.WellFormed (fs.prune es x) where
  proper a ha := h.proper a (mem_prune.mp ha).1
  dir a ha := h.dir a (mem_prune.mp ha).1
  linked a ha := by
    obtain ⟨hmem, hnot⟩ := mem_prune.mp ha
    refine (h.linked a hmem).imp_right ?_
    rintro ⟨b, hb, hnode⟩
    have hchild := h.childOf hb (hnode ▸ h.dir a hmem)
    rw [hnode] at hchild
    exact ⟨b, mem_prune.mpr ⟨hb, fun hbelow => hnot (hchild.below_of_below hbelow)⟩, hnode⟩
  child a ha := h.child a (mem_prune.mp ha).1
  unique a ha b hb := h.unique a (mem_prune.mp ha).1 b (mem_prune.mp hb).1

theorem WellFormed.clearEntry (h : fs.WellFormed es) (e : DirEntry ι) : fs.WellFormed (fs.clearEntry es e) := by
  unfold FileSystem.clearEntry
  split_ifs with hdir
  · exact (h.prune _).erase fun _ => names_prune es _
  · exact h.erase fun hdir' => absurd hdir' hdir

theorem WellFormed.mem_clearEntry_of_ne (h : fs.WellFormed es) (hmem : (d, n) ∈ es) {m : Name} (hne : m ≠ n) :
    (d, m) ∈ fs.clearEntry es (d, n) ↔ (d, m) ∈ es := by
  rw [mem_clearEntry]
  refine and_iff_left ⟨fun heq => hne (congrArg Prod.snd heq), ?_⟩
  rintro ⟨hdir, hbelow⟩
  exact (h.childOf hmem hdir).not_below hbelow

theorem WellFormed.prune_clearEntry (h : fs.WellFormed es) (hmem : (d, n) ∈ es) :
    fs.prune (fs.clearEntry es (d, n)) d = fs.prune es d := by
  ext a
  rw [mem_prune, mem_prune, mem_clearEntry]
  constructor
  · rintro ⟨⟨ha, -, -⟩, hnot⟩
    exact ⟨ha, hnot⟩
  · rintro ⟨ha, hnot⟩
    refine ⟨⟨ha, ?_, ?_⟩, hnot⟩
    · rintro rfl
      exact hnot (below_refl d)
    · rintro ⟨hdir, hbelow⟩
      exact hnot ((h.childOf hmem hdir).below hbelow)

/-- **A directory whose names have all been cleared is pruned.** -/
theorem WellFormed.clear_eq_prune {ns : List Name} (h : fs.WellFormed es) (hns : ∀ n, (d, n) ∈ es → n ∈ ns) :
    fs.clear es d ns = fs.prune es d := by
  induction ns generalizing es with
  | nil =>
    refine (Finset.filter_true_of_mem fun e he hbelow => ?_).symm
    by_cases heq : e.1 = d
    · exact List.not_mem_nil (hns e.2 (heq ▸ he))
    · obtain ⟨n, hn, -⟩ := h.below_split he hbelow heq
      exact List.not_mem_nil (hns n hn)
  | cons n ns ih =>
    rw [clear, List.foldl_cons]
    by_cases hmem : (d, n) ∈ es
    · rw [if_pos hmem, ← h.prune_clearEntry hmem]
      refine ih (h.clearEntry _) fun m hm => ?_
      obtain ⟨hm, hne, -⟩ := mem_clearEntry.mp hm
      exact (List.mem_cons.mp (hns m hm)).resolve_left fun heq => hne (by rw [heq])
    · rw [if_neg hmem]
      refine ih h fun m hm => ?_
      exact (List.mem_cons.mp (hns m hm)).resolve_left fun heq => hmem (heq ▸ hm)

/-! ### Removals within a directory -/

variable (fs) in
/-- Nothing but what is below `x` has been removed. -/
structure Within (es : Finset (DirEntry ι)) (x : ι) (es' : Finset (DirEntry ι)) : Prop where
  sub : es' ⊆ es
  keep : fs.prune es x ⊆ es'
  wf : fs.WellFormed es'

theorem WellFormed.within (h : fs.WellFormed es) (x : ι) : fs.Within es x es :=
  ⟨Finset.Subset.refl _, Finset.filter_subset _ _, h⟩

theorem Within.prune_eq (h : fs.Within es x es') : fs.prune es' x = fs.prune es x := by
  ext a
  rw [mem_prune, mem_prune]
  exact ⟨fun ha => ⟨h.sub ha.1, ha.2⟩, fun ha => ⟨h.keep (mem_prune.mpr ha), ha.2⟩⟩

theorem Within.stat (h : fs.Within es x es') (hstat : fs.stat (fs.prune es x) path = some y) :
    fs.stat es' path = some y :=
  stat_of_subset h.keep hstat

theorem Within.clearEntry_eq (h : fs.Within es (fs.node e) es') (hdir : fs.kind (fs.node e) = .dir) :
    fs.clearEntry es' e = fs.clearEntry es e := by
  rw [clearEntry, clearEntry, if_pos hdir, if_pos hdir, h.prune_eq]

theorem Within.erase (h : fs.Within es x es') (hbelow : fs.Below x e.1)
    (hempty : fs.kind (fs.node e) = .dir → names es' (fs.node e) = ∅) : fs.Within es x (es'.erase e) := by
  refine ⟨(Finset.erase_subset _ _).trans h.sub, fun a ha => Finset.mem_erase.mpr ⟨?_, h.keep ha⟩, h.wf.erase hempty⟩
  rintro rfl
  exact (mem_prune.mp ha).2 hbelow

theorem Within.unlink (h : fs.Within es x es') (hpath : ∀ a, fs.lastEntry es' path = some a → fs.Below x a.1) :
    fs.Within es x ((fs.unlink es' path).getD es') := by
  cases hout : fs.unlink es' path with
  | none => exact h
  | some out =>
    obtain ⟨a, hlast, hkind, rfl⟩ := unlink_eq_some.mp hout
    exact h.erase (hpath a hlast) fun hdir => absurd hdir hkind

theorem Within.rmdir (h : fs.Within es x es') (hpath : ∀ a, fs.lastEntry es' path = some a → fs.Below x a.1) :
    fs.Within es x ((fs.rmdir es' path).getD es') := by
  cases hout : fs.rmdir es' path with
  | none => exact h
  | some out =>
    obtain ⟨a, hlast, -, hempty, rfl⟩ := rmdir_eq_some.mp hout
    exact h.erase (hpath a hlast) fun _ => hempty

theorem Within.eq_prune_of_empty (h : fs.Within es x es') (hempty : names es' x = ∅) : es' = fs.prune es x := by
  refine Finset.Subset.antisymm (fun a ha => mem_prune.mpr ⟨h.sub ha, fun hbelow => ?_⟩) h.keep
  have hno (n : Name) (hn : (x, n) ∈ es') : False := by
    have hname : n ∈ names es' x := mem_names.mpr hn
    rw [hempty] at hname
    cases hname
  by_cases hax : a.1 = x
  · exact hno a.2 (hax ▸ ha)
  · obtain ⟨n, hn, -⟩ := h.wf.below_split ha hbelow hax
    exact hno n hn

theorem WellFormed.stat_erase (h : fs.WellFormed es) (hlast : fs.lastEntry es path = some e) :
    fs.stat (es.erase e) path = none := by
  obtain ⟨ns, d, n, hns, hd, hmem, rfl⟩ := lastEntry_eq_some.mp hlast
  have hpath : path ≠ [] := by
    rintro rfl
    cases hlast
  rw [stat_of_ne_nil _ hpath, hns, List.foldlM_append]
  have hstep : fs.step (es.erase (d, n)) d n = none := step_of_notMem (h.proper _ hmem) (Finset.notMem_erase _ _)
  rcases walk_mono fs (Finset.erase_subset (d, n) es) (fs.start path) ns with hnone | hsame
  · rw [hnone]
    rfl
  · rw [hsame, hd]
    show (fs.step (es.erase (d, n)) d n >>= fun x => pure x) = none
    rw [hstep]
    rfl

end FileSystem

end FileTree
