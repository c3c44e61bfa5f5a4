import Mathlib.Data.Finset.Sort
import Mathlib.Data.List.Lex
import Upkeeper.Config.Types
import Upkeeper.Library.FileTree
/-!
# Removing directories (`upk_util.c`: `upk_rm_rf`)

`upk_rm_rf` goes by what `stat` says of an entry, which follows symbolic links, and when `stat` fails, by what it said
of the entry before. A link that is taken for a directory is not removed, then, and if it leads to one, that directory
is emptied, wherever it is. So a directory is removed with nothing else exactly if no link comes up that is taken for a
directory, all paths fit, and the path does not lead through the directory itself (`upkRmRf_iff`).
-/

namespace Upkeeper

open FileTree (Name DirEntry Proper FileSystem)
open Path (dot dotdot)

/-- What the calls of `upk_rm_rf` find: the order in which `readdir` yields the names, and whether the buffer for `stat`
is that of a directory before its first use -/
structure Reading where
  readdir : List UInt8 → Finset Name → List Name
  uninit : List UInt8 → Bool
  nodup : ∀ path ns, (readdir path ns).Nodup
  mem : ∀ path ns, ∀ n ∈ ns, n ∈ readdir path ns
  sub : ∀ path ns, ∀ n ∈ readdir path ns, n ∈ ns ∨ n = dot ∨ n = dotdot

/-- The variables of a call: `count`, `S_ISDIR(s.st_mode)`, and the file system -/
structure RmRun (ι : Type) where
  count : Nat
  isDir : Bool
  es : Finset (DirEntry ι)

/-- The text of a path with another name -/
def childPath (path : List UInt8) (n : Name) : List UInt8 := path ++ Path.slash :: n

section

variable {ι : Type} (fs : FileSystem ι) (rd : Reading)

/-- `S_ISDIR(s.st_mode)` after a `stat`, which leaves the buffer as it was if it finds nothing -/
def isDirAfter (found : Option ι) (before : Bool) : Bool :=
  (found.map fun x => decide (fs.kind x = .dir)).getD before

theorem isDirAfter_some (x : ι) (b : Bool) : isDirAfter fs (some x) b = decide (fs.kind x = .dir) := rfl

variable [DecidableEq ι]

/-- The body of the loop, where `rmRf` is the call for a directory -/
def rmRfEntry (rmRf : List UInt8 → Finset (DirEntry ι) → Option (Nat × Finset (DirEntry ι))) (startPath : List UInt8)
    (r : RmRun ι) (name : Name) : Option (RmRun ι) :=
  if name = dot ∨ name = dotdot then some r
  else
    let fpath := childPath startPath name
    if upkMaxPathLen ≤ fpath.length then none
    else
      let isDir := isDirAfter fs (fs.stat r.es fpath) r.isDir
      if isDir then do
        let (count, es) ← rmRf fpath r.es
        some ⟨r.count + count, isDir, es⟩
      else
        match fs.unlink r.es fpath with
        | some es => some ⟨r.count + 1, isDir, es⟩
        | none => some ⟨r.count, isDir, r.es⟩

/-- `upk_rm_rf`. Running out of `fuel`, the depth of the recursion, is `none`, and so is a path that does not fit into
`fpath`. -/
def upkRmRf : Nat → List UInt8 → Finset (DirEntry ι) → Option (Nat × Finset (DirEntry ι))
  | 0, _, _ => none
  | fuel + 1, startPath, es =>
    if startPath = [] then some (0, es)
    else if upkMaxPathLen ≤ startPath.length + 1 then none
    else
      match fs.opendir es (childPath startPath []) with
      | none => some (0, es)
      | some names => do
        let r ← (rd.readdir startPath names).foldlM (rmRfEntry fs (upkRmRf fuel) startPath) ⟨0, rd.uninit startPath, es⟩
        match fs.rmdir r.es startPath with
        | some es => some (r.count + 1, es)
        | none => some (r.count, r.es)

/-! ### What a step and a call do -/

/-- What the body of the loop does with a name -/
inductive RmStep (rmRf : List UInt8 → Finset (DirEntry ι) → Option (Nat × Finset (DirEntry ι))) (path : List UInt8)
    (r : RmRun ι) (n : Name) : RmRun ι → Prop
  | dots (hn : n = dot ∨ n = dotdot) : RmStep rmRf path r n r
  | dir {count : Nat} {es : Finset (DirEntry ι)} (hn : ¬ (n = dot ∨ n = dotdot))
      (fits : (childPath path n).length < upkMaxPathLen)
      (isDir : isDirAfter fs (fs.stat r.es (childPath path n)) r.isDir = true)
      (call : rmRf (childPath path n) r.es = some (count, es)) :
      RmStep rmRf path r n ⟨r.count + count, true, es⟩
  | unlinked {es : Finset (DirEntry ι)} (hn : ¬ (n = dot ∨ n = dotdot))
      (fits : (childPath path n).length < upkMaxPathLen)
      (isDir : isDirAfter fs (fs.stat r.es (childPath path n)) r.isDir = false)
      (unlink : fs.unlink r.es (childPath path n) = some es) : RmStep rmRf path r n ⟨r.count + 1, false, es⟩
  | kept (hn : ¬ (n = dot ∨ n = dotdot)) (fits : (childPath path n).length < upkMaxPathLen)
      (isDir : isDirAfter fs (fs.stat r.es (childPath path n)) r.isDir = false)
      (unlink : fs.unlink r.es (childPath path n) = none) : RmStep rmRf path r n ⟨r.count, false, r.es⟩

variable {fs rd} {rmRf : List UInt8 → Finset (DirEntry ι) → Option (Nat × Finset (DirEntry ι))} {path : List UInt8}
  {es out : Finset (DirEntry ι)} {r r' : RmRun ι} {n : Name} {count fuel : Nat}

theorem rmRfEntry_cases (h : rmRfEntry fs rmRf path r n = some r') : RmStep fs rmRf path r n r' := by
  simp only [rmRfEntry] at h
  split_ifs at h with hdots hlen hdir
  · obtain rfl := Option.some.inj h
    exact .dots hdots
  · obtain ⟨⟨count, es⟩, hcall, heq⟩ := Option.bind_eq_some_iff.mp h
    obtain rfl := Option.some.inj heq
    rw [hdir]
    exact .dir hdots (not_le.mp hlen) hdir hcall
  · rw [Bool.not_eq_true] at hdir
    rw [hdir] at h
    cases hunlink : fs.unlink r.es (childPath path n) with
    | some es =>
      rw [hunlink] at h
      obtain rfl := Option.some.inj h
      exact .unlinked hdots (not_le.mp hlen) hdir hunlink
    | none =>
      rw [hunlink] at h
      obtain rfl := Option.some.inj h
      exact .kept hdots (not_le.mp hlen) hdir hunlink

variable (fs rd) in
/-- A call that finds a directory: the loop over its names, and then `rmdir` -/
structure RmCall (fuel : Nat) (path : List UInt8) (es : Finset (DirEntry ι)) (d : ι) (r : RmRun ι)
    (out : Finset (DirEntry ι)) : Prop where
  nonempty : path ≠ []
  fits : path.length + 1 < upkMaxPathLen
  stat : fs.stat es path = some d
  dir : fs.kind d = .dir
  loop : (rd.readdir path (FileSystem.names es d)).foldlM (rmRfEntry fs (upkRmRf fs rd fuel) path)
    ⟨0, rd.uninit path, es⟩ = some r
  rmdir : out = (fs.rmdir r.es path).getD r.es

theorem childPath_nil_opendir (es : Finset (DirEntry ι)) (hpath : path ≠ []) :
    fs.opendir es (childPath path []) = fs.opendir es path := FileSystem.opendir_slash es hpath

theorem upkRmRf_cases (h : upkRmRf fs rd fuel path es = some (count, out)) :
    out = es ∧ (path = [] ∨ fs.opendir es path = none) ∨
      ∃ fuel' d r, fuel = fuel' + 1 ∧ RmCall fs rd fuel' path es d r out := by
  cases fuel with
  | zero => cases h
  | succ fuel =>
    rw [upkRmRf] at h
    split_ifs at h with hpath hlen
    · exact Or.inl ⟨(Prod.ext_iff.mp (Option.some.inj h)).2.symm, Or.inl hpath⟩
    · rw [childPath_nil_opendir es hpath] at h
      cases hopen : fs.opendir es path with
      | none =>
        rw [hopen] at h
        exact Or.inl ⟨(Prod.ext_iff.mp (Option.some.inj h)).2.symm, Or.inr rfl⟩
      | some ns =>
        rw [hopen] at h
        obtain ⟨d, hstat, hdir, rfl⟩ := FileSystem.opendir_eq_some.mp hopen
        obtain ⟨r, hloop, hend⟩ := Option.bind_eq_some_iff.mp h
        refine Or.inr ⟨fuel, d, r, rfl, hpath, not_le.mp hlen, hstat, hdir, hloop, ?_⟩
        cases hrmdir : fs.rmdir r.es path with
        | some es =>
          rw [hrmdir] at hend
          exact (Prod.ext_iff.mp (Option.some.inj hend)).2.symm
        | none =>
          rw [hrmdir] at hend
          exact (Prod.ext_iff.mp (Option.some.inj hend)).2.symm

/-! ### What a run keeps -/

variable (fs) in
/-- `I` is kept by whatever is removed by way of a path in `Q`. -/
structure RmKeeps (Q : List UInt8 → Prop) (I : Finset (DirEntry ι) → Prop) : Prop where
  wf : ∀ {es}, I es → fs.WellFormed es
  child : ∀ {path n}, Q path → Proper n → Q (childPath path n)
  unlink : ∀ {path n es out}, Q path → Proper n → I es →
    (∀ x, fs.stat es (childPath path n) = some x → fs.kind x ≠ .dir) →
    fs.unlink es (childPath path n) = some out → I out
  rmdir : ∀ {path es out}, Q path → I es → fs.rmdir es path = some out → I out

variable {Q : List UInt8 → Prop} {I : Finset (DirEntry ι) → Prop} {ns : List Name}

theorem proper_of_readdir {d : ι} (hes : fs.WellFormed es) (hn : n ∈ rd.readdir path (FileSystem.names es d)) :
    Proper n ∨ n = dot ∨ n = dotdot :=
  (rd.sub _ _ n hn).imp_left fun h => hes.proper _ (FileSystem.mem_names.mp h)

theorem RmKeeps.step (h : RmKeeps fs Q I)
    (hcall : ∀ {path es count out}, Q path → I es → rmRf path es = some (count, out) → I out)
    (hQ : Q path) (hn : Proper n ∨ n = dot ∨ n = dotdot) (hI : I r.es) (hstep : RmStep fs rmRf path r n r') : I r'.es := by
  cases hstep with
  | dots => exact hI
  | dir hdots _ _ call => exact hcall (h.child hQ (hn.resolve_right hdots)) hI call
  | unlinked hdots _ isDir unlink =>
    refine h.unlink hQ (hn.resolve_right hdots) hI (fun x hx => ?_) unlink
    rw [hx, isDirAfter_some] at isDir
    exact of_decide_eq_false isDir
  | kept => exact hI

theorem RmKeeps.loop (h : RmKeeps fs Q I)
    (hcall : ∀ {path es count out}, Q path → I es → rmRf path es = some (count, out) → I out)
    (hQ : Q path) (hns : ∀ n ∈ ns, Proper n ∨ n = dot ∨ n = dotdot) (hI : I r.es)
    (hloop : ns.foldlM (rmRfEntry fs rmRf path) r = some r') : I r'.es := by
  induction ns generalizing r with
  | nil =>
    obtain rfl := Option.some.inj hloop
    exact hI
  | cons n ns ih =>
    rw [List.foldlM_cons] at hloop
    obtain ⟨r₁, hstep, hrest⟩ := Option.bind_eq_some_iff.mp hloop
    refine ih (fun m hm => hns m (List.mem_cons_of_mem _ hm)) ?_ hrest
    exact h.step hcall hQ (hns n List.mem_cons_self) hI (rmRfEntry_cases hstep)

/-- **What each removal keeps, a call keeps.** -/
theorem RmKeeps.call (h : RmKeeps fs Q I) (hQ : Q path) (hI : I es)
    (hcall : upkRmRf fs rd fuel path es = some (count, out)) : I out := by
  induction fuel generalizing path es count out with
  | zero => cases hcall
  | succ fuel ih =>
    obtain ⟨rfl, -⟩ | ⟨fuel', d, r, heq, hc⟩ := upkRmRf_cases hcall
    · exact hI
    · obtain rfl := Nat.succ.inj heq
      have hloop : I r.es := h.loop ih hQ (fun n hn => proper_of_readdir (h.wf hI) hn) hI hc.loop
      rw [hc.rmdir]
      cases hrmdir : fs.rmdir r.es path with
      | some es' => exact h.rmdir hQ hloop hrmdir
      | none => exact hloop

theorem rmKeeps_wellFormed (es : Finset (DirEntry ι)) :
    RmKeeps fs (fun _ => True) (fun out => out ⊆ es ∧ fs.WellFormed out) where
  wf h := h.2
  child _ _ := trivial
  unlink _ _ h _ hout := ⟨(h.2.unlink hout).1.trans h.1, (h.2.unlink hout).2⟩
  rmdir _ h hout := ⟨(h.2.rmdir hout).1.trans h.1, (h.2.rmdir hout).2⟩

/-! ### Links -/

/-- `q` is `path` with more names. -/
inductive Extends (path : List UInt8) : List UInt8 → Prop
  | refl : Extends path path
  | child {q : List UInt8} {n : Name} (h : Extends path q) (hn : Proper n) : Extends path (childPath q n)

theorem childPath_ne_nil (path : List UInt8) (n : Name) : childPath path n ≠ [] := by
  simp [childPath]

variable {q : List UInt8} {d x y : ι} {e : DirEntry ι}

theorem Extends.ne_nil (h : Extends path q) (hpath : path ≠ []) : q ≠ [] := by
  cases h with
  | refl => exact hpath
  | child => exact childPath_ne_nil _ _

theorem Extends.trans {p : List UInt8} (h : Extends q p) (hq : Extends path q) : Extends path p := by
  induction h with
  | refl => exact hq
  | child _ hn ih => exact ih.child hn

theorem Extends.stat (h : Extends path q) (hpath : path ≠ []) (hstat : fs.stat es q = some y) (hdir : fs.kind y = .dir) :
    ∃ x, fs.stat es path = some x ∧ fs.kind x = .dir := by
  induction h generalizing y with
  | refl => exact ⟨y, hstat, hdir⟩
  | child h hn ih =>
    rw [childPath, FileSystem.stat_child es (h.ne_nil hpath) hn] at hstat
    obtain ⟨d, hd, hstep⟩ := Option.bind_eq_some_iff.mp hstat
    exact ih hd (FileSystem.dir_of_step hstep)

/-- **An entry that is no directory itself stays, whatever is removed by way of it.** What is unlinked has been found to be
no directory, but where the path passes through a link, the link leads to one. -/
theorem rmKeeps_link (hkind : fs.kind (fs.node e) ≠ .dir) (hpath : path ≠ []) (hlead : fs.LeadsTo es path e.1) :
    RmKeeps fs (Extends (childPath path e.2)) (fun out => (out ⊆ es ∧ fs.WellFormed out) ∧ e ∈ out) where
  wf h := h.1.2
  child h hn := h.child hn
  unlink {q n es' out} hq hn h hfound hout := by
    obtain ⟨⟨hsub, hwf⟩, hmem⟩ := h
    refine ⟨(rmKeeps_wellFormed es).unlink trivial hn ⟨hsub, hwf⟩ hfound hout, ?_⟩
    obtain ⟨a, hlast, -, rfl⟩ := FileSystem.unlink_eq_some.mp hout
    refine Finset.mem_erase.mpr ⟨?_, hmem⟩
    rintro rfl
    have hproper := hwf.proper e hmem
    have hstatq := hwf.stat_of_lastEntry hlast
    rw [childPath, FileSystem.lastEntry_child es' (hq.ne_nil (childPath_ne_nil _ _)) hn] at hlast
    obtain ⟨y, hy, hif⟩ := Option.bind_eq_some_iff.mp hlast
    obtain ⟨hymem, -⟩ := Option.ite_none_right_eq_some.mp hif
    obtain ⟨x, hx, hdir⟩ := hq.stat (childPath_ne_nil _ _) hy (hwf.dir _ hymem)
    rw [childPath, FileSystem.stat_child es' hpath hproper] at hx
    obtain ⟨d, hd, hstep⟩ := Option.bind_eq_some_iff.mp hx
    obtain rfl := hlead.mono hsub d hd
    rw [FileSystem.step_of_mem hwf hmem] at hstep
    exact hfound x (hstatq.trans hstep) hdir
  rmdir h hI hout := by
    refine ⟨(rmKeeps_wellFormed es).rmdir trivial hI.1 hout, ?_⟩
    obtain ⟨a, -, hdir, -, rfl⟩ := FileSystem.rmdir_eq_some.mp hout
    refine Finset.mem_erase.mpr ⟨?_, hI.2⟩
    rintro rfl
    exact hkind hdir

/-! ### Removing a directory -/

variable (fs rd) in
/-- The names of `d` come up in an order in which each entry can be removed: no link comes up as a directory, either
because it leads to one, or because it leads nowhere and `isDir` is still what the buffer says. -/
inductive Harmless : Finset (DirEntry ι) → List UInt8 → ι → Bool → List Name → Prop
  | nil {es : Finset (DirEntry ι)} {path : List UInt8} {d : ι} {isDir : Bool} : Harmless es path d isDir []
  | dots {es : Finset (DirEntry ι)} {path : List UInt8} {d : ι} {isDir : Bool} {n : Name} {ns : List Name}
      (hn : n = dot ∨ n = dotdot) (rest : Harmless es path d isDir ns) : Harmless es path d isDir (n :: ns)
  | leaf {es : Finset (DirEntry ι)} {path : List UInt8} {d : ι} {isDir : Bool} {n : Name} {ns : List Name}
      (mem : (d, n) ∈ es) (kind : fs.kind (fs.node (d, n)) ≠ .dir) (fits : (childPath path n).length < upkMaxPathLen)
      (found : isDirAfter fs (fs.target es (fs.node (d, n))) isDir = false)
      (rest : Harmless (fs.clearEntry es (d, n)) path d false ns) : Harmless es path d isDir (n :: ns)
  | dir {es : Finset (DirEntry ι)} {path : List UInt8} {d : ι} {isDir : Bool} {n : Name} {ns : List Name}
      (mem : (d, n) ∈ es) (kind : fs.kind (fs.node (d, n)) = .dir)
      (fits : (childPath path n).length + 1 < upkMaxPathLen)
      (sub : Harmless es (childPath path n) (fs.node (d, n)) (rd.uninit (childPath path n))
        (rd.readdir (childPath path n) (FileSystem.names es (fs.node (d, n)))))
      (rest : Harmless (fs.clearEntry es (d, n)) path d true ns) : Harmless es path d isDir (n :: ns)

variable (fs rd) in
/-- What it takes to remove the directory that is entry `e`: besides, its path does not lead through what is removed. -/
structure Removable (es : Finset (DirEntry ι)) (path : List UInt8) (e : DirEntry ι) : Prop where
  fits : path.length + 1 < upkMaxPathLen
  reached : fs.lastEntry (fs.prune es (fs.node e)) path = some e
  harmless : Harmless fs rd es path (fs.node e) (rd.uninit path)
    (rd.readdir path (FileSystem.names es (fs.node e)))

theorem upkRmRf_of_loop {isDir : Bool} (hpath : path ≠ []) (hfits : path.length + 1 < upkMaxPathLen)
    (hdir : fs.kind (fs.node e) = .dir) (hstat : fs.stat es path = some (fs.node e))
    (hloop : (rd.readdir path (FileSystem.names es (fs.node e))).foldlM (rmRfEntry fs (upkRmRf fs rd fuel) path)
      ⟨0, rd.uninit path, es⟩ = some ⟨count, isDir, fs.prune es (fs.node e)⟩)
    (hlast : fs.lastEntry (fs.prune es (fs.node e)) path = some e) :
    upkRmRf fs rd (fuel + 1) path es = some (count + 1, fs.clearEntry es e) := by
  have hopen : fs.opendir es path = some (FileSystem.names es (fs.node e)) :=
    FileSystem.opendir_eq_some.mpr ⟨_, hstat, hdir, rfl⟩
  have hrmdir : fs.rmdir (fs.prune es (fs.node e)) path = some ((fs.prune es (fs.node e)).erase e) :=
    FileSystem.rmdir_eq_some.mpr ⟨e, hlast, hdir, FileSystem.names_prune es _, rfl⟩
  rw [upkRmRf, if_neg hpath, if_neg (not_le.mpr hfits), childPath_nil_opendir es hpath, hopen]
  simp only [hloop, Option.bind_eq_bind, Option.bind_some, hrmdir]
  rw [FileSystem.clearEntry, if_pos hdir]

theorem length_childPath (path : List UInt8) (n : Name) : (childPath path n).length = path.length + n.length + 1 := by
  rw [childPath, List.length_append, List.length_cons, Nat.add_assoc]

theorem lastEntry_childPath (hpath : path ≠ []) (hn : Proper n) (hstat : fs.stat es path = some d) (hmem : (d, n) ∈ es) :
    fs.lastEntry es (childPath path n) = some (d, n) := by
  rw [childPath, FileSystem.lastEntry_child es hpath hn, hstat]
  exact if_pos hmem

theorem stat_childPath (hes : fs.WellFormed es) (hpath : path ≠ []) (hstat : fs.stat es path = some d)
    (hmem : (d, n) ∈ es) : fs.stat es (childPath path n) = fs.target es (fs.node (d, n)) :=
  hes.stat_of_lastEntry (lastEntry_childPath hpath (hes.proper _ hmem) hstat hmem)

/-- If the path to a directory does not lead through what is in it, the path to a directory in it does neither. -/
theorem lastEntry_prune_childPath (hes : fs.WellFormed es) (hpath : path ≠ [])
    (hstat : fs.stat (fs.prune es d) path = some d) (hmem : (d, n) ∈ es) (hdir : fs.kind (fs.node (d, n)) = .dir) :
    fs.lastEntry (fs.prune es (fs.node (d, n))) (childPath path n) = some (d, n) := by
  have hchild := hes.childOf hmem hdir
  refine lastEntry_childPath hpath (hes.proper _ hmem) ?_ (FileSystem.mem_prune.mpr ⟨hmem, hchild.not_below⟩)
  refine FileSystem.stat_of_subset (fun a ha => ?_) hstat
  obtain ⟨ha, hnot⟩ := FileSystem.mem_prune.mp ha
  exact FileSystem.mem_prune.mpr ⟨ha, fun hbelow => hnot (hchild.below hbelow)⟩

theorem stat_prune_childPath (hes : fs.WellFormed es) (hpath : path ≠ [])
    (hstat : fs.stat (fs.prune es d) path = some d) (hmem : (d, n) ∈ es) (hdir : fs.kind (fs.node (d, n)) = .dir) :
    fs.stat (fs.prune es (fs.node (d, n))) (childPath path n) = some (fs.node (d, n)) := by
  rw [(hes.prune _).stat_of_lastEntry (lastEntry_prune_childPath hes hpath hstat hmem hdir), FileSystem.target_dir _ hdir]

theorem rmRfEntry_leaf {isDir : Bool} (hes : fs.WellFormed es) (hpath : path ≠ []) (hstat : fs.stat es path = some d)
    (hmem : (d, n) ∈ es) (hkind : fs.kind (fs.node (d, n)) ≠ .dir) (hfits : (childPath path n).length < upkMaxPathLen)
    (hfound : isDirAfter fs (fs.target es (fs.node (d, n))) isDir = false) :
    rmRfEntry fs rmRf path ⟨count, isDir, es⟩ n = some ⟨count + 1, false, fs.clearEntry es (d, n)⟩ := by
  have hproper := hes.proper _ hmem
  have hunlink : fs.unlink es (childPath path n) = some (fs.clearEntry es (d, n)) := by
    rw [FileSystem.clearEntry, if_neg hkind]
    exact FileSystem.unlink_eq_some.mpr ⟨_, lastEntry_childPath hpath hproper hstat hmem, hkind, rfl⟩
  simp only [rmRfEntry, if_neg (not_or.mpr ⟨hproper.notDot, hproper.notDotdot⟩), if_neg (not_le.mpr hfits),
    stat_childPath hes hpath hstat hmem, hfound, Bool.false_eq_true, if_false, hunlink]

theorem rmRfEntry_dir {isDir : Bool} {count' : Nat} (hn : Proper n) (hfits : (childPath path n).length < upkMaxPathLen)
    (hstat : fs.stat es (childPath path n) = some x) (hdir : fs.kind x = .dir)
    (hcall : rmRf (childPath path n) es = some (count', out)) :
    rmRfEntry fs rmRf path ⟨count, isDir, es⟩ n = some ⟨count + count', true, out⟩ := by
  simp only [rmRfEntry, if_neg (not_or.mpr ⟨hn.notDot, hn.notDotdot⟩), if_neg (not_le.mpr hfits), hstat, isDirAfter_some,
    hdir, decide_true, if_true, hcall, Option.bind_eq_bind, Option.bind_some]

/-- **The loop empties a directory where all is harmless.** -/
theorem Harmless.loop {isDir : Bool} (h : Harmless fs rd es path d isDir ns) (hes : fs.WellFormed es) (hpath : path ≠ [])
    (hstat : fs.stat (fs.prune es d) path = some d) (hfuel : upkMaxPathLen ≤ path.length + 1 + fuel) (count : Nat) :
    ∃ count' isDir', ns.foldlM (rmRfEntry fs (upkRmRf fs rd fuel) path) ⟨count, isDir, es⟩ =
      some ⟨count', isDir', fs.clear es d ns⟩ := by
  induction h generalizing fuel count with
  | nil => exact ⟨count, _, rfl⟩
  | @dots es path d isDir n ns hn rest ih =>
    have hmem : (d, n) ∉ es := fun hmem => hn.elim (hes.proper _ hmem).notDot (hes.proper _ hmem).notDotdot
    have hstep : rmRfEntry fs (upkRmRf fs rd fuel) path ⟨count, isDir, es⟩ n = some ⟨count, isDir, es⟩ := if_pos hn
    rw [List.foldlM_cons, hstep, FileSystem.clear, List.foldl_cons, if_neg hmem]
    exact ih hes hpath hstat hfuel count
  | @leaf es path d isDir n ns mem kind fits found rest ih =>
    have hd : fs.stat es path = some d := FileSystem.stat_of_subset (Finset.filter_subset _ _) hstat
    rw [List.foldlM_cons, rmRfEntry_leaf hes hpath hd mem kind fits found, FileSystem.clear, List.foldl_cons, if_pos mem]
    refine ih (hes.clearEntry _) hpath ?_ hfuel (count + 1)
    rw [hes.prune_clearEntry mem]
    exact hstat
  | @dir es path d isDir n ns mem kind fits sub rest ihsub ih =>
    have hd : fs.stat es path = some d := FileSystem.stat_of_subset (Finset.filter_subset _ _) hstat
    have hfound : fs.stat es (childPath path n) = some (fs.node (d, n)) := by
      rw [stat_childPath hes hpath hd mem, FileSystem.target_dir es kind]
    have hlast := lastEntry_prune_childPath hes hpath hstat mem kind
    have hsubstat := stat_prune_childPath hes hpath hstat mem kind
    -- each call lengthens the path, so the fuel lasts
    have hlength := length_childPath path n
    obtain ⟨fuel, rfl⟩ : ∃ k, fuel = k + 1 := ⟨fuel - 1, by omega⟩
    have hfuel' : upkMaxPathLen ≤ (childPath path n).length + 1 + fuel := by omega
    obtain ⟨count', isDir', hloop⟩ := ihsub hes (childPath_ne_nil _ _) hsubstat hfuel' 0
    have hnames : ∀ m, (fs.node (d, n), m) ∈ es →
        m ∈ rd.readdir (childPath path n) (FileSystem.names es (fs.node (d, n))) :=
      fun m hm => rd.mem _ _ m (FileSystem.mem_names.mpr hm)
    rw [hes.clear_eq_prune hnames] at hloop
    have hcall := upkRmRf_of_loop (childPath_ne_nil _ _) fits kind hfound hloop hlast
    have hstep : rmRfEntry fs (upkRmRf fs rd (fuel + 1)) path ⟨count, isDir, es⟩ n = _ :=
      rmRfEntry_dir (hes.proper _ mem) (Nat.lt_of_succ_lt fits) hfound kind hcall
    rw [List.foldlM_cons, hstep, FileSystem.clear, List.foldl_cons, if_pos mem]
    refine ih (hes.clearEntry _) hpath ?_ hfuel _
    rw [hes.prune_clearEntry mem]
    exact hstat

/-! ### Leaving a directory -/

theorem RmStep.idle (h : RmStep fs (upkRmRf fs rd fuel) path r n r') (hstat : fs.stat r.es (childPath path n) = none)
    (hlast : fs.lastEntry r.es (childPath path n) = none) : r'.es = r.es := by
  cases h with
  | dots => rfl
  | dir _ _ _ call =>
    obtain ⟨hout, -⟩ | ⟨fuel', d, r, -, hc⟩ := upkRmRf_cases call
    · exact hout
    · rw [hc.stat] at hstat
      cases hstat
  | unlinked _ _ _ unlink =>
    obtain ⟨a, ha, -⟩ := FileSystem.unlink_eq_some.mp unlink
    rw [hlast] at ha
    cases ha
  | kept => rfl

variable (fs rd) in
/-- A call removes the directory with what is below it, or leaves its entry. -/
def Judged (fuel : Nat) : Prop :=
  ∀ {path : List UInt8} {es : Finset (DirEntry ι)} {e : DirEntry ι} {count : Nat} {out : Finset (DirEntry ι)},
    fs.WellFormed es → e ∈ es → fs.kind (fs.node e) = .dir → fs.stat es path = some (fs.node e) →
    upkRmRf fs rd fuel path es = some (count, out) → Removable fs rd es path e ∧ out = fs.clearEntry es e ∨ e ∈ out

theorem RmStep.judged_dir (h : RmStep fs (upkRmRf fs rd fuel) path r n r') (ih : Judged fs rd fuel)
    (hes : fs.WellFormed r.es) (hmem : (d, n) ∈ r.es) (hkind : fs.kind (fs.node (d, n)) = .dir)
    (hfound : fs.stat r.es (childPath path n) = some (fs.node (d, n))) :
    (d, n) ∈ r'.es ∨ r'.es = fs.clearEntry r.es (d, n) ∧
      ∀ ns, Harmless fs rd r'.es path d r'.isDir ns → Harmless fs rd r.es path d r.isDir (n :: ns) := by
  have hdir : isDirAfter fs (fs.stat r.es (childPath path n)) r.isDir = true := by
    rw [hfound, isDirAfter_some]
    exact decide_eq_true hkind
  cases h with
  | dots => exact Or.inl hmem
  | dir _ _ _ call =>
    rcases ih hes hmem hkind hfound call with ⟨hrem, rfl⟩ | hstays
    · exact Or.inr ⟨rfl, fun ns hrest => .dir hmem hkind hrem.fits hrem.harmless hrest⟩
    · exact Or.inl hstays
  | unlinked _ _ isDir => rw [hdir] at isDir; cases isDir
  | kept => exact Or.inl hmem

/-- A link that is taken for a directory stays (`rmKeeps_link`). -/
theorem RmStep.judged_leaf (h : RmStep fs (upkRmRf fs rd fuel) path r n r') (hes : fs.WellFormed r.es)
    (hpath : path ≠ []) (hstat : fs.stat r.es path = some d) (hmem : (d, n) ∈ r.es)
    (hkind : fs.kind (fs.node (d, n)) ≠ .dir) :
    (d, n) ∈ r'.es ∨ r'.es = fs.clearEntry r.es (d, n) ∧
      ∀ ns, Harmless fs rd r'.es path d r'.isDir ns → Harmless fs rd r.es path d r.isDir (n :: ns) := by
  cases h with
  | dots => exact Or.inl hmem
  | dir _ _ _ call =>
    have hkept : RmKeeps fs (Extends (childPath path n)) _ :=
      rmKeeps_link (e := (d, n)) hkind hpath (FileSystem.leadsTo_of_stat hstat)
    exact Or.inl (hkept.call .refl ⟨⟨Finset.Subset.refl _, hes⟩, hmem⟩ call).2
  | unlinked _ fits isDir unlink =>
    obtain ⟨a, ha, -, rfl⟩ := FileSystem.unlink_eq_some.mp unlink
    obtain rfl := Option.some.inj ((lastEntry_childPath hpath (hes.proper _ hmem) hstat hmem).symm.trans ha)
    have hclear : r.es.erase (d, n) = fs.clearEntry r.es (d, n) := by rw [FileSystem.clearEntry, if_neg hkind]
    rw [stat_childPath hes hpath hstat hmem] at isDir
    exact Or.inr ⟨hclear, fun ns hrest => .leaf hmem hkind fits isDir (hclear ▸ hrest)⟩
  | kept => exact Or.inl hmem

theorem RmStep.judged (h : RmStep fs (upkRmRf fs rd fuel) path r n r') (ih : Judged fs rd fuel)
    (hes : fs.WellFormed r.es) (hpath : path ≠ []) (hlead : fs.LeadsTo r.es path d) (hn : Proper n) :
    (d, n) ∉ r.es ∧ r'.es = r.es ∨ (d, n) ∈ r'.es ∨
      (d, n) ∈ r.es ∧ r'.es = fs.clearEntry r.es (d, n) ∧
        ∀ ns, Harmless fs rd r'.es path d r'.isDir ns → Harmless fs rd r.es path d r.isDir (n :: ns) := by
  have hstatq : fs.stat r.es (childPath path n) = _ := FileSystem.stat_child r.es hpath hn
  have hlastq : fs.lastEntry r.es (childPath path n) = _ := FileSystem.lastEntry_child r.es hpath hn
  cases hstat : fs.stat r.es path with
  | none =>
    rw [hstat] at hstatq hlastq
    have hidle := h.idle hstatq hlastq
    by_cases hmem : (d, n) ∈ r.es
    · exact Or.inr (Or.inl (hidle.symm ▸ hmem))
    · exact Or.inl ⟨hmem, hidle⟩
  | some y =>
    obtain rfl := hlead y hstat
    by_cases hmem : (y, n) ∈ r.es
    · refine Or.inr ?_
      by_cases hkind : fs.kind (fs.node (y, n)) = .dir
      · have hfound := stat_childPath hes hpath hstat hmem
        rw [FileSystem.target_dir _ hkind] at hfound
        exact (h.judged_dir ih hes hmem hkind hfound).imp_right fun hclear => ⟨hmem, hclear⟩
      · exact (h.judged_leaf hes hpath hstat hmem hkind).imp_right fun hclear => ⟨hmem, hclear⟩
    · rw [hstat, Option.bind_some, FileSystem.step_of_notMem hn hmem] at hstatq
      rw [hstat, Option.bind_some, if_neg hmem] at hlastq
      exact Or.inl ⟨hmem, h.idle hstatq hlastq⟩

theorem names_clearEntry (hes : fs.WellFormed es) (hmem : (d, n) ∈ es) (hn : n ∉ ns)
    (hns : ∀ m ∈ ns, (d, m) ∈ es ∨ m = dot ∨ m = dotdot) :
    ∀ m ∈ ns, (d, m) ∈ fs.clearEntry es (d, n) ∨ m = dot ∨ m = dotdot := fun m hm =>
  (hns m hm).imp_left (hes.mem_clearEntry_of_ne hmem fun heq => hn (heq ▸ hm)).mpr

theorem RmStep.wellFormed (h : RmStep fs (upkRmRf fs rd fuel) path r n r') (hes : fs.WellFormed r.es)
    (hn : Proper n ∨ n = dot ∨ n = dotdot) : r'.es ⊆ r.es ∧ fs.WellFormed r'.es :=
  (rmKeeps_wellFormed r.es).step (rmKeeps_wellFormed r.es).call trivial hn ⟨Finset.Subset.refl _, hes⟩ h

/-- An entry that has been left has company to the end: only what is cleared as it should be goes for good. -/
theorem loop_left (ih : Judged fs rd fuel) (hes : fs.WellFormed r.es) (hpath : path ≠ [])
    (hlead : fs.LeadsTo r.es path d) (hnodup : ns.Nodup) (hns : ∀ n ∈ ns, Proper n ∨ n = dot ∨ n = dotdot) {k : Name}
    (hk : (d, k) ∈ r.es) (hkns : k ∉ ns) (h : ns.foldlM (rmRfEntry fs (upkRmRf fs rd fuel) path) r = some r') :
    ∃ k, (d, k) ∈ r'.es := by
  induction ns generalizing r k with
  | nil =>
    obtain rfl := Option.some.inj h
    exact ⟨k, hk⟩
  | cons n ns iht =>
    rw [List.foldlM_cons] at h
    obtain ⟨r₁, hentry, hrest⟩ := Option.bind_eq_some_iff.mp h
    have hstep := rmRfEntry_cases hentry
    obtain ⟨hnns, hnodup'⟩ := List.nodup_cons.mp hnodup
    obtain ⟨hkn, hkns'⟩ := List.ne_and_not_mem_of_not_mem_cons hkns
    have hn := hns n List.mem_cons_self
    obtain ⟨hsub, hes₁⟩ := hstep.wellFormed hes hn
    have htail : ∀ {k}, (d, k) ∈ r₁.es → k ∉ ns → ∃ k, (d, k) ∈ r'.es := fun hk₁ hk₁ns =>
      iht hes₁ (hlead.mono hsub) hnodup' (fun m hm => hns m (List.mem_cons_of_mem _ hm)) hk₁ hk₁ns hrest
    rcases hn with hproper | hdots
    · rcases hstep.judged ih hes hpath hlead hproper with ⟨-, hsame⟩ | hstays | ⟨hmem, hclear, -⟩
      · exact htail (hsame.symm ▸ hk) hkns'
      · exact htail hstays hnns
      · exact htail (hclear.symm ▸ (hes.mem_clearEntry_of_ne hmem hkn).mpr hk) hkns'
    · obtain rfl : r₁ = r := Option.some.inj (hentry.symm.trans (if_pos hdots))
      exact htail hk hkns'

/-- **The loop empties the directory where all is harmless, or leaves an entry of it.** -/
theorem loop_judged (ih : Judged fs rd fuel) (hes : fs.WellFormed r.es) (hpath : path ≠ [])
    (hlead : fs.LeadsTo r.es path d) (hnodup : ns.Nodup) (hns : ∀ n ∈ ns, (d, n) ∈ r.es ∨ n = dot ∨ n = dotdot)
    (h : ns.foldlM (rmRfEntry fs (upkRmRf fs rd fuel) path) r = some r') :
    Harmless fs rd r.es path d r.isDir ns ∧ r'.es = fs.clear r.es d ns ∨ ∃ k, (d, k) ∈ r'.es := by
  induction ns generalizing r with
  | nil =>
    obtain rfl := Option.some.inj h
    exact Or.inl ⟨.nil, rfl⟩
  | cons n ns iht =>
    rw [List.foldlM_cons] at h
    obtain ⟨r₁, hentry, hrest⟩ := Option.bind_eq_some_iff.mp h
    have hstep := rmRfEntry_cases hentry
    obtain ⟨hnns, hnodup'⟩ := List.nodup_cons.mp hnodup
    have hns' : ∀ m ∈ ns, (d, m) ∈ r.es ∨ m = dot ∨ m = dotdot := fun m hm => hns m (List.mem_cons_of_mem _ hm)
    rcases hns n List.mem_cons_self with hmem | hdots
    · have hproper := hes.proper _ hmem
      obtain ⟨hsub, hes₁⟩ := hstep.wellFormed hes (Or.inl hproper)
      rcases hstep.judged ih hes hpath hlead hproper with ⟨hnot, -⟩ | hstays | ⟨-, hclear, hharm⟩
      · exact absurd hmem hnot
      · exact Or.inr (loop_left ih hes₁ hpath (hlead.mono hsub) hnodup'
          (fun m hm => (hns' m hm).imp_left (hes.proper _)) hstays hnns hrest)
      · have hleft := names_clearEntry hes hmem hnns hns'
        rw [← hclear] at hleft
        refine (iht hes₁ (hlead.mono hsub) hnodup' hleft hrest).imp_left ?_
        rintro ⟨hrest', hout⟩
        rw [FileSystem.clear, List.foldl_cons, if_pos hmem, ← hclear]
        exact ⟨hharm ns hrest', hout⟩
    · obtain rfl : r₁ = r := Option.some.inj (hentry.symm.trans (if_pos hdots))
      have hnot : (d, n) ∉ r₁.es := fun hmem =>
        hdots.elim (hes.proper _ hmem).notDot (hes.proper _ hmem).notDotdot
      refine (iht hes hlead hnodup' hns' hrest).imp_left ?_
      rintro ⟨hrest', hout⟩
      rw [FileSystem.clear, List.foldl_cons, if_neg hnot]
      exact ⟨.dots hdots hrest', hout⟩

theorem RmCall.end_cases (h : RmCall fs rd fuel path es (fs.node e) r out) (hwf : fs.WellFormed r.es) (hsub : r.es ⊆ es)
    (hes : fs.WellFormed es) (he : e ∈ es) (hdir : fs.kind (fs.node e) = .dir) :
    fs.lastEntry r.es path = some e ∧ FileSystem.names r.es (fs.node e) = ∅ ∧ out = r.es.erase e ∨ out = r.es := by
  have hout := h.rmdir
  cases hrmdir : fs.rmdir r.es path with
  | some es' =>
    obtain ⟨a, hlast, hkind, hempty, rfl⟩ := FileSystem.rmdir_eq_some.mp hrmdir
    have hstat := hwf.stat_of_lastEntry hlast
    rw [FileSystem.target_dir _ hkind] at hstat
    have hnode := Option.some.inj (h.stat.symm.trans (FileSystem.stat_of_subset hsub hstat))
    obtain rfl := hes.unique e he a (hsub (FileSystem.mem_of_lastEntry hlast)) hdir hnode.symm
    rw [hrmdir] at hout
    exact Or.inl ⟨hlast, hempty, hout⟩
  | none =>
    rw [hrmdir] at hout
    exact Or.inr hout

/-- **A call removes the directory with what is below it, or leaves its entry.** -/
theorem judged (fuel : Nat) : Judged fs rd fuel := by
  induction fuel with
  | zero =>
    intro path es e count out _ _ _ _ h
    cases h
  | succ fuel ih =>
    intro path es e count out hes he hdir hstat h
    obtain ⟨rfl, -⟩ | ⟨fuel', d, r, heq, hc⟩ := upkRmRf_cases h
    · exact Or.inr he
    · obtain rfl := Nat.succ.inj heq
      obtain rfl : fs.node e = d := Option.some.inj (hstat.symm.trans hc.stat)
      have hnames : ∀ n ∈ rd.readdir path (FileSystem.names es (fs.node e)),
          (fs.node e, n) ∈ es ∨ n = dot ∨ n = dotdot :=
        fun n hn => (rd.sub _ _ n hn).imp_left FileSystem.mem_names.mp
      obtain ⟨hsub, hwf⟩ : r.es ⊆ es ∧ fs.WellFormed r.es :=
        (rmKeeps_wellFormed es).loop (rmKeeps_wellFormed es).call trivial
          (fun n hn => (hnames n hn).imp_left (hes.proper _)) ⟨Finset.Subset.refl _, hes⟩ hc.loop
      have hend := hc.end_cases hwf hsub hes he hdir
      rcases loop_judged ih hes hc.nonempty (FileSystem.leadsTo_of_stat hstat) (rd.nodup _ _) hnames hc.loop with
        ⟨hharm, hclear⟩ | ⟨k, hk⟩
      · rw [hes.clear_eq_prune fun n hn => rd.mem _ _ n (FileSystem.mem_names.mpr hn)] at hclear
        rw [hclear] at hend
        rcases hend with ⟨hlast, -, hout⟩ | hout
        · refine Or.inl ⟨⟨hc.fits, hlast, hharm⟩, ?_⟩
          rw [hout, FileSystem.clearEntry, if_pos hdir]
        · rw [hout]
          exact Or.inr (FileSystem.mem_prune.mpr ⟨he, (hes.childOf he hdir).not_below⟩)
      · refine Or.inr ?_
        rcases hend with ⟨-, hempty, -⟩ | hout
        · have hname := FileSystem.mem_names.mpr hk
          rw [hempty] at hname
          cases hname
        · rw [hout]
          exact hes.mem_of_entry hwf hsub he hdir hk

/-! ### What `upk_rm_rf` does -/

theorem rmRfEntry_congr {rmRf' : List UInt8 → Finset (DirEntry ι) → Option (Nat × Finset (DirEntry ι))}
    (h : ∀ n, rmRf (childPath path n) = rmRf' (childPath path n)) : rmRfEntry fs rmRf path = rmRfEntry fs rmRf' path := by
  funext r n
  simp only [rmRfEntry, h]

/-- As each call lengthens the path, it never comes to the last of the fuel. -/
theorem upkRmRf_fuel (h : upkMaxPathLen ≤ path.length + 1 + fuel) :
    upkRmRf fs rd (fuel + 1) path es = upkRmRf fs rd fuel path es := by
  induction fuel generalizing path es with
  | zero =>
    have hpath : path ≠ [] := by
      rintro rfl
      exact absurd h (by decide)
    rw [upkRmRf, upkRmRf, if_neg hpath, if_pos h]
  | succ fuel ih =>
    have hentry : rmRfEntry fs (upkRmRf fs rd (fuel + 1)) path = rmRfEntry fs (upkRmRf fs rd fuel) path := by
      refine rmRfEntry_congr fun n => funext fun es => ih ?_
      rw [length_childPath]
      omega
    rw [upkRmRf, hentry]
    rfl

/-- **`upk_rm_rf` removes a directory, and nothing outside it, exactly if it is removable.** -/
theorem upkRmRf_iff (hes : fs.WellFormed es) (he : e ∈ es) (hdir : fs.kind (fs.node e) = .dir)
    (hstat : fs.stat es path = some (fs.node e)) :
    (∃ count out, upkRmRf fs rd upkMaxPathLen path es = some (count, out) ∧
      (∀ a ∈ es, a ≠ e → ¬ fs.Below (fs.node e) a.1 → a ∈ out) ∧ e ∉ out) ↔ Removable fs rd es path e := by
  constructor
  · rintro ⟨count, out, hrun, -, hgone⟩
    rcases judged upkMaxPathLen hes he hdir hstat hrun with ⟨hrem, -⟩ | hstays
    · exact hrem
    · exact absurd hstays hgone
  · intro hrem
    have hpath : path ≠ [] := by
      rintro rfl
      cases hstat
    have hreached : fs.stat (fs.prune es (fs.node e)) path = some (fs.node e) := by
      rw [(hes.prune _).stat_of_lastEntry hrem.reached, FileSystem.target_dir _ hdir]
    obtain ⟨fuel, hfuel⟩ : ∃ fuel, upkMaxPathLen = fuel + 1 := ⟨_, rfl⟩
    have henough : upkMaxPathLen ≤ path.length + 1 + fuel := by omega
    obtain ⟨count, isDir, hloop⟩ := hrem.harmless.loop hes hpath hreached henough 0
    rw [hes.clear_eq_prune fun n hn => rd.mem _ _ n (FileSystem.mem_names.mpr hn)] at hloop
    have hrun := upkRmRf_of_loop hpath hrem.fits hdir hstat hloop hrem.reached
    rw [← hfuel] at hrun
    refine ⟨_, _, hrun, fun a ha hne hout => FileSystem.mem_clearEntry.mpr ⟨ha, hne, fun h => hout h.2⟩, fun hmem => ?_⟩
    exact (FileSystem.mem_clearEntry.mp hmem).2.1 rfl

theorem harmless_of_noLinks {isDir : Bool} (hfuel : upkMaxPathLen ≤ path.length + fuel) (hes : fs.WellFormed es)
    (hpath : path ≠ []) (hreached : fs.stat (fs.prune es d) path = some d)
    (hlinks : ∀ a ∈ es, fs.Below d a.1 → fs.kind (fs.node a) ≠ .link)
    (hfits : ∀ q, Extends path q → (fs.stat es q).isSome → q.length + 1 < upkMaxPathLen) (hnodup : ns.Nodup)
    (hns : ∀ n ∈ ns, (d, n) ∈ es ∨ n = dot ∨ n = dotdot) : Harmless fs rd es path d isDir ns := by
  induction fuel generalizing path es d isDir ns with
  | zero =>
    have hstat := FileSystem.stat_of_subset (Finset.filter_subset _ es) hreached
    have hlength := hfits path .refl (by rw [hstat]; rfl)
    omega
  | succ fuel ih =>
    induction ns generalizing es isDir with
    | nil => exact .nil
    | cons n ns ihns =>
      obtain ⟨hnns, hnodup'⟩ := List.nodup_cons.mp hnodup
      rcases hns n List.mem_cons_self with hmem | hdots
      · have hproper : Proper n := hes.proper _ hmem
        have hd := FileSystem.stat_of_subset (Finset.filter_subset _ es) hreached
        have hfound := stat_childPath hes hpath hd hmem
        have hlink := hlinks _ hmem (FileSystem.below_refl d)
        have htarget : fs.target es (fs.node (d, n)) = some (fs.node (d, n)) := if_neg hlink
        rw [htarget] at hfound
        have hfit := hfits (childPath path n) (.child .refl hproper) (by rw [hfound]; rfl)
        have hrest (b : Bool) : Harmless fs rd (fs.clearEntry es (d, n)) path d b ns := by
          have hleft := names_clearEntry hes hmem hnns fun m hm => hns m (List.mem_cons_of_mem _ hm)
          refine ihns (hes.clearEntry _) ?_ (fun a ha => hlinks a (FileSystem.clearEntry_subset ha)) ?_ hnodup' hleft
          · rwa [hes.prune_clearEntry hmem]
          · intro q hq hsome
            obtain ⟨x, hx⟩ := Option.isSome_iff_exists.mp hsome
            exact hfits q hq (by rw [FileSystem.stat_of_subset FileSystem.clearEntry_subset hx]; rfl)
        by_cases hkind : fs.kind (fs.node (d, n)) = .dir
        · refine .dir hmem hkind hfit ?_ (hrest true)
          have hchild := hes.childOf hmem hkind
          have hsub := stat_prune_childPath hes hpath hreached hmem hkind
          refine ih ?_ hes (childPath_ne_nil _ _) hsub ?_ ?_ (rd.nodup _ _) ?_
          · rw [length_childPath]
            omega
          · exact fun a ha hbelow => hlinks a ha (hchild.below hbelow)
          · exact fun q hq => hfits q (hq.trans (.child .refl hproper))
          · exact fun m hm => (rd.sub _ _ m hm).imp_left FileSystem.mem_names.mp
        · refine .leaf hmem hkind (by omega) ?_ (hrest false)
          rw [htarget, isDirAfter_some]
          exact decide_eq_false hkind
      · exact .dots hdots (ihns hes hreached hlinks hfits hnodup' fun m hm => hns m (List.mem_cons_of_mem _ hm))

/-- **A directory without links below it is removable** if its own path does not lead through them, and the others fit. -/
theorem removable_of_noLinks (hes : fs.WellFormed es) (hdir : fs.kind (fs.node e) = .dir)
    (hlast : fs.lastEntry (fs.prune es (fs.node e)) path = some e)
    (hlinks : ∀ a ∈ es, fs.Below (fs.node e) a.1 → fs.kind (fs.node a) ≠ .link)
    (hfits : ∀ q, Extends path q → (fs.stat es q).isSome → q.length + 1 < upkMaxPathLen) :
    Removable fs rd es path e := by
  have hpath : path ≠ [] := by
    rintro rfl
    cases hlast
  have hreached : fs.stat (fs.prune es (fs.node e)) path = some (fs.node e) := by
    rw [(hes.prune _).stat_of_lastEntry hlast, FileSystem.target_dir _ hdir]
  have hstat := FileSystem.stat_of_subset (Finset.filter_subset _ es) hreached
  refine ⟨hfits path .refl (by rw [hstat]; rfl), hlast, ?_⟩
  exact harmless_of_noLinks (Nat.le_add_left _ _) hes hpath hreached hlinks hfits (rd.nodup _ _) fun n hn =>
    (rd.sub _ _ n hn).imp_left FileSystem.mem_names.mp

end

/-! ### A link in a directory -/

/-- The order of names by their bytes -/
def NameLe (a b : Name) : Prop := a.map UInt8.toNat ≤ b.map UInt8.toNat

instance : DecidableRel NameLe := fun a b => inferInstanceAs (Decidable (a.map UInt8.toNat ≤ b.map UInt8.toNat))

instance : IsTrans Name NameLe := ⟨fun _ _ _ => le_trans⟩

instance : Std.Antisymm NameLe :=
  ⟨fun _ _ hab hba => List.map_injective_iff.mpr (fun _ _ => UInt8.toNat_inj.mp) (le_antisymm hab hba)⟩

instance : Std.Total NameLe := ⟨fun _ _ => le_total _ _⟩

def sortNames (ns : Finset Name) : List Name :=
  Quot.liftOn ns.val (List.insertionSort NameLe) fun a b h =>
    ((List.perm_insertionSort _ a).trans (h.trans (List.perm_insertionSort _ b).symm)).eq_of_pairwise'
      (List.pairwise_insertionSort NameLe a) (List.pairwise_insertionSort NameLe b)

theorem sortNames_eq (ns : Finset Name) : sortNames ns = ns.sort NameLe := by
  obtain ⟨⟨l⟩, h⟩ := ns
  exact (List.mergeSort_eq_insertionSort NameLe l).symm

/-- The names in order, and a buffer that is not that of a directory -/
def readByName : Reading where
  readdir _ ns := sortNames ns
  uninit _ := false
  nodup _ ns := sortNames_eq ns ▸ ns.sort_nodup NameLe
  mem _ ns _ hn := sortNames_eq ns ▸ (Finset.mem_sort NameLe).mpr hn
  sub _ ns _ hn := Or.inl ((Finset.mem_sort NameLe).mp (sortNames_eq ns ▸ hn))

/-- `/p` with a directory `d` and a link `l`, and beside it `/o` with a file `f`. The link leads to `x`. -/
def linkTree (x : Nat) : FileSystem Nat where
  kind y := if y = 3 then .file else if y = 4 then .link else .dir
  node e :=
    if e = (0, (cstr "p").chars) then 1
    else if e = (0, (cstr "o").chars) then 2
    else if e = (2, (cstr "f").chars) then 3
    else if e = (1, (cstr "l").chars) then 4
    else 5
  parent y := if y = 3 then 2 else if y = 4 ∨ y = 5 then 1 else 0
  depth y := if y = 1 ∨ y = 2 then 1 else if y = 3 ∨ y = 4 ∨ y = 5 then 2 else 0
  root := 0
  cwd := 0
  follow es y := if (0, (cstr "o").chars) ∈ es then some x else none
  depth_root := rfl
  depth_parent y := by grind
  follow_mono es es' y h := by
    split_ifs with h₁ h₂
    · exact Or.inr rfl
    · exact absurd (h h₁) h₂
    · exact Or.inl rfl
    · exact Or.inl rfl

def linkEntries : Finset (DirEntry Nat) :=
  {(0, (cstr "p").chars), (0, (cstr "o").chars), (2, (cstr "f").chars), (1, (cstr "l").chars), (1, (cstr "d").chars)}

theorem linkTree_wellFormed (x : Nat) : (linkTree x).WellFormed linkEntries := by
  -- what the link leads to makes no difference
  have h : (linkTree 0).WellFormed linkEntries :=
    { proper := fun e he => by
        simp only [linkEntries, Finset.mem_insert, Finset.mem_singleton] at he
        rcases he with rfl | rfl | rfl | rfl | rfl <;> exact ⟨by decide, by decide, by decide, by decide⟩
      dir := by decide
      linked := by decide
      child := by decide
      unique := by decide }
  exact ⟨h.proper, h.dir, h.linked, h.child, h.unique⟩

/-- The link leads to a file. -/
theorem upkRmRf_fileLink :
    ∃ count out, upkRmRf (linkTree 3) readByName upkMaxPathLen (cstr "/p").chars linkEntries = some (count, out) ∧
      (∀ a ∈ linkEntries, a ≠ (0, (cstr "p").chars) → ¬ (linkTree 3).Below 1 a.1 → a ∈ out) ∧
      (0, (cstr "p").chars) ∉ out := by
  have hharmless : Harmless (linkTree 3) readByName linkEntries (cstr "/p").chars 1 false
      [(cstr "d").chars, (cstr "l").chars] :=
    .dir (by decide) (by decide) (by decide) .nil
      (.leaf (by decide) (by decide) (by decide) (by decide) .nil)
  exact (upkRmRf_iff (e := (0, (cstr "p").chars)) (linkTree_wellFormed 3) (by decide) (by decide) (by decide)).mpr
    ⟨by decide, by decide, hharmless⟩

/-- The link leads to `/o`: the file in it is gone, and `/p` is left. -/
theorem not_upkRmRf_dirLink :
    (linkTree 2).WellFormed linkEntries ∧ (linkTree 2).stat linkEntries (cstr "/p").chars = some 1 ∧
      ¬ ∃ count out, upkRmRf (linkTree 2) readByName upkMaxPathLen (cstr "/p").chars linkEntries = some (count, out) ∧
        ((∀ a ∈ linkEntries, a ≠ (0, (cstr "p").chars) → ¬ (linkTree 2).Below 1 a.1 → a ∈ out) ∨
          (0, (cstr "p").chars) ∉ out) := by
  refine ⟨linkTree_wellFormed 2, by decide, ?_⟩
  rintro ⟨count, out, hrun, hout⟩
  have hfound : upkRmRf (linkTree 2) readByName upkMaxPathLen (cstr "/p").chars linkEntries =
      some (2, (linkEntries.erase (1, (cstr "d").chars)).erase (2, (cstr "f").chars)) := by decide +kernel
  obtain ⟨-, rfl⟩ := Prod.ext_iff.mp (Option.some.inj (hfound.symm.trans hrun))
  rcases hout with hconfined | hgone
  · exact absurd (hconfined (2, (cstr "f").chars) (by decide) (by decide) (by decide)) (by decide)
  · exact hgone (by decide)

end Upkeeper
