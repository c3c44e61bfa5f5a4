import Mathlib.Logic.Function.Basic
import Upkeeper.Library.FileTree
/-!
# Files that are made

A file system that grows. What there is stands at places: the names that lead to a place from the root, last one first.
A path is resolved name by name; when a name stands for a link, the path goes on with its target, and only so many
times. The last name of a path may stand for nothing yet. Names and paths may be of any length, and all may be opened.

`resolveNames` is the resolution as a function, and `Resolves` as a relation, with a rule for each kind of name. A
resolution outlives whatever keeps directories and links in their places (`Resolves.keeps`), and two of them can be put
together (`Resolves.append`).
-/

namespace Files

open FileTree (Name Proper)
open Path (dot dotdot slash components)

/-- The names that lead to a place, last one first -/
abbrev Place := List Name

inductive Node
  | dir
  | file (text : List UInt8) (executable : Bool)
  | link (target : List UInt8)
  deriving DecidableEq

/-- What stands at each place -/
abbrev Tree := Place → Option Node

/-- Where a path starts -/
def start (cwd : Place) (path : List UInt8) : Place := if path.head? = some slash then [] else cwd

/-- The place of a name in a directory, whether or not there is something -/
def entry (files : Tree) (d : Place) (n : Name) : Option Place :=
  if files d ≠ some .dir then none
  else if n = dot then some d
  else if n = dotdot then some d.tail
  else some (n :: d)

/-- Where names lead: to a place, or to a link in a directory, with the names that are left -/
inductive Walked
  | place (p : Place)
  | link (d : Place) (target : List UInt8) (rest : List Name)

/-- Follow names up to the first link. -/
def walk (files : Tree) : Place → List Name → Option Walked
  | d, [] => some (.place d)
  | d, n :: ns => do
    let p ← entry files d n
    match files p with
    | some (.link target) => some (.link d target ns)
    | _ => walk files p ns

/-- Follow names, and up to `links` links. -/
def resolveNames (files : Tree) (links : Nat) (d : Place) (ns : List Name) : Option Place :=
  match walk files d ns with
  | none => none
  | some (.place p) => some p
  | some (.link d target rest) =>
    match links with
    | 0 => none
    | links + 1 => resolveNames files links (start d target) (components target ++ rest)

/-- Following names: `Resolves files links d ns p` says that they lead from `d` to `p`, by way of at most `links`
links. -/
inductive Resolves (files : Tree) : Nat → Place → List Name → Place → Prop
  | nil (links : Nat) (d : Place) : Resolves files links d [] d
  | name {links : Nat} {d p q : Place} {n : Name} {ns : List Name} (hentry : entry files d n = some p)
      (hlink : ∀ target, files p ≠ some (.link target)) (rest : Resolves files links p ns q) :
      Resolves files links d (n :: ns) q
  | link {links : Nat} {d p q : Place} {n : Name} {ns : List Name} {target : List UInt8}
      (hentry : entry files d n = some p) (hlink : files p = some (.link target))
      (rest : Resolves files links (start d target) (components target ++ ns) q) :
      Resolves files (links + 1) d (n :: ns) q

variable {files files' : Tree} {links links' : Nat} {d p q cwd : Place} {n : Name} {ns ms : List Name}
  {path target : List UInt8}

theorem walk_cons_name (hentry : entry files d n = some p) (hlink : ∀ target, files p ≠ some (.link target)) :
    walk files d (n :: ns) = walk files p ns := by
  rw [walk, hentry, Option.bind_eq_bind, Option.bind_some]
  split
  · rename_i target htarget
    exact absurd htarget (hlink target)
  · rfl

theorem walk_cons_link (hentry : entry files d n = some p) (hlink : files p = some (.link target)) :
    walk files d (n :: ns) = some (.link d target ns) := by
  rw [walk, hentry, Option.bind_eq_bind, Option.bind_some, hlink]

theorem Resolves.resolveNames_eq (h : Resolves files links d ns q) : resolveNames files links d ns = some q := by
  induction h with
  | nil links d =>
    unfold resolveNames
    rfl
  | name hentry hlink rest ih =>
    unfold resolveNames at ih ⊢
    rwa [walk_cons_name hentry hlink]
  | link hentry hlink rest ih =>
    unfold resolveNames
    rw [walk_cons_link hentry hlink]
    exact ih

/-! ### Resolutions -/

theorem Resolves.mono (h : Resolves files links d ns q) (hle : links ≤ links') : Resolves files links' d ns q := by
  induction h generalizing links' with
  | nil links d => exact .nil links' d
  | name hentry hlink rest ih => exact .name hentry hlink (ih hle)
  | link hentry hlink rest ih =>
    obtain ⟨k, rfl⟩ : ∃ k, links' = k + 1 := ⟨links' - 1, by omega⟩
    exact .link hentry hlink (ih (Nat.le_of_succ_le_succ hle))

/-- **Two resolutions, one after the other** -/
theorem Resolves.append (h : Resolves files links d ns p) (h' : Resolves files links' p ms q) :
    Resolves files (links + links') d (ns ++ ms) q := by
  induction h with
  | nil links d => exact h'.mono (Nat.le_add_left _ _)
  | name hentry hlink rest ih => exact .name hentry hlink (ih h')
  | @link links d p q n ns target hentry hlink rest ih =>
    rw [Nat.add_right_comm]
    have hrest := ih h'
    rw [List.append_assoc] at hrest
    exact .link hentry hlink hrest

theorem Resolves.split {l : List Name} (h : Resolves files links d l q) (hl : l = ns ++ ms) :
    ∃ p, Resolves files links d ns p ∧ Resolves files links p ms q := by
  induction h generalizing ns with
  | nil links d =>
    obtain ⟨rfl, rfl⟩ := List.nil_eq_append_iff.mp hl
    exact ⟨d, .nil links d, .nil links d⟩
  | @name links d p q n rest hentry hlink hrest ih =>
    cases ns with
    | nil =>
      subst hl
      exact ⟨d, .nil links d, .name hentry hlink hrest⟩
    | cons m ns =>
      obtain ⟨rfl, hrest'⟩ := List.cons.inj hl
      obtain ⟨p', hns, hms⟩ := ih hrest'
      exact ⟨p', .name hentry hlink hns, hms⟩
  | @link links d p q n rest target hentry hlink hrest ih =>
    cases ns with
    | nil =>
      subst hl
      exact ⟨d, .nil _ d, .link hentry hlink hrest⟩
    | cons m ns =>
      obtain ⟨rfl, hrest'⟩ := List.cons.inj hl
      have htarget : components target ++ rest = (components target ++ ns) ++ ms := by
        rw [hrest', List.append_assoc]
        rfl
      obtain ⟨p', hns, hms⟩ := ih htarget
      exact ⟨p', .link hentry hlink hns, hms.mono (Nat.le_succ _)⟩

theorem entry_proper (hd : files d = some .dir) (hn : Proper n) : entry files d n = some (n :: d) := by
  rw [entry, if_neg (not_not.mpr hd), if_neg hn.notDot, if_neg hn.notDotdot]

theorem dir_of_entry (h : entry files d n = some p) : files d = some .dir := by
  by_contra hd
  rw [entry, if_pos hd] at h
  cases h

theorem Resolves.child (h : Resolves files links d ns p) (hp : files p = some .dir) (hn : Proper n)
    (hlink : ∀ target, files (n :: p) ≠ some (.link target)) : Resolves files links d (ns ++ [n]) (n :: p) :=
  h.append (.name (entry_proper hp hn) hlink (.nil 0 _))

theorem Resolves.childLink (h : Resolves files links d ns p) (hp : files p = some .dir) (hn : Proper n)
    (hlink : files (n :: p) = some (.link target))
    (htarget : Resolves files links' (start p target) (components target) q) :
    Resolves files (links + (links' + 1)) d (ns ++ [n]) q := by
  refine h.append (.link (entry_proper hp hn) hlink ?_)
  rwa [List.append_nil]

/-- Directories and links stay, and so do files, though not what is in them. -/
structure Keeps (files files' : Tree) : Prop where
  dir : ∀ p, files p = some .dir → files' p = some .dir
  link : ∀ p target, files p = some (.link target) → files' p = some (.link target)
  file : ∀ p text x, files p = some (.file text x) → ∃ text' x', files' p = some (.file text' x')

theorem Keeps.trans {files'' : Tree} (h : Keeps files files') (h' : Keeps files' files'') : Keeps files files'' where
  dir p hp := h'.dir p (h.dir p hp)
  link p target hp := h'.link p target (h.link p target hp)
  file p text x hp := by
    obtain ⟨text', x', hp'⟩ := h.file p text x hp
    exact h'.file p text' x' hp'

theorem entry_keeps (hk : Keeps files files') (h : entry files d n = some p) : entry files' d n = some p := by
  have hd := dir_of_entry h
  rw [entry, if_neg (not_not.mpr hd)] at h
  rw [entry, if_neg (not_not.mpr (hk.dir d hd))]
  exact h

theorem Resolves.start_ne_none (h : Resolves files links d ns q) (hq : files q ≠ none) : files d ≠ none := by
  cases h with
  | nil => exact hq
  | name hentry => simp [dir_of_entry hentry]
  | link hentry => simp [dir_of_entry hentry]

/-- **What is found stays where it is.** -/
theorem Resolves.keeps (hk : Keeps files files') (h : Resolves files links d ns q) (hq : files q ≠ none) :
    Resolves files' links d ns q := by
  induction h with
  | nil links d => exact .nil links d
  | @name links d p q n ns hentry hlink rest ih =>
    refine .name (entry_keeps hk hentry) (fun target htarget => ?_) (ih hq)
    have hp := rest.start_ne_none hq
    cases hnode : files p with
    | none => exact hp hnode
    | some node =>
      cases node with
      | dir =>
        rw [hk.dir p hnode] at htarget
        cases htarget
      | file text x =>
        obtain ⟨text', x', hfile⟩ := hk.file p text x hnode
        rw [hfile] at htarget
        cases htarget
      | link target' => exact hlink target' hnode
  | link hentry hlink rest ih => exact .link (entry_keeps hk hentry) (hk.link _ _ hlink) (ih hq)

/-! ### System calls -/

/-- How many links the system follows before it gives up -/
def maxLinks : Nat := 40

/-- What a path leads to, links followed. The empty path leads nowhere. -/
def resolve (files : Tree) (cwd : Place) (path : List UInt8) : Option Place :=
  if path = [] then none else resolveNames files maxLinks (start cwd path) (components path)

/-- `stat` -/
def stat (files : Tree) (cwd : Place) (path : List UInt8) : Option Node := (resolve files cwd path).bind files

/-- The place that the last name of a path stands for, which is not followed -/
def lastPlace (files : Tree) (cwd : Place) (path : List UInt8) : Option Place := do
  let n ← (components path).getLast?
  let d ← resolveNames files maxLinks (start cwd path) (components path).dropLast
  entry files d n

/-- Put something where there is nothing. -/
def add (files : Tree) (node : Node) (place : Option Place) : Tree :=
  match place with
  | none => files
  | some p => if files p = none then Function.update files p (some node) else files

/-- `mkdir` -/
def mkdir (files : Tree) (cwd : Place) (path : List UInt8) : Tree := add files .dir (lastPlace files cwd path)

/-- `symlink`. A link does not lead to the empty path. -/
def symlink (files : Tree) (cwd : Place) (target path : List UInt8) : Tree :=
  if target = [] then files else add files (.link target) (lastPlace files cwd path)

/-- `fopen` of a file that is to be written, if it can be opened -/
def openWrite (files : Tree) (cwd : Place) (path : List UInt8) : Option Place := do
  let p ← resolve files cwd path
  if files p = some .dir then none else some p

theorem resolve_eq (hpath : path ≠ []) (h : Resolves files links (start cwd path) (components path) p)
    (hlinks : links ≤ maxLinks) : resolve files cwd path = some p :=
  (if_neg hpath).trans (h.mono hlinks).resolveNames_eq

theorem stat_eq (hpath : path ≠ []) (h : Resolves files links (start cwd path) (components path) p)
    (hlinks : links ≤ maxLinks) : stat files cwd path = files p := by
  rw [stat, resolve_eq hpath h hlinks, Option.bind_some]

theorem lastPlace_eq (hcomponents : components path = ns ++ [n]) (h : Resolves files links (start cwd path) ns d)
    (hlinks : links ≤ maxLinks) (hd : files d = some .dir) (hn : Proper n) :
    lastPlace files cwd path = some (n :: d) := by
  rw [lastPlace, hcomponents, List.getLast?_concat, List.dropLast_concat, (h.mono hlinks).resolveNames_eq]
  exact entry_proper hd hn

theorem openWrite_eq (hpath : path ≠ []) (h : Resolves files links (start cwd path) (components path) p)
    (hlinks : links ≤ maxLinks) (hp : files p ≠ some .dir) : openWrite files cwd path = some p := by
  rw [openWrite, resolve_eq hpath h hlinks, Option.bind_eq_bind, Option.bind_some, if_neg hp]

theorem keeps_update {node : Node} (hp : files p = none) : Keeps files (Function.update files p (some node)) := by
  have hne {q : Place} {x : Node} (hq : files q = some x) : Function.update files p (some node) q = some x := by
    rw [Function.update_of_ne, hq]
    rintro rfl
    rw [hp] at hq
    cases hq
  exact ⟨fun q hq => hne hq, fun q target hq => hne hq, fun q text x hq => ⟨text, x, hne hq⟩⟩

theorem keeps_write {text : List UInt8} {x : Bool} (hp : files p ≠ some .dir)
    (hlink : ∀ target, files p ≠ some (.link target)) :
    Keeps files (Function.update files p (some (.file text x))) where
  dir q hq := by
    rw [Function.update_of_ne, hq]
    rintro rfl
    exact hp hq
  link q target hq := by
    rw [Function.update_of_ne, hq]
    rintro rfl
    exact hlink target hq
  file q text' x' hq := by
    by_cases heq : q = p
    · exact ⟨text, x, by rw [heq, Function.update_self]⟩
    · exact ⟨text', x', by rw [Function.update_of_ne heq, hq]⟩

theorem keeps_add (files : Tree) (node : Node) (p : Place) : Keeps files (add files node (some p)) := by
  rw [add]
  split
  · rename_i hp
    exact keeps_update hp
  · exact ⟨fun _ hq => hq, fun _ _ hq => hq, fun _ text x hq => ⟨text, x, hq⟩⟩

theorem add_of_ne {node : Node} (h : q ≠ p) : add files node (some p) q = files q := by
  rw [add]
  split
  · exact Function.update_of_ne h _ _
  · rfl

theorem add_self {node : Node} : add files node (some p) p = some ((files p).getD node) := by
  rw [add]
  split
  · rename_i hp
    rw [Function.update_self, hp]
    rfl
  · rename_i hp
    obtain ⟨x, hx⟩ := Option.ne_none_iff_exists'.mp hp
    rw [hx]
    rfl

/-! ### Directories that are found -/

/-- A path from the root that leads to the directory at `p`, by way of at most `links` links -/
structure Leads (files : Tree) (path : List UInt8) (links : Nat) (p : Place) : Prop where
  absolute : path.head? = some slash
  resolves : Resolves files links [] (components path) p
  dir : files p = some .dir

theorem Leads.keeps (h : Leads files path links p) (hk : Keeps files files') : Leads files' path links p where
  absolute := h.absolute
  resolves := h.resolves.keeps hk (by rw [h.dir]; simp)
  dir := hk.dir p h.dir

theorem Leads.head?_child (h : Leads files path links p) (n : Name) : (path ++ slash :: n).head? = some slash := by
  rw [List.head?_append, h.absolute]
  rfl

theorem Leads.start_child (h : Leads files path links p) (n : Name) : start cwd (path ++ slash :: n) = [] :=
  if_pos (h.head?_child n)

theorem Leads.child (h : Leads files path links p) (hn : Proper n) (hdir : files (n :: p) = some .dir) :
    Leads files (path ++ slash :: n) links (n :: p) where
  absolute := h.head?_child n
  resolves := by
    rw [FileTree.components_child path hn]
    exact h.resolves.child h.dir hn (by rw [hdir]; simp)
  dir := hdir

theorem Leads.lastPlace_child (h : Leads files path links p) (hlinks : links ≤ maxLinks) (hn : Proper n) :
    lastPlace files cwd (path ++ slash :: n) = some (n :: p) := by
  refine lastPlace_eq (FileTree.components_child path hn) ?_ hlinks h.dir hn
  rw [h.start_child]
  exact h.resolves

theorem Leads.mkdir_self (h : Leads files path links p) (hlinks : links ≤ maxLinks) : mkdir files cwd path = files := by
  rcases List.eq_nil_or_concat' (components path) with hnil | ⟨ns, n, hns⟩
  · rw [mkdir, lastPlace, hnil]
    rfl
  · obtain ⟨d, hd, hn⟩ := h.resolves.split hns
    have hstart : start cwd path = [] := if_pos h.absolute
    have hplace : lastPlace files cwd path = entry files d n := by
      rw [lastPlace, hns, List.getLast?_concat, List.dropLast_concat, hstart, (hd.mono hlinks).resolveNames_eq]
      rfl
    have hthere : ∃ q, entry files d n = some q ∧ files q ≠ none := by
      have hp : files p ≠ none := by simp [h.dir]
      cases hn with
      | name hentry _ rest => exact ⟨_, hentry, rest.start_ne_none hp⟩
      | link hentry hlink => exact ⟨_, hentry, by rw [hlink]; simp⟩
    obtain ⟨q, hentry, hq⟩ := hthere
    rw [mkdir, hplace, hentry]
    exact if_neg hq

theorem Leads.mkdir_child (h : Leads files path links p) (hlinks : links ≤ maxLinks) (hn : Proper n)
    (hnone : files (n :: p) = none) :
    mkdir files cwd (path ++ slash :: n) = Function.update files (n :: p) (some .dir) := by
  rw [mkdir, h.lastPlace_child hlinks hn]
  exact if_pos hnone

theorem Leads.symlink_child (h : Leads files path links p) (hlinks : links ≤ maxLinks) (hn : Proper n)
    (htarget : target ≠ []) :
    symlink files cwd target (path ++ slash :: n) = add files (.link target) (some (n :: p)) := by
  rw [symlink, if_neg htarget, h.lastPlace_child hlinks hn]

theorem Leads.openWrite_child (h : Leads files path links p) (hlinks : links ≤ maxLinks) (hn : Proper n)
    (hdir : files (n :: p) ≠ some .dir) (hlink : ∀ target, files (n :: p) ≠ some (.link target)) :
    openWrite files cwd (path ++ slash :: n) = some (n :: p) := by
  refine openWrite_eq (by simp) ?_ hlinks hdir
  rw [h.start_child, FileTree.components_child path hn]
  exact h.resolves.child h.dir hn hlink

/-- **A link in it** leads to what is found with the path that is its target. -/
theorem Leads.stat_link (h : Leads files path links p) (hn : Proper n)
    (hlink : files (n :: p) = some (.link target)) {path' : List UInt8} {m : Name} (hm : Proper m)
    (htarget : target = path' ++ slash :: m) (h' : Leads files path' links' q)
    (hfile : ∀ target, files (m :: q) ≠ some (.link target)) (hlinks : links + (links' + 1) ≤ maxLinks) :
    stat files cwd (path ++ slash :: n) = files (m :: q) := by
  refine stat_eq (by simp) ?_ hlinks
  rw [h.start_child, FileTree.components_child path hn]
  refine h.resolves.childLink h.dir hn hlink ?_
  rw [htarget, h'.start_child, FileTree.components_child path' hm]
  exact h'.resolves.child h'.dir hm hfile

end Files
