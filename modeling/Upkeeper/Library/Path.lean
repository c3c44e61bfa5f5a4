import Mathlib.Data.List.DropRight
import Upkeeper.Library.CString
/-!
# Paths and `dirname` (`libgen.h`)

`dirname` cuts a path in its own buffer, except when no slash is left: then it returns `"."` and leaves the buffer
alone. Exactly two slashes at the start of a path are a root of their own. So what it yields, called again and again,
depends on the number of slashes at the start: from a `Rooted` path it comes to `"/"`, and each step is shorter
(`Rooted.dirname`); from any other path it never comes there (`dirname_of_not_rooted`).
-/

/-- `'/'` -/
def Path.slash : UInt8 := 47

/-- The text without the last bytes that satisfy `p` -/
def CStr.rdropWhile (s : CStr) (p : UInt8 → Bool) : CStr :=
  ⟨s.chars.rdropWhile p, fun c hc => s.noNul c ((List.rdropWhile_prefix p s.chars).subset hc)⟩

/-- The path up to its last slash. The slashes at its end count only if there is nothing else. -/
def upToLastSlash (path : CStr) : CStr :=
  let name := path.rdropWhile (· == Path.slash)
  if name = .empty then path else name.rdropWhile (· != Path.slash)

/-- `dirname`: the text that it returns, and the text that it leaves in its argument -/
def dirname (path : CStr) : CStr × CStr :=
  let dir := upToLastSlash path
  if dir = .empty then (cstr ".", path)
  else
    let parent := dir.rdropWhile (· == Path.slash)
    let parent := if parent = .empty then path.take (if dir.chars.length = 2 then 2 else 1) else parent
    (parent, parent)

namespace Path

/-- `"/"` -/
def root : CStr := cstr "/"

/-- The number of slashes at the start of the path -/
def leading (path : CStr) : Nat := (path.chars.takeWhile (· == slash)).length

/-- An absolute path, but not one in the root `"//"` -/
def Rooted (path : CStr) : Prop := leading path ≠ 0 ∧ leading path ≠ 2

instance (path : CStr) : Decidable (Rooted path) := inferInstanceAs (Decidable (_ ∧ _))

/-- `dirname` yields `a`, called once or more from `path` on. -/
inductive Ancestor : CStr → CStr → Prop
  | parent (path : CStr) : Ancestor (dirname path).1 path
  | up {a path : CStr} (h : Ancestor a (dirname path).1) : Ancestor a path

variable {a path : CStr} {l m : List UInt8} {c : UInt8} {n : Nat}

theorem concat_slash (s t : CStr) : (CStr.concat [s, cstr "/", t]).chars = s.chars ++ slash :: t.chars := by
  rw [CStr.concat_chars, List.flatMap_cons, List.flatMap_cons, List.flatMap_singleton]
  rfl

theorem length_concat_slash (s t : CStr) :
    (CStr.concat [s, cstr "/", t]).chars.length = s.chars.length + t.chars.length + 1 := by
  rw [concat_slash, List.length_append, List.length_cons]
  rfl

/-! ### The leading slashes -/

theorem eq_empty_iff {s : CStr} : s = .empty ↔ s.chars = [] :=
  ⟨fun h => h ▸ rfl, fun h => CStr.ext h⟩

theorem eq_slash_of_mem (h : c ∈ l.takeWhile (· == slash)) : c = slash :=
  eq_of_beq (List.mem_takeWhile_imp (p := (· == slash)) h)

theorem takeWhile_beyond (h : l <+: m) (hl : ∃ c ∈ l, c ≠ slash) :
    l.takeWhile (· == slash) = m.takeWhile (· == slash) := by
  obtain ⟨t, rfl⟩ := h
  rw [List.takeWhile_append, if_neg]
  intro hlen
  obtain ⟨c, hc, hne⟩ := hl
  rw [← (List.takeWhile_prefix _).eq_of_length hlen] at hc
  exact hne (eq_slash_of_mem hc)

theorem leading_beyond (h : a.chars <+: path.chars) (ha : ∃ c ∈ a.chars, c ≠ slash) : leading a = leading path :=
  congrArg List.length (takeWhile_beyond h ha)

theorem leading_of_all (h : ∀ c ∈ path.chars, c = slash) : leading path = path.chars.length := by
  rw [leading, List.takeWhile_eq_self_iff.mpr]
  intro c hc
  exact beq_iff_eq.mpr (h c hc)

theorem take_leading (hn : n ≤ leading path) : (path.take n).chars = List.replicate n slash := by
  have hpre : path.chars.takeWhile (· == slash) = List.replicate (leading path) slash :=
    List.eq_replicate_iff.mpr ⟨rfl, fun c hc => eq_slash_of_mem hc⟩
  have htake := List.prefix_iff_eq_take.mp (List.takeWhile_prefix (l := path.chars) (· == slash))
  have hlead : path.chars.take (leading path) = List.replicate (leading path) slash := htake.symm.trans hpre
  show path.chars.take n = _
  rw [← Nat.min_eq_left hn, ← List.take_take, hlead, List.take_replicate]

/-! ### One call -/

theorem rdropWhile_cases (p : UInt8 → Bool) (l : List UInt8) :
    l.rdropWhile p = [] ∧ (∀ c ∈ l, p c = true) ∨ ∃ m c, l.rdropWhile p = m ++ [c] ∧ p c = false := by
  rcases List.eq_nil_or_concat' (l.rdropWhile p) with hnil | ⟨m, c, hm⟩
  · exact Or.inl ⟨hnil, List.rdropWhile_eq_nil_iff.mp hnil⟩
  · refine Or.inr ⟨m, c, hm, ?_⟩
    have hne : l.rdropWhile p ≠ [] := by simp [hm]
    have hlast := List.rdropWhile_last_not p l hne
    simp only [hm, List.getLast_append_singleton, Bool.not_eq_true] at hlast
    exact hlast

theorem leading_append (hl : ∀ c ∈ l, c = slash) (hm : ∀ c ∈ m, c ≠ slash) (hpath : path.chars = l ++ m) :
    leading path = l.length := by
  have hnil : m.takeWhile (· == slash) = [] := by
    cases m with
    | nil => rfl
    | cons c m => exact List.takeWhile_cons_of_neg (by simpa using hm c List.mem_cons_self)
  rw [leading, hpath, List.takeWhile_append_of_pos (fun c hc => beq_iff_eq.mpr (hl c hc)), hnil, List.append_nil]

theorem upToLastSlash_cases (path : CStr) :
    upToLastSlash path = .empty ∧ leading path = 0 ∨
      ∃ l, (upToLastSlash path).chars = l ++ [slash] ∧ (upToLastSlash path).chars <+: path.chars ∧
        ((∀ c ∈ l, c = slash) → leading path = l.length + 1) := by
  rcases rdropWhile_cases (· == slash) path.chars with ⟨hname, hall⟩ | ⟨m, c, hname, hc⟩
  · -- nothing but slashes
    have hup : upToLastSlash path = path := if_pos (eq_empty_iff.mpr hname)
    have hlead := leading_of_all fun c hc => eq_of_beq (hall c hc)
    rw [hup]
    rcases List.eq_nil_or_concat' path.chars with hnil | ⟨l, c, hl⟩
    · exact Or.inl ⟨eq_empty_iff.mpr hnil, by rw [hlead, hnil]; rfl⟩
    · have hc : c = slash := eq_of_beq (hall c (by rw [hl]; simp))
      refine Or.inr ⟨l, hc ▸ hl, List.prefix_rfl, fun _ => ?_⟩
      rw [hlead, hl, List.length_append, List.length_singleton]
  · -- a name, and the slashes behind it
    let name := path.rdropWhile (· == slash)
    have hchars : name.chars = m ++ [c] := hname
    have hpre : name.chars <+: path.chars := List.rdropWhile_prefix _ _
    have hmem : c ∈ name.chars := by rw [hchars]; simp
    have hne : c ≠ slash := by simpa using hc
    have hlead : leading name = leading path := leading_beyond hpre ⟨c, hmem, hne⟩
    have hnonempty : name ≠ .empty := fun h => by
      rw [eq_empty_iff.mp h] at hchars
      simp at hchars
    have hup : upToLastSlash path = name.rdropWhile (· != slash) := if_neg hnonempty
    rw [hup]
    rcases rdropWhile_cases (· != slash) name.chars with ⟨hdir, hall⟩ | ⟨l, d, hdir, hd⟩
    · refine Or.inl ⟨eq_empty_iff.mpr hdir, ?_⟩
      rw [← hlead, leading_append (l := []) (m := name.chars) (by simp) (fun c hc => by simpa using hall c hc) rfl]
      rfl
    · have hslash : d = slash := by simpa using hd
      rw [hslash] at hdir
      refine Or.inr ⟨l, hdir, (List.rdropWhile_prefix _ _).trans hpre, fun hall => ?_⟩
      have hsplit := List.rdropWhile_append_rtakeWhile (p := (· != slash)) (l := name.chars)
      rw [hdir] at hsplit
      rw [← hlead, leading_append ?_ ?_ hsplit.symm, List.length_append, List.length_singleton]
      · intro x hx
        rcases List.mem_append.mp hx with hx | hx
        · exact hall x hx
        · exact List.mem_singleton.mp hx
      · exact fun x hx => by simpa using List.mem_rtakeWhile_imp hx

/-- **What `dirname` does:** there is no slash, or the parent is a root, or it is a shorter path with as many leading
slashes. -/
theorem dirname_cases (path : CStr) :
    leading path = 0 ∧ dirname path = (cstr ".", path) ∨
      (leading path ≠ 0 ∧
        ∃ r : CStr, dirname path = (r, r) ∧ r.chars = List.replicate (if leading path = 2 then 2 else 1) slash) ∨
      ∃ p : CStr, dirname path = (p, p) ∧ leading p = leading path ∧ p.chars.length < path.chars.length ∧
        ∃ c ∈ p.chars, c ≠ slash := by
  rcases upToLastSlash_cases path with ⟨hempty, hlead⟩ | ⟨l, hdir, hpre, hroot⟩
  · exact Or.inl ⟨hlead, if_pos hempty⟩
  · have hnonempty : upToLastSlash path ≠ .empty := fun h => by
      rw [eq_empty_iff.mp h] at hdir
      simp at hdir
    refine Or.inr ?_
    rcases rdropWhile_cases (· == slash) (upToLastSlash path).chars with ⟨hparent, hall⟩ | ⟨m, c, hparent, hc⟩
    · have hlen : leading path = (upToLastSlash path).chars.length := by
        rw [hroot fun c hc => eq_of_beq (hall c (by rw [hdir]; simp [hc])), hdir, List.length_append,
          List.length_singleton]
      have hpos : leading path ≠ 0 := by
        rw [hlen, hdir]
        simp
      refine Or.inl ⟨hpos, path.take (if leading path = 2 then 2 else 1), ?_, take_leading ?_⟩
      · have hp : (upToLastSlash path).rdropWhile (· == slash) = .empty := eq_empty_iff.mpr hparent
        unfold dirname
        rw [if_neg hnonempty, hlen]
        dsimp only
        rw [if_pos hp]
      · split <;> omega
    · let p := (upToLastSlash path).rdropWhile (· == slash)
      have hchars : p.chars = m ++ [c] := hparent
      have hmem : c ∈ p.chars := by rw [hchars]; simp
      have hne : c ≠ slash := by simpa using hc
      have hp : p ≠ .empty := fun h => by
        rw [eq_empty_iff.mp h] at hchars
        simp at hchars
      have hpdir : p.chars <+: (upToLastSlash path).chars := List.rdropWhile_prefix _ _
      refine Or.inr ⟨p, ?_, leading_beyond (hpdir.trans hpre) ⟨c, hmem, hne⟩, ?_, c, hmem, hne⟩
      · unfold dirname
        rw [if_neg hnonempty]
        dsimp only
        rw [if_neg hp]
      · -- the parent does not end in a slash
        have hlt : p.chars.length < (upToLastSlash path).chars.length := by
          refine lt_of_le_of_ne hpdir.length_le fun heq => hne ?_
          have hsame := hpdir.eq_of_length heq
          rw [hchars, hdir] at hsame
          exact List.singleton_inj.mp (List.append_inj_right' hsame rfl)
        exact hlt.trans_le hpre.length_le

/-! ### One call after another -/

theorem eq_root_iff {s : CStr} : s = root ↔ s.chars = List.replicate 1 slash :=
  ⟨fun h => h ▸ rfl, fun h => CStr.ext h⟩

theorem rooted_root : Rooted root := by decide

theorem dirname_root : dirname root = (root, root) := by decide

theorem Rooted.dirname (h : Rooted path) :
    ∃ p : CStr, dirname path = (p, p) ∧ Rooted p ∧
      (p = root ∨ p ≠ root ∧ p ≠ .empty ∧ p.chars.length < path.chars.length) := by
  rcases dirname_cases path with ⟨hlead, -⟩ | ⟨-, r, hr, hchars⟩ | ⟨p, hp, hlead, hlt, c, hc, hne⟩
  · exact absurd hlead h.1
  · rw [if_neg h.2] at hchars
    obtain rfl := eq_root_iff.mpr hchars
    exact ⟨root, hr, rooted_root, Or.inl rfl⟩
  · refine ⟨p, hp, by rwa [Rooted, hlead], Or.inr ⟨?_, ?_, hlt⟩⟩
    · rintro rfl
      exact hne (List.mem_singleton.mp hc)
    · rintro rfl
      cases hc

theorem dirname_of_not_rooted (h : ¬ Rooted path) :
    ¬ Rooted (dirname path).2 ∧ (dirname path).1 ≠ root ∧ (dirname path).1 ≠ .empty := by
  have h02 : leading path = 0 ∨ leading path = 2 := by
    rw [Rooted] at h
    omega
  rcases dirname_cases path with ⟨-, hp⟩ | ⟨hpos, r, hr, hchars⟩ | ⟨p, hp, hlead, -, c, hc, hne⟩
  · rw [hp]
    exact ⟨h, (by decide : cstr "." ≠ root), (by decide : cstr "." ≠ .empty)⟩
  · have h2 : leading path = 2 := h02.resolve_left hpos
    rw [if_pos h2] at hchars
    obtain rfl : r = cstr "//" := CStr.ext hchars
    rw [hr]
    exact ⟨by decide, by decide, by decide⟩
  · rw [hp]
    refine ⟨by rwa [Rooted, hlead], ?_, ?_⟩
    · rintro rfl
      exact hne (List.mem_singleton.mp hc)
    · rintro rfl
      cases hc

theorem Ancestor.rooted (h : Ancestor a path) (hpath : Rooted path) :
    Rooted a ∧ a.chars.length ≤ path.chars.length := by
  have hstep : ∀ {s : CStr}, Rooted s → Rooted (dirname s).1 ∧ (dirname s).1.chars.length ≤ s.chars.length := by
    intro s hs
    obtain ⟨p, hp, hrooted, hor⟩ := hs.dirname
    rw [hp]
    refine ⟨hrooted, ?_⟩
    rcases hor with rfl | ⟨-, -, hlt⟩
    · have hpos : leading s ≤ s.chars.length := (List.takeWhile_prefix _).length_le
      exact (Nat.one_le_iff_ne_zero.mpr hs.1).trans hpos
    · exact Nat.le_of_lt hlt
  induction h with
  | parent path => exact hstep hpath
  | up _ ih =>
    obtain ⟨hrooted, hle⟩ := hstep hpath
    obtain ⟨ha, hlen⟩ := ih hrooted
    exact ⟨ha, hlen.trans hle⟩

theorem ancestor_iff : Ancestor a path ↔ a = (dirname path).1 ∨ Ancestor a (dirname path).1 := by
  constructor
  · rintro (_ | h)
    · exact Or.inl rfl
    · exact Or.inr h
  · rintro (rfl | h)
    · exact .parent path
    · exact .up h

theorem ancestor_root (h : Ancestor a root) : a = root := by
  generalize hr : root = r at h
  induction h with
  | parent path => rw [← hr, dirname_root]
  | up _ ih =>
    subst hr
    rw [dirname_root] at ih
    exact ih rfl

end Path
