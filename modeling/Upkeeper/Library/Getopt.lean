import Mathlib.Tactic.Common
import Upkeeper.Library.CString
/-!
# `getopt_long` (`getopt.h`)

GNU `getopt_long` moves the words that are no options behind those that are, so its results are the options in their
order and then the operands in theirs. `"-"` and the empty word are operands, and `"--"` ends the options. A long option
may be cut short where that is unambiguous.
-/

namespace Getopt

/-- `struct option` without a flag -/
structure LongOption where
  name : CStr
  hasArg : Bool
  val : UInt8

/-- One result: the value, the index of a long option, and `optarg` -/
structure Event where
  val : UInt8
  index : Option Nat
  optarg : Option CStr

/-- `'-'` -/
def dash : UInt8 := 45

/-- `'?'` -/
def unknown : UInt8 := 63

/-- The results, and the words from `optind` on at the end -/
structure Scan where
  events : List Event
  operands : List CStr

/-- What a word is: the end of the options, an operand, or options, the last of which may wait for its argument -/
inductive Word
  | stop
  | operand
  | options (events : List Event) (waiting : Option Event)

/-- The options of an `optstring`, with whether they take an argument -/
def shortOptions : List UInt8 → List (UInt8 × Bool)
  | [] => []
  | c :: 58 :: rest => (c, true) :: shortOptions rest
  | c :: rest => (c, false) :: shortOptions rest

/-- The characters behind a `-` -/
def cluster (shorts : List (UInt8 × Bool)) : List UInt8 → List Event × Option Event
  | [] => ([], none)
  | c :: cs =>
    match shorts.lookup c with
    | none => let (events, waiting) := cluster shorts cs; (⟨unknown, none, none⟩ :: events, waiting)
    | some false => let (events, waiting) := cluster shorts cs; (⟨c, none, none⟩ :: events, waiting)
    | some true => if cs = [] then ([], some ⟨c, none, none⟩) else ([⟨c, none, some (.ofChars cs)⟩], none)

/-- The long option of this name, or the one that it abbreviates. Several are as good as one if they do the same. -/
def findLong (longs : List LongOption) (name : List UInt8) : Option (Nat × LongOption) :=
  match longs.zipIdx.find? fun (o, _) => o.name.chars = name with
  | some (o, i) => some (i, o)
  | none =>
    match longs.zipIdx.filter fun (o, _) => name.isPrefixOf o.name.chars with
    | [] => none
    | (o, i) :: others => if others.all fun (o', _) => o'.hasArg = o.hasArg ∧ o'.val = o.val then some (i, o) else none

/-- The text behind a `--` -/
def long (longs : List LongOption) (text : List UInt8) : List Event × Option Event :=
  let name := text.takeWhile (· ≠ 61)
  let value := text.drop name.length
  match findLong longs name with
  | none => ([⟨unknown, none, none⟩], none)
  | some (i, o) =>
    match o.hasArg, value with
    | true, [] => ([], some ⟨o.val, some i, none⟩)
    | true, _ :: arg => ([⟨o.val, some i, some (.ofChars arg)⟩], none)
    | false, [] => ([⟨o.val, some i, none⟩], none)
    | false, _ :: _ => ([⟨unknown, none, none⟩], none)

/-- What the word is -/
def word (shorts : List (UInt8 × Bool)) (longs : List LongOption) (w : CStr) : Word :=
  match w.chars with
  | [45, 45] => .stop
  | 45 :: 45 :: text => let (events, waiting) := long longs text; .options events waiting
  | 45 :: c :: cs => let (events, waiting) := cluster shorts (c :: cs); .options events waiting
  | _ => .operand

/-- Go through the words behind an option that may wait for its argument. -/
def scan (shorts : List (UInt8 × Bool)) (longs : List LongOption) : Option Event → List CStr → Scan
  | none, [] => ⟨[], []⟩
  | some _, [] => ⟨[⟨unknown, none, none⟩], []⟩
  | some e, w :: ws =>
    let s := scan shorts longs none ws
    { s with events := { e with optarg := some w } :: s.events }
  | none, w :: ws =>
    match word shorts longs w with
    | .stop => ⟨[], ws⟩
    | .operand =>
      let s := scan shorts longs none ws
      { s with operands := w :: s.operands }
    | .options events waiting =>
      let s := scan shorts longs waiting ws
      { s with events := events ++ s.events }

/-- `getopt_long`, called until it returns `-1` -/
def getoptLong (optstring : CStr) (longs : List LongOption) (words : List CStr) : Scan :=
  scan (shortOptions optstring.chars) longs none words

variable {shorts : List (UInt8 × Bool)} {longs : List LongOption} {w : CStr} {ws : List CStr} {c : UInt8}

theorem scan_operand (h : word shorts longs w = .operand) : scan shorts longs none (w :: ws) =
    { scan shorts longs none ws with operands := w :: (scan shorts longs none ws).operands } := by
  rw [scan, h]

theorem scan_options {events : List Event} {waiting : Option Event} (h : word shorts longs w = .options events waiting) :
    scan shorts longs none (w :: ws) =
      { scan shorts longs waiting ws with events := events ++ (scan shorts longs waiting ws).events } := by
  rw [scan, h]

theorem scan_waiting (e : Event) : scan shorts longs (some e) (w :: ws) =
    { scan shorts longs none ws with events := { e with optarg := some w } :: (scan shorts longs none ws).events } := rfl

theorem word_operand (h : w.chars.head? ≠ some dash) : word shorts longs w = .operand := by
  unfold word
  split
  · next heq => simp [heq, dash] at h
  · next heq => simp [heq, dash] at h
  · next heq => simp [heq, dash] at h
  · rfl

theorem word_cluster {cs : List UInt8} (h : w.chars = dash :: c :: cs) (hc : c ≠ dash) :
    word shorts longs w = .options (cluster shorts (c :: cs)).1 (cluster shorts (c :: cs)).2 := by
  unfold word
  split
  · next heq =>
    rw [h] at heq
    simp only [List.cons.injEq] at heq
    exact absurd heq.2.1 hc
  · next heq =>
    rw [h] at heq
    simp only [List.cons.injEq] at heq
    exact absurd heq.2.1 hc
  · next heq =>
    rw [h] at heq
    simp only [List.cons.injEq] at heq
    obtain ⟨-, rfl, rfl⟩ := heq
    rfl
  · next hnot =>
    exact absurd h (hnot c cs)

theorem cluster_replicate (h : shorts.lookup c = some false) (n : Nat) :
    cluster shorts (List.replicate n c) = (List.replicate n ⟨c, none, none⟩, none) := by
  induction n with
  | zero => rfl
  | succ n ih =>
    rw [List.replicate_succ, cluster, h, ih]
    rfl

end Getopt
