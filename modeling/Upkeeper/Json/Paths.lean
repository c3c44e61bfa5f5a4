import Mathlib.Algebra.Order.BigOperators.Group.List
import Upkeeper.Json.Pretty
/-!
# Printing to a string, and to a stream

A stream gets each piece of text as it is formatted. For a string the piece first goes through an array of
`UPK_MAX_STRING_LEN` bytes, which keeps `UPK_MAX_STRING_LEN - 2` of them; what is kept is then added to a block that grows
by as much, so that the block always holds what has been kept, and nothing behind its terminator (`Gathered`).

So the string is what the stream gets if every piece fits the array, and if there is one at all (`pathsAgree_iff`).
-/

namespace Upkeeper

open Wire (Fault)

/-- **The string is byte for byte what is written to the stream.** -/
def PathsAgree (lib : OutputLib) (obj : Json) (opts : OutputOpts) : Prop :=
  ∃ (b : List UInt8) (s : CStr), upkJsonObjToString lib obj opts = .ok (some b) ∧ Block.Holds b s ∧
    upkJsonObjToStream lib obj opts = .ok s.chars

/-- What the array of `upk_output_json_string` keeps of a text -/
def kept (f : CStr) : CStr := f.take (upkMaxStringLen - 2)

/-- The string behind some pieces: its block holds what was kept of them. Before the first of them there is no block. -/
inductive Gathered : List CStr → StreamString → Prop
  | nothing : Gathered [] (.string none 0)
  | block {fs : List CStr} {b : List UInt8} (any : fs ≠ []) (holds : Block.Holds b (.concat (fs.map kept)))
      (size : b.length = (CStr.concat (fs.map kept)).chars.length + 1) : Gathered fs (.string (some b) b.length)

variable {lib : OutputLib} {opts : OutputOpts} {obj : Json} {fs : List CStr} {d : StreamString}

/-! ### One piece -/

theorem strnlen_kept (f : CStr) : (kept f).strnlen upkMaxStringLen = (kept f).chars.length := by
  have hle : (kept f).chars.length ≤ 2046 := List.length_take_le _ _
  unfold CStr.strnlen
  show min _ 2048 = _
  omega

theorem strcat_realloc (junk : Nat → UInt8) {b : List UInt8} {s : CStr} (hb : Block.Holds b s)
    (hsize : b.length = s.chars.length + 1) (t : CStr) :
    ∃ b', Block.strcat (Block.realloc junk b (b.length + t.chars.length)) t = .ok b' ∧ Block.Holds b' (s.append t) ∧
      b'.length = b.length + t.chars.length := by
  have hgrown : Block.Holds (Block.realloc junk b (b.length + t.chars.length)) s := hb.realloc (by omega)
  have hroom : s.chars.length + t.chars.length < (Block.realloc junk b (b.length + t.chars.length)).length := by
    rw [Block.realloc_length]
    omega
  obtain ⟨b', hcat, hholds, hlen⟩ := hgrown.strcat hroom
  exact ⟨b', hcat, hholds, hlen.trans (Block.realloc_length _ _ _)⟩

theorem concat_kept (fs : List CStr) (f : CStr) :
    (CStr.concat (fs.map kept)).append (kept f) = .concat ((fs ++ [f]).map kept) := by
  apply CStr.ext
  show (CStr.concat (fs.map kept)).chars ++ (kept f).chars = _
  rw [CStr.concat_chars, CStr.concat_chars, List.map_append, List.flatMap_append, List.map_singleton,
    List.flatMap_singleton]

theorem Gathered.output (h : Gathered fs d) (junk : Nat → UInt8) (f : CStr) :
    ∃ d', upkOutputJsonString junk f d = .ok d' ∧ Gathered (fs ++ [f]) d' := by
  obtain ⟨b, hcall, hb, hsize⟩ : ∃ b : List UInt8, upkOutputJsonString junk f d =
      ((Block.strcat (Block.realloc junk b (b.length + (kept f).chars.length)) (kept f)) >>= fun p =>
        .ok (.string (some p) (b.length + (kept f).chars.length))) ∧
      Block.Holds b (.concat (fs.map kept)) ∧ b.length = (CStr.concat (fs.map kept)).chars.length + 1 := by
    cases h with
    | nothing =>
      refine ⟨Block.calloc 1, ?_, Block.holds_calloc (by decide), rfl⟩
      rw [← strnlen_kept]
      rfl
    | @block _ b _ hb hsize =>
      refine ⟨b, ?_, hb, hsize⟩
      rw [← strnlen_kept]
      rfl
  obtain ⟨b', hcat, hholds, hlen⟩ := strcat_realloc junk hb hsize (kept f)
  rw [concat_kept] at hholds
  refine ⟨.string (some b') b'.length, ?_, .block (List.append_ne_nil_of_right_ne_nil _ (List.cons_ne_nil _ _)) hholds ?_⟩
  · rw [hcall, hcat, hlen]
    rfl
  · rw [hlen, hsize, ← concat_kept]
    show _ = ((CStr.concat (fs.map kept)).chars ++ (kept f).chars).length + 1
    rw [List.length_append]
    omega

/-! ### The whole document -/

theorem Gathered.foldlM (h : Gathered fs d) (junk : Nat → UInt8) (gs : List CStr) :
    ∃ d', gs.foldlM (fun d f => upkOutputJsonString junk f d) d = .ok d' ∧ Gathered (fs ++ gs) d' := by
  induction gs generalizing fs d with
  | nil => exact ⟨d, rfl, (List.append_nil fs).symm ▸ h⟩
  | cons g gs ih =>
    obtain ⟨d₁, hcall, h₁⟩ := h.output junk g
    obtain ⟨d', hrest, h'⟩ := ih h₁
    refine ⟨d', ?_, by rwa [List.append_assoc] at h'⟩
    rw [List.foldlM_cons, hcall]
    exact hrest

theorem Gathered.string (h : Gathered fs d) : ∃ p len, d = .string p len := by
  cases h with
  | nothing => exact ⟨none, 0, rfl⟩
  | @block _ b => exact ⟨some b, b.length, rfl⟩

theorem upkJsonObjToString_eq (lib : OutputLib) (hindent : percent ∉ opts.indent.chars) (obj : Json) :
    ∃ p len, upkJsonObjToString lib obj opts = .ok p ∧
      Gathered (fragments opts counted (pieces lib opts 0 none obj)) (.string p len) := by
  obtain ⟨d, hfold, hd⟩ := Gathered.nothing.foldlM lib.junk (fragments opts counted (pieces lib opts 0 none obj))
  obtain ⟨p, len, rfl⟩ := hd.string
  refine ⟨p, len, ?_, hd⟩
  unfold upkJsonObjToString upkJsonObjSerializer
  dsimp only
  rw [parseNode_prints lib 0 none obj _ (.initial hindent _), prints_of_foldlM hfold]
  rfl

theorem Gathered.returned {p : Option (List UInt8)} {len : Nat} (h : Gathered fs (.string p len)) (written : List UInt8) :
    (∃ (b : List UInt8) (s : CStr), p = some b ∧ Block.Holds b s ∧ written = s.chars) ↔
      fs ≠ [] ∧ (CStr.concat (fs.map kept)).chars = written := by
  cases h with
  | nothing =>
    constructor
    · rintro ⟨b, s, hb, -⟩
      cases hb
    · exact fun h => absurd rfl h.1
  | @block _ b hany hholds hsize =>
    constructor
    · rintro ⟨b', s, hb, hs, rfl⟩
      obtain rfl : b = b' := Option.some.inj hb
      rw [← hholds.text_eq, hs.text_eq]
      exact ⟨hany, rfl⟩
    · rintro ⟨-, rfl⟩
      exact ⟨b, _, rfl, hholds, rfl⟩

theorem exists_text (lib : OutputLib) {v : Json} (d : Nat) (key : Option CStr)
    (h : ¬ (v = .null ∧ opts.suppressNullValues = true)) :
    ∃ s, .text s ∈ pieces lib opts d key v := by
  have hline (value : CStr) : ∃ s, .text s ∈ linePieces opts d key value :=
    ⟨_, List.mem_cons_of_mem _ (List.mem_append_right _ (List.mem_singleton_self _))⟩
  have hclosing (bracket : CStr) (ps qs : List Piece) : ∃ s, .text s ∈ ps ++ (qs ++ closingPieces opts d bracket) :=
    ⟨_, List.mem_append_right _ (List.mem_append_right _ (List.mem_cons_of_mem _ (List.mem_singleton_self _)))⟩
  cases v with
  | object es => exact hclosing _ _ _
  | array vs => exact hclosing _ _ _
  | null =>
    rw [pieces, if_neg fun hsuppress => h ⟨rfl, hsuppress⟩]
    exact hline _
  | bool b => exact hline _
  | double x => exact hline _
  | int i => exact hline _
  | string s => exact hline _

theorem fragments_eq_nil_iff : fragments opts counted (pieces lib opts 0 none obj) = [] ↔
    obj = .null ∧ opts.suppressNullValues = true := by
  constructor
  · intro hnil
    by_contra hobj
    obtain ⟨s, hs⟩ := exists_text lib 0 none hobj
    exact List.ne_nil_of_mem (List.mem_flatMap.mpr ⟨_, hs, List.mem_singleton_self s⟩) hnil
  · rintro ⟨rfl, hsuppress⟩
    rw [pieces, if_pos hsuppress]
    rfl

/-- No piece has lost anything if the texts are the same: a piece that was cut would make the string shorter. -/
theorem kept_eq_iff (fs : List CStr) : (CStr.concat (fs.map kept)).chars = fs.flatMap CStr.chars ↔
    ∀ f ∈ fs, f.chars.length ≤ upkMaxStringLen - 2 := by
  rw [CStr.concat_chars, List.flatMap_map]
  constructor
  · intro heq f hf
    by_contra hlong
    have hlen := congrArg List.length heq
    rw [List.length_flatMap, List.length_flatMap] at hlen
    refine absurd hlen (ne_of_lt (List.sum_lt_sum _ _ (fun g _ => ?_) ⟨f, hf, ?_⟩))
    · exact List.length_take_le' _ _
    · show (f.chars.take _).length < _
      rw [List.length_take]
      omega
  · intro hshort
    exact List.flatMap_congr fun f hf => List.take_of_length_le (hshort f hf)

theorem pathsAgree_iff_kept (hindent : percent ∉ opts.indent.chars) : PathsAgree lib obj opts ↔
    fragments opts counted (pieces lib opts 0 none obj) ≠ [] ∧
      ∀ f ∈ fragments opts counted (pieces lib opts 0 none obj), f.chars.length ≤ upkMaxStringLen - 2 := by
  obtain ⟨p, len, hstring, hgathered⟩ := upkJsonObjToString_eq lib hindent obj
  unfold PathsAgree
  rw [← kept_eq_iff, ← hgathered.returned, hstring, upkJsonObjToStream_eq hindent]
  simp only [Except.ok.injEq]

/-- **The two ways to print a document agree exactly if every piece fits the array that the string path formats it in**, and
if it is not a `null` that is suppressed, for which there is no string. -/
theorem pathsAgree_iff (lib : OutputLib) (opts : OutputOpts) (obj : Json) (hindent : percent ∉ opts.indent.chars) :
    PathsAgree lib obj opts ↔ ¬ (obj = .null ∧ opts.suppressNullValues = true) ∧
      ∀ f ∈ fragments opts counted (pieces lib opts 0 none obj), f.chars.length ≤ upkMaxStringLen - 2 := by
  rw [pathsAgree_iff_kept hindent, ne_eq, fragments_eq_nil_iff]

theorem pathsAgree_spaced : PathsAgree quoting (.object [(cstr "a", .array [.bool true, .string (cstr "b")])]) spaced :=
  (pathsAgree_iff quoting spaced (.object [(cstr "a", .array [.bool true, .string (cstr "b")])]) (by decide)).mpr
    ⟨nofun, by decide +kernel⟩

/-- Options without any blanks -/
def compact : OutputOpts := ⟨.empty, .empty, .empty, false⟩

theorem not_pathsAgree_long : ¬ PathsAgree quoting (.string (.ofChars (List.replicate 2045 97))) compact := by
  rw [pathsAgree_iff_kept (by decide)]
  intro h
  have hlong : 2046 < (CStr.concat [escStr quoting (.ofChars (List.replicate 2045 97)), cstr ",", .empty]).chars.length := by
    decide +kernel
  exact absurd (h.2 _ (List.mem_singleton_self _)) (Nat.not_le.mpr hlong)

end Upkeeper
