import Mathlib.Data.Nat.Log
import Upkeeper.Config.Types
import Upkeeper.Library.Block
/-!
# Reading the configuration file (`upk_config_loadfile`)

The file is read in pieces, and each is added to a string on the heap. The string starts in 64 bytes. Before a piece is
added its block is doubled, once, if the text is longer than `size`, and only then is it one byte larger than `size`.
`loadsWhole_iff` says for which files the block is always large enough.
-/

namespace Upkeeper

open Wire (Fault)
open Block (Holds)

/-! ### The function -/

/-- `'\n'` -/
def newline : UInt8 := 10

/-- What the calls of `fgets` return, until one returns `NULL`: lines, of which those longer than `max` bytes come in
several pieces. `cur` has been read since the last call. -/
def fgetsPieces (max : Nat) : List UInt8 → List UInt8 → List (List UInt8)
  | cur, [] => if cur = [] then [] else [cur]
  | cur, c :: file =>
    if c = newline ∨ cur.length + 1 = max then (cur ++ [c]) :: fgetsPieces max [] file
    else fgetsPieces max (cur ++ [c]) file

/-- The locals of `upk_config_loadfile` -/
structure LoadState where
  jsonString : List UInt8
  len : Nat
  size : Nat

/-- `json_string` and `size`, once the text is to be `len` bytes long -/
def grow (junk : Nat → UInt8) (s : LoadState) (len : Nat) : List UInt8 × Nat :=
  if len > s.size then (Block.realloc junk s.jsonString (s.size * 2 + 1), s.size * 2) else (s.jsonString, s.size)

/-- The loop body, with `buf` as `fgets` has filled it -/
def loadPiece (junk : Nat → UInt8) (s : LoadState) (buf : List UInt8) : Except Fault LoadState := do
  let add := (Block.text buf).strnlen upkMaxStringLen
  let len := s.len + add
  let (jsonString, size) := grow junk s len
  let jsonString ← Block.strncat jsonString (Block.text buf) add
  .ok { jsonString, len, size }

/-- `upk_config_loadfile`, of a file with the given contents, or of none that can be opened -/
def upkConfigLoadfile (junk : Nat → UInt8) (conf : Option (List UInt8)) : Except Fault (List UInt8) := do
  let start : LoadState := { jsonString := Block.calloc 64, len := 0, size := 64 }
  match conf with
  | none => .ok start.jsonString
  | some file => do
    let s ← (fgetsPieces (upkMaxStringLen - 2) [] file).foldlM (loadPiece junk) start
    .ok s.jsonString

/-! ### Room -/

/-- The size that a text of `n` bytes makes the buffer grow to: the least power of two that holds it, from 64 on -/
def bufferSize (n : Nat) : Nat := 2 ^ max 6 (Nat.clog 2 n)

/-- A piece takes the text from `a` bytes to `b`: that are not 64 bytes, nor more than twice the buffer. -/
def RoomFor (a b : Nat) : Prop := b ≠ 64 ∧ b ≤ 2 * bufferSize a

/-- The file is a text, and there is room for each piece of it. -/
def FileFits (file : List UInt8) : Prop :=
  0 ∉ file ∧ ∀ pre p, pre ++ [p] <+: fgetsPieces (upkMaxStringLen - 2) [] file →
    RoomFor pre.flatten.length (pre.flatten.length + p.length)

section Room

variable {a b n : Nat}

theorem bufferSize_of_le (h : n ≤ 64) : bufferSize n = 64 := by
  have hle : Nat.clog 2 n ≤ 6 := Nat.clog_le_of_le_pow h
  rw [bufferSize, max_eq_left hle]
  rfl

theorem le_bufferSize (n : Nat) : 64 ≤ bufferSize n ∧ n ≤ bufferSize n := by
  constructor
  · show 2 ^ 6 ≤ 2 ^ _
    exact Nat.pow_le_pow_right (by decide) (le_max_left _ _)
  · exact (Nat.clog_le_iff_le_pow (by decide)).mp (le_max_right _ _)

theorem bufferSize_eq (h : a ≤ b) (hb : b ≤ bufferSize a) : bufferSize b = bufferSize a := by
  have hmono : Nat.clog 2 a ≤ Nat.clog 2 b :=
    Nat.clog_le_of_le_pow (h.trans ((Nat.clog_le_iff_le_pow (by decide)).mp le_rfl))
  have hup : Nat.clog 2 b ≤ max 6 (Nat.clog 2 a) := Nat.clog_le_of_le_pow hb
  unfold bufferSize
  congr 1
  omega

theorem bufferSize_double (h : bufferSize a < b) (hb : b ≤ 2 * bufferSize a) : bufferSize b = 2 * bufferSize a := by
  have hlow : max 6 (Nat.clog 2 a) < Nat.clog 2 b := (Nat.lt_clog_iff_pow_lt (by decide)).mpr h
  have hup : Nat.clog 2 b ≤ max 6 (Nat.clog 2 a) + 1 := by
    refine Nat.clog_le_of_le_pow ?_
    rw [Nat.pow_succ']
    exact hb
  unfold bufferSize
  rw [← Nat.pow_succ']
  congr 1
  omega

end Room

/-! ### One piece -/

/-- The string holds the text `t`, in a buffer of the size that the text has made it grow to. -/
structure Loading (s : LoadState) (t : CStr) : Prop where
  holds : Holds s.jsonString t
  len : s.len = t.chars.length
  size : s.size = bufferSize s.len
  block : s.len < 64 ∧ s.jsonString.length = 64 ∨ 64 < s.len ∧ s.jsonString.length = s.size + 1

section Piece

variable {junk : Nat → UInt8} {s s' : LoadState} {t p : CStr}

theorem start_loading : Loading { jsonString := Block.calloc 64, len := 0, size := 64 } .empty where
  holds := Block.holds_calloc (by decide)
  len := rfl
  size := (bufferSize_of_le (by decide)).symm
  block := .inl ⟨by decide, Block.calloc_length 64⟩

theorem text_chars (p : CStr) : Block.text p.chars = p := by
  apply CStr.ext
  show p.chars.takeWhile (· ≠ 0) = p.chars
  rw [List.takeWhile_eq_self_iff]
  intro c hc
  simpa using p.noNul c hc

theorem loadPiece_eq (hp : p.chars.length ≤ upkMaxStringLen) : loadPiece junk s p.chars =
    Block.strcat (grow junk s (s.len + p.chars.length)).1 p >>= fun jsonString =>
      .ok ⟨jsonString, s.len + p.chars.length, (grow junk s (s.len + p.chars.length)).2⟩ := by
  have hadd : p.strnlen upkMaxStringLen = p.chars.length := Nat.min_eq_left hp
  have htake : p.take p.chars.length = p := CStr.ext List.take_length
  unfold loadPiece
  rw [text_chars, hadd]
  unfold Block.strncat
  dsimp only
  rw [htake]

theorem grow_holds (h : Loading s t) (len : Nat) : Holds (grow junk s len).1 t := by
  have hlt := le_bufferSize s.len
  have hsize := h.size
  have hlen := h.len
  unfold grow
  split
  · exact h.holds.realloc (by omega)
  · exact h.holds

/-- The block that a piece is added to has room for it and for the terminator exactly if `RoomFor` says so. -/
theorem grow_room (junk : Nat → UInt8) (h : Loading s t) {len : Nat} (hle : s.len ≤ len) :
    len < (grow junk s len).1.length ↔ RoomFor s.len len := by
  have hsize := h.size
  have hfit := le_bufferSize s.len
  unfold grow RoomFor
  rcases h.block with ⟨hsmall, hblock⟩ | ⟨hlarge, hblock⟩
  · have h64 := bufferSize_of_le hsmall.le
    split <;> simp only [Block.realloc_length] <;> omega
  · split <;> simp only [Block.realloc_length] <;> omega

theorem grow_size (junk : Nat → UInt8) (h : Loading s t) {len : Nat} (hle : s.len ≤ len) (hroom : RoomFor s.len len) :
    (grow junk s len).2 = bufferSize len ∧ (len < 64 ∧ (grow junk s len).1.length = 64 ∨
      64 < len ∧ (grow junk s len).1.length = (grow junk s len).2 + 1) := by
  have hsize := h.size
  have hfit := le_bufferSize s.len
  obtain ⟨hne, hdouble⟩ := hroom
  unfold grow
  by_cases hgrow : len > s.size
  · have hbuffer := bufferSize_double (by omega) hdouble
    rw [if_pos hgrow]
    refine ⟨by dsimp only; omega, .inr ⟨by omega, ?_⟩⟩
    exact Block.realloc_length _ _ _
  · have hbuffer := bufferSize_eq hle (by omega)
    rw [if_neg hgrow]
    refine ⟨by dsimp only; omega, ?_⟩
    rcases h.block with ⟨hsmall, hblock⟩ | ⟨hlarge, hblock⟩
    · have h64 := bufferSize_of_le hsmall.le
      exact .inl ⟨by omega, hblock⟩
    · exact .inr ⟨by omega, hblock⟩

theorem Loading.step (junk : Nat → UInt8) (h : Loading s t) (hp : p.chars.length ≤ upkMaxStringLen)
    (hroom : RoomFor s.len (s.len + p.chars.length)) :
    ∃ s', loadPiece junk s p.chars = .ok s' ∧ Loading s' (t.append p) := by
  have hle : s.len ≤ s.len + p.chars.length := Nat.le_add_right _ _
  have hlen : s.len + p.chars.length = (t.append p).chars.length := by
    rw [h.len]
    exact List.length_append.symm
  have hfit : t.chars.length + p.chars.length < (grow junk s (s.len + p.chars.length)).1.length := by
    rw [← h.len]
    exact (grow_room junk h hle).mpr hroom
  obtain ⟨b, hb, hholds, hblen⟩ := (grow_holds h (s.len + p.chars.length)).strcat hfit
  obtain ⟨hsize, hblock⟩ := grow_size junk h hle hroom
  refine ⟨⟨b, _, _⟩, ?_, hholds, hlen, hsize, ?_⟩
  · rw [loadPiece_eq hp, hb, Wire.ok_bind]
  · rw [← hblen] at hblock
    exact hblock

theorem Loading.overrun (junk : Nat → UInt8) (h : Loading s t) (hp : p.chars.length ≤ upkMaxStringLen)
    (hroom : ¬ RoomFor s.len (s.len + p.chars.length)) : loadPiece junk s p.chars = .error .overWrite := by
  have hover : (grow junk s (s.len + p.chars.length)).1.length ≤ t.chars.length + p.chars.length := by
    rw [← h.len]
    exact Nat.le_of_not_lt fun hlt => hroom ((grow_room junk h (Nat.le_add_right _ _)).mp hlt)
  rw [loadPiece_eq hp, (grow_holds h _).strcat_overrun hover]
  rfl

end Piece

/-! ### All pieces -/

/-- There is room for the pieces behind `n` bytes, one after another. -/
def Rooms (n : Nat) : List (List UInt8) → Prop
  | [] => True
  | p :: ps => RoomFor n (n + p.length) ∧ Rooms (n + p.length) ps

/-- A piece that `fgets` can read from a text -/
def IsPiece (p : List UInt8) : Prop := 0 ∉ p ∧ p.length ≤ upkMaxStringLen

section Run

variable {junk : Nat → UInt8} {s : LoadState} {t : CStr} {ps : List (List UInt8)} {n : Nat} {file : List UInt8}

theorem rooms_iff : Rooms n ps ↔ ∀ pre p, pre ++ [p] <+: ps →
    RoomFor (n + pre.flatten.length) (n + pre.flatten.length + p.length) := by
  induction ps generalizing n with
  | nil => simp [Rooms]
  | cons q ps ih =>
    rw [Rooms, ih]
    constructor
    · rintro ⟨hq, hps⟩ pre p hpre
      cases pre with
      | nil =>
        obtain ⟨rfl, -⟩ := List.cons_prefix_cons.mp hpre
        exact hq
      | cons x pre =>
        obtain ⟨rfl, hrest⟩ := List.cons_prefix_cons.mp hpre
        have hroom := hps pre p hrest
        rwa [List.flatten_cons, List.length_append, ← Nat.add_assoc]
    · intro h
      refine ⟨h [] q (List.prefix_append [q] ps), fun pre p hpre => ?_⟩
      have hroom := h (q :: pre) p (List.cons_prefix_cons.mpr ⟨rfl, hpre⟩)
      rwa [List.flatten_cons, List.length_append, ← Nat.add_assoc] at hroom

theorem Loading.run (junk : Nat → UInt8) (h : Loading s t) (hps : ∀ p ∈ ps, IsPiece p) (hroom : Rooms s.len ps) :
    ∃ s' t', ps.foldlM (loadPiece junk) s = .ok s' ∧ Loading s' t' ∧ t'.chars = t.chars ++ ps.flatten := by
  induction ps generalizing s t with
  | nil => exact ⟨s, t, rfl, h, (List.append_nil _).symm⟩
  | cons p ps ih =>
    obtain ⟨⟨hnul, hlen⟩, hrest⟩ := List.forall_mem_cons.mp hps
    let q : CStr := ⟨p, fun c hc heq => hnul (heq ▸ hc)⟩
    obtain ⟨s₁, hs₁, h₁⟩ := h.step (p := q) junk hlen hroom.1
    have hlen₁ : s₁.len = s.len + p.length := by
      rw [h₁.len, h.len]
      exact List.length_append
    obtain ⟨s', t', hs', h', ht'⟩ := ih h₁ hrest (by rw [hlen₁]; exact hroom.2)
    refine ⟨s', t', ?_, h', ?_⟩
    · rw [List.foldlM_cons, hs₁, Wire.ok_bind, hs']
    · rw [ht', List.flatten_cons]
      exact List.append_assoc _ _ _

theorem Loading.rooms (h : Loading s t) (hps : ∀ p ∈ ps, IsPiece p) {s' : LoadState}
    (hrun : ps.foldlM (loadPiece junk) s = .ok s') : Rooms s.len ps := by
  induction ps generalizing s t with
  | nil => trivial
  | cons p ps ih =>
    obtain ⟨⟨hnul, hlen⟩, hrest⟩ := List.forall_mem_cons.mp hps
    let q : CStr := ⟨p, fun c hc heq => hnul (heq ▸ hc)⟩
    rw [List.foldlM_cons] at hrun
    by_cases hroom : RoomFor s.len (s.len + p.length)
    · obtain ⟨s₁, hs₁, h₁⟩ := h.step (p := q) junk hlen hroom
      have hlen₁ : s₁.len = s.len + p.length := by
        rw [h₁.len, h.len]
        exact List.length_append
      rw [hs₁, Wire.ok_bind] at hrun
      exact ⟨hroom, hlen₁ ▸ ih h₁ hrest hrun⟩
    · rw [h.overrun (p := q) junk hlen hroom] at hrun
      cases hrun

/-! The pieces of a file -/

theorem flatten_fgetsPieces (max : Nat) (cur : List UInt8) : (fgetsPieces max cur file).flatten = cur ++ file := by
  induction file generalizing cur with
  | nil =>
    unfold fgetsPieces
    split <;> simp_all
  | cons c file ih =>
    unfold fgetsPieces
    split
    · rw [List.flatten_cons, ih]
      simp
    · rw [ih]
      simp

theorem length_fgetsPieces {max : Nat} {cur : List UInt8} (hcur : cur.length < max) :
    ∀ p ∈ fgetsPieces max cur file, p.length ≤ max := by
  induction file generalizing cur with
  | nil =>
    unfold fgetsPieces
    split
    · simp
    · simpa using hcur.le
  | cons c file ih =>
    unfold fgetsPieces
    split
    · have hnil : ([] : List UInt8).length < max := Nat.zero_lt_of_lt hcur
      rw [List.forall_mem_cons]
      refine ⟨?_, ih hnil⟩
      rw [List.length_append, List.length_singleton]
      exact hcur
    · next hc =>
      refine ih ?_
      rw [List.length_append, List.length_singleton]
      omega

theorem isPiece_of_mem (hnul : 0 ∉ file) : ∀ p ∈ fgetsPieces (upkMaxStringLen - 2) [] file, IsPiece p := by
  intro p hp
  constructor
  · intro hmem
    have hflat : 0 ∈ (fgetsPieces (upkMaxStringLen - 2) [] file).flatten := List.mem_flatten.mpr ⟨p, hp, hmem⟩
    rw [flatten_fgetsPieces] at hflat
    exact hnul hflat
  · exact (length_fgetsPieces (by decide) p hp).trans (by decide)

theorem fileFits_iff : FileFits file ↔ 0 ∉ file ∧ Rooms 0 (fgetsPieces (upkMaxStringLen - 2) [] file) := by
  rw [FileFits, rooms_iff]
  simp only [Nat.zero_add]

/-- The file has been read into a block that held every piece, and the string in it is the whole text of the file. -/
def LoadsWhole (junk : Nat → UInt8) (file : List UInt8) : Prop :=
  ∃ b s, upkConfigLoadfile junk (some file) = .ok b ∧ Holds b s ∧ s.chars = file

theorem LoadsWhole.fits (h : LoadsWhole junk file) : FileFits file := by
  obtain ⟨b, s, hb, -, rfl⟩ := h
  have hnul : 0 ∉ s.chars := fun hmem => s.noNul 0 hmem rfl
  obtain ⟨s', hs', -⟩ := Wire.bind_eq_ok.mp hb
  exact fileFits_iff.mpr ⟨hnul, start_loading.rooms (isPiece_of_mem hnul) hs'⟩

/-- **The buffer is always large enough, and the string is the whole file, exactly for the files that fit.** -/
theorem loadsWhole_iff (junk : Nat → UInt8) (file : List UInt8) : LoadsWhole junk file ↔ FileFits file := by
  constructor
  · intro h
    exact h.fits
  · intro h
    obtain ⟨hnul, hrooms⟩ := fileFits_iff.mp h
    obtain ⟨s', t', hs', h', ht'⟩ := start_loading.run junk (isPiece_of_mem hnul) hrooms
    refine ⟨s'.jsonString, t', ?_, h'.holds, ?_⟩
    · show _ >>= _ = _
      rw [hs', Wire.ok_bind]
    · rw [ht', flatten_fgetsPieces]
      rfl

/-- A single line of 64 bytes -/
def line64 : List UInt8 := List.replicate 63 97 ++ [newline]

/-- Such a line and its terminator do not fit into the first block. -/
theorem not_loadsWhole_line64 : ¬ LoadsWhole (fun _ => 0) line64 := by
  intro h
  have hpieces : fgetsPieces (upkMaxStringLen - 2) [] line64 = [line64] := by decide
  have hroom := h.fits.2 [] line64 (by rw [hpieces]; exact List.prefix_refl _)
  exact hroom.1 (by decide)

end Run

end Upkeeper
