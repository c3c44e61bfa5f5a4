import Upkeeper.Json.Escape
import Upkeeper.Library.Block
import Upkeeper.Library.JsonString
/-!
# Unescaping in place (`upk_json.c`: `upk_json_unescape_forwardslash`)

The loop moves the text towards its start, by one byte more for each backslash that it leaves out. It looks at single
characters, and takes any backslash in front of a slash for one that escapes it. In an escaped text this is so, as every
slash has a backslash of its own there. So what is left still stands for the same string (`unescape_preserves`).
-/

namespace Upkeeper

open Wire (Fault)
open JsonString (Decodes Token CodeUnit escapesSlash)

/-- `if(*(p + skip) == '\\' && *(p + skip + 1) == '/') skip++`, with `p` as an index -/
def skipBackslash (str : List UInt8) (p skip : Nat) : Except Fault Nat := do
  let c ← Block.load str (p + skip)
  if c = backslash then do
    let d ← Block.load str (p + skip + 1)
    .ok (if d = slash then skip + 1 else skip)
  else .ok skip

/-- The loop of `upk_json_unescape_forwardslash`, which leaves the text before the fuel is used up -/
def unescapeLoop : Nat → Nat → Nat → List UInt8 → Except Fault (List UInt8)
  | 0, _, _, _ => .error .overRead
  | fuel + 1, p, skip, str => do
    let c ← Block.load str (p + skip)
    if c = 0 then Block.store str p 0
    else do
      let skip ← skipBackslash str p skip
      let c ← Block.load str (p + skip)
      let str ← Block.store str p c
      unescapeLoop fuel (p + 1) skip str

/-- `upk_json_unescape_forwardslash`, in the block that holds the text -/
def upkJsonUnescapeForwardslash (fuel : Nat) (str : List UInt8) : Except Fault (List UInt8) := unescapeLoop fuel 0 0 str

/-! ### The loop -/

section Loop

variable {str rest tail : List UInt8} {c d : UInt8} {p skip fuel : Nat}

theorem getElem?_of_drop {n : Nat} (h : str.drop n = c :: rest) : str[n]? = some c := by
  rw [← Nat.add_zero n, ← List.getElem?_drop, h]
  rfl

theorem load_of_drop {n : Nat} (h : str.drop n = c :: rest) : Block.load str n = .ok c :=
  Block.load_eq (getElem?_of_drop h)

theorem load_of_drop_succ {n : Nat} (h : str.drop n = c :: d :: rest) : Block.load str (n + 1) = .ok d := by
  have hnext : str.drop (n + 1) = d :: rest := by
    rw [← List.drop_drop, h]
    rfl
  exact load_of_drop hnext

theorem store_of_drop (h : str.drop (p + skip) = c :: rest) (x : UInt8) : Block.store str p x = .ok (str.set p x) := by
  have hlen := congrArg List.length h
  rw [List.length_drop, List.length_cons] at hlen
  exact Block.store_eq (by omega)

theorem take_store (h : str.drop (p + skip) = c :: rest) (x : UInt8) :
    (str.set p x).take (p + 1) = str.take p ++ [x] := by
  have hlen := congrArg List.length h
  rw [List.length_drop, List.length_cons] at hlen
  have htake : (str.take p).length = p := List.length_take_of_le (by omega)
  rw [List.set_eq_take_append_cons_drop, if_pos (by omega), List.append_cons]
  exact List.take_left' (by rw [List.length_append, htake, List.length_singleton])

theorem drop_store (h : str.drop (p + skip) = c :: rest) (x : UInt8) :
    (str.set p x).drop (p + 1 + skip) = rest := by
  rw [List.drop_set_of_lt (by omega), Nat.add_right_comm, ← List.drop_drop, h]
  rfl

theorem unescapeLoop_copy (hstr : str.drop (p + skip) = c :: d :: rest) (hc : c ≠ 0)
    (hescape : ¬ (c = backslash ∧ d = slash)) :
    unescapeLoop (fuel + 1) p skip str = unescapeLoop fuel (p + 1) skip (str.set p c) := by
  have hskip : skipBackslash str p skip = .ok skip := by
    rw [skipBackslash, load_of_drop hstr, Wire.ok_bind]
    by_cases hback : c = backslash
    · rw [if_pos hback, load_of_drop_succ hstr, Wire.ok_bind, if_neg fun hd => hescape ⟨hback, hd⟩]
    · rw [if_neg hback]
  rw [unescapeLoop, load_of_drop hstr, Wire.ok_bind, if_neg hc, hskip, Wire.ok_bind, load_of_drop hstr, Wire.ok_bind,
    store_of_drop hstr, Wire.ok_bind]

theorem unescapeLoop_skip (hstr : str.drop (p + skip) = backslash :: slash :: rest) :
    unescapeLoop (fuel + 1) p skip str = unescapeLoop fuel (p + 1) (skip + 1) (str.set p slash) := by
  have hskip : skipBackslash str p skip = .ok (skip + 1) := by
    rw [skipBackslash, load_of_drop hstr, Wire.ok_bind, if_pos rfl, load_of_drop_succ hstr, Wire.ok_bind, if_pos rfl]
  rw [unescapeLoop, load_of_drop hstr, Wire.ok_bind, if_neg (by decide), hskip, Wire.ok_bind, ← Nat.add_assoc,
    load_of_drop_succ hstr, Wire.ok_bind, store_of_drop hstr, Wire.ok_bind]

theorem unescapeLoop_end (hstr : str.drop (p + skip) = 0 :: tail) :
    unescapeLoop (fuel + 1) p skip str = .ok (str.take p ++ 0 :: str.drop (p + 1)) := by
  have hlen := congrArg List.length hstr
  rw [List.length_drop, List.length_cons] at hlen
  rw [unescapeLoop, load_of_drop hstr, Wire.ok_bind, if_pos rfl, store_of_drop hstr,
    List.set_eq_take_append_cons_drop, if_pos (by omega)]

/-- The text behind `p + skip` is moved to `p`, without the backslashes. -/
theorem unescapeLoop_spec (hrest : 0 ∉ rest) (hstr : str.drop (p + skip) = rest ++ 0 :: tail)
    (hfuel : rest.length < fuel) : ∃ tail', unescapeLoop fuel p skip str =
      .ok (str.take p ++ (unescapeForwardslash rest ++ 0 :: tail')) := by
  have hsucc {n fuel : Nat} (h : n < fuel) : ∃ k, fuel = k + 1 := Nat.exists_eq_add_one_of_ne_zero (by omega)
  fun_induction unescapeForwardslash rest generalizing fuel p skip str with
  | case1 =>
    obtain ⟨fuel, rfl⟩ := hsucc hfuel
    exact ⟨_, unescapeLoop_end hstr⟩
  | case2 c =>
    have hc : c ≠ 0 := fun h => hrest (h ▸ List.mem_cons_self)
    obtain ⟨fuel, rfl⟩ := hsucc hfuel
    obtain ⟨fuel, rfl⟩ := hsucc (Nat.lt_of_succ_lt_succ hfuel)
    rw [unescapeLoop_copy hstr hc fun h => absurd h.2 (by decide), unescapeLoop_end (drop_store hstr c),
      take_store hstr, List.append_assoc]
    exact ⟨_, rfl⟩
  | case3 c d rest hcd ih =>
    obtain ⟨rfl, rfl⟩ := hcd
    obtain ⟨fuel, rfl⟩ := hsucc hfuel
    have hrest' : 0 ∉ rest := fun h => hrest (List.mem_cons_of_mem _ (List.mem_cons_of_mem _ h))
    have hfuel' : rest.length < fuel := Nat.lt_of_succ_lt (Nat.lt_of_succ_lt_succ hfuel)
    have hstr' : str.drop (p + (skip + 1)) = slash :: (rest ++ 0 :: tail) := by
      rw [← Nat.add_assoc, ← List.drop_drop, hstr]
      rfl
    obtain ⟨tail', htail⟩ := ih hrest' (drop_store hstr' slash) hfuel'
    refine ⟨tail', ?_⟩
    rw [unescapeLoop_skip hstr, htail, take_store hstr, List.append_assoc]
    rfl
  | case4 c d rest hcd ih =>
    obtain ⟨fuel, rfl⟩ := hsucc hfuel
    have hc : c ≠ 0 := fun h => hrest (h ▸ List.mem_cons_self)
    have hrest' : 0 ∉ d :: rest := fun h => hrest (List.mem_cons_of_mem _ h)
    obtain ⟨tail', htail⟩ := ih hrest' (drop_store hstr c) (Nat.lt_of_succ_lt_succ hfuel)
    refine ⟨tail', ?_⟩
    rw [unescapeLoop_copy hstr hc hcd, htail, take_store hstr, List.append_assoc]
    rfl

/-- **In place the text becomes the one that `unescapeForwardslash` computes**, within the block that holds it. -/
theorem upkJsonUnescapeForwardslash_eq (hstr : 0 ∉ str) :
    ∃ tail, upkJsonUnescapeForwardslash (str.length + 1) (str ++ [0]) = .ok (unescapeForwardslash str ++ 0 :: tail) :=
  unescapeLoop_spec hstr rfl (Nat.lt_succ_self _)

end Loop

/-! ### Escaped texts -/

/-- What JSON-C makes of a byte of a string: a quote, a backslash and a slash get a backslash of their own, a control
character becomes an escape sequence, and any other byte stays as it is. -/
structure EscapesBytes (escape : UInt8 → List UInt8) : Prop where
  own : ∀ c, c = quote ∨ c = backslash ∨ c = slash → escape c = [backslash, c]
  control : ∀ c < 32, (∃ x, JsonString.letter x = some c ∧ escape c = [backslash, x]) ∨
    ∃ ds, CodeUnit ds c.toNat ∧ escape c = backslash :: letterU :: ds
  other : ∀ c, 32 ≤ c → c ≠ quote → c ≠ backslash → c ≠ slash → escape c = [c]

variable {escape : UInt8 → List UInt8}

/-- The byte without a backslash of its own if it is a slash -/
def printed (escape : UInt8 → List UInt8) (c : UInt8) : List UInt8 := if c = slash then [slash] else escape c

theorem EscapesBytes.cases (h : EscapesBytes escape) (c : UInt8) :
    c = slash ∧ escape c = [backslash, slash] ∨ c ≠ slash ∧
      ((∃ x, x ≠ slash ∧ JsonString.letter x = some c ∧ escape c = [backslash, x]) ∨
        (∃ ds, c < 32 ∧ CodeUnit ds c.toNat ∧ escape c = backslash :: letterU :: ds) ∨
        32 ≤ c ∧ c ≠ quote ∧ c ≠ backslash ∧ escape c = [c]) := by
  by_cases hslash : c = slash
  · exact .inl ⟨hslash, by rw [h.own c (.inr (.inr hslash)), hslash]⟩
  refine .inr ⟨hslash, ?_⟩
  by_cases hquote : c = quote
  · exact .inl ⟨c, hslash, by rw [hquote]; rfl, h.own c (.inl hquote)⟩
  by_cases hback : c = backslash
  · exact .inl ⟨c, hslash, by rw [hback]; rfl, h.own c (.inr (.inl hback))⟩
  by_cases hcontrol : c < 32
  · rcases h.control c hcontrol with ⟨x, hx, hc⟩ | ⟨ds, hds, hc⟩
    · refine .inl ⟨x, ?_, hx, hc⟩
      rintro rfl
      exact hslash (Option.some.inj hx).symm
    · exact .inr (.inl ⟨ds, hcontrol, hds, hc⟩)
  · have hle : 32 ≤ c := UInt8.not_lt.mp hcontrol
    exact .inr (.inr ⟨hle, hquote, hback, h.other c hle hquote hback hslash⟩)

theorem token_of_control {ds : List UInt8} {c : UInt8} (hds : CodeUnit ds c.toNat) (hc : c < 32) :
    Token (backslash :: letterU :: ds) [c] := by
  have hlt : c.toNat < 32 := UInt8.lt_iff_toNat_lt.mp hc
  have htoken := Token.unicode hds (by omega)
  rwa [JsonString.utf8_ascii _ (by omega), UInt8.ofNat_toNat] at htoken

theorem backslash_notMem_codeUnit {ds : List UInt8} {n : Nat} (hds : CodeUnit ds n) : backslash ∉ ds := fun h =>
  absurd (hds.2.1 backslash h) (by decide)

theorem EscapesBytes.token (h : EscapesBytes escape) (c : UInt8) :
    Token (escape c) [c] ∧ Token (printed escape c) [c] := by
  unfold printed
  rcases h.cases c with ⟨rfl, hc⟩ | ⟨hslash, ⟨x, -, hx, hc⟩ | ⟨ds, hcontrol, hds, hc⟩ | ⟨hle, hquote, hback, hc⟩⟩
  · rw [if_pos rfl, hc]
    exact ⟨.letter rfl, .plain (by decide) (by decide) (by decide)⟩
  · rw [if_neg hslash, hc]
    exact ⟨.letter hx, .letter hx⟩
  · rw [if_neg hslash, hc]
    exact ⟨token_of_control hds hcontrol, token_of_control hds hcontrol⟩
  · rw [if_neg hslash, hc]
    exact ⟨.plain hle hquote hback, .plain hle hquote hback⟩

theorem EscapesBytes.unescape (h : EscapesBytes escape) (c : UInt8) :
    EscapeUnit (escape c) ∧ unescapeForwardslash (escape c) = printed escape c := by
  unfold printed
  rcases h.cases c with ⟨rfl, hc⟩ | ⟨hslash, ⟨x, hxs, hx, hc⟩ | ⟨ds, -, hds, hc⟩ | ⟨-, hquote, hback, hc⟩⟩
  · rw [if_pos rfl, hc]
    exact ⟨.letter (by decide), rfl⟩
  · have hxu : x ≠ letterU := by
      rintro rfl
      cases hx
    rw [if_neg hslash, hc]
    exact ⟨.letter hxu, unescape_letter hxs⟩
  · rw [if_neg hslash, hc]
    exact ⟨.unicode hds.1 (backslash_notMem_codeUnit hds), unescape_unicode (backslash_notMem_codeUnit hds)⟩
  · rw [if_neg hslash, hc]
    exact ⟨.plain hquote hback hslash, rfl⟩

/-- No slash is escaped where the slashes have lost their backslashes. -/
theorem EscapesBytes.escapesSlash_printed (h : EscapesBytes escape) (c : UInt8) (b : List UInt8) :
    escapesSlash (printed escape c ++ b) = escapesSlash b := by
  unfold printed
  rcases h.cases c with ⟨rfl, -⟩ | ⟨hslash, ⟨x, hxs, -, hc⟩ | ⟨ds, -, hds, hc⟩ | ⟨-, -, hback, hc⟩⟩
  · rw [if_pos rfl]
    exact JsonString.escapesSlash_cons_of_ne (by decide) b
  · rw [if_neg hslash, hc]
    exact JsonString.escapesSlash_letter hxs b
  · rw [if_neg hslash, hc]
    refine (JsonString.escapesSlash_letter (c := letterU) (by decide) (ds ++ b)).trans ?_
    exact JsonString.escapesSlash_append (backslash_notMem_codeUnit hds) b
  · rw [if_neg hslash, hc]
    exact JsonString.escapesSlash_cons_of_ne hback b

theorem EscapesBytes.zero_notMem (h : EscapesBytes escape) (s : List UInt8) : 0 ∉ s.flatMap escape := by
  rw [List.mem_flatMap]
  rintro ⟨c, -, hzero⟩
  rcases h.cases c with ⟨-, hc⟩ | ⟨-, ⟨x, -, hx, hc⟩ | ⟨ds, -, hds, hc⟩ | ⟨hle, -, -, hc⟩⟩
  · rw [hc] at hzero
    exact absurd hzero (by decide)
  · simp only [hc, List.mem_cons, List.not_mem_nil, or_false] at hzero
    rcases hzero with hzero | rfl
    · exact absurd hzero (by decide)
    · cases hx
  · simp only [hc, List.mem_cons] at hzero
    rcases hzero with hzero | hzero | hzero
    · exact absurd hzero (by decide)
    · exact absurd hzero (by decide)
    · exact absurd (hds.2.1 0 hzero) (by decide)
  · rw [hc, List.mem_singleton] at hzero
    subst hzero
    exact absurd hle (by decide)

theorem EscapesBytes.unescaped (h : EscapesBytes escape) (s : List UInt8) :
    unescapeForwardslash (s.flatMap escape) = s.flatMap (printed escape) := by
  have hprinted : (fun c => unescapeForwardslash (escape c)) = printed escape := funext fun c => (h.unescape c).2
  have hflat := unescape_flatMap (fun c => (h.unescape c).1) s (r := []) nofun
  rwa [hprinted, List.append_nil, unescapeForwardslash, List.append_nil] at hflat

/-- **Unescaping the slashes of an escaped string in place** ends in the block that holds it, and leaves a text that
still stands for the string and for no other, in which no slash is escaped, and which lacks nothing but the backslashes
of the slashes. -/
theorem unescape_preserves (h : EscapesBytes escape) (s : List UInt8) :
    ∃ text tail, upkJsonUnescapeForwardslash ((s.flatMap escape).length + 1) (s.flatMap escape ++ [0]) =
        .ok (text ++ 0 :: tail) ∧
      0 ∉ text ∧ Decodes (s.flatMap escape) s ∧ (∀ s', Decodes text s' ↔ s' = s) ∧ escapesSlash text = false ∧
      text = s.flatMap (printed escape) := by
  obtain ⟨tail, htail⟩ := upkJsonUnescapeForwardslash_eq (h.zero_notMem s)
  have hzero : 0 ∉ unescapeForwardslash (s.flatMap escape) := fun h0 => h.zero_notMem s (mem_of_mem_unescape h0)
  have hbefore : Decodes (s.flatMap escape) s := JsonString.decodes_flatMap (fun c => (h.token c).1) s
  have hafter : Decodes (s.flatMap (printed escape)) s := JsonString.decodes_flatMap (fun c => (h.token c).2) s
  have hslash := JsonString.escapesSlash_flatMap h.escapesSlash_printed s
  rw [h.unescaped] at htail hzero
  refine ⟨_, tail, htail, hzero, hbefore, fun s' => ⟨fun h' => h'.unique hafter, ?_⟩, hslash, rfl⟩
  rintro rfl
  exact hafter

theorem jsonEscape_escapesBytes : EscapesBytes jsonEscape where
  own c hc := by rw [jsonEscape, if_pos hc]
  control := by
    have hunit : ∀ c : UInt8, c < 32 → CodeUnit [48, 48, hexDigit (c / 16), hexDigit (c % 16)] c.toNat :=
      forall_byte (by decide +kernel)
    intro c hc
    unfold jsonEscape
    split_ifs with hself h8 h9 h10 h13
    · rcases hself with rfl | rfl | rfl <;> exact absurd hc (by decide)
    · exact .inl ⟨98, h8 ▸ rfl, rfl⟩
    · exact .inl ⟨116, h9 ▸ rfl, rfl⟩
    · exact .inl ⟨110, h10 ▸ rfl, rfl⟩
    · exact .inl ⟨114, h13 ▸ rfl, rfl⟩
    · exact .inr ⟨_, hunit c hc, rfl⟩
  other c hle hquote hback hslash := by
    have hlt : ¬ c < 32 := UInt8.not_lt.mpr hle
    have hne {k : UInt8} (hk : k < 32) : c ≠ k := fun h => hlt (h ▸ hk)
    rw [jsonEscape, if_neg (by simp [hquote, hback, hslash]), if_neg (hne (by decide)), if_neg (hne (by decide)),
      if_neg (hne (by decide)), if_neg (hne (by decide)), if_neg hlt]

/-- `a/`, a backslash, a line feed and an unprintable byte -/
theorem unescape_preserves_path :
    ∃ text tail, upkJsonUnescapeForwardslash 14 ([97, 47, 92, 10, 1].flatMap jsonEscape ++ [0]) =
        .ok (text ++ 0 :: tail) ∧
      0 ∉ text ∧ Decodes ([97, 47, 92, 10, 1].flatMap jsonEscape) [97, 47, 92, 10, 1] ∧
      (∀ s', Decodes text s' ↔ s' = [97, 47, 92, 10, 1]) ∧ escapesSlash text = false ∧
      text = [97, 47, 92, 92, 92, 110, 92, 117, 48, 48, 48, 49] :=
  unescape_preserves jsonEscape_escapesBytes [97, 47, 92, 10, 1]

end Upkeeper
