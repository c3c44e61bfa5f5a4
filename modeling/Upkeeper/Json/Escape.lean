import Upkeeper.Json.Output
import Upkeeper.Library.ReadBack
/-!
# Escaped strings

The text of a string in a document is the one that the JSON library returns, with its bytes escaped one by one, in which
`upk_json_unescape_forwardslash` has then taken the backslash away from every slash that has one. That each slash had a
backslash of its own is why a string can still be read back from this text (`escStr_readsBack`).
-/

namespace Upkeeper

open ReadBack (ReadsBack)

/-- `'"'` -/
def quote : UInt8 := 34

/-- `'u'` -/
def letterU : UInt8 := 117

/-- How one byte can be written in a string: as it is, as a backslash and a letter, or as `\u` and four digits -/
inductive EscapeUnit : List UInt8 → Prop
  | plain {c : UInt8} : c ≠ quote → c ≠ backslash → c ≠ slash → EscapeUnit [c]
  | letter {c : UInt8} : c ≠ letterU → EscapeUnit [backslash, c]
  | unicode {ds : List UInt8} : ds.length = 4 → backslash ∉ ds → EscapeUnit (backslash :: letterU :: ds)

/-- What `json_object_to_json_string` promises of a string: it is quoted, and each of its bytes written in a way of its
own. -/
structure EscapesStrings (jsonString : CStr → CStr) (escape : UInt8 → List UInt8) : Prop where
  unit : ∀ c, EscapeUnit (escape c)
  own : Function.Injective escape
  text : ∀ s, (jsonString s).chars = quote :: (s.chars.flatMap escape ++ [quote])

variable {lib : OutputLib} {escape : UInt8 → List UInt8} {u u' r r' : List UInt8} {c : UInt8}

/-! ### Slashes -/

theorem unescape_cons_of_ne (h : c ≠ backslash) (str : List UInt8) :
    unescapeForwardslash (c :: str) = c :: unescapeForwardslash str := by
  cases str with
  | nil => rfl
  | cons d str => exact if_neg fun hcd => h hcd.1

theorem unescape_backslash_cons {d : UInt8} (h : d ≠ slash) (str : List UInt8) :
    unescapeForwardslash (backslash :: d :: str) = backslash :: unescapeForwardslash (d :: str) :=
  if_neg fun hcd => h hcd.2

theorem unescape_of_notMem {str : List UInt8} (h : backslash ∉ str) : unescapeForwardslash str = str := by
  induction str with
  | nil => rfl
  | cons c str ih =>
    obtain ⟨hc, hstr⟩ := not_or.mp (mt List.mem_cons.mpr h)
    rw [unescape_cons_of_ne (Ne.symm hc), ih hstr]

theorem unescape_append_of_notMem {a b : List UInt8} (h : backslash ∉ a) :
    unescapeForwardslash (a ++ b) = a ++ unescapeForwardslash b := by
  induction a with
  | nil => rfl
  | cons c a ih =>
    obtain ⟨hc, ha⟩ := not_or.mp (mt List.mem_cons.mpr h)
    rw [List.cons_append, unescape_cons_of_ne (Ne.symm hc), ih ha, List.cons_append]

theorem mem_of_mem_unescape {str : List UInt8} (hc : c ∈ unescapeForwardslash str) : c ∈ str := by
  fun_induction unescapeForwardslash str with
  | case1 => exact hc
  | case2 => exact hc
  | case3 a b str hab ih =>
    rcases List.mem_cons.mp hc with rfl | h
    · exact List.mem_cons_of_mem _ List.mem_cons_self
    · exact List.mem_cons_of_mem _ (List.mem_cons_of_mem _ (ih h))
  | case4 a b str hab ih =>
    rcases List.mem_cons.mp hc with rfl | h
    · exact List.mem_cons_self
    · exact List.mem_cons_of_mem _ (ih h)

/-- The text does not start with a slash. -/
def NoSlashFirst (r : List UInt8) : Prop := r.head? ≠ some slash

/-- Each unit is unescaped for itself: what follows it cannot be taken for the slash of a backslash at its end. -/
theorem EscapeUnit.unescape_append (hu : EscapeUnit u) (hr : NoSlashFirst r) :
    unescapeForwardslash (u ++ r) = unescapeForwardslash u ++ unescapeForwardslash r := by
  cases hu with
  | plain _ hc _ => exact unescape_cons_of_ne hc r
  | @letter c hc =>
    by_cases hslash : c = slash
    · subst hslash
      rfl
    · show unescapeForwardslash (backslash :: c :: r) = unescapeForwardslash (backslash :: c :: []) ++ _
      rw [unescape_backslash_cons hslash, unescape_backslash_cons hslash]
      by_cases hback : c = backslash
      · subst hback
        cases r with
        | nil => rfl
        | cons d r =>
          rw [unescape_backslash_cons fun hd => hr (congrArg some hd)]
          rfl
      · rw [unescape_cons_of_ne hback]
        rfl
  | @unicode ds _ hds =>
    have hstart (str : List UInt8) : unescapeForwardslash (backslash :: letterU :: str) =
        backslash :: letterU :: unescapeForwardslash str := by
      rw [unescape_backslash_cons (by decide), unescape_cons_of_ne (by decide)]
    show unescapeForwardslash (backslash :: letterU :: (ds ++ r)) =
      unescapeForwardslash (backslash :: letterU :: ds) ++ _
    rw [hstart, hstart, unescape_append_of_notMem hds, unescape_of_notMem hds]
    rfl

theorem EscapeUnit.noSlashFirst (hu : EscapeUnit u) (r : List UInt8) : NoSlashFirst (u ++ r) := by
  cases hu with
  | plain _ _ hc => exact fun h => hc (Option.some.inj h)
  | letter _ => exact fun h => absurd (Option.some.inj h) (by decide)
  | unicode _ _ => exact fun h => absurd (Option.some.inj h) (by decide)

/-! ### What is left of the units -/

/-- How one byte is written once the slashes are unescaped -/
inductive PrintedUnit : List UInt8 → Prop
  | plain {c : UInt8} : c ≠ quote → c ≠ backslash → PrintedUnit [c]
  | letter {c : UInt8} : c ≠ letterU → PrintedUnit [backslash, c]
  | unicode {ds : List UInt8} : ds.length = 4 → PrintedUnit (backslash :: letterU :: ds)

theorem unescape_letter (hc : c ≠ slash) : unescapeForwardslash [backslash, c] = [backslash, c] :=
  unescape_backslash_cons hc []

theorem unescape_unicode {ds : List UInt8} (hds : backslash ∉ ds) :
    unescapeForwardslash (backslash :: letterU :: ds) = backslash :: letterU :: ds := by
  rw [unescape_backslash_cons (by decide), unescape_cons_of_ne (by decide), unescape_of_notMem hds]

theorem EscapeUnit.printed (hu : EscapeUnit u) : PrintedUnit (unescapeForwardslash u) := by
  cases hu with
  | plain hquote hback _ => exact .plain hquote hback
  | @letter c hc =>
    by_cases hslash : c = slash
    · subst hslash
      exact .plain (by decide) (by decide)
    · rw [unescape_letter hslash]
      exact .letter hc
  | unicode hlen hds =>
    rw [unescape_unicode hds]
    exact .unicode hlen

/-- Only an escaped slash becomes a slash, so no two units become the same. -/
theorem EscapeUnit.unescape_inj (hu : EscapeUnit u) (hu' : EscapeUnit u')
    (h : unescapeForwardslash u = unescapeForwardslash u') : u = u' := by
  have hletter {c d : UInt8} (hd : d ≠ slash) : unescapeForwardslash [d] ≠ unescapeForwardslash [backslash, c] := by
    by_cases hslash : c = slash
    · subst hslash
      exact fun h => hd (List.cons.inj h).1
    · rw [unescape_letter hslash]
      exact fun h => nomatch (List.cons.inj h).2
  have hunicode {c : UInt8} {ds : List UInt8} (hc : c ≠ letterU) (hds : backslash ∉ ds) :
      unescapeForwardslash [backslash, c] ≠ unescapeForwardslash (backslash :: letterU :: ds) := by
    rw [unescape_unicode hds]
    by_cases hslash : c = slash
    · subst hslash
      exact fun h => absurd (List.cons.inj h).1 (by decide)
    · rw [unescape_letter hslash]
      exact fun h => hc (List.cons.inj (List.cons.inj h).2).1
  cases hu with
  | plain _ hc hslash =>
    cases hu' with
    | plain _ _ _ => exact h
    | letter _ => exact absurd h (hletter hslash)
    | unicode _ hds =>
      rw [unescape_unicode hds] at h
      exact absurd (List.cons.inj h).1 hc
  | @letter c hc =>
    cases hu' with
    | plain _ _ hslash => exact absurd h.symm (hletter hslash)
    | @letter d hd =>
      by_cases hslash : c = slash <;> by_cases hslash' : d = slash
      · rw [hslash, hslash']
      · subst hslash
        rw [unescape_letter hslash'] at h
        exact absurd (List.cons.inj h).1 (by decide)
      · subst hslash'
        rw [unescape_letter hslash] at h
        exact absurd (List.cons.inj h).1 (by decide)
      · rwa [unescape_letter hslash, unescape_letter hslash'] at h
    | unicode _ hds => exact absurd h (hunicode hc hds)
  | unicode _ hds =>
    cases hu' with
    | plain _ hc _ =>
      rw [unescape_unicode hds] at h
      exact absurd (List.cons.inj h).1.symm hc
    | letter hc => exact absurd h.symm (hunicode hc hds)
    | unicode _ hds' => rwa [unescape_unicode hds, unescape_unicode hds'] at h

theorem PrintedUnit.append_inj (hu : PrintedUnit u) (hu' : PrintedUnit u') (h : u ++ r = u' ++ r') :
    u = u' ∧ r = r' := by
  cases hu with
  | plain _ hc =>
    cases hu' with
    | plain _ _ => exact List.append_inj h rfl
    | letter _ => exact absurd (List.cons.inj h).1 hc
    | unicode _ => exact absurd (List.cons.inj h).1 hc
  | letter hc =>
    cases hu' with
    | plain _ hd => exact absurd (List.cons.inj h).1.symm hd
    | letter _ => exact List.append_inj h rfl
    | unicode _ => exact absurd (List.cons.inj (List.cons.inj h).2).1 hc
  | unicode hlen =>
    cases hu' with
    | plain _ hd => exact absurd (List.cons.inj h).1.symm hd
    | letter hd => exact absurd (List.cons.inj (List.cons.inj h).2).1.symm hd
    | unicode hlen' => exact List.append_inj h (congrArg (· + 2) (hlen.trans hlen'.symm))

theorem PrintedUnit.append_ne_quote (hu : PrintedUnit u) : u ++ r ≠ quote :: r' := by
  cases hu with
  | plain hc _ => exact fun h => hc (List.cons.inj h).1
  | letter _ => exact fun h => absurd (List.cons.inj h).1 (by decide)
  | unicode _ => exact fun h => absurd (List.cons.inj h).1 (by decide)

/-! ### Strings -/

theorem noSlashFirst_flatMap (hunit : ∀ c, EscapeUnit (escape c)) (cs : List UInt8) (hr : NoSlashFirst r) :
    NoSlashFirst (cs.flatMap escape ++ r) := by
  cases cs with
  | nil => exact hr
  | cons c cs =>
    rw [List.flatMap_cons, List.append_assoc]
    exact (hunit c).noSlashFirst _

theorem unescape_flatMap (hunit : ∀ c, EscapeUnit (escape c)) (cs : List UInt8) (hr : NoSlashFirst r) :
    unescapeForwardslash (cs.flatMap escape ++ r) =
      cs.flatMap (fun c => unescapeForwardslash (escape c)) ++ unescapeForwardslash r := by
  induction cs with
  | nil => rfl
  | cons c cs ih =>
    have hnext := noSlashFirst_flatMap hunit cs hr
    rw [List.flatMap_cons, List.flatMap_cons, List.append_assoc, (hunit c).unescape_append hnext, ih, List.append_assoc]

theorem escStr_chars (h : EscapesStrings lib.jsonString escape) (s : CStr) : (escStr lib s).chars =
    quote :: (s.chars.flatMap (fun c => unescapeForwardslash (escape c)) ++ [quote]) := by
  have hzero : 0 ∉ unescapeForwardslash (lib.jsonString s).chars := fun hmem =>
    (lib.jsonString s).noNul 0 (mem_of_mem_unescape hmem) rfl
  unfold escStr
  have hquote : NoSlashFirst [quote] := fun h => absurd (Option.some.inj h) (by decide)
  rw [CStr.ofChars_chars hzero, h.text, unescape_cons_of_ne (by decide), unescape_flatMap h.unit s.chars hquote]
  rfl

/-- **A string can be read back from what is printed of it.** -/
theorem escStr_readsBack (h : EscapesStrings lib.jsonString escape) : ReadsBack fun s => (escStr lib s).chars := by
  have hbytes : ReadsBack fun c => unescapeForwardslash (escape c) := by
    intro c c' r r' heq
    obtain ⟨hunits, hr⟩ := (h.unit c).printed.append_inj (h.unit c').printed heq
    exact ⟨h.own ((h.unit c).unescape_inj (h.unit c') hunits), hr⟩
  intro s s' r r' heq
  dsimp only at heq
  rw [escStr_chars h, escStr_chars h, List.cons_append, List.cons_append, List.append_assoc, List.append_assoc] at heq
  obtain ⟨hs, hr⟩ := hbytes.flatMap (fun c r r' => (h.unit c).printed.append_ne_quote) (List.cons.inj heq).2
  exact ⟨CStr.ext hs, hr⟩

/-! ### A library that escapes strings -/

/-- A digit of a number with the base 16 -/
def hexDigit (n : UInt8) : UInt8 := if n < 10 then 48 + n else 87 + n

/-- The bytes of a string as JSON-C writes them -/
def jsonEscape (c : UInt8) : List UInt8 :=
  if c = quote ∨ c = backslash ∨ c = slash then [backslash, c]
  else if c = 8 then [backslash, 98]
  else if c = 9 then [backslash, 116]
  else if c = 10 then [backslash, 110]
  else if c = 13 then [backslash, 114]
  else if c < 32 then [backslash, letterU, 48, 48, hexDigit (c / 16), hexDigit (c % 16)]
  else [c]

/-- A quoted string -/
def jsonObjectToJsonString (s : CStr) : CStr := .ofChars (quote :: (s.chars.flatMap jsonEscape ++ [quote]))

/-- The byte that has been escaped -/
def jsonUnescape : List UInt8 → UInt8
  | [c] => c
  | [_, c] => if c = 98 then 8 else if c = 116 then 9 else if c = 110 then 10 else if c = 114 then 13 else c
  | [_, _, _, _, high, low] => 16 * (high - 48) + if low < 58 then low - 48 else low - 87
  | _ => 0

theorem jsonUnescape_jsonEscape : ∀ c, jsonUnescape (jsonEscape c) = c := forall_byte (by decide +kernel)

theorem zero_notMem_jsonEscape : ∀ c, 0 ∉ jsonEscape c := forall_byte (by decide +kernel)

theorem jsonEscape_unit (c : UInt8) : EscapeUnit (jsonEscape c) := by
  unfold jsonEscape
  split_ifs with hself _ _ _ _ hcontrol
  · refine .letter ?_
    rcases hself with rfl | rfl | rfl <;> decide
  · exact .letter (by decide)
  · exact .letter (by decide)
  · exact .letter (by decide)
  · exact .letter (by decide)
  · have hdigits : ∀ c : UInt8, c < 32 → backslash ∉ [48, 48, hexDigit (c / 16), hexDigit (c % 16)] :=
      forall_byte (by decide +kernel)
    exact .unicode rfl (hdigits c hcontrol)
  · obtain ⟨hquote, hback, hslash⟩ := not_or.mp hself |>.imp_right not_or.mp
    exact .plain hquote hback hslash

theorem jsonObjectToJsonString_escapes : EscapesStrings jsonObjectToJsonString jsonEscape where
  unit := jsonEscape_unit
  own c c' h := by rw [← jsonUnescape_jsonEscape c, h, jsonUnescape_jsonEscape]
  text s := by
    refine CStr.ofChars_chars fun hmem => ?_
    rcases List.mem_cons.mp hmem with h | h
    · exact absurd h (by decide)
    · rcases List.mem_append.mp h with h | h
      · obtain ⟨c, -, hc⟩ := List.mem_flatMap.mp h
        exact zero_notMem_jsonEscape c hc
      · exact absurd (List.mem_singleton.mp h) (by decide)

/-- What the printer takes from outside, with such strings -/
def escaping : OutputLib where
  jsonString := jsonObjectToJsonString
  lf _ := cstr "0.000000"
  junk _ := 0

end Upkeeper
