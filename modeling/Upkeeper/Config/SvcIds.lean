import Upkeeper.Config.Restore
import Upkeeper.Library.Search
/-!
# Service identifiers (`upk_concat_svcid`, `upk_parse_svc_id`, `upk_svcconf_svcid_array_appender`)

An identifier is written as `package::name`, or as the name alone. `upk_concat_svcid` keeps the room that is left in
`remainder`, from which it takes the length of the whole package: a package of more than 2045 bytes makes it wrap around
(`bounded_iff`).

`upk_parse_svc_id` splits a key at the first `::`, and gives back what `upk_svc_id` wrote (`parses_svcId`). The elements
of `Provides` and `Prerequisites` are written in the same way, but are split at the first `:`, so that no element with
a package comes back (`svcidsSurvive_iff`).
-/

namespace Upkeeper

open Wire (Fault)

/-! ### Concatenation -/

/-- `package::name`, or the name alone -/
def fullId (pkg name : CStr) : List UInt8 :=
  if pkg.chars ≠ [] then pkg.chars ++ (cstr "::").chars ++ name.chars else name.chars

/-- The subtractions from `remainder` in `upk_concat_svcid`: its value, and what is taken from it -/
def remainderSubtractions (pkg : CStr) : List (UInt64 × UInt64) :=
  let remainder : UInt64 := .ofNat (upkMaxStringLen - 1)
  if pkg.chars ≠ [] then
    [(remainder, .ofNat pkg.chars.length), (remainder - .ofNat pkg.chars.length, 2)]
  else []

/-- No subtraction wraps around, and the result is a text that fits into its buffer, and the start of the whole
identifier. -/
structure Bounded (pkg name : CStr) : Prop where
  noWrap : ∀ s ∈ remainderSubtractions pkg, s.2 ≤ s.1
  result : ∃ dest, upkConcatSvcid pkg name = .ok dest ∧ dest.chars.length ≤ upkMaxStringLen - 1 ∧
    dest.chars <+: fullId pkg name

section Concat

variable {pkg name : CStr}

theorem sep_length : (cstr "::").chars.length = 2 := by decide

theorem remainder_toNat : (UInt64.ofNat (upkMaxStringLen - 1)).toNat = 2047 := rfl

theorem remainder_sub (h : pkg.chars.length ≤ 2047) :
    (UInt64.ofNat (upkMaxStringLen - 1) - .ofNat pkg.chars.length).toNat = 2047 - pkg.chars.length := by
  rw [UInt64.toNat_sub, remainder_toNat, UInt64.toNat_ofNat']
  omega

theorem remainder_sub_sub (h : pkg.chars.length ≤ 2045) :
    (UInt64.ofNat (upkMaxStringLen - 1) - .ofNat pkg.chars.length - 2).toNat = 2045 - pkg.chars.length := by
  rw [UInt64.toNat_sub, remainder_sub (by omega)]
  show (2 ^ 64 - 2 + (2047 - pkg.chars.length)) % 2 ^ 64 = _
  omega

theorem noWrap_iff (h : pkg.chars.length ≤ 2047) :
    (∀ s ∈ remainderSubtractions pkg, s.2 ≤ s.1) ↔ pkg.chars.length ≤ 2045 := by
  unfold remainderSubtractions
  by_cases hp : pkg.chars ≠ []
  · have hlen : (UInt64.ofNat pkg.chars.length).toNat = pkg.chars.length := by
      rw [UInt64.toNat_ofNat']
      omega
    dsimp only
    rw [if_pos hp]
    simp only [List.forall_mem_cons, List.not_mem_nil, UInt64.le_iff_toNat_le, remainder_sub h, hlen, remainder_toNat]
    show pkg.chars.length ≤ 2047 ∧ 2 ≤ 2047 - pkg.chars.length ∧ _ ↔ _
    simp only [false_imp_iff, implies_true, and_true]
    omega
  · dsimp only
    rw [if_neg hp, not_not.mp hp]
    simp

theorem upkConcatSvcid_eq (name : CStr) (hpkg : pkg.chars.length ≤ 2045) :
    ∃ dest, upkConcatSvcid pkg name = .ok dest ∧ dest.chars = (fullId pkg name).take 2047 := by
  have hmax : upkMaxStringLen = 2048 := rfl
  unfold upkConcatSvcid fullId
  by_cases hp : pkg.chars ≠ []
  · dsimp only
    rw [if_pos hp, if_pos hp]
    dsimp only
    have htake₁ : pkg.chars.take 2047 = pkg.chars := List.take_of_length_le (by omega)
    have htake₂ : (cstr "::").chars.take (2047 - pkg.chars.length) = (cstr "::").chars :=
      List.take_of_length_le (by rw [sep_length]; omega)
    have hlen : (pkg.chars ++ (cstr "::").chars).length = pkg.chars.length + 2 := by
      rw [List.length_append, sep_length]
    have htake : (pkg.chars ++ (cstr "::").chars ++ name.chars).take 2047 =
        pkg.chars ++ (cstr "::").chars ++ name.chars.take (2045 - pkg.chars.length) := by
      rw [List.take_append, List.take_of_length_le (by omega), hlen]
      congr 2
      omega
    have hchars : (((pkg.take 2047).append ((cstr "::").take (2047 - pkg.chars.length))).append
        (name.take (2045 - pkg.chars.length))).chars =
          pkg.chars ++ (cstr "::").chars ++ name.chars.take (2045 - pkg.chars.length) := by
      simp only [CStr.append, CStr.take, htake₁, htake₂]
    rw [remainder_toNat, remainder_sub (by omega), remainder_sub_sub hpkg, if_pos]
    · exact ⟨_, rfl, hchars.trans htake.symm⟩
    · rw [hchars, List.length_append, hlen, List.length_take]
      omega
  · dsimp only
    rw [if_neg hp, if_neg hp]
    dsimp only
    rw [remainder_toNat, if_pos]
    · exact ⟨_, rfl, List.nil_append _⟩
    · show ([] ++ name.chars.take 2047).length < _
      rw [List.nil_append, List.length_take]
      omega

theorem upkConcatSvcid_whole (h : pkg.chars.length + 2 + name.chars.length < upkMaxStringLen) :
    ∃ dest, upkConcatSvcid pkg name = .ok dest ∧ dest.chars = fullId pkg name := by
  have hmax : upkMaxStringLen = 2048 := rfl
  have hpkg : pkg.chars.length ≤ 2045 := by omega
  obtain ⟨dest, hdest, hchars⟩ := upkConcatSvcid_eq name hpkg
  refine ⟨dest, hdest, hchars.trans (List.take_of_length_le ?_)⟩
  unfold fullId
  split
  · rw [List.length_append, List.length_append, sep_length]
    omega
  · omega

/-- **The concatenation stays in bounds exactly for packages of at most 2045 bytes.** -/
theorem bounded_iff (pkg name : CharBuf upkMaxStringLen) :
    Bounded pkg.toCStr name.toCStr ↔ pkg.chars.length ≤ upkMaxStringLen - 3 := by
  have hmax : upkMaxStringLen = 2048 := rfl
  have hpkg : pkg.chars.length ≤ 2047 := Nat.le_sub_one_of_lt pkg.fits
  constructor
  · intro h
    exact (noWrap_iff hpkg).mp h.noWrap
  · intro h
    obtain ⟨dest, hdest, hchars⟩ := upkConcatSvcid_eq name.toCStr h
    refine ⟨(noWrap_iff hpkg).mpr h, dest, hdest, ?_, ?_⟩
    · rw [hchars, List.length_take]
      omega
    · rw [hchars]
      exact List.take_prefix _ _

/-- A text of `n` bytes `a` -/
def repeated (n : Nat) : CStr := ⟨List.replicate n 97, fun c hc => by rw [List.eq_of_mem_replicate hc]; decide⟩

theorem repeated_length (n : Nat) : (repeated n).chars.length = n := List.length_replicate

/-- From a package of 2046 bytes two are taken where only one is left. -/
theorem not_bounded_long_package :
    ¬ Bounded (⟨repeated 2046, by rw [repeated_length]; decide⟩ : CharBuf upkMaxStringLen).toCStr
      (⟨repeated 1, by rw [repeated_length]; decide⟩ : CharBuf upkMaxStringLen).toCStr := by
  intro h
  have hle : (repeated 2046).chars.length ≤ 2045 := (noWrap_iff (by rw [repeated_length]; decide)).mp h.noWrap
  rw [repeated_length] at hle
  omega

end Concat

/-! ### Parsing -/

/-- The package has no `::`, and does not end in `:`; or there is no package, and the name has no `::`. -/
def Separable (pkg name : CStr) : Prop :=
  pkg.chars ≠ [] ∧ ¬ (cstr "::").chars <:+: pkg.chars ∧ pkg.chars.getLast? ≠ some colon ∨
    pkg.chars = [] ∧ ¬ (cstr "::").chars <:+: name.chars

section Parse

variable {s t : CStr} {p : Nat} {svc : SvcDesc}

theorem strstr_eq_some : strstr s t = some p ↔ Search.FirstAt t.chars s.chars p := Search.find?_eq_some_iff

theorem strstr_eq_none : strstr s t = none ↔ ¬ t.chars <:+: s.chars := Search.find?_eq_none_iff

theorem sep_chars : (cstr "::").chars = [colon, colon] := by decide

theorem strncpyString_eq {b : CharBuf upkMaxStringLen} (h : s.chars = b.chars) : strncpyString s = b := by
  have hs : s = b.toCStr := CStr.ext h
  rw [hs, strncpyString_toCStr]

theorem upkParseSvcId_package {key : CStr} {pkg name : CharBuf upkMaxStringLen}
    (hkey : key.chars = pkg.chars ++ (cstr "::").chars ++ name.chars) (hsep : ¬ (cstr "::").chars <:+: pkg.chars)
    (hlast : pkg.chars.getLast? ≠ some colon) :
    upkParseSvcId key svc = { svc with package := pkg, name := name } := by
  have hfirst : strstr key (cstr "::") = some pkg.chars.length := by
    rw [strstr_eq_some, hkey, sep_chars]
    rw [sep_chars] at hsep
    exact Search.firstAt_separator hsep hlast
  have hpkg : (key.take pkg.chars.length).chars = pkg.chars := by
    show key.chars.take _ = _
    rw [hkey, List.append_assoc, List.take_left]
  have hname : (key.drop (pkg.chars.length + 2)).chars = name.chars := by
    show key.chars.drop _ = _
    rw [hkey, ← sep_length, ← List.length_append, List.drop_left]
  unfold upkParseSvcId
  rw [hfirst]
  dsimp only
  rw [strncpyString_eq hpkg, strncpyString_eq hname]

theorem upkParseSvcId_name {key : CStr} {name : CharBuf upkMaxStringLen} (hkey : key.chars = name.chars)
    (hsep : ¬ (cstr "::").chars <:+: name.chars) : upkParseSvcId key svc = { svc with name := name } := by
  have hnone : strstr key (cstr "::") = none := by rwa [strstr_eq_none, hkey]
  unfold upkParseSvcId
  rw [hnone]
  dsimp only
  rw [strncpyString_eq hkey]

/-- **A service key decodes to the package and the name that it was made of.** -/
theorem parses_svcId (d svc : SvcDesc) (hlen : d.package.chars.length + 2 + d.name.chars.length < upkMaxStringLen)
    (hd : Separable d.package.toCStr d.name.toCStr) (hpkg : svc.package.chars = []) :
    ∃ key, upkSvcId d = .ok key ∧ upkParseSvcId key svc = { svc with package := d.package, name := d.name } := by
  obtain ⟨key, hkey, hchars⟩ := upkConcatSvcid_whole hlen
  refine ⟨key, hkey, ?_⟩
  unfold fullId at hchars
  rcases hd with ⟨hne, hsep, hlast⟩ | ⟨hnil, hsep⟩
  · rw [if_pos hne] at hchars
    exact upkParseSvcId_package hchars hsep hlast
  · rw [if_neg (not_not.mpr hnil)] at hchars
    -- the description keeps its own package, which is empty too
    have hkeep : svc.package = d.package := CharBuf.ext (hpkg.trans hnil.symm)
    rw [upkParseSvcId_name hchars hsep, ← hkeep]

/-- A service `a` with the name `:b:` -/
def colonService : SvcDesc :=
  { upkSvcDescClear with package := strncpyString (cstr "a"), name := strncpyString (cstr ":b:") }

theorem parses_svcId_colons : ∃ key, upkSvcId colonService = .ok key ∧
    upkParseSvcId key upkSvcDescClear =
      { upkSvcDescClear with package := colonService.package, name := colonService.name } :=
  parses_svcId colonService upkSvcDescClear (by decide) (.inl (by decide)) rfl

end Parse

/-! ### Provides and Prerequisites -/

/-- The list that the elements of an array are decoded to -/
def decodedSvcids (l : SvcidField) (ss : List CStr) : Option (List SvcId) :=
  (ss.foldl (fun d s => upkSvcconfSvcidArrayAppender l s d) (upkSvcDescClear.modifySvcids l fun _ => some [])).svcids l

/-- The list is encoded to an array of texts that is decoded to the same list. -/
def SvcidsSurvive (l : SvcidField) (ss : List CStr) : Prop :=
  ∃ texts, svcidArray (decodedSvcids l ss) = .ok (texts.map Json.string) ∧ decodedSvcids l texts = decodedSvcids l ss

/-- A text that is read as a name: it has no colon, and does not start with `uuid#`. -/
def PlainName (s : List UInt8) : Prop := colon ∉ s ∧ strncasecmpEq 5 s (cstr "uuid#").chars = false

/-- The element names no package: it is a name, or a name behind a colon, or `uuid#` with nothing behind it. -/
def NoPackage (s : CStr) : Prop :=
  PlainName s.chars ∨ (∃ t, s.chars = colon :: t ∧ PlainName t) ∨
    s.chars.length = 5 ∧ strncasecmpEq 5 s.chars (cstr "uuid#").chars = true

section Svcids

variable {s : CStr} {ss : List CStr} {l : SvcidField}

theorem svcids_modifySvcids (f : Option (List SvcId) → Option (List SvcId)) (d : SvcDesc) :
    (d.modifySvcids l f).svcids l = f (d.svcids l) := by
  cases l <;> rfl

theorem foldl_appender (ss : List CStr) (ids : List SvcId) (d : SvcDesc) (hd : d.svcids l = some ids) :
    (ss.foldl (fun d s => upkSvcconfSvcidArrayAppender l s d) d).svcids l = some (ids ++ ss.map upkSvcconfSvcid) := by
  induction ss generalizing ids d with
  | nil => simpa using hd
  | cons s ss ih =>
    rw [List.foldl_cons, ih (ids ++ [upkSvcconfSvcid s])]
    · simp
    · rw [upkSvcconfSvcidArrayAppender, svcids_modifySvcids, hd]
      rfl

theorem decodedSvcids_eq : decodedSvcids l ss = some (ss.map upkSvcconfSvcid) := by
  have h := foldl_appender (l := l) ss [] (upkSvcDescClear.modifySvcids l fun _ => some [])
    (svcids_modifySvcids _ _)
  rwa [List.nil_append] at h

/-! What one element is decoded to, and what becomes of it -/

theorem strncpyString_chars (h : s.chars.length ≤ 2047) : (strncpyString s).chars = s.chars := List.take_of_length_le h

theorem idxOf?_colon {a b : List UInt8} (ha : colon ∉ a) : (a ++ colon :: b).idxOf? colon = some a.length := by
  rw [List.idxOf?, List.findIdx?_append, List.findIdx?_eq_none_iff.mpr]
  · simp [List.findIdx?_cons]
  · intro c hc
    have hne : c ≠ colon := fun heq => ha (heq ▸ hc)
    simpa using hne

theorem decode_colon {a b : List UInt8} (hs : s.chars = a ++ colon :: b) (ha : colon ∉ a)
    (hlen : s.chars.length ≤ 2047) :
    (upkSvcconfSvcid s).pkg.chars = a ∧ (upkSvcconfSvcid s).name.chars = b := by
  have hmax : upkMaxStringLen = 2048 := rfl
  have hle := hlen
  rw [hs, List.length_append, List.length_cons] at hle
  have htake : (s.take a.length).chars = a := by
    show s.chars.take _ = a
    rw [hs, List.take_left]
  have hdrop : (s.drop (a.length + 1)).chars = b := by
    show s.chars.drop _ = b
    rw [hs, ← List.drop_drop, List.drop_left]
    rfl
  unfold upkSvcconfSvcid
  rw [hs, idxOf?_colon ha]
  dsimp only
  rw [if_pos (by omega)]
  constructor
  · exact (strncpyString_chars (by rw [htake]; omega)).trans htake
  · exact (strncpyString_chars (by rw [hdrop]; omega)).trans hdrop

theorem decode_uuid (hcolon : colon ∉ s.chars) (huuid : strncasecmpEq 5 s.chars (cstr "uuid#").chars = true)
    (hlen : s.chars.length ≤ 2047) :
    (upkSvcconfSvcid s).pkg.chars = s.chars.drop 5 ∧ (upkSvcconfSvcid s).name.chars = [] := by
  unfold upkSvcconfSvcid
  rw [List.idxOf?_eq_none_iff.mpr hcolon]
  dsimp only
  rw [if_pos huuid]
  refine ⟨strncpyString_chars ?_, rfl⟩
  show (s.chars.drop 5).length ≤ 2047
  rw [List.length_drop]
  omega

theorem decode_plain (h : PlainName s.chars) (hlen : s.chars.length ≤ 2047) :
    (upkSvcconfSvcid s).pkg.chars = [] ∧ (upkSvcconfSvcid s).name.chars = s.chars := by
  unfold upkSvcconfSvcid
  rw [List.idxOf?_eq_none_iff.mpr h.1]
  dsimp only
  rw [if_neg (by rw [h.2]; decide)]
  exact ⟨rfl, strncpyString_chars hlen⟩

theorem plain_or (s : List UInt8) : PlainName s ∨
    colon ∉ s ∧ strncasecmpEq 5 s (cstr "uuid#").chars = true ∨ ∃ a b, s = a ++ colon :: b ∧ colon ∉ a := by
  by_cases hcolon : colon ∈ s
  · exact .inr (.inr (List.eq_append_cons_of_mem hcolon))
  · cases huuid : strncasecmpEq 5 s (cstr "uuid#").chars with
    | false => exact .inl ⟨hcolon, huuid⟩
    | true => exact .inr (.inl ⟨hcolon, rfl⟩)

theorem not_plainName_of_uuid {s : List UInt8} (h : strncasecmpEq 5 s (cstr "uuid#").chars = true) : ¬ PlainName s :=
  fun hplain => Bool.false_ne_true (hplain.2.symm.trans h)

theorem not_plainName_of_colon {s a b : List UInt8} (h : s = a ++ colon :: b) : ¬ PlainName s :=
  fun hplain => hplain.1 (by rw [h]; exact List.mem_append_right a List.mem_cons_self)

theorem uuid_chars : (textUpTo 5 (cstr "uuid#").chars).map tolower = [117, 117, 105, 100, 35] := by decide

theorem uuid_start (h : strncasecmpEq 5 s.chars (cstr "uuid#").chars = true) :
    5 ≤ s.chars.length ∧ colon ∉ s.chars.take 5 := by
  rw [strncasecmpEq, uuid_chars, beq_iff_eq, CStr.textUpTo_eq] at h
  constructor
  · have hlen := congrArg List.length h
    rw [List.length_map, List.length_take] at hlen
    simp only [List.length_cons, List.length_nil] at hlen
    omega
  · intro hmem
    have hlower := List.mem_map_of_mem (f := tolower) hmem
    rw [h] at hlower
    exact absurd hlower (by decide)

/-- An element without a package is read back as what it was, if its name is plain; one with a package never is. -/
theorem decode_encoded {id : SvcId} {t : CStr} (hpkg : colon ∉ id.pkg.chars)
    (ht : t.chars = fullId id.pkg.toCStr id.name.toCStr) (hlen : t.chars.length ≤ 2047) :
    upkSvcconfSvcid t = id ↔ id.pkg.chars = [] ∧ PlainName id.name.chars := by
  have heq : upkSvcconfSvcid t = id ↔
      (upkSvcconfSvcid t).pkg.chars = id.pkg.chars ∧ (upkSvcconfSvcid t).name.chars = id.name.chars := by
    constructor
    · rintro rfl
      exact ⟨rfl, rfl⟩
    · rintro ⟨h₁, h₂⟩
      exact congrArg₂ SvcId.mk (CharBuf.ext h₁) (CharBuf.ext h₂)
  rw [heq]
  unfold fullId at ht
  by_cases hp : id.pkg.chars ≠ []
  · rw [if_pos hp, sep_chars, List.append_assoc] at ht
    obtain ⟨-, hname⟩ := decode_colon ht hpkg hlen
    rw [hname]
    -- the name has grown by a colon
    constructor
    · rintro ⟨-, hgrown⟩
      have hcount := congrArg List.length hgrown
      simp at hcount
    · rintro ⟨hnil, -⟩
      exact absurd hnil hp
  · have hnil : id.pkg.chars = [] := not_not.mp hp
    rw [if_neg hp] at ht
    rw [hnil, ← ht]
    rcases plain_or t.chars with hplain | ⟨hcolon, huuid⟩ | ⟨a, b, hab, ha⟩
    · simp [decode_plain hplain hlen, hplain]
    · obtain ⟨h₁, h₂⟩ := decode_uuid hcolon huuid hlen
      have hlong := (uuid_start huuid).1
      rw [h₁, h₂]
      constructor
      · rintro ⟨-, hempty⟩
        rw [← hempty] at hlong
        simp at hlong
      · rintro ⟨-, h⟩
        exact absurd h (not_plainName_of_uuid huuid)
    · obtain ⟨h₁, h₂⟩ := decode_colon hab ha hlen
      rw [h₁, h₂]
      constructor
      · rintro ⟨-, hshort⟩
        have hcount := congrArg List.length (hshort.trans hab)
        simp at hcount
        omega
      · rintro ⟨-, h⟩
        exact absurd h (not_plainName_of_colon hab)

theorem noPackage_iff (hlen : s.chars.length ≤ 2047) :
    NoPackage s ↔ (upkSvcconfSvcid s).pkg.chars = [] ∧ PlainName (upkSvcconfSvcid s).name.chars := by
  unfold NoPackage
  rcases plain_or s.chars with hplain | ⟨hcolon, huuid⟩ | ⟨a, b, hab, ha⟩
  · simp [decode_plain hplain hlen, hplain]
  · obtain ⟨h₁, h₂⟩ := decode_uuid hcolon huuid hlen
    have hlong := (uuid_start huuid).1
    have hplain := not_plainName_of_uuid huuid
    have hbehind : ¬ ∃ t, s.chars = colon :: t ∧ PlainName t := by
      rintro ⟨t, ht, -⟩
      exact hcolon (by rw [ht]; exact List.mem_cons_self)
    have hempty : PlainName ([] : List UInt8) := ⟨List.not_mem_nil, by decide⟩
    rw [h₁, h₂, List.drop_eq_nil_iff]
    simp only [hplain, hbehind, huuid, hempty, false_or, and_true]
    omega
  · obtain ⟨h₁, h₂⟩ := decode_colon hab ha hlen
    have hplain := not_plainName_of_colon hab
    have huuid (hfive : s.chars.length = 5) : strncasecmpEq 5 s.chars (cstr "uuid#").chars ≠ true := by
      intro h
      have hno := (uuid_start h).2
      rw [List.take_of_length_le (by omega), hab] at hno
      simp at hno
    rw [h₁, h₂]
    constructor
    · rintro (h | ⟨t, ht, h⟩ | ⟨hfive, h⟩)
      · exact absurd h hplain
      · cases a with
        | nil => exact ⟨rfl, (List.cons.inj (hab.symm.trans ht)).2 ▸ h⟩
        | cons c a =>
          obtain ⟨rfl, -⟩ := List.cons.inj (hab.symm.trans ht)
          exact absurd List.mem_cons_self ha
      · exact absurd h (huuid hfive)
    · rintro ⟨rfl, h⟩
      exact .inr (.inl ⟨b, hab, h⟩)

theorem decode_spec (hlen : s.chars.length ≤ 2047) : colon ∉ (upkSvcconfSvcid s).pkg.chars ∧
    (upkSvcconfSvcid s).pkg.chars.length + (upkSvcconfSvcid s).name.chars.length ≤ s.chars.length := by
  rcases plain_or s.chars with hplain | ⟨hcolon, huuid⟩ | ⟨a, b, hab, ha⟩
  · rw [(decode_plain hplain hlen).1, (decode_plain hplain hlen).2]
    exact ⟨List.not_mem_nil, by simp⟩
  · rw [(decode_uuid hcolon huuid hlen).1, (decode_uuid hcolon huuid hlen).2]
    exact ⟨fun hmem => hcolon (List.mem_of_mem_drop hmem), by simp⟩
  · rw [(decode_colon hab ha hlen).1, (decode_colon hab ha hlen).2]
    refine ⟨ha, ?_⟩
    rw [hab, List.length_append, List.length_cons]
    omega

/-! The whole list -/

theorem exists_encoded (hlen : s.chars.length < 1000) : ∃ t, upkConcatSvcid (upkSvcconfSvcid s).pkg.toCStr
    (upkSvcconfSvcid s).name.toCStr = .ok t ∧ (upkSvcconfSvcid t = upkSvcconfSvcid s ↔ NoPackage s) := by
  have hmax : upkMaxStringLen = 2048 := rfl
  obtain ⟨hpkg, hle⟩ := decode_spec (s := s) (by omega)
  have hroom : (upkSvcconfSvcid s).pkg.chars.length + 2 + (upkSvcconfSvcid s).name.chars.length < 1002 := by omega
  obtain ⟨t, ht, hchars⟩ := upkConcatSvcid_whole (hroom.trans (by decide))
  refine ⟨t, ht, ?_⟩
  rw [noPackage_iff (by omega)]
  refine decode_encoded hpkg hchars ?_
  rw [hchars]
  unfold fullId
  split
  · rw [List.length_append, List.length_append, sep_length]
    omega
  · omega

theorem svcidArray_eq (hlen : ∀ s ∈ ss, s.chars.length < 1000) : ∃ texts : List CStr,
    svcidArray (some (ss.map upkSvcconfSvcid)) = .ok (texts.map Json.string) ∧
      (texts.map upkSvcconfSvcid = ss.map upkSvcconfSvcid ↔ ∀ s ∈ ss, NoPackage s) := by
  induction ss with
  | nil => exact ⟨[], rfl, by simp⟩
  | cons s ss ih =>
    obtain ⟨hs, hss⟩ := List.forall_mem_cons.mp hlen
    obtain ⟨t, ht, hback⟩ := exists_encoded hs
    obtain ⟨texts, htexts, hbacks⟩ := ih hss
    refine ⟨t :: texts, ?_, ?_⟩
    · unfold svcidArray at htexts ⊢
      rw [Option.getD_some] at htexts ⊢
      rw [List.map_cons, List.mapM_cons, ht, htexts]
      rfl
    · rw [List.map_cons, List.map_cons, List.cons.injEq, hback, hbacks, List.forall_mem_cons]

theorem SvcidsSurvive.noPackage (h : SvcidsSurvive l ss) (hlen : ∀ s ∈ ss, s.chars.length < 1000) :
    ∀ s ∈ ss, NoPackage s := by
  obtain ⟨texts, htexts, hback⟩ := svcidArray_eq hlen
  obtain ⟨texts', htexts', hsame⟩ := h
  rw [decodedSvcids_eq, htexts] at htexts'
  obtain rfl : texts = texts' :=
    List.map_injective_iff.mpr (fun a b hab => Json.string.inj hab) (Except.ok.inj htexts')
  rw [decodedSvcids_eq, decodedSvcids_eq, Option.some.injEq] at hsame
  exact hback.mp hsame

/-- **A list of identifiers survives its encoding exactly if no element of it names a package.** -/
theorem svcidsSurvive_iff (l : SvcidField) (ss : List CStr) (hlen : ∀ s ∈ ss, s.chars.length < 1000) :
    SvcidsSurvive l ss ↔ ∀ s ∈ ss, NoPackage s := by
  constructor
  · intro h
    exact h.noPackage hlen
  · intro h
    obtain ⟨texts, htexts, hback⟩ := svcidArray_eq hlen
    refine ⟨texts, ?_, ?_⟩
    · rw [decodedSvcids_eq, htexts]
    · rw [decodedSvcids_eq, decodedSvcids_eq, hback.mpr h]

/-- A name, a name behind a colon, and `uuid#` with nothing behind it -/
theorem svcidsSurvive_iff_web : SvcidsSurvive .provides [cstr "web", cstr ":db", cstr "uuid#"] := by
  refine (svcidsSurvive_iff .provides [cstr "web", cstr ":db", cstr "uuid#"] (by decide)).mpr fun s hs => ?_
  rcases hs with _ | ⟨_, _ | ⟨_, _ | ⟨_, hs⟩⟩⟩
  · exact .inl ⟨by decide, by decide⟩
  · exact .inr (.inl ⟨(cstr "db").chars, rfl, by decide, by decide⟩)
  · exact .inr (.inr ⟨rfl, by decide⟩)
  · cases hs

/-- The name of `db:postgres` comes back with a colon in front. -/
theorem not_svcidsSurvive_package : ¬ SvcidsSurvive .provides [cstr "db:postgres"] := by
  intro h
  have hno := h.noPackage (by decide) (cstr "db:postgres") List.mem_cons_self
  rw [noPackage_iff (by decide)] at hno
  exact absurd hno.1 (by decide)

end Svcids

end Upkeeper
