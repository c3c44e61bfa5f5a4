import Upkeeper.Library.Strtoul
/-!
# Values of options (`upk_util.c`: `upk_numeric_string`, `upk_boolean_string`)

A number is what `strtoul` reads of the text. Whatever it skips or leaves is not looked at, so that a text that is not a
literal may be taken for one (`numericRight_iff`). A truth value is a number or begins with one of four words. The zero
among the numbers has been rejected before it is looked at (`booleanRight_iff`).
-/

namespace Upkeeper

/-- The base that `upk_numeric_string` chooses -/
def numericBase (string : CStr) : Nat :=
  let base := if strncmpEq 1 string.chars (cstr "0").chars then 8 else 10
  if strncmpEq 2 string.chars (cstr "0x").chars then 16 else base

/-- `upk_numeric_string`: its result and what it has stored in `*num` -/
def upkNumericString (string : CStr) : Bool × Int64 :=
  match strtoul (numericBase string) string.chars with
  | none => (false, 0)
  | some (n, erange) =>
    let num := n.toInt64
    if erange ∧ (num = Int64.maxValue ∨ num = Int64.minValue) ∨ num ≤ 0 then (false, num) else (true, num)

/-- `upk_boolean_string`: its result and what is then in `*val` -/
def upkBooleanString (string : CStr) (val : Bool) : Bool × Bool :=
  let (numeric, buf) := upkNumericString string
  if numeric then
    if buf = 0 then (true, false)
    else if buf = 1 then (true, true)
    else (false, val)
  else if strncasecmpEq 4 string.chars (cstr "true").chars then (true, true)
  else if strncasecmpEq 5 string.chars (cstr "false").chars then (true, false)
  else if strncasecmpEq 3 string.chars (cstr "yes").chars then (true, true)
  else if strncasecmpEq 2 string.chars (cstr "no").chars then (true, false)
  else (false, val)

/-! ### What a text says -/

/-- An integer literal and its value: in decimal notation, in octal notation behind `0`, and in hexadecimal notation
behind `0x` -/
inductive Literal : List UInt8 → Nat → Prop
  | decimal (ds : List UInt8) (hne : ds ≠ []) (hzero : ds.head? ≠ some 48) (hds : ∀ c ∈ ds, strtoulDigit c < 10) :
    Literal ds (digitsValue 10 ds)
  | octal (ds : List UInt8) (hds : ∀ c ∈ ds, strtoulDigit c < 8) : Literal (48 :: ds) (digitsValue 8 ds)
  | hexadecimal (ds : List UInt8) (hne : ds ≠ []) (hds : ∀ c ∈ ds, strtoulDigit c < 16) :
    Literal (48 :: 120 :: ds) (digitsValue 16 ds)

/-- The text is a literal of a positive number that fits in a `long`. -/
def SaysNumber (string : CStr) (num : Int64) : Prop := 0 < num ∧ Literal string.chars num.toInt.toNat

/-- The words for truth values -/
def booleanWords : List (CStr × Bool) :=
  [(cstr "true", true), (cstr "false", false), (cstr "yes", true), (cstr "no", false)]

/-- The text is `0`, `1` or, in any case of letters, one of the words. -/
def SaysBool (string : CStr) (val : Bool) : Prop :=
  string = cstr "0" ∧ val = false ∨ string = cstr "1" ∧ val = true ∨
    ∃ word ∈ booleanWords, string.strcasecmpEq word.1 = true ∧ val = word.2

/-- `upk_numeric_string` accepts the text if and only if it says a number, and stores that number. -/
def NumericRight (string : CStr) : Prop := ∀ num, upkNumericString string = (true, num) ↔ SaysNumber string num

/-- `upk_boolean_string` accepts the text if and only if it says a truth value, and stores that value. -/
def BooleanRight (string : CStr) : Prop := ∀ val b, upkBooleanString string val = (true, b) ↔ SaysBool string b

variable {string : CStr}

/-! ### Numbers -/

/-- What `strtoul` reads of the text -/
def numericRead (string : CStr) : Numeral := .read (numericBase string) string.chars

/-- The number of the digits that are read -/
def magnitude (string : CStr) : Nat := digitsValue (numericBase string) (numericRead string).digits

/-- The number that is read, where a minus counts modulo `2 ^ 64` -/
def numericValue (string : CStr) : Int :=
  if (numericRead string).sign = [45] then 2 ^ 64 - magnitude string else magnitude string

/-- The number that is read is a positive one that fits in a `long`. -/
def ReadsPositive (string : CStr) : Prop := 0 < numericValue string ∧ numericValue string < 2 ^ 63

instance (string : CStr) : Decidable (ReadsPositive string) := inferInstanceAs (Decidable (_ ∧ _))

/-- What `upk_numeric_string` stores -/
def numericLong (string : CStr) : Int64 := ((numericRead string).value (numericBase string)).toInt64

theorem numericLong_toInt : (numericLong string).toInt =
    if 2 ^ 64 ≤ magnitude string then -1 else (numericValue string).bmod (2 ^ 64) := by
  have htoInt (x : UInt64) : x.toInt64.toInt = (x.toNat : Int).bmod (2 ^ 64) := BitVec.toInt_eq_toNat_bmod _
  unfold numericLong Numeral.value
  rw [htoInt, ← magnitude.eq_1, numericValue]
  by_cases hlarge : 2 ^ 64 ≤ magnitude string
  · rw [if_pos hlarge, if_pos hlarge]
    decide
  · have hlt : magnitude string < UInt64.size := by simpa using hlarge
    rw [if_neg hlarge, if_neg hlarge]
    split_ifs
    · have hsub : ((UInt64.size - magnitude string : Nat) : Int) = 2 ^ 64 - magnitude string := by
        rw [Int.natCast_sub (Nat.le_of_lt hlt)]
        rfl
      rw [UInt64.toNat_neg, UInt64.toNat_ofNat_of_lt' hlt, Int.natCast_emod, hsub]
      exact Int.emod_bmod _ _
    · rw [UInt64.toNat_ofNat_of_lt' hlt]

theorem upkNumericString_eq : upkNumericString string = (decide (0 < numericLong string), numericLong string) := by
  have hread : strtoul (numericBase string) string.chars = if (numericRead string).digits = [] then none
      else some ((numericRead string).value (numericBase string), decide (2 ^ 64 ≤ magnitude string)) :=
    Numeral.strtoul_eq
  rw [upkNumericString, hread]
  by_cases hdigits : (numericRead string).digits = []
  · have hlong : numericLong string = 0 := by
      have hzero : magnitude string = 0 := by
        rw [magnitude, hdigits]
        rfl
      rw [← Int64.toInt_inj, numericLong_toInt, numericValue, hzero, if_neg (by decide)]
      split_ifs <;> rfl
    rw [if_pos hdigits, hlong]
    rfl
  · -- what is out of range is read as `ULONG_MAX`, which is not a positive `long`
    have hguard : decide (2 ^ 64 ≤ magnitude string) = true ∧
        (numericLong string = Int64.maxValue ∨ numericLong string = Int64.minValue) ∨ numericLong string ≤ 0 ↔
          ¬ 0 < numericLong string := by
      rw [decide_eq_true_iff, Int64.not_lt]
      refine ⟨fun h => h.elim (fun herange => ?_) id, Or.inr⟩
      rw [Int64.le_iff_toInt_le, numericLong_toInt, if_pos herange.1]
      decide
    rw [if_neg hdigits]
    simp only [← numericLong.eq_1, hguard]
    by_cases hpos : 0 < numericLong string
    · simp [hpos]
    · simp [hpos]

theorem upkNumericString_iff {num : Int64} :
    upkNumericString string = (true, num) ↔ 0 < num ∧ num.toInt = numericValue string := by
  have hlong := @numericLong_toInt string
  have hlt := num.toInt_lt
  rw [upkNumericString_eq, Prod.mk.injEq, decide_eq_true_iff, ← Int64.toInt_inj, Int64.lt_iff_toInt_lt,
    Int64.lt_iff_toInt_lt, hlong, Int64.toInt_zero]
  by_cases hlarge : 2 ^ 64 ≤ magnitude string
  · have hvalue : numericValue string ≤ 0 ∨ 2 ^ 64 ≤ numericValue string := by
      unfold numericValue
      split_ifs <;> omega
    rw [if_pos hlarge]
    omega
  · have hvalue : 0 ≤ numericValue string ∧ numericValue string ≤ 2 ^ 64 := by
      unfold numericValue
      split_ifs <;> omega
    rw [if_neg hlarge, Int.bmod_def]
    split_ifs <;> omega

theorem ReadsPositive.accepted (h : ReadsPositive string) :
    ∃ num, upkNumericString string = (true, num) ∧ num.toInt = numericValue string := by
  have htoInt : (Int64.ofInt (numericValue string)).toInt = numericValue string :=
    Int64.toInt_ofInt_of_le (by have := h.1; omega) h.2
  have hpos : 0 < Int64.ofInt (numericValue string) := by
    rw [Int64.lt_iff_toInt_lt, htoInt]
    exact h.1
  exact ⟨_, upkNumericString_iff.mpr ⟨hpos, htoInt⟩, htoInt⟩

theorem readsPositive_of_accepted {num : Int64} (h : upkNumericString string = (true, num)) :
    ReadsPositive string := by
  obtain ⟨hnum, hvalue⟩ := upkNumericString_iff.mp h
  have hpos := Int64.lt_iff_toInt_lt.mp hnum
  rw [Int64.toInt_zero, hvalue] at hpos
  exact ⟨hpos, hvalue ▸ num.toInt_lt⟩

theorem numericBase_eq : numericBase string =
    if string.chars.take 2 = [48, 120] then 16 else if string.chars.take 1 = [48] then 8 else 10 := by
  have hzero : (cstr "0").chars.take 1 = [48] := rfl
  have hzeroX : (cstr "0x").chars.take 2 = [48, 120] := rfl
  simp only [numericBase, strncmpEq, CStr.textUpTo_eq, hzero, hzeroX, beq_iff_eq]

theorem numericBase_decimal (h : string.chars.head? ≠ some 48) : numericBase string = 10 := by
  rw [numericBase_eq]
  cases hchars : string.chars with
  | nil => rfl
  | cons c ds =>
    have hc : c ≠ 48 := by simpa [hchars] using h
    simp [hc]

theorem numericBase_octal {ds : List UInt8} (hchars : string.chars = 48 :: ds) (h : ds.head? ≠ some 120) :
    numericBase string = 8 := by
  rw [numericBase_eq, hchars]
  cases ds with
  | nil => rfl
  | cons c ds =>
    have hc : c ≠ 120 := by simpa using h
    simp [hc]

theorem numericBase_hexadecimal {ds : List UInt8} (hchars : string.chars = 48 :: 120 :: ds) :
    numericBase string = 16 := by
  rw [numericBase_eq, hchars]
  rfl

theorem literal_read {v : Nat} (h : Literal string.chars v) :
    (numericRead string).digits ≠ [] ∧ (numericRead string).Whole ∧
      digitsValue (numericBase string) (numericRead string).digits = v := by
  generalize hchars : string.chars = chars at h
  cases h with
  | decimal _ hne hzero hds =>
    rw [← hchars] at hzero
    have hbase := numericBase_decimal hzero
    have hread : numericRead string = ⟨[], [], [], chars, []⟩ := by
      rw [numericRead, hbase, hchars, Numeral.read_digits (by decide) hds hne]
    rw [hread, hbase]
    exact ⟨hne, ⟨rfl, rfl, rfl⟩, rfl⟩
  | octal ds hds =>
    have hx : ds.head? ≠ some 120 := fun hx => absurd (hds 120 (List.mem_of_head? hx)) (by decide)
    have hbase := numericBase_octal hchars hx
    have hds' : ∀ c ∈ 48 :: ds, strtoulDigit c < 8 := List.forall_mem_cons.mpr ⟨by decide, hds⟩
    have hread : numericRead string = ⟨[], [], [], 48 :: ds, []⟩ := by
      rw [numericRead, hbase, hchars, Numeral.read_digits (by decide) hds' (List.cons_ne_nil _ _)]
    rw [hread, hbase]
    exact ⟨List.cons_ne_nil _ _, ⟨rfl, rfl, rfl⟩, Numeral.digitsValue_zero⟩
  | hexadecimal ds hne hds =>
    have hbase := numericBase_hexadecimal hchars
    have hread : numericRead string = ⟨[], [], [48, 120], ds, []⟩ := by
      rw [numericRead, hbase, hchars, Numeral.read_hexadecimal hds hne]
    rw [hread, hbase]
    exact ⟨hne, ⟨rfl, rfl, rfl⟩, rfl⟩

theorem literal_of_whole (hdigits : (numericRead string).digits ≠ []) (hwhole : (numericRead string).Whole) :
    Literal string.chars (digitsValue (numericBase string) (numericRead string).digits) := by
  have hlt : ∀ c ∈ (numericRead string).digits, strtoulDigit c < numericBase string := Numeral.digits_read
  by_cases hzero : string.chars.head? = some 48
  · obtain ⟨ds, hchars⟩ := List.head?_eq_some_iff.mp hzero
    by_cases hx : ds.head? = some 120
    · obtain ⟨ds, rfl⟩ := List.head?_eq_some_iff.mp hx
      have hbase := numericBase_hexadecimal hchars
      have hread : numericRead string = _ := (congrArg₂ Numeral.read hbase hchars).trans Numeral.read_zeroX
      split_ifs at hread with hhex
      · have hpre : (numericRead string).pre = [48, 120] := congrArg Numeral.pre hread
        have htext : (numericRead string).pre ++ (numericRead string).digits = string.chars := hwhole.text_eq
        rw [hpre] at htext
        rw [hbase] at hlt ⊢
        rw [← htext]
        exact .hexadecimal _ hdigits hlt
      · exact absurd (hwhole.2.2.symm.trans (congrArg Numeral.rest hread)) (List.cons_ne_nil _ _).symm
    · have hbase := numericBase_octal hchars hx
      have htext : (numericRead string).pre ++ (numericRead string).digits = string.chars := hwhole.text_eq
      rw [numericRead, Numeral.pre_read (by rw [hbase]; decide), List.nil_append, ← numericRead, hchars] at htext
      rw [hbase, htext] at hlt ⊢
      rw [hchars, Numeral.digitsValue_zero]
      exact .octal _ (List.forall_mem_cons.mp hlt).2
  · have hbase := numericBase_decimal hzero
    have htext : (numericRead string).pre ++ (numericRead string).digits = string.chars := hwhole.text_eq
    rw [numericRead, Numeral.pre_read (by rw [hbase]; decide), List.nil_append, ← numericRead] at htext
    rw [hbase, htext] at hlt ⊢
    rw [htext] at hdigits
    exact .decimal _ hdigits hzero hlt

theorem saysNumber_iff {num : Int64} :
    SaysNumber string num ↔ (0 < num ∧ num.toInt = numericValue string) ∧ (numericRead string).Whole := by
  constructor
  · rintro ⟨hnum, hliteral⟩
    obtain ⟨_, hwhole, hvalue⟩ := literal_read hliteral
    have hpos := Int64.lt_iff_toInt_lt.mp hnum
    rw [Int64.toInt_zero] at hpos
    refine ⟨⟨hnum, ?_⟩, hwhole⟩
    rw [numericValue, hwhole.2.1, if_neg (by simp), magnitude, hvalue]
    omega
  · rintro ⟨⟨hnum, hvalue⟩, hwhole⟩
    have hpos := Int64.lt_iff_toInt_lt.mp hnum
    rw [Int64.toInt_zero] at hpos
    rw [numericValue, hwhole.2.1, if_neg (by simp)] at hvalue
    have hdigits : (numericRead string).digits ≠ [] := by
      intro hnil
      rw [magnitude, hnil] at hvalue
      exact absurd hvalue (Int.ne_of_gt hpos)
    have htoNat : num.toInt.toNat = magnitude string := by omega
    refine ⟨hnum, ?_⟩
    rw [htoNat]
    exact literal_of_whole hdigits hwhole

/-- **Numbers.** `upk_numeric_string` is right if it has read the whole text, or nothing positive that fits. -/
theorem numericRight_iff : NumericRight string ↔ (ReadsPositive string → (numericRead string).Whole) := by
  simp only [NumericRight, saysNumber_iff, ← upkNumericString_iff]
  constructor
  · intro h hreads
    obtain ⟨num, hnum, _⟩ := hreads.accepted
    exact ((h num).mp hnum).2
  · intro h num
    exact ⟨fun hnum => ⟨hnum, h (readsPositive_of_accepted hnum)⟩, And.left⟩

/-! ### Truth values -/

/-- The text begins with the word, in any case of letters. -/
def StartsWith (string word : CStr) : Prop := strncasecmpEq word.chars.length string.chars word.chars = true

instance (string word : CStr) : Decidable (StartsWith string word) := inferInstanceAs (Decidable (_ = _))

/-- The text begins with the word and goes on. -/
def ExtendsWord (string word : CStr) : Prop := StartsWith string word ∧ word.chars.length < string.chars.length

theorem startsWith_iff {word : CStr} : StartsWith string word ↔
    (string.chars.take word.chars.length).map tolower = word.chars.map tolower := by
  rw [StartsWith, strncasecmpEq, CStr.textUpTo_eq, CStr.textUpTo_eq, List.take_length, beq_iff_eq]

theorem strcasecmpEq_iff {word : CStr} :
    string.strcasecmpEq word = true ↔ StartsWith string word ∧ ¬ ExtendsWord string word := by
  have hextends : StartsWith string word ∧ ¬ ExtendsWord string word ↔
      StartsWith string word ∧ string.chars.length ≤ word.chars.length := by
    rw [ExtendsWord, ← Nat.not_lt]
    tauto
  rw [hextends, startsWith_iff, CStr.strcasecmpEq, beq_iff_eq]
  constructor
  · intro h
    have hlen : string.chars.length = word.chars.length := by simpa using congrArg List.length h
    rw [← hlen, List.take_length]
    exact ⟨h, Nat.le_refl _⟩
  · rintro ⟨h, hlen⟩
    rwa [List.take_of_length_le hlen] at h

theorem StartsWith.head {word : CStr} {w : UInt8} {ws : List UInt8} (h : StartsWith string word)
    (hword : word.chars = w :: ws) : ∃ c cs, string.chars = c :: cs ∧ tolower c = tolower w := by
  rw [startsWith_iff, hword] at h
  cases hchars : string.chars with
  | nil => simp [hchars] at h
  | cons c cs =>
    rw [hchars, List.length_cons, List.take_succ_cons, List.map_cons, List.map_cons] at h
    exact ⟨c, cs, rfl, (List.cons.inj h).1⟩

theorem booleanWords_head {word : CStr × Bool} (hword : word ∈ booleanWords) :
    ∃ w ws, word.1.chars = w :: ws ∧ tolower w = w ∧ (w = 116 ∨ w = 102 ∨ w = 121 ∨ w = 110) ∧
      booleanWords.find? (fun word => word.1.chars.head? = some w) = some word := by
  simp only [booleanWords, List.mem_cons, List.not_mem_nil, or_false] at hword
  rcases hword with rfl | rfl | rfl | rfl
  · exact ⟨116, _, rfl, rfl, by decide, rfl⟩
  · exact ⟨102, _, rfl, rfl, by decide, rfl⟩
  · exact ⟨121, _, rfl, rfl, by decide, rfl⟩
  · exact ⟨110, _, rfl, rfl, by decide, rfl⟩

theorem booleanWords_unique {word word' : CStr × Bool} (hword : word ∈ booleanWords) (hword' : word' ∈ booleanWords)
    (h : StartsWith string word.1) (h' : StartsWith string word'.1) : word = word' := by
  obtain ⟨w, _, hchars, hlower, _, hfind⟩ := booleanWords_head hword
  obtain ⟨w', _, hchars', hlower', _, hfind'⟩ := booleanWords_head hword'
  obtain ⟨c, cs, hstring, hc⟩ := h.head hchars
  obtain ⟨c', cs', hstring', hc'⟩ := h'.head hchars'
  obtain ⟨rfl, -⟩ := List.cons.inj (hstring.symm.trans hstring')
  obtain rfl : w = w' := by rw [← hlower, ← hc, hc', hlower']
  exact Option.some.inj (hfind.symm.trans hfind')

theorem letter_not_digit : ∀ c, tolower c = 116 ∨ tolower c = 102 ∨ tolower c = 121 ∨ tolower c = 110 →
    c ≠ 48 ∧ 10 ≤ strtoulDigit c ∧ strtoulDigit c < 36 := forall_byte (by decide +kernel)

theorem numericValue_of_startsWith {word : CStr × Bool} (hword : word ∈ booleanWords)
    (h : StartsWith string word.1) : numericValue string = 0 := by
  obtain ⟨w, _, hchars, hlower, hletter, _⟩ := booleanWords_head hword
  obtain ⟨c, cs, hstring, hc⟩ := h.head hchars
  rw [← hlower, ← hc] at hletter
  obtain ⟨hzero, hten, hdigit⟩ := letter_not_digit c hletter
  have hbase : numericBase string = 10 := by
    refine numericBase_decimal ?_
    rw [hstring]
    simpa using hzero
  have hread : numericRead string = _ :=
    (congrArg₂ Numeral.read hbase hstring).trans (Numeral.read_cons (by decide) hdigit)
  have hdigits : (numericRead string).digits = [] := by
    rw [hread]
    exact List.takeWhile_cons_of_neg (p := fun c => decide (strtoulDigit c < 10)) (by simpa using hten)
  rw [numericValue, magnitude, hdigits, hread, if_neg (by simp)]
  rfl

theorem upkBooleanString_eq {val : Bool} : upkBooleanString string val =
    if ReadsPositive string then if numericValue string = 1 then (true, true) else (false, val)
    else (booleanWords.find? fun word => StartsWith string word.1).elim (false, val) fun word => (true, word.2) := by
  by_cases hreads : ReadsPositive string
  · obtain ⟨num, hnum, hvalue⟩ := hreads.accepted
    have hzero : num ≠ 0 := by
      rintro rfl
      exact absurd hreads.1 (by rw [← hvalue]; decide)
    have hone : num = 1 ↔ numericValue string = 1 := by
      rw [← Int64.toInt_inj, hvalue]
      rfl
    rw [if_pos hreads]
    simp only [upkBooleanString, hnum, if_true, if_neg hzero, hone]
  · have hnum : (upkNumericString string).1 = false := by
      by_contra htrue
      rw [Bool.not_eq_false] at htrue
      exact hreads (readsPositive_of_accepted (Prod.ext htrue rfl))
    rw [if_neg hreads]
    have htrue : (cstr "true").chars.length = 4 := rfl
    have hfalse : (cstr "false").chars.length = 5 := rfl
    have hyes : (cstr "yes").chars.length = 3 := rfl
    have hno : (cstr "no").chars.length = 2 := rfl
    simp only [upkBooleanString, hnum, Bool.false_eq_true, if_false, booleanWords, List.find?_cons, List.find?_nil,
      StartsWith, htrue, hfalse, hyes, hno, Bool.decide_eq_true]
    split_ifs <;> simp [*]

theorem upkBooleanString_iff {val b : Bool} : upkBooleanString string val = (true, b) ↔
    numericValue string = 1 ∧ b = true ∨ ∃ word ∈ booleanWords, StartsWith string word.1 ∧ b = word.2 := by
  rw [upkBooleanString_eq]
  by_cases hreads : ReadsPositive string
  · have hnone : ¬ ∃ word ∈ booleanWords, StartsWith string word.1 ∧ b = word.2 := by
      rintro ⟨word, hword, hbegins, _⟩
      exact absurd hreads.1 (by rw [numericValue_of_startsWith hword hbegins]; decide)
    rw [if_pos hreads, or_iff_left hnone]
    by_cases hone : numericValue string = 1
    · simp [hone, eq_comm]
    · simp [hone]
  · have hone : ¬ (numericValue string = 1 ∧ b = true) := fun h => hreads (by rw [ReadsPositive, h.1]; decide)
    rw [if_neg hreads, or_iff_right hone]
    cases hfind : booleanWords.find? fun word => StartsWith string word.1 with
    | none =>
      have hnone := List.find?_eq_none.mp hfind
      refine iff_of_false (by simp) ?_
      rintro ⟨word, hword, hbegins, _⟩
      exact hnone word hword (decide_eq_true hbegins)
    | some word =>
      have hword := List.mem_of_find?_eq_some hfind
      have hbegins : StartsWith string word.1 :=
        of_decide_eq_true (List.find?_some (p := fun word : CStr × Bool => decide (StartsWith string word.1)) hfind)
      constructor
      · intro h
        exact ⟨word, hword, hbegins, (congrArg Prod.snd h).symm⟩
      · rintro ⟨word', hword', hbegins', rfl⟩
        rw [booleanWords_unique hword hword' hbegins hbegins']
        rfl

theorem not_startsWith_digit {c : UInt8} {word : CStr × Bool} (hc : string.chars = [c]) (hdigit : strtoulDigit c < 10)
    (hword : word ∈ booleanWords) : ¬ StartsWith string word.1 := by
  intro h
  obtain ⟨w, _, hchars, hlower, hletter, _⟩ := booleanWords_head hword
  obtain ⟨d, ds, hstring, hd⟩ := h.head hchars
  obtain ⟨rfl, -⟩ := List.cons.inj (hc.symm.trans hstring)
  rw [← hlower, ← hd] at hletter
  exact absurd (letter_not_digit c hletter).2.1 (by omega)

/-- **Truth values.** `upk_boolean_string` is right unless the text is `0`, goes on behind a word, or is read as one and
is not `1`. -/
theorem booleanRight_iff : BooleanRight string ↔ string ≠ cstr "0" ∧
    (∀ word ∈ booleanWords, ¬ ExtendsWord string word.1) ∧ (numericValue string = 1 → string = cstr "1") := by
  have hzero {word : CStr × Bool} (h0 : string = cstr "0") (hword : word ∈ booleanWords) : ¬ StartsWith string word.1 :=
    not_startsWith_digit (c := 48) (by rw [h0]; rfl) (by decide) hword
  have hone {word : CStr × Bool} (h1 : string = cstr "1") (hword : word ∈ booleanWords) : ¬ StartsWith string word.1 :=
    not_startsWith_digit (c := 49) (by rw [h1]; rfl) (by decide) hword
  simp only [BooleanRight, upkBooleanString_iff]
  constructor
  · intro h
    refine ⟨fun h0 => ?_, fun word hword hextends => ?_, fun hvalue => ?_⟩
    · rcases (h false false).mpr (.inl ⟨h0, rfl⟩) with ⟨_, hfalse⟩ | ⟨word, hword, hbegins, _⟩
      · exact Bool.false_ne_true hfalse
      · exact hzero h0 hword hbegins
    · rcases (h false word.2).mp (.inr ⟨word, hword, hextends.1, rfl⟩) with
        ⟨h0, _⟩ | ⟨h1, _⟩ | ⟨word', hword', hsays, _⟩
      · exact hzero h0 hword hextends.1
      · exact hone h1 hword hextends.1
      · obtain ⟨hbegins', hwhole⟩ := strcasecmpEq_iff.mp hsays
        rw [booleanWords_unique hword' hword hbegins' hextends.1] at hwhole
        exact hwhole hextends
    · rcases (h false true).mp (.inl ⟨hvalue, rfl⟩) with ⟨_, hfalse⟩ | ⟨h1, _⟩ | ⟨word, hword, hsays, _⟩
      · exact absurd hfalse.symm Bool.false_ne_true
      · exact h1
      · have hnone := numericValue_of_startsWith hword (strcasecmpEq_iff.mp hsays).1
        exact absurd (hvalue.symm.trans hnone) (by decide)
  · rintro ⟨h0, hextends, h1⟩ val b
    constructor
    · rintro (⟨hvalue, rfl⟩ | ⟨word, hword, hbegins, rfl⟩)
      · exact .inr (.inl ⟨h1 hvalue, rfl⟩)
      · exact .inr (.inr ⟨word, hword, strcasecmpEq_iff.mpr ⟨hbegins, hextends word hword⟩, rfl⟩)
    · rintro (⟨hstring, _⟩ | ⟨rfl, rfl⟩ | ⟨word, hword, hsays, rfl⟩)
      · exact absurd hstring h0
      · exact .inl ⟨by decide, rfl⟩
      · exact .inr ⟨word, hword, (strcasecmpEq_iff.mp hsays).1, rfl⟩

/-- **Values of options** are what the texts say, if and only if whatever is read as a positive number is the whole
text, and the text is not `0`, does not go on behind a word, and is `1` if it is read as one. -/
theorem values_right_iff : NumericRight string ∧ BooleanRight string ↔
    (ReadsPositive string → (numericRead string).Whole) ∧ string ≠ cstr "0" ∧
      (∀ word ∈ booleanWords, ¬ ExtendsWord string word.1) ∧ (numericValue string = 1 → string = cstr "1") := by
  rw [numericRight_iff, booleanRight_iff]

/-- A number in front of other characters is accepted, and the truth value `0` is not. -/
theorem values_not_right : ¬ NumericRight (cstr "10x") ∧ ¬ BooleanRight (cstr "0") := by
  constructor
  · intro h
    have hwhole := numericRight_iff.mp h (by decide)
    exact absurd hwhole.2.2 (by decide)
  · intro h
    exact (booleanRight_iff.mp h).1 rfl

end Upkeeper
