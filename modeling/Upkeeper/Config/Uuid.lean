import Mathlib.Tactic.FinCases
import Upkeeper.Config.Types
import Upkeeper.Library.Strtoul
/-!
# UUIDs as text (`uuid.c`)

`upk_string_to_uuid` reads back what `upk_uuid_to_string` writes, and leaves the UUID as it was on any text that is not
one.
-/

namespace Upkeeper

/-- `'-'` -/
def dash : UInt8 := 45

/-- The 36 characters of `"%08X-%04X-%04X-%02X%02X-%02X%02X%02X%02X%02X%02X"` -/
def Uuid.chars (u : Uuid) : List UInt8 :=
  Hex.digits 8 u.timeLow.toNat ++ dash :: Hex.digits 4 u.timeMid.toNat ++ dash ::
    Hex.digits 4 u.timeHighAndVersion.toNat ++ dash :: Hex.digits 2 u.clkSeqHigh.toNat ++
    Hex.digits 2 u.clkSeqLow.toNat ++ dash :: (List.finRange 6).flatMap fun n => Hex.digits 2 (u.node n).toNat

/-- `upk_uuid_to_string` -/
def upkUuidToString (u : Uuid) : CStr where
  chars := u.chars
  noNul := by
    have hdash : dash ≠ 0 := by decide
    have hdigits : ∀ w n, ∀ c ∈ Hex.digits w n, c ≠ 0 := fun _ _ _ hc => (Hex.isXdigit_of_mem hc).2
    intro c hc
    simp only [Uuid.chars, List.mem_append, List.mem_cons, List.mem_flatMap] at hc
    grind

/-- `is_valid_upk_uuid_string`: the loop ends at a character that is not the one expected, the terminator at the
latest -/
def isValidUpkUuidString (s : CStr) : Bool :=
  ((List.range 36).all fun i =>
    if i = 8 ∨ i = 13 ∨ i = 18 ∨ i = 23 then s.chars[i]? == some dash else (s.chars[i]?).any Hex.isXdigit) &&
    s.chars[36]? == none

/-- `upk_string_to_uuid` -/
def upkStringToUuid (uuid : Uuid) (s : CStr) : Uuid :=
  if isValidUpkUuidString s then
    { timeLow := .ofNat (Hex.strtoul s.chars)
      timeMid := .ofNat (Hex.strtoul (s.chars.drop 9))
      timeHighAndVersion := .ofNat (Hex.strtoul (s.chars.drop 14))
      clkSeqHigh := .ofNat (Hex.strtoul ((s.chars.drop 19).take 2))
      clkSeqLow := .ofNat (Hex.strtoul ((s.chars.drop 21).take 2))
      node := fun n => .ofNat (Hex.strtoul ((s.chars.drop (24 + 2 * n)).take 2)) }
  else uuid

/-- The text is the one that a UUID is written as. -/
def CanonicalUuid (s : CStr) : Prop := upkUuidToString (upkStringToUuid .zero s) = s

instance (s : CStr) : Decidable (CanonicalUuid s) := inferInstanceAs (Decidable (_ = _))

theorem isValidUpkUuidString_toString (u : Uuid) : isValidUpkUuidString (upkUuidToString u) = true := by
  have hdigit : ∀ n, Hex.isXdigit (Hex.digit (n % 16)) = true :=
    fun n => (Hex.digit_spec _ (Nat.mod_lt _ (by decide))).1
  simp [isValidUpkUuidString, upkUuidToString, Uuid.chars, Hex.digits, List.range, List.range.loop, List.finRange,
    hdigit]

theorem strtoul_byte {chars rest : List UInt8} {b : UInt8} (h : chars = Hex.digits 2 b.toNat ++ rest) :
    UInt8.ofNat (Hex.strtoul (chars.take 2)) = b := by
  have htake : chars.take 2 = Hex.digits 2 b.toNat ++ [] := by
    rw [h, List.take_left' (Hex.digits_length _ _), List.append_nil]
  have hb : b.toNat < 16 ^ 2 := b.toNat_lt
  rw [htake, Hex.strtoul_digits hb (by simp), UInt8.ofNat_toNat]

theorem strtoul_dash {chars rest : List UInt8} {w n : Nat} (h : chars = Hex.digits w n ++ dash :: rest)
    (hn : n < 16 ^ w) : Hex.strtoul chars = n := by
  rw [h]
  refine Hex.strtoul_digits hn fun c hc => ?_
  obtain rfl := Option.some.inj hc
  rfl

/-- **What is written is read back.** -/
theorem upkStringToUuid_toString (v u : Uuid) : upkStringToUuid v (upkUuidToString u) = u := by
  have hlow : Hex.strtoul u.chars = u.timeLow.toNat := strtoul_dash (w := 8) rfl u.timeLow.toNat_lt
  have hmid : Hex.strtoul (u.chars.drop 9) = u.timeMid.toNat := strtoul_dash (w := 4) rfl u.timeMid.toNat_lt
  have hhigh : Hex.strtoul (u.chars.drop 14) = u.timeHighAndVersion.toNat :=
    strtoul_dash (w := 4) rfl u.timeHighAndVersion.toNat_lt
  have hclkHigh : UInt8.ofNat (Hex.strtoul ((u.chars.drop 19).take 2)) = u.clkSeqHigh := strtoul_byte rfl
  have hclkLow : UInt8.ofNat (Hex.strtoul ((u.chars.drop 21).take 2)) = u.clkSeqLow := strtoul_byte rfl
  have hnode : ∀ n : Fin 6, UInt8.ofNat (Hex.strtoul ((u.chars.drop (24 + 2 * n)).take 2)) = u.node n := by
    intro n
    fin_cases n <;> exact strtoul_byte rfl
  rw [upkStringToUuid, if_pos (isValidUpkUuidString_toString u)]
  simp only [upkUuidToString, hlow, hmid, hhigh, hclkHigh, hclkLow, hnode, UInt32.ofNat_toNat, UInt16.ofNat_toNat]

theorem upkUuidToString_injective : Function.Injective upkUuidToString := by
  intro u v h
  have hread := congrArg (upkStringToUuid .zero) h
  rwa [upkStringToUuid_toString, upkStringToUuid_toString] at hread

/-! ### Texts of UUIDs -/

/-- The text is one of a UUID: 36 characters, of which four are dashes and the others hexadecimal digits. -/
def UuidText (s : CStr) : Prop :=
  s.chars.length = 36 ∧ ∀ i (h : i < s.chars.length),
    if i = 8 ∨ i = 13 ∨ i = 18 ∨ i = 23 then s.chars[i] = dash else Hex.isXdigit s.chars[i] = true

variable {s : CStr}

theorem isValidUpkUuidString_iff : isValidUpkUuidString s = true ↔ UuidText s := by
  have hend : s.chars[36]? = none ↔ s.chars.length ≤ 36 := List.getElem?_eq_none_iff
  simp only [isValidUpkUuidString, Bool.and_eq_true, List.all_eq_true, List.mem_range, beq_iff_eq, hend, UuidText]
  constructor
  · rintro ⟨hall, hlen⟩
    have hlen' : 36 ≤ s.chars.length := by
      by_contra hshort
      -- the loop comes to the terminator
      have hlast := hall s.chars.length (by omega)
      rw [List.getElem?_eq_none (Nat.le_refl _)] at hlast
      split_ifs at hlast <;> simp at hlast
    refine ⟨Nat.le_antisymm hlen hlen', fun i hi => ?_⟩
    have hi' := hall i (by omega)
    rw [List.getElem?_eq_getElem hi] at hi'
    split_ifs at hi' ⊢ with hdash
    · simpa using hi'
    · simpa using hi'
  · rintro ⟨hlen, hall⟩
    refine ⟨fun i hi => ?_, Nat.le_of_eq hlen⟩
    have hi' : i < s.chars.length := by omega
    have hchar := hall i hi'
    rw [List.getElem?_eq_getElem hi']
    split_ifs at hchar ⊢ with hdash
    · simpa using hchar
    · simpa using hchar

theorem UuidText.drop_dash (h : UuidText s) {i : Nat} (hi : i = 8 ∨ i = 13 ∨ i = 18 ∨ i = 23) :
    s.chars.drop i = dash :: s.chars.drop (i + 1) := by
  have hlt : i < s.chars.length := by
    have hlen := h.1
    omega
  have hchar := h.2 i hlt
  rw [if_pos hi] at hchar
  rw [List.drop_eq_getElem_cons hlt, hchar]

theorem UuidText.dash_next (h : UuidText s) {i : Nat} (hi : i = 8 ∨ i = 13 ∨ i = 18 ∨ i = 23) :
    ∀ c ∈ (s.chars.drop i).head?, Hex.isXdigit c = false := by
  rw [h.drop_dash hi]
  rintro c ⟨⟩
  rfl

theorem UuidText.field (h : UuidText s) {i n : Nat} (hn : i + n ≤ 36)
    (hi : ∀ j, i ≤ j → j < i + n → ¬ (j = 8 ∨ j = 13 ∨ j = 18 ∨ j = 23)) :
    ((s.chars.drop i).take n).length = n ∧ ∀ c ∈ (s.chars.drop i).take n, Hex.isXdigit c = true := by
  have hlen := h.1
  constructor
  · rw [List.length_take, List.length_drop]
    omega
  · intro c hc
    obtain ⟨k, hk, rfl⟩ := List.mem_iff_getElem.mp hc
    rw [List.length_take, List.length_drop] at hk
    have hchar := h.2 (i + k) (by omega)
    rw [if_neg (hi (i + k) (by omega) (by omega))] at hchar
    rw [List.getElem_take, List.getElem_drop]
    exact hchar

theorem UuidText.number (h : UuidText s) {i n : Nat}
    (hi : ∀ j, i ≤ j → j < i + n → ¬ (j = 8 ∨ j = 13 ∨ j = 18 ∨ j = 23))
    (hend : i + n = 8 ∨ i + n = 13 ∨ i + n = 18 ∨ i + n = 23) :
    Hex.strtoul (s.chars.drop i) < 16 ^ n ∧
      Hex.digits n (Hex.strtoul (s.chars.drop i)) = ((s.chars.drop i).take n).map toupper := by
  obtain ⟨hlen, hdigits⟩ := h.field (by omega) hi
  have hread := Hex.digits_strtoul hdigits (h.dash_next hend)
  rw [hlen, ← List.drop_drop, List.take_append_drop] at hread
  exact hread

theorem UuidText.strtoul_number (h : UuidText s) {i n : Nat}
    (hi : ∀ j, i ≤ j → j < i + n → ¬ (j = 8 ∨ j = 13 ∨ j = 18 ∨ j = 23))
    (hend : i + n = 8 ∨ i + n = 13 ∨ i + n = 18 ∨ i + n = 23) (hn : 2 ≤ n ∧ n ≤ 16) :
    strtoul 16 (s.chars.drop i) = some (.ofNat (Hex.strtoul (s.chars.drop i)), false) := by
  obtain ⟨hlen, hdigits⟩ := h.field (by omega) hi
  have hread := strtoul_hex hdigits (hlen.symm ▸ hn) (h.dash_next hend)
  rw [← List.drop_drop, List.take_append_drop] at hread
  exact hread

theorem UuidText.byte (h : UuidText s) {i : Nat} (hn : i + 2 ≤ 36)
    (hi : ∀ j, i ≤ j → j < i + 2 → ¬ (j = 8 ∨ j = 13 ∨ j = 18 ∨ j = 23)) :
    Hex.digits 2 (UInt8.ofNat (Hex.strtoul ((s.chars.drop i).take 2))).toNat =
      ((s.chars.drop i).take 2).map toupper := by
  obtain ⟨hlen, hdigits⟩ := h.field hn hi
  have hend : ∀ c ∈ ([] : List UInt8).head?, Hex.isXdigit c = false := by simp
  obtain ⟨hlt, hread⟩ := Hex.digits_strtoul hdigits hend
  rw [List.append_nil, hlen] at hlt hread
  rw [UInt8.toNat_ofNat_of_lt' hlt, hread]

theorem UuidText.strtoul_byte (h : UuidText s) {i : Nat} (hn : i + 2 ≤ 36)
    (hi : ∀ j, i ≤ j → j < i + 2 → ¬ (j = 8 ∨ j = 13 ∨ j = 18 ∨ j = 23)) :
    strtoul 16 ((s.chars.drop i).take 2) = some (.ofNat (Hex.strtoul ((s.chars.drop i).take 2)), false) := by
  obtain ⟨hlen, hdigits⟩ := h.field hn hi
  have hend : ∀ c ∈ ([] : List UInt8).head?, Hex.isXdigit c = false := by simp
  have hread := strtoul_hex hdigits (by omega) hend
  rwa [List.append_nil] at hread

theorem UuidText.chars_eq (h : UuidText s) : s.chars =
    s.chars.take 8 ++ dash :: ((s.chars.drop 9).take 4 ++ dash :: ((s.chars.drop 14).take 4 ++ dash ::
      ((s.chars.drop 19).take 2 ++ ((s.chars.drop 21).take 2 ++ dash ::
        (List.finRange 6).flatMap fun n : Fin 6 => (s.chars.drop (24 + 2 * n)).take 2)))) := by
  have hcut (i n : Nat) : s.chars.drop i = (s.chars.drop i).take n ++ s.chars.drop (i + n) := by
    rw [← List.drop_drop, List.take_append_drop]
  have hend : s.chars.drop 36 = [] := List.drop_eq_nil_of_le (Nat.le_of_eq h.1)
  have hnode : s.chars.drop 24 = (List.finRange 6).flatMap fun n : Fin 6 => (s.chars.drop (24 + 2 * n)).take 2 := by
    rw [hcut 24 2, hcut 26 2, hcut 28 2, hcut 30 2, hcut 32 2, hcut 34 2, hend]
    rfl
  rw [← hnode, ← h.drop_dash (by omega), ← hcut 21 2, ← hcut 19 2, ← h.drop_dash (by omega), ← hcut 14 4,
    ← h.drop_dash (by omega), ← hcut 9 4, ← h.drop_dash (by omega), List.take_append_drop]

/-- **A text that is read is written back in upper case.** -/
theorem upkUuidToString_fromString (v : Uuid) (h : UuidText s) :
    (upkUuidToString (upkStringToUuid v s)).chars = s.chars.map toupper := by
  obtain ⟨hlow, hlow'⟩ := h.number (i := 0) (n := 8) (by omega) (by omega)
  obtain ⟨hmid, hmid'⟩ := h.number (i := 9) (n := 4) (by omega) (by omega)
  obtain ⟨hhigh, hhigh'⟩ := h.number (i := 14) (n := 4) (by omega) (by omega)
  rw [List.drop_zero] at hlow hlow'
  have hnode : ∀ n : Fin 6, Hex.digits 2 (UInt8.ofNat (Hex.strtoul ((s.chars.drop (24 + 2 * n)).take 2))).toNat =
      ((s.chars.drop (24 + 2 * n)).take 2).map toupper := fun n => h.byte (by omega) (by omega)
  have hclkHigh := h.byte (i := 19) (by omega) (by omega)
  have hclkLow := h.byte (i := 21) (by omega) (by omega)
  have hdash : toupper dash = dash := rfl
  rw [upkStringToUuid, if_pos (isValidUpkUuidString_iff.mpr h)]
  conv_rhs => rw [h.chars_eq]
  simp only [upkUuidToString, Uuid.chars, UInt32.toNat_ofNat_of_lt' hlow, UInt16.toNat_ofNat_of_lt' hmid,
    UInt16.toNat_ofNat_of_lt' hhigh, hlow', hmid', hhigh', hclkHigh, hclkLow, hnode, List.map_append, List.map_cons,
    List.map_flatMap, hdash, List.append_assoc, List.cons_append]

/-- **UUIDs and texts.** A UUID is read back from its text, the texts that are valid are those of UUIDs, a valid text is
written back in upper case, and any other one leaves the UUID as it was. -/
theorem uuid_codec :
    (∀ u v, isValidUpkUuidString (upkUuidToString u) = true ∧ upkStringToUuid v (upkUuidToString u) = u) ∧
      (∀ s, isValidUpkUuidString s = true ↔ UuidText s) ∧
      (∀ s v, UuidText s → (upkUuidToString (upkStringToUuid v s)).chars = s.chars.map toupper) ∧
      ∀ s v, ¬ UuidText s → upkStringToUuid v s = v :=
  ⟨fun u v => ⟨isValidUpkUuidString_toString u, upkStringToUuid_toString v u⟩,
    fun _ => isValidUpkUuidString_iff,
    fun _ v h => upkUuidToString_fromString v h,
    fun _ _ h => if_neg fun hvalid => h (isValidUpkUuidString_iff.mp hvalid)⟩

end Upkeeper
