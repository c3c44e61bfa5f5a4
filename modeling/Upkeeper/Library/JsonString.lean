import Upkeeper.Library.Hex
/-!
# Bodies of JSON strings

A JSON string is a body between quotes. `Decodes body s` says that the body stands for the bytes `s`: it is a sequence
of tokens, each of which is a byte that stands for itself or an escape sequence. A body stands for one string only
(`Decodes.unique`). `escapesSlash body` tells whether one of its tokens is a slash that need not have been escaped.
-/

namespace JsonString

/-- The byte that a backslash and a letter stand for -/
def letter (x : UInt8) : Option UInt8 :=
  if x = 34 ∨ x = 92 ∨ x = 47 then some x
  else if x = 98 then some 8
  else if x = 102 then some 12
  else if x = 110 then some 10
  else if x = 114 then some 13
  else if x = 116 then some 9
  else none

/-- The four hexadecimal digits of a UTF-16 code unit -/
def CodeUnit (ds : List UInt8) (n : Nat) : Prop := ds.length = 4 ∧ (∀ c ∈ ds, Hex.isXdigit c = true) ∧ Hex.strtoul ds = n

instance (ds : List UInt8) (n : Nat) : Decidable (CodeUnit ds n) := inferInstanceAs (Decidable (_ ∧ _ ∧ _))

/-- A code point in UTF-8 -/
def utf8 (n : Nat) : List UInt8 := String.utf8EncodeChar (Char.ofNat n)

/-- A token of a body, and the bytes it stands for -/
inductive Token : List UInt8 → List UInt8 → Prop
  | plain {c : UInt8} : 32 ≤ c → c ≠ 34 → c ≠ 92 → Token [c] [c]
  | letter {x c : UInt8} : letter x = some c → Token [92, x] [c]
  | unicode {ds : List UInt8} {n : Nat} : CodeUnit ds n → ¬ (0xd800 ≤ n ∧ n < 0xe000) →
    Token (92 :: 117 :: ds) (utf8 n)
  | surrogates {ds ds' : List UInt8} {h l : Nat} : CodeUnit ds (0xd800 + h) → h < 0x400 → CodeUnit ds' (0xdc00 + l) →
    l < 0x400 → Token (92 :: 117 :: (ds ++ 92 :: 117 :: ds')) (utf8 (0x10000 + 0x400 * h + l))

/-- The body stands for the bytes. -/
inductive Decodes : List UInt8 → List UInt8 → Prop
  | nil : Decodes [] []
  | cons {u v body s : List UInt8} : Token u v → Decodes body s → Decodes (u ++ body) (v ++ s)

/-- Some slash of the body is escaped. -/
def escapesSlash : List UInt8 → Bool
  | c :: d :: body => if c = 92 then d = 47 || escapesSlash body else escapesSlash (d :: body)
  | _ => false

variable {u u' v v' b b' s s' : List UInt8} {c : UInt8}

/-! ### One string only -/

theorem Token.ne_nil (h : Token u v) : u ≠ [] := by
  cases h <;> exact List.cons_ne_nil _ _

theorem CodeUnit.append_inj {ds ds' r r' : List UInt8} {n n' : Nat} (h : CodeUnit ds n) (h' : CodeUnit ds' n')
    (heq : ds ++ r = ds' ++ r') : n = n' ∧ r = r' := by
  obtain ⟨rfl, hr⟩ := List.append_inj heq (h.1.trans h'.1.symm)
  exact ⟨h.2.2.symm.trans h'.2.2, hr⟩

/-- The first bytes tell where a token ends, and it stands for one sequence of bytes. -/
theorem Token.unique (h : Token u v) (h' : Token u' v') (heq : u ++ b = u' ++ b') : v = v' ∧ b = b' := by
  cases h with
  | plain _ _ hc =>
    cases h' with
    | plain _ _ _ =>
      obtain ⟨rfl, rfl⟩ := List.cons.inj heq
      exact ⟨rfl, rfl⟩
    | _ => exact absurd (List.cons.inj heq).1 hc
  | letter hx =>
    cases h' with
    | plain _ _ hc => exact absurd (List.cons.inj heq).1.symm hc
    | letter hx' =>
      obtain ⟨rfl, hb⟩ := List.cons.inj (List.cons.inj heq).2
      obtain rfl := Option.some.inj (hx.symm.trans hx')
      exact ⟨rfl, hb⟩
    | _ =>
      obtain ⟨rfl, -⟩ := List.cons.inj (List.cons.inj heq).2
      cases hx
  | unicode hn hrange =>
    cases h' with
    | plain _ _ hc => exact absurd (List.cons.inj heq).1.symm hc
    | letter hx' =>
      obtain ⟨rfl, -⟩ := List.cons.inj (List.cons.inj heq).2
      cases hx'
    | unicode hn' _ =>
      obtain ⟨rfl, hb⟩ := hn.append_inj hn' (List.cons.inj (List.cons.inj heq).2).2
      exact ⟨rfl, hb⟩
    | surrogates hn' hh _ _ =>
      simp only [List.cons_append, List.append_assoc, List.cons.injEq, true_and] at heq
      obtain ⟨rfl, -⟩ := hn.append_inj hn' heq
      exact absurd (by omega) hrange
  | surrogates hn hh hm _ =>
    cases h' with
    | plain _ _ hc => exact absurd (List.cons.inj heq).1.symm hc
    | letter hx' =>
      simp only [List.cons_append, List.cons.injEq, true_and] at heq
      obtain ⟨rfl, -⟩ := heq
      cases hx'
    | unicode hn' hrange =>
      simp only [List.cons_append, List.append_assoc, List.cons.injEq, true_and] at heq
      obtain ⟨rfl, -⟩ := hn.append_inj hn' heq
      exact absurd (by omega) hrange
    | surrogates hn' _ hm' _ =>
      simp only [List.cons_append, List.append_assoc, List.cons.injEq, true_and] at heq
      obtain ⟨hh, hrest⟩ := hn.append_inj hn' heq
      simp only [List.cons.injEq, true_and] at hrest
      obtain ⟨hl, hb⟩ := hm.append_inj hm' hrest
      rw [Nat.add_left_cancel hh, Nat.add_left_cancel hl]
      exact ⟨rfl, hb⟩

theorem Decodes.unique (h : Decodes b s) (h' : Decodes b s') : s = s' := by
  induction h generalizing s' with
  | nil =>
    generalize hb : ([] : List UInt8) = body at h'
    cases h' with
    | nil => rfl
    | cons htoken _ => exact absurd (List.append_eq_nil_iff.mp hb.symm).1 htoken.ne_nil
  | @cons u v body s htoken _ ih =>
    generalize hb : u ++ body = whole at h'
    cases h' with
    | nil => exact absurd (List.append_eq_nil_iff.mp hb).1 htoken.ne_nil
    | cons htoken' h' =>
      obtain ⟨rfl, rfl⟩ := htoken.unique htoken' hb
      rw [ih h']

theorem decodes_flatMap {f : UInt8 → List UInt8} (hf : ∀ c, Token (f c) [c]) (s : List UInt8) :
    Decodes (s.flatMap f) s := by
  induction s with
  | nil => exact .nil
  | cons c s ih =>
    rw [List.flatMap_cons]
    exact .cons (hf c) ih

theorem utf8_ascii : ∀ n < 128, utf8 n = [.ofNat n] := by decide +kernel

/-! ### Escaped slashes -/

theorem escapesSlash_cons_of_ne (hc : c ≠ 92) (b : List UInt8) : escapesSlash (c :: b) = escapesSlash b := by
  cases b with
  | nil => rfl
  | cons d b => exact if_neg hc

theorem escapesSlash_letter (hc : c ≠ 47) (b : List UInt8) : escapesSlash (92 :: c :: b) = escapesSlash b := by
  rw [escapesSlash, if_pos rfl, decide_eq_false hc, Bool.false_or]

theorem escapesSlash_append (hu : 92 ∉ u) (b : List UInt8) : escapesSlash (u ++ b) = escapesSlash b := by
  induction u with
  | nil => rfl
  | cons c u ih =>
    obtain ⟨hc, hu⟩ := not_or.mp (mt List.mem_cons.mpr hu)
    rw [List.cons_append, escapesSlash_cons_of_ne (Ne.symm hc), ih hu]

theorem escapesSlash_flatMap {f : UInt8 → List UInt8} (hf : ∀ c b, escapesSlash (f c ++ b) = escapesSlash b)
    (s : List UInt8) : escapesSlash (s.flatMap f) = false := by
  induction s with
  | nil => rfl
  | cons c s ih => rw [List.flatMap_cons, hf, ih]

end JsonString
