import Upkeeper.Json.Escape
import Upkeeper.Json.Paths
/-!
# Reading a printed document back

With options that are made of blanks, a document without floating-point values can be read back from what is printed of
it, by its first byte behind the blanks and from there on piece by piece (`body_inj`). The one piece whose end cannot
always be told is a key, which is printed as it is: a key in which a quote, the pad and a colon stand looks as if it
ended there. If no key is like that, different documents are printed differently (`unambiguous`).
-/

namespace Upkeeper

open ReadBack (span_unique separator_unique)

/-! ### Documents and options -/

mutual

/-- `p` holds of every value in the document, and `q` of every key. -/
def Json.Every (p : Json → Prop) (q : CStr → Prop) : Json → Prop
  | .object es => p (.object es) ∧ Json.EveryEntry p q es
  | .array vs => p (.array vs) ∧ Json.EveryElement p q vs
  | .null => p .null
  | .bool b => p (.bool b)
  | .double x => p (.double x)
  | .int i => p (.int i)
  | .string s => p (.string s)
termination_by structural v => v

def Json.EveryElement (p : Json → Prop) (q : CStr → Prop) : List Json → Prop
  | [] => True
  | v :: vs => Json.Every p q v ∧ Json.EveryElement p q vs
termination_by structural vs => vs

def Json.EveryEntry (p : Json → Prop) (q : CStr → Prop) : List (CStr × Json) → Prop
  | [] => True
  | e :: es => Json.EveryIn p q e ∧ Json.EveryEntry p q es
termination_by structural es => es

def Json.EveryIn (p : Json → Prop) (q : CStr → Prop) : CStr × Json → Prop
  | (key, v) => q key ∧ Json.Every p q v
termination_by structural e => e

end

/-- The value is no floating-point value. -/
def NoDouble (v : Json) : Prop := ∀ x, v ≠ .double x

/-- `':'` -/
def keyColon : UInt8 := 58

/-- What is printed behind a key -/
def keyEnd (opts : OutputOpts) : List UInt8 := quote :: (opts.pad.chars ++ [keyColon])

/-- What is printed behind a key does not stand in the key itself. -/
def KeyEnds (opts : OutputOpts) (key : CStr) : Prop := ¬ keyEnd opts <:+: key.chars

instance (opts : OutputOpts) (key : CStr) : Decidable (KeyEnds opts key) := inferInstanceAs (Decidable (¬ _))

/-- A space, a tab or a line feed -/
def Blank (c : UInt8) : Prop := c = 32 ∨ c = 9 ∨ c = 10

instance (c : UInt8) : Decidable (Blank c) := inferInstanceAs (Decidable (_ ∨ _))

/-- The options of a compact or an indented text: blanks between the pieces, and nulls that are printed -/
structure OutputOpts.Blanks (opts : OutputOpts) : Prop where
  pad : ∀ c ∈ opts.pad.chars, Blank c
  indent : ∀ c ∈ opts.indent.chars, Blank c
  sep : ∀ c ∈ opts.sep.chars, Blank c
  nulls : opts.suppressNullValues = false

variable {lib : OutputLib} {opts : OutputOpts} {escape : UInt8 → List UInt8} {d : Nat} {key : Option CStr} {v v' : Json}
  {r r' : List UInt8}

theorem OutputOpts.Blanks.plain (h : opts.Blanks) : percent ∉ opts.indent.chars := fun hmem =>
  absurd (h.indent _ hmem) (by decide)

/-! ### The text of a document -/

/-- `'{'` and the like -/
def lbrace : UInt8 := 123
def rbrace : UInt8 := 125
def lbracket : UInt8 := 91
def rbracket : UInt8 := 93
def comma : UInt8 := 44

/-- What is printed for some pieces -/
def rendered (opts : OutputOpts) (ps : List Piece) : List UInt8 := (fragments opts counted ps).flatMap CStr.chars

/-- The indent of a line -/
def indentChars (opts : OutputOpts) (d : Nat) : List UInt8 := (List.replicate (counted d) opts.indent).flatMap CStr.chars

theorem rendered_append (ps qs : List Piece) : rendered opts (ps ++ qs) = rendered opts ps ++ rendered opts qs := by
  rw [rendered, fragments_append, List.flatMap_append]
  rfl

theorem rendered_indent (ps : List Piece) : rendered opts (.indent d :: ps) = indentChars opts d ++ rendered opts ps := by
  rw [rendered, fragments_indent, List.flatMap_append]
  rfl

theorem rendered_text (s : CStr) (ps : List Piece) : rendered opts (.text s :: ps) = s.chars ++ rendered opts ps := rfl

theorem blank_of_mem_indentChars (h : opts.Blanks) : ∀ c ∈ indentChars opts d, Blank c := by
  intro c hc
  obtain ⟨s, hs, hcs⟩ := List.mem_flatMap.mp hc
  rw [List.eq_of_mem_replicate hs] at hcs
  exact h.indent c hcs

/-- `enum json_type`, as `json_object_get_type` returns it -/
inductive JsonType
  | null
  | boolean
  | double
  | int
  | object
  | array
  | string
  deriving DecidableEq

/-- `json_object_get_type` -/
def Json.type : Json → JsonType
  | .null => .null
  | .bool _ => .boolean
  | .double _ => .double
  | .int _ => .int
  | .object _ => .object
  | .array _ => .array
  | .string _ => .string

/-- Arrays and objects -/
def Json.isContainer : Json → Bool
  | .object _ => true
  | .array _ => true
  | _ => false

/-- A value, without its key and the first indent -/
def bodyChars (lib : OutputLib) (opts : OutputOpts) (d : Nat) : Json → List UInt8
  | .object es => lbrace :: (opts.sep.chars ++ (rendered opts (objPieces lib opts (d + 1) es) ++
      (indentChars opts d ++ rbrace :: comma :: opts.sep.chars)))
  | .array vs => lbracket :: (opts.sep.chars ++ (rendered opts (arrayPieces lib opts (d + 1) vs) ++
      (indentChars opts d ++ rbracket :: comma :: opts.sep.chars)))
  | .null => (cstr "Null").chars ++ comma :: opts.sep.chars
  | .bool b => (if b then cstr "true" else cstr "false").chars ++ comma :: opts.sep.chars
  | .double x => (lib.lf x).chars ++ comma :: opts.sep.chars
  | .int i => Decimal.signed i.toInt ++ comma :: opts.sep.chars
  | .string s => (escStr lib s).chars ++ comma :: opts.sep.chars

/-- What is printed between a key and its value -/
def gap (opts : OutputOpts) (d : Nat) (v : Json) : List UInt8 :=
  if v.isContainer then opts.sep.chars ++ indentChars opts d else opts.pad.chars

theorem keyText_chars (pad key : CStr) :
    (keyText opts pad key).chars = quote :: (key.chars ++ (keyEnd opts ++ pad.chars)) := by
  unfold keyText keyEnd
  rw [CStr.concat_chars]
  simp only [List.flatMap_cons, List.flatMap_nil, List.append_nil, List.cons_append, List.append_assoc]
  rfl

theorem comma_chars (opts : OutputOpts) (s : CStr) :
    (CStr.concat [s, cstr ",", opts.sep]).chars = s.chars ++ comma :: opts.sep.chars := by
  rw [CStr.concat_chars]
  simp only [List.flatMap_cons, List.flatMap_nil, List.append_nil]
  rfl

theorem rendered_closing (bracket : CStr) : rendered opts (closingPieces opts d bracket) =
    indentChars opts d ++ (bracket.chars ++ comma :: opts.sep.chars) := by
  rw [closingPieces, rendered_indent, rendered_text, comma_chars]
  exact congrArg _ (List.append_nil _)

theorem rendered_line (key : Option CStr) (value : CStr) : rendered opts (linePieces opts d key value) =
    indentChars opts d ++ (rendered opts (key.toList.map fun k => .text (keyText opts opts.pad k)) ++
      (value.chars ++ comma :: opts.sep.chars)) := by
  rw [linePieces, rendered_indent, rendered_append, rendered_text, comma_chars]
  exact congrArg (fun cs => _ ++ (_ ++ cs)) (List.append_nil _)

theorem rendered_opening (key : Option CStr) (bracket : CStr) : rendered opts (openingPieces opts d key bracket) =
    indentChars opts d ++
      (rendered opts ((shownKey key).toList.flatMap fun k => [.text (keyText opts opts.sep k), .indent d]) ++
      (bracket.chars ++ opts.sep.chars)) := by
  rw [openingPieces, rendered_indent, rendered_append, rendered_text, CStr.concat_chars]
  simp only [List.flatMap_cons, List.flatMap_nil, List.append_nil]
  exact congrArg (fun cs => _ ++ (_ ++ cs)) (List.append_nil _)

/-- What is printed in front of a value, behind the indent -/
def keyChars (opts : OutputOpts) (d : Nat) (v : Json) : Option CStr → List UInt8
  | none => []
  | some key => if v.isContainer = true ∧ key.chars = [] then [] else quote :: (key.chars ++ (keyEnd opts ++ gap opts d v))

theorem keyChars_some (opts : OutputOpts) (d : Nat) (v : Json) (key : CStr) : keyChars opts d v (some key) =
    if v.isContainer = true ∧ key.chars = [] then [] else quote :: (key.chars ++ (keyEnd opts ++ gap opts d v)) :=
  rfl

theorem rendered_scalar_key (key : Option CStr) (hv : v.isContainer = false) :
    rendered opts (key.toList.map fun k => .text (keyText opts opts.pad k)) = keyChars opts d v key := by
  cases key with
  | none => rfl
  | some key =>
    rw [Option.toList_some, List.map_singleton, rendered_text, keyText_chars, keyChars, gap, hv]
    exact List.append_nil _

theorem rendered_container_key (key : Option CStr) (hv : v.isContainer = true) :
    rendered opts ((shownKey key).toList.flatMap fun k => [.text (keyText opts opts.sep k), .indent d]) =
      keyChars opts d v key := by
  cases key with
  | none => rfl
  | some key =>
    rw [keyChars, gap, hv, shownKey]
    by_cases hkey : key.chars = []
    · rw [Option.filter_some_neg (by simpa using hkey), if_pos ⟨rfl, hkey⟩]
      rfl
    · rw [Option.filter_some_pos (by simpa using hkey), if_neg fun h => hkey h.2, Option.toList_some,
        List.flatMap_singleton, rendered_text, rendered_indent, keyText_chars]
      simp only [List.cons_append, List.append_assoc, if_true]
      exact congrArg (fun cs => quote :: (key.chars ++ (keyEnd opts ++ (opts.sep.chars ++ cs)))) (List.append_nil _)

theorem rendered_pieces (h : opts.Blanks) (d : Nat) (key : Option CStr) (v : Json) :
    rendered opts (pieces lib opts d key v) = indentChars opts d ++ (keyChars opts d v key ++ bodyChars lib opts d v) := by
  cases v with
  | object es =>
    rw [pieces, rendered_append, rendered_append, rendered_opening, rendered_closing,
      rendered_container_key (v := .object es) key rfl]
    simp only [List.append_assoc]
    rfl
  | array vs =>
    rw [pieces, rendered_append, rendered_append, rendered_opening, rendered_closing,
      rendered_container_key (v := .array vs) key rfl]
    simp only [List.append_assoc]
    rfl
  | null =>
    rw [pieces, if_neg (by rw [h.nulls]; decide), rendered_line, rendered_scalar_key (v := .null) key rfl]
    rfl
  | bool b =>
    rw [pieces, rendered_line, rendered_scalar_key (v := .bool b) key rfl]
    rfl
  | double x =>
    rw [pieces, rendered_line, rendered_scalar_key (v := .double x) key rfl]
    rfl
  | int i =>
    rw [pieces, rendered_line, rendered_scalar_key (v := .int i) key rfl, CStr.ofChars_chars]
    · rfl
    · intro hzero
      rcases Decimal.signed_mem _ hzero with h | h <;> exact absurd h (by decide)
  | string s =>
    rw [pieces, rendered_line, rendered_scalar_key (v := .string s) key rfl]
    rfl

/-! ### The first byte -/

/-- The type of a value whose text starts with `c` -/
def typeOfLead (c : UInt8) : JsonType :=
  if c = lbrace then .object
  else if c = lbracket then .array
  else if c = quote then .string
  else if c = 78 then .null
  else if c = 116 ∨ c = 102 then .boolean
  else .int

/-- A byte that starts a value of the type `t` -/
structure Leads (c : UInt8) (t : JsonType) : Prop where
  type : typeOfLead c = t
  notBlank : ¬ Blank c
  notClosing : c ≠ rbrace ∧ c ≠ rbracket

theorem leads_digit {c : UInt8} (h : c = Decimal.minus ∨ Decimal.IsDigit c) : Leads c .int := by
  rcases h with rfl | hdigit
  · exact ⟨by decide, by decide, by decide⟩
  · have hne {x : UInt8} (hx : ¬ Decimal.IsDigit x) : c ≠ x := fun heq => hx (heq ▸ hdigit)
    refine ⟨?_, ?_, hne (by decide), hne (by decide)⟩
    · unfold typeOfLead
      rw [if_neg (hne (by decide)), if_neg (hne (by decide)), if_neg (hne (by decide)), if_neg (hne (by decide)),
        if_neg (not_or.mpr ⟨hne (by decide), hne (by decide)⟩)]
    · exact not_or.mpr ⟨hne (by decide), not_or.mpr ⟨hne (by decide), hne (by decide)⟩⟩

theorem bodyChars_lead (opts : OutputOpts) (hlib : EscapesStrings lib.jsonString escape) (hv : NoDouble v) (d : Nat) :
    ∃ c cs, bodyChars lib opts d v = c :: cs ∧ Leads c v.type := by
  have hleads {c : UInt8} {t : JsonType} (h : typeOfLead c = t ∧ ¬ Blank c ∧ c ≠ rbrace ∧ c ≠ rbracket) : Leads c t :=
    ⟨h.1, h.2.1, h.2.2⟩
  cases v with
  | object es => exact ⟨lbrace, _, rfl, hleads (t := .object) (by decide)⟩
  | array vs => exact ⟨lbracket, _, rfl, hleads (t := .array) (by decide)⟩
  | null => exact ⟨78, _, rfl, hleads (by decide)⟩
  | bool b =>
    cases b with
    | true => exact ⟨116, _, rfl, hleads (by decide)⟩
    | false => exact ⟨102, _, rfl, hleads (by decide)⟩
  | double x => exact absurd rfl (hv x)
  | int i =>
    obtain ⟨c, cs, hcs⟩ := List.exists_cons_of_ne_nil (Decimal.signed_ne_nil i.toInt)
    have hmem : c ∈ Decimal.signed i.toInt := hcs ▸ List.mem_cons_self
    exact ⟨c, cs ++ comma :: opts.sep.chars, congrArg (· ++ _) hcs, leads_digit (Decimal.signed_mem c hmem)⟩
  | string s =>
    have hcs := escStr_chars hlib s
    exact ⟨quote, _, congrArg (· ++ _) hcs, hleads (t := .string) (by decide)⟩

theorem type_eq (hlib : EscapesStrings lib.jsonString escape) (hv : NoDouble v) (hv' : NoDouble v')
    (heq : bodyChars lib opts d v ++ r = bodyChars lib opts d v' ++ r') : v.type = v'.type := by
  obtain ⟨c, cs, hcs, hc⟩ := bodyChars_lead opts hlib hv d
  obtain ⟨c', cs', hcs', hc'⟩ := bodyChars_lead opts hlib hv' d
  rw [hcs, hcs'] at heq
  rw [← hc.type, ← hc'.type, (List.cons.inj heq).1]

theorem blank_of_mem_gap (h : opts.Blanks) : ∀ c ∈ gap opts d v, Blank c := by
  intro c hc
  unfold gap at hc
  split at hc
  · rcases List.mem_append.mp hc with hc | hc
    · exact h.sep c hc
    · exact blank_of_mem_indentChars h c hc
  · exact h.pad c hc

theorem keyChars_nil_or_quote (opts : OutputOpts) (d : Nat) (v : Json) (key : Option CStr) :
    keyChars opts d v key = [] ∨ ∃ cs, keyChars opts d v key = quote :: cs := by
  cases key with
  | none => exact .inl rfl
  | some key =>
    rw [keyChars_some]
    split
    · exact .inl rfl
    · exact .inr ⟨_, rfl⟩

theorem pieces_ne_closing (hlib : EscapesStrings lib.jsonString escape) (h : opts.Blanks) (hv : NoDouble v) {close : UInt8}
    (hclose : close = rbrace ∨ close = rbracket) {d' : Nat} :
    rendered opts (pieces lib opts d key v) ++ r ≠ indentChars opts d' ++ close :: r' := by
  intro heq
  obtain ⟨c, cs, hcs, hblank, hc⟩ : ∃ c cs, keyChars opts d v key ++ bodyChars lib opts d v = c :: cs ∧ ¬ Blank c ∧
      c ≠ rbrace ∧ c ≠ rbracket := by
    obtain ⟨c, cs, hcs, hc⟩ := bodyChars_lead opts hlib hv d
    rcases keyChars_nil_or_quote opts d v key with hkey | ⟨ks, hkey⟩
    · rw [hkey]
      exact ⟨c, cs, hcs, hc.notBlank, hc.notClosing⟩
    · rw [hkey]
      exact ⟨quote, _, rfl, by decide, by decide, by decide⟩
  rw [rendered_pieces h, hcs, List.append_assoc, List.cons_append] at heq
  have hnot : ¬ Blank close := by rcases hclose with rfl | rfl <;> decide
  obtain ⟨-, rfl, -⟩ := span_unique (blank_of_mem_indentChars h) (blank_of_mem_indentChars h) hblank hnot heq
  exact hclose.elim hc.1 hc.2

/-! ### Keys -/

theorem quote_notMem_keyEnd (h : opts.Blanks) : quote ∉ opts.pad.chars ++ [keyColon] := by
  intro hmem
  rcases List.mem_append.mp hmem with hmem | hmem
  · exact absurd (h.pad _ hmem) (by decide)
  · exact absurd (List.mem_singleton.mp hmem) (by decide)

/-- A member of an object can be read back if its value can: a key that is printed ends where what follows a key stands for
the first time. -/
theorem member_inj (hlib : EscapesStrings lib.jsonString escape) (h : opts.Blanks) (hv : NoDouble v) (hv' : NoDouble v')
    {k k' : CStr} (hk : KeyEnds opts k) (hk' : KeyEnds opts k')
    (hbody : ∀ r r', bodyChars lib opts d v ++ r = bodyChars lib opts d v' ++ r' → v = v' ∧ r = r')
    (heq : rendered opts (pieces lib opts d (some k) v) ++ r = rendered opts (pieces lib opts d (some k') v') ++ r') :
    k = k' ∧ v = v' ∧ r = r' := by
  obtain ⟨c, cs, hcs, hc⟩ := bodyChars_lead opts hlib hv d
  obtain ⟨c', cs', hcs', hc'⟩ := bodyChars_lead opts hlib hv' d
  have hcontainer {v : Json} (hv : v.isContainer = true) : v.type ≠ typeOfLead quote := by
    cases v with
    | object es => exact (nomatch ·)
    | array vs => exact (nomatch ·)
    | _ => exact absurd hv Bool.false_ne_true
  simp only [rendered_pieces h, List.append_assoc, List.append_cancel_left_eq] at heq
  rw [keyChars_some, keyChars_some] at heq
  split at heq
  · next hhidden =>
    split at heq
    · next hhidden' =>
      obtain ⟨hvalue, hr⟩ := hbody r r' heq
      exact ⟨CStr.ext (hhidden.2.trans hhidden'.2.symm), hvalue, hr⟩
    · rw [hcs] at heq
      have hquote : c = quote := (List.cons.inj heq).1
      exact absurd (hquote ▸ hc.type).symm (hcontainer hhidden.1)
  · split at heq
    · next hhidden' =>
      rw [hcs'] at heq
      have hquote : quote = c' := (List.cons.inj heq).1
      exact absurd (hquote ▸ hc'.type).symm (hcontainer hhidden'.1)
    · simp only [List.cons_append, List.append_assoc, List.cons.injEq, true_and] at heq
      obtain ⟨hkey, hrest⟩ := separator_unique (quote_notMem_keyEnd h) hk hk' heq
      rw [hcs, hcs'] at hrest
      obtain ⟨-, rfl, htail⟩ := span_unique (blank_of_mem_gap h) (blank_of_mem_gap h) hc.notBlank hc'.notBlank hrest
      obtain ⟨hvalue, hr⟩ := hbody r r' (by rw [hcs, hcs']; exact congrArg (c :: ·) htail)
      exact ⟨CStr.ext hkey, hvalue, hr⟩

/-! ### Documents -/

theorem Json.Every.here {p : Json → Prop} {q : CStr → Prop} (h : v.Every p q) : p v := by
  cases v with
  | object es => exact h.1
  | array vs => exact h.1
  | _ => exact h

mutual

/-- **A value can be read back from its text, whatever stands behind it.** -/
theorem body_inj (hlib : EscapesStrings lib.jsonString escape) (hopts : opts.Blanks) :
    ∀ (d : Nat) (v v' : Json) (r r' : List UInt8), v.Every NoDouble (KeyEnds opts) → v'.Every NoDouble (KeyEnds opts) →
    bodyChars lib opts d v ++ r = bodyChars lib opts d v' ++ r' → v = v' ∧ r = r'
  | d, .object es, v', r, r', h, h', heq => by
    have htype := type_eq hlib h.here h'.here heq
    cases v' with
    | object es' =>
      simp only [bodyChars, List.cons_append, List.append_assoc, List.cons.injEq, List.append_cancel_left_eq,
        true_and] at heq
      obtain ⟨rfl, hr⟩ := entries_inj hlib hopts (d + 1) d es es' _ _ h.2 h'.2 heq
      exact ⟨rfl, List.append_cancel_left (List.cons.inj hr).2⟩
    | _ => exact nomatch htype
  | d, .array vs, v', r, r', h, h', heq => by
    have htype := type_eq hlib h.here h'.here heq
    cases v' with
    | array vs' =>
      simp only [bodyChars, List.cons_append, List.append_assoc, List.cons.injEq, List.append_cancel_left_eq,
        true_and] at heq
      obtain ⟨rfl, hr⟩ := elements_inj hlib hopts (d + 1) d vs vs' _ _ h.2 h'.2 heq
      exact ⟨rfl, List.append_cancel_left (List.cons.inj hr).2⟩
    | _ => exact nomatch htype
  | d, .null, v', r, r', h, h', heq => by
    have htype := type_eq hlib h.here h'.here heq
    cases v' with
    | null => exact ⟨rfl, List.append_cancel_left heq⟩
    | _ => exact nomatch htype
  | d, .bool b, v', r, r', h, h', heq => by
    have htype := type_eq hlib h.here h'.here heq
    cases v' with
    | bool b' =>
      by_cases hb : b = b'
      · subst hb
        exact ⟨rfl, List.append_cancel_left heq⟩
      · have hfirst := congrArg List.head? heq
        cases b <;> cases b' <;> first | exact absurd rfl hb | exact absurd (Option.some.inj hfirst) (by decide)
    | _ => exact nomatch htype
  | d, .double x, _, _, _, h, _, _ => absurd rfl (h x)
  | d, .int i, v', r, r', h, h', heq => by
    have htype := type_eq hlib h.here h'.here heq
    cases v' with
    | int i' =>
      simp only [bodyChars, List.append_assoc, List.cons_append] at heq
      obtain ⟨hi, -, hr⟩ := span_unique (p := fun c => c = Decimal.minus ∨ Decimal.IsDigit c) Decimal.signed_mem
        Decimal.signed_mem (by decide) (by decide) heq
      exact ⟨congrArg Json.int (Int32.toInt_inj.mp (Decimal.signed_inj hi)), List.append_cancel_left hr⟩
    | _ => exact nomatch htype
  | d, .string s, v', r, r', h, h', heq => by
    have htype := type_eq hlib h.here h'.here heq
    cases v' with
    | string s' =>
      simp only [bodyChars, List.append_assoc] at heq
      obtain ⟨rfl, hr⟩ := escStr_readsBack hlib heq
      exact ⟨rfl, List.append_cancel_left hr⟩
    | _ => exact nomatch htype

theorem elements_inj (hlib : EscapesStrings lib.jsonString escape) (hopts : opts.Blanks) :
    ∀ (d d' : Nat) (vs vs' : List Json) (r r' : List UInt8), Json.EveryElement NoDouble (KeyEnds opts) vs →
    Json.EveryElement NoDouble (KeyEnds opts) vs' →
    rendered opts (arrayPieces lib opts d vs) ++ (indentChars opts d' ++ rbracket :: r) =
      rendered opts (arrayPieces lib opts d vs') ++ (indentChars opts d' ++ rbracket :: r') → vs = vs' ∧ r = r'
  | d, d', [], vs', r, r', _, h', heq => by
    cases vs' with
    | nil => exact ⟨rfl, (List.cons.inj (List.append_cancel_left heq)).2⟩
    | cons v' vs' =>
      rw [arrayPieces, arrayPieces, rendered_append, List.append_assoc] at heq
      exact absurd heq.symm (pieces_ne_closing hlib hopts h'.1.here (.inr rfl))
  | d, d', v :: vs, vs', r, r', h, h', heq => by
    cases vs' with
    | nil =>
      rw [arrayPieces, arrayPieces, rendered_append, List.append_assoc] at heq
      exact absurd heq (pieces_ne_closing hlib hopts h.1.here (.inr rfl))
    | cons v' vs' =>
      simp only [arrayPieces, rendered_append, rendered_pieces hopts, List.append_assoc, List.append_cancel_left_eq] at heq
      obtain ⟨rfl, hrest⟩ := body_inj hlib hopts d v v' _ _ h.1 h'.1 heq
      obtain ⟨rfl, hr⟩ := elements_inj hlib hopts d d' vs vs' r r' h.2 h'.2 hrest
      exact ⟨rfl, hr⟩

theorem entries_inj (hlib : EscapesStrings lib.jsonString escape) (hopts : opts.Blanks) :
    ∀ (d d' : Nat) (es es' : List (CStr × Json)) (r r' : List UInt8), Json.EveryEntry NoDouble (KeyEnds opts) es →
    Json.EveryEntry NoDouble (KeyEnds opts) es' →
    rendered opts (objPieces lib opts d es) ++ (indentChars opts d' ++ rbrace :: r) =
      rendered opts (objPieces lib opts d es') ++ (indentChars opts d' ++ rbrace :: r') → es = es' ∧ r = r'
  | d, d', [], es', r, r', _, h', heq => by
    cases es' with
    | nil => exact ⟨rfl, (List.cons.inj (List.append_cancel_left heq)).2⟩
    | cons e' es' =>
      obtain ⟨k', v'⟩ := e'
      rw [objPieces, objPieces, rendered_append, List.append_assoc] at heq
      exact absurd heq.symm (pieces_ne_closing hlib hopts h'.1.2.here (.inl rfl))
  | d, d', (k, v) :: es, es', r, r', h, h', heq => by
    cases es' with
    | nil =>
      rw [objPieces, objPieces, rendered_append, List.append_assoc] at heq
      exact absurd heq (pieces_ne_closing hlib hopts h.1.2.here (.inl rfl))
    | cons e' es' =>
      obtain ⟨k', v'⟩ := e'
      rw [objPieces, objPieces, rendered_append, rendered_append, List.append_assoc, List.append_assoc] at heq
      obtain ⟨hk, rfl, hrest⟩ := member_inj hlib hopts h.1.2.here h'.1.2.here h.1.1 h'.1.1
        (fun r r' => body_inj hlib hopts d v v' r r' h.1.2 h'.1.2) heq
      obtain ⟨rfl, hr⟩ := entries_inj hlib hopts d d' es es' r r' h.2 h'.2 hrest
      exact ⟨by rw [hk], hr⟩

end

/-- **Different documents are printed differently** if they have no floating-point values, and no key in which what is
printed behind a key stands. -/
theorem unambiguous (lib : OutputLib) (escape : UInt8 → List UInt8) (hlib : EscapesStrings lib.jsonString escape)
    (opts : OutputOpts) (hopts : opts.Blanks) (v v' : Json) (h : v.Every NoDouble (KeyEnds opts))
    (h' : v'.Every NoDouble (KeyEnds opts)) (hne : v ≠ v') :
    upkJsonObjToStream lib v opts ≠ upkJsonObjToStream lib v' opts := by
  rw [upkJsonObjToStream_eq hopts.plain, upkJsonObjToStream_eq hopts.plain]
  intro heq
  have htext : rendered opts (pieces lib opts 0 none v) = rendered opts (pieces lib opts 0 none v') := Except.ok.inj heq
  rw [rendered_pieces hopts, rendered_pieces hopts] at htext
  have hbody : bodyChars lib opts 0 v ++ [] = bodyChars lib opts 0 v' ++ [] :=
    congrArg (· ++ []) (List.append_cancel_left htext)
  exact hne (body_inj hlib hopts 0 v v' [] [] h h' hbody).1

/-! ### Keys that are taken for more than a key -/

theorem zero_notMem_rendered (opts : OutputOpts) (ps : List Piece) : 0 ∉ rendered opts ps := by
  intro hmem
  obtain ⟨s, -, hs⟩ := List.mem_flatMap.mp hmem
  exact s.noNul 0 hs rfl

theorem objPieces_append (d : Nat) (es es' : List (CStr × Json)) :
    objPieces lib opts d (es ++ es') = objPieces lib opts d es ++ objPieces lib opts d es' := by
  induction es with
  | nil => rfl
  | cons e es ih => rw [List.cons_append, objPieces, objPieces, ih, List.append_assoc]

theorem rendered_shown (hopts : opts.Blanks) {k : CStr} (hk : k.chars ≠ []) (v : Json) :
    rendered opts (pieces lib opts d (some k) v) =
      indentChars opts d ++ (quote :: (k.chars ++ (keyEnd opts ++ (gap opts d v ++ bodyChars lib opts d v)))) := by
  rw [rendered_pieces hopts, keyChars_some, if_neg fun h => hk h.2]
  simp only [List.cons_append, List.append_assoc]

/-- What follows a key can be part of it: the first of two members and the key of the second are printed as one key. -/
theorem exists_longer_key (hopts : opts.Blanks) (lib : OutputLib) (d : Nat) {k k' : CStr} (hk : k.chars ≠ [])
    (hk' : k'.chars ≠ []) (v v' : Json) : ∃ key : CStr, rendered opts (pieces lib opts d (some key) v') =
      rendered opts (pieces lib opts d (some k) v) ++ rendered opts (pieces lib opts d (some k') v') := by
  let chars :=
    k.chars ++ (keyEnd opts ++ (gap opts d v ++ (bodyChars lib opts d v ++ (indentChars opts d ++ quote :: k'.chars))))
  have hzero : 0 ∉ chars := by
    intro hmem
    refine zero_notMem_rendered opts (pieces lib opts d (some k) v ++ pieces lib opts d (some k') v') ?_
    rw [rendered_append, rendered_shown hopts hk, rendered_shown hopts hk']
    simp only [chars, List.mem_append, List.mem_cons] at hmem ⊢
    tauto
  have hchars : (CStr.ofChars chars).chars = chars := CStr.ofChars_chars hzero
  have hshown : (CStr.ofChars chars).chars ≠ [] := by
    rw [hchars]
    exact List.append_ne_nil_of_left_ne_nil hk _
  refine ⟨.ofChars chars, ?_⟩
  rw [rendered_shown hopts hshown, rendered_shown hopts hk, rendered_shown hopts hk', hchars]
  simp only [chars, List.cons_append, List.append_assoc]

/-- **Two members of an object are printed as one member with a longer key**, if both keys are printed. -/
theorem two_members_as_one (hopts : opts.Blanks) (lib : OutputLib) (es es' : List (CStr × Json)) {k k' : CStr}
    (hk : k.chars ≠ [])
    (hk' : k'.chars ≠ []) (v v' : Json) : ∃ key, upkJsonObjToStream lib (.object (es ++ (key, v') :: es')) opts =
      upkJsonObjToStream lib (.object (es ++ (k, v) :: (k', v') :: es')) opts := by
  obtain ⟨key, hkey⟩ := exists_longer_key hopts lib 1 hk hk' v v'
  refine ⟨key, ?_⟩
  have hmembers : rendered opts (objPieces lib opts 1 (es ++ (key, v') :: es')) =
      rendered opts (objPieces lib opts 1 (es ++ (k, v) :: (k', v') :: es')) := by
    simp only [objPieces_append, objPieces, entryPieces, rendered_append, hkey, List.append_assoc]
  have htext (es : List (CStr × Json)) : upkJsonObjToStream lib (.object es) opts =
      .ok (rendered opts (pieces lib opts 0 none (.object es))) := upkJsonObjToStream_eq hopts.plain _
  rw [htext, htext, rendered_pieces hopts, rendered_pieces hopts, bodyChars, bodyChars, hmembers]
  rfl

/-! ### Examples of keys -/

theorem spaced_blanks : spaced.Blanks where
  pad := List.forall_mem_singleton.mpr (show Blank 32 by decide)
  indent := List.forall_mem_singleton.mpr (show Blank 9 by decide)
  sep := List.forall_mem_singleton.mpr (show Blank 10 by decide)
  nulls := rfl

theorem unambiguous_slash :
    upkJsonObjToStream escaping (.object [(cstr "a\"b", .string (cstr "c/d\n")), (cstr "a", .array [])]) spaced ≠
      upkJsonObjToStream escaping (.object [(cstr "a\"b", .string (cstr "c/d")), (cstr "a", .array [])]) spaced := by
  refine unambiguous escaping jsonEscape jsonObjectToJsonString_escapes spaced spaced_blanks _ _
    ⟨nofun, ⟨by decide, nofun⟩, ⟨by decide, nofun, trivial⟩, trivial⟩
    ⟨nofun, ⟨by decide, nofun⟩, ⟨by decide, nofun, trivial⟩, trivial⟩ ?_
  intro h
  obtain ⟨hvalue, -⟩ := List.cons.inj (Json.object.inj h)
  exact absurd (Json.string.inj (Prod.mk.inj hvalue).2) (by decide)

/-- A key that is printed as two members -/
theorem ambiguous_key :
    (Json.object [(cstr "a\":true,\"b", .bool false)] ≠ .object [(cstr "a", .bool true), (cstr "b", .bool false)]) ∧
    upkJsonObjToStream escaping (.object [(cstr "a\":true,\"b", .bool false)]) compact =
      upkJsonObjToStream escaping (.object [(cstr "a", .bool true), (cstr "b", .bool false)]) compact := by
  refine ⟨?_, by decide +kernel⟩
  intro h
  cases h

end Upkeeper
