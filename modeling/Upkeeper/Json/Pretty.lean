import Upkeeper.Json.Output
/-!
# The printer is a recursion over the document

`fragments` lists what is printed of a value at a given depth, piece by piece: the indents, the key, the value or the
opening bracket, the members one level deeper, and the closing bracket. The walk prints these pieces, and leaves its stack
as it was (`parseNode_prints`); the number of indents is what the 32-bit counter of the stack makes of the depth.

So the text of the stream is that of the recursion with the depth itself, unless the document is so deep that the counter
wraps around (`printsPretty_iff`).
-/

namespace Upkeeper

open Wire (Fault)
open OutputMeta

/-! ### The recursion -/

/-- What is printed: the indent of a line at some depth, or text -/
inductive Piece
  | indent (d : Nat)
  | text (s : CStr)

section Recursion

variable (lib : OutputLib) (opts : OutputOpts)

/-- `"key"pad:pad` -/
def keyText (pad key : CStr) : CStr := .concat [cstr "\"", key, cstr "\"", opts.pad, cstr ":", pad]

/-- A line with a scalar -/
def linePieces (d : Nat) (key : Option CStr) (value : CStr) : List Piece :=
  .indent d :: (key.toList.map (fun k => .text (keyText opts opts.pad k)) ++ [.text (.concat [value, cstr ",", opts.sep])])

/-- The key of an array or an object is left out if it is empty. -/
def shownKey (key : Option CStr) : Option CStr := key.filter fun k => decide (k.chars ≠ [])

/-- The line with an opening bracket, behind a line with the key -/
def openingPieces (d : Nat) (key : Option CStr) (bracket : CStr) : List Piece :=
  .indent d :: ((shownKey key).toList.flatMap (fun k => [.text (keyText opts opts.sep k), .indent d]) ++
    [.text (.concat [bracket, opts.sep])])

/-- The line with a closing bracket -/
def closingPieces (d : Nat) (bracket : CStr) : List Piece := [.indent d, .text (.concat [bracket, cstr ",", opts.sep])]

mutual

/-- A value at depth `d` -/
def pieces : Nat → Option CStr → Json → List Piece
  | d, key, .object es =>
    openingPieces opts d key (cstr "\x7b") ++ (objPieces (d + 1) es ++ closingPieces opts d (cstr "\x7d"))
  | d, key, .array vs =>
    openingPieces opts d key (cstr "[") ++ (arrayPieces (d + 1) vs ++ closingPieces opts d (cstr "]"))
  | d, key, .null => if opts.suppressNullValues then [] else linePieces opts d key (cstr "Null")
  | d, key, .bool b => linePieces opts d key (if b then cstr "true" else cstr "false")
  | d, key, .double x => linePieces opts d key (lib.lf x)
  | d, key, .int i => linePieces opts d key (.ofChars (Decimal.signed i.toInt))
  | d, key, .string s => linePieces opts d key (escStr lib s)
termination_by structural _ _ v => v

/-- The elements of an array -/
def arrayPieces : Nat → List Json → List Piece
  | _, [] => []
  | d, v :: vs => pieces d none v ++ arrayPieces d vs
termination_by structural _ vs => vs

/-- The entries of an object -/
def objPieces : Nat → List (CStr × Json) → List Piece
  | _, [] => []
  | d, e :: es => entryPieces d e ++ objPieces d es
termination_by structural _ es => es

/-- One entry of an object -/
def entryPieces : Nat → CStr × Json → List Piece
  | d, (key, v) => pieces d (some key) v
termination_by structural _ e => e

end

/-- What is formatted for a piece, if a line at depth `d` has `indents d` indents -/
def Piece.fragments (indents : Nat → Nat) : Piece → List CStr
  | .indent d => List.replicate (indents d) opts.indent
  | .text s => [s]

/-- What is formatted for some pieces, one after another -/
def fragments (indents : Nat → Nat) (ps : List Piece) : List CStr := ps.flatMap (Piece.fragments opts indents)

variable {opts} {indents : Nat → Nat} {ps qs : List Piece}

theorem fragments_append : fragments opts indents (ps ++ qs) = fragments opts indents ps ++ fragments opts indents qs :=
  List.flatMap_append

theorem fragments_indent {d : Nat} :
    fragments opts indents (.indent d :: ps) = List.replicate (indents d) opts.indent ++ fragments opts indents ps :=
  rfl

variable (opts)

/-- **The document as the recursion prints it**: every line is indented by its depth. -/
def pretty (v : Json) : List UInt8 := (fragments opts id (pieces lib opts 0 none v)).flatMap CStr.chars

end Recursion

/-- The number of indents that `upk_json_print_indent` makes of the depth: the counter is one higher, and has 32 bits. -/
def counted (d : Nat) : Nat := (d + 1) % 2 ^ 32 - 1

/-! ### What is printed -/

section Emit

variable (lib : OutputLib)

/-- The pieces are printed one after another. -/
def emit (fs : List CStr) (w : OutputData) : Except Stop OutputData := do
  let d ← (fs.foldlM (fun d f => upkOutputJsonString lib.junk f d) w.d).mapError Stop.fault
  .ok { w with d }

/-- Only the output is changed. -/
def prints (fs : List CStr) (m : OutputMeta) : Except Stop OutputMeta := do
  let world ← emit lib fs m.world
  .ok { m with world }

variable {lib} {fs gs : List CStr} {w : OutputData} {m : OutputMeta} {β : Type}

theorem emit_append : emit lib (fs ++ gs) w = emit lib fs w >>= emit lib gs := by
  unfold emit
  rw [List.foldlM_append]
  cases fs.foldlM (fun d f => upkOutputJsonString lib.junk f d) w.d with
  | error e => rfl
  | ok d => rfl

theorem emit_opts {w' : OutputData} (h : emit lib fs w = .ok w') : w'.opts = w.opts := by
  obtain ⟨d, -, hd⟩ := Wire.bind_eq_ok.mp h
  rw [← Except.ok.inj hd]

theorem prints_eq : prints lib fs m = emit lib fs m.world >>= fun world => .ok { m with world } := rfl

theorem prints_of_foldlM {d : StreamString}
    (h : fs.foldlM (fun d f => upkOutputJsonString lib.junk f d) m.world.d = .ok d) :
    prints lib fs m = .ok { m with world := { m.world with d } } := by
  rw [prints, emit, h]
  rfl

theorem output_eq (f : CStr) : output lib f m = prints lib [f] m := by
  unfold output prints emit
  rw [List.foldlM_cons]
  cases upkOutputJsonString lib.junk f m.world.d with
  | error e => rfl
  | ok d => rfl

theorem prints_bind {k : OutputMeta → Except Stop β} {k' : OutputData → Except Stop β}
    (h : ∀ w, w.opts = m.world.opts → k { m with world := w } = emit lib gs w >>= k') :
    (prints lib fs m >>= k) = emit lib (fs ++ gs) m.world >>= k' := by
  rw [emit_append, prints_eq]
  cases hfs : emit lib fs m.world with
  | error e => rfl
  | ok w => exact h w (emit_opts hfs)

theorem prints_prints {k : OutputMeta → Except Stop OutputMeta}
    (h : ∀ w, w.opts = m.world.opts → k { m with world := w } = prints lib gs { m with world := w }) :
    (prints lib fs m >>= k) = prints lib (fs ++ gs) m :=
  prints_bind h

end Emit

/-! ### The handlers -/

/-- The stack of the printer at depth `d`, and options whose indent is no conversion -/
structure Printing (opts : OutputOpts) (d : Nat) (m : OutputMeta) : Prop where
  stack : m.stack = List.replicate (d + 1) outputNode
  plain : percent ∉ opts.indent.chars
  sameOpts : m.world.opts = opts

section Handlers

variable {lib : OutputLib} {opts : OutputOpts} {d : Nat} {m : OutputMeta} {w : OutputData} {key : Option CStr}

theorem Printing.world (h : Printing opts d m) (hw : w.opts = m.world.opts) : Printing opts d { m with world := w } :=
  ⟨h.stack, h.plain, hw.trans h.sameOpts⟩

theorem Printing.top (h : Printing opts d m) : m.top = .ok outputNode := by
  unfold JsonMeta.top
  rw [h.stack, List.replicate_succ]

theorem formatArgless_eq {fmt : List UInt8} (h : percent ∉ fmt) : formatArgless fmt = .ok fmt := by
  induction fmt with
  | nil => rfl
  | cons c fmt ih =>
    obtain ⟨hc, hfmt⟩ := not_or.mp (mt List.mem_cons.mpr h)
    unfold formatArgless
    rw [if_pos (Ne.symm hc), ih hfmt]
    rfl

theorem outputIndent_eq (h : Printing opts d m) : outputIndent lib m = prints lib [opts.indent] m := by
  have hindent : CStr.ofChars opts.indent.chars = opts.indent :=
    CStr.ext (CStr.ofChars_chars fun hmem => opts.indent.noNul 0 hmem rfl)
  unfold outputIndent
  rw [h.sameOpts, formatArgless_eq h.plain, ← output_eq]
  show output lib (.ofChars opts.indent.chars) m = _
  rw [hindent]

theorem foldlM_outputIndent (h : Printing opts d m) (n : Nat) :
    (List.range n).foldlM (fun m _ => outputIndent lib m) m = prints lib (List.replicate n opts.indent) m := by
  induction n with
  | zero => rfl
  | succ n ih =>
    rw [List.range_succ, List.foldlM_append, ih, List.replicate_succ']
    refine prints_prints fun w hw => ?_
    rw [List.foldlM_cons, outputIndent_eq (h.world hw)]
    exact bind_pure _

theorem printIndent_eq (h : Printing opts d m) :
    printIndent lib m = prints lib (List.replicate (counted d) opts.indent) m := by
  have hcount : m.count.toNat - 1 = counted d := by
    unfold JsonMeta.count counted
    rw [h.stack, List.length_replicate, UInt32.toNat_ofNat']
  unfold printIndent
  rw [hcount, foldlM_outputIndent h]

theorem printKey_eq (h : Printing opts d m) (pad : CStr) :
    printKey lib key pad m =
      prints lib (fragments opts counted (key.toList.map fun k => .text (keyText opts pad k))) m := by
  unfold printKey
  cases key with
  | none => rfl
  | some key =>
    dsimp only
    rw [h.sameOpts, output_eq]
    rfl

theorem outputScalar_eq (h : Printing opts d m) (value : CStr) :
    outputScalar lib value key m = prints lib (fragments opts counted (linePieces opts d key value)) m := by
  unfold outputScalar linePieces
  rw [printIndent_eq h, fragments_indent, fragments_append]
  refine prints_prints fun w hw => ?_
  have h₁ := h.world hw
  rw [printKey_eq h₁, h₁.sameOpts]
  refine prints_prints fun w' hw' => ?_
  rw [(h₁.world hw').sameOpts, output_eq]
  rfl

theorem outputClosing_eq (h : Printing opts d m) (bracket : CStr) :
    outputClosing lib bracket m = prints lib (fragments opts counted (closingPieces opts d bracket)) m := by
  unfold outputClosing closingPieces
  rw [printIndent_eq h, fragments_indent]
  refine prints_prints fun w hw => ?_
  rw [(h.world hw).sameOpts, output_eq]
  rfl

theorem outputOwnKey_eq (h : Printing opts d m) : outputOwnKey lib key m = prints lib (fragments opts counted
    ((shownKey key).toList.flatMap fun k => [.text (keyText opts opts.sep k), .indent d])) m := by
  unfold outputOwnKey
  cases key with
  | none => rfl
  | some key =>
    have hlen : key.strnlen upkMaxStringLen > 0 ↔ key.chars ≠ [] := by
      rw [CStr.strnlen, ← List.length_pos_iff]
      show 0 < min _ 2048 ↔ _
      omega
    dsimp only
    by_cases hkey : key.chars ≠ []
    · have hshown : shownKey (some key) = some key := Option.filter_some_pos (by simpa using hkey)
      rw [if_pos (hlen.mpr hkey), printKey_eq h, h.sameOpts, hshown]
      refine (prints_prints fun w hw => printIndent_eq (h.world hw)).trans ?_
      simp [fragments, Piece.fragments]
    · have hshown : shownKey (some key) = none := Option.filter_some_neg (by simpa using hkey)
      rw [if_neg (mt hlen.mp hkey), hshown]
      rfl

theorem outputOpening_eq (h : Printing opts d m) (bracket : CStr) :
    outputOpening lib bracket key m =
      emit lib (fragments opts counted (openingPieces opts d key bracket)) m.world >>= fun world =>
      .ok (JsonMeta.push outputNode { m with world }) := by
  unfold outputOpening openingPieces
  rw [printIndent_eq h, fragments_indent, fragments_append]
  refine prints_bind fun w hw => ?_
  have h₁ := h.world hw
  rw [outputOwnKey_eq h₁]
  refine prints_bind fun w' hw' => ?_
  have h₂ := h₁.world hw'
  rw [h₂.sameOpts, output_eq]
  refine (prints_bind fun w'' hw'' => ?_).trans (congrArg (emit lib · w' >>= _) (List.append_nil _))
  rw [(h₂.world hw'').top]
  rfl

/-! ### The walk -/

theorem callTop_eq (h : Printing opts d m) {handler : Handlers OutputHandler → Option OutputHandler} {c : OutputHandler}
    (hc : handler outputNode.handlers = some c) (v : Json) :
    callTop (outputCalls lib) handler key v m = outputCalls lib c () key v m := by
  unfold callTop
  rw [h.top]
  simp only [bind, Except.bind, hc]

theorem scalar_prints (h : Printing opts d m) {v : Json} {c : OutputHandler}
    (hc : outputNode.handlers.forValue v = some c) {fs : List CStr}
    (hcall : outputCalls lib c () key v m = prints lib fs m) :
    upkJsonValue (outputCalls lib) key v m = prints lib fs m := by
  rw [upkJsonValue, callTop_eq h hc, hcall]

theorem container_prints (h : Printing opts d m) {opening members closing : List CStr}
    {value : Except Stop OutputMeta} {parse : OutputMeta → Except Stop OutputMeta}
    (after : OutputMeta → Except Stop OutputMeta)
    (hvalue : value = emit lib opening m.world >>= fun world => .ok (JsonMeta.push outputNode { m with world }))
    (hparse : ∀ m', Printing opts (d + 1) m' → parse m' = prints lib members m')
    (hafter : ∀ m', Printing opts d m' → after m' = prints lib closing m') :
    (value >>= fun m => parse m >>= fun m => after m.pop) = prints lib (opening ++ (members ++ closing)) m := by
  have hdeeper (w : OutputData) (hw : w.opts = m.world.opts) :
      Printing opts (d + 1) (JsonMeta.push outputNode { m with world := w }) := by
    refine ⟨?_, h.plain, hw.trans h.sameOpts⟩
    show outputNode :: m.stack = _
    rw [h.stack, ← List.replicate_succ]
  rw [hvalue, prints_eq, emit_append]
  cases hopening : emit lib opening m.world with
  | error e => rfl
  | ok w =>
    show (parse (JsonMeta.push outputNode { m with world := w }) >>= fun m => after m.pop) =
      (emit lib (members ++ closing) w >>= fun world => .ok { m with world })
    rw [hparse _ (hdeeper w (emit_opts hopening))]
    refine prints_bind fun w' hw' => ?_
    exact hafter _ (h.world (hw'.trans (emit_opts hopening)))

end Handlers

section Walk

variable (lib : OutputLib) {opts : OutputOpts}

mutual

/-- **The walk prints the pieces of the recursion, and leaves its stack as it was.** -/
theorem parseNode_prints : ∀ (d : Nat) (key : Option CStr) (v : Json) (m : OutputMeta), Printing opts d m →
    upkJsonParseNode (outputCalls lib) key v m = prints lib (fragments opts counted (pieces lib opts d key v)) m
  | d, key, .object es, m, h => by
    rw [pieces, fragments_append, fragments_append]
    exact container_prints h (callTop (outputCalls lib) Handlers.afterJsonObjPop key (.object es))
      ((callTop_eq (c := .object) h rfl (.object es)).trans (outputOpening_eq h _))
      (fun m' h' => parseObj_prints (d + 1) es m' h')
      (fun m' h' => (callTop_eq (c := .afterJsonObjPop) h' rfl (.object es)).trans (outputClosing_eq h' _))
  | d, key, .array vs, m, h => by
    rw [pieces, fragments_append, fragments_append]
    exact container_prints h (callTop (outputCalls lib) Handlers.afterJsonArrayPop key (.array vs))
      ((callTop_eq (c := .array) h rfl (.array vs)).trans (outputOpening_eq h _))
      (fun m' h' => parseArray_prints (d + 1) vs m' h')
      (fun m' h' => (callTop_eq (c := .afterJsonArrayPop) h' rfl (.array vs)).trans (outputClosing_eq h' _))
  | d, key, .null, m, h => scalar_prints (c := .null) h rfl (by
      show upkJsonOutputNullHandler lib key m = _
      rw [upkJsonOutputNullHandler, pieces, h.sameOpts]
      split
      · rfl
      · exact outputScalar_eq h _)
  | d, key, .bool b, m, h => scalar_prints (c := .bool) h rfl (outputScalar_eq h _)
  | d, key, .double x, m, h => scalar_prints (c := .double) h rfl (outputScalar_eq h _)
  | d, key, .int i, m, h => scalar_prints (c := .int) h rfl (outputScalar_eq h _)
  | d, key, .string s, m, h => scalar_prints (c := .string) h rfl (outputScalar_eq h _)

theorem parseArray_prints : ∀ (d : Nat) (vs : List Json) (m : OutputMeta), Printing opts d m →
    upkJsonParseArray (outputCalls lib) vs m = prints lib (fragments opts counted (arrayPieces lib opts d vs)) m
  | _, [], _, _ => rfl
  | d, v :: vs, m, h => by
    show (upkJsonParseNode (outputCalls lib) none v m >>= upkJsonParseArray (outputCalls lib) vs) = _
    rw [parseNode_prints d none v m h, arrayPieces, fragments_append]
    exact prints_prints fun w hw => parseArray_prints d vs _ (h.world hw)

theorem parseObj_prints : ∀ (d : Nat) (es : List (CStr × Json)) (m : OutputMeta), Printing opts d m →
    upkJsonParseObj (outputCalls lib) es m = prints lib (fragments opts counted (objPieces lib opts d es)) m
  | _, [], _, _ => rfl
  | d, e :: es, m, h => by
    show (upkJsonParseEntry (outputCalls lib) e m >>= upkJsonParseObj (outputCalls lib) es) = _
    rw [parseEntry_prints d e m h, objPieces, fragments_append]
    exact prints_prints fun w hw => parseObj_prints d es _ (h.world hw)

theorem parseEntry_prints : ∀ (d : Nat) (e : CStr × Json) (m : OutputMeta), Printing opts d m →
    upkJsonParseEntry (outputCalls lib) e m = prints lib (fragments opts counted (entryPieces lib opts d e)) m
  | d, (key, v), m, h => parseNode_prints d (some key) v m h

end

end Walk

/-! ### The stream -/

section Stream

variable {lib : OutputLib} {opts : OutputOpts}

theorem emit_stream {w : OutputData} {written : List UInt8} (hw : w.d = .stream written) (fs : List CStr) :
    emit lib fs w = .ok { w with d := .stream (written ++ fs.flatMap CStr.chars) } := by
  have hfold : fs.foldlM (fun d f => upkOutputJsonString lib.junk f d) (.stream written) =
      .ok (.stream (written ++ fs.flatMap CStr.chars)) := by
    clear hw
    induction fs generalizing written with
    | nil => rw [List.flatMap_nil, List.append_nil]; rfl
    | cons f fs ih =>
      rw [List.foldlM_cons, List.flatMap_cons, ← List.append_assoc]
      exact ih
  rw [emit, hw, hfold]
  rfl

theorem prints_stream {m : OutputMeta} {written : List UInt8} (hm : m.world.d = .stream written) (fs : List CStr) :
    prints lib fs m = .ok { m with world := { m.world with d := .stream (written ++ fs.flatMap CStr.chars) } } := by
  rw [prints_eq, emit_stream hm]
  rfl

theorem Printing.initial (hindent : percent ∉ opts.indent.chars) (d : StreamString) :
    Printing opts 0 (JsonMeta.push outputNode ⟨[], ⟨d, opts⟩⟩) :=
  ⟨rfl, hindent, rfl⟩

theorem upkJsonObjToStream_eq (hindent : percent ∉ opts.indent.chars) (obj : Json) : upkJsonObjToStream lib obj opts =
    .ok ((fragments opts counted (pieces lib opts 0 none obj)).flatMap CStr.chars) := by
  unfold upkJsonObjToStream upkJsonObjSerializer
  dsimp only
  rw [parseNode_prints lib 0 none obj _ (.initial hindent _), prints_stream rfl]
  rfl

/-! ### The stack -/

theorem kept_of_printing {m : OutputMeta} {written : List UInt8} {d : Nat} (h : Printing opts d m)
    (hm : m.world.d = .stream written) (key : Option CStr) (v : Json) :
    Kept m (upkJsonParseNode (outputCalls lib) key v m) := by
  rw [parseNode_prints lib d key v m h, prints_stream hm]
  exact ⟨rfl, rfl⟩

theorem deeper_of_opening {m m' : OutputMeta} {written : List UInt8} {d : Nat} {key : Option CStr} {bracket : CStr}
    (h : Printing opts d m) (hm : m.world.d = .stream written) (hopening : outputOpening lib bracket key m = .ok m') :
    Printing opts (d + 1) m' ∧ ∃ written', m'.world.d = .stream written' := by
  rw [outputOpening_eq h, emit_stream hm] at hopening
  rw [← Except.ok.inj hopening]
  refine ⟨⟨?_, h.plain, h.sameOpts⟩, _, rfl⟩
  show outputNode :: m.stack = _
  rw [h.stack, ← List.replicate_succ]

theorem after_of_parse {m m' : OutputMeta} {written : List UInt8} {d : Nat} {key : Option CStr} {v : Json}
    (h : Printing opts d m) (hm : m.world.d = .stream written)
    (hparse : upkJsonParseNode (outputCalls lib) key v m = .ok m') :
    Printing opts d m' ∧ ∃ written', m'.world.d = .stream written' := by
  rw [parseNode_prints lib d key v m h, prints_stream hm] at hparse
  rw [← Except.ok.inj hparse]
  exact ⟨h.world rfl, _, rfl⟩

mutual

theorem keepsStack : ∀ (d : Nat) (key : Option CStr) (v : Json) (m : OutputMeta) (written : List UInt8),
    Printing opts d m → m.world.d = .stream written → KeepsStack (outputCalls lib) key v m
  | d, key, .object es, m, _, h, hm => by
    refine ⟨kept_of_printing h hm key _, fun m' hvalue => ?_⟩
    rw [upkJsonValue, callTop_eq (c := .object) h rfl] at hvalue
    obtain ⟨h', written', hm'⟩ := deeper_of_opening h hm hvalue
    exact objKeepsStack (d + 1) es m' written' h' hm'
  | d, key, .array vs, m, _, h, hm => by
    refine ⟨kept_of_printing h hm key _, fun m' hvalue => ?_⟩
    rw [upkJsonValue, callTop_eq (c := .array) h rfl] at hvalue
    obtain ⟨h', written', hm'⟩ := deeper_of_opening h hm hvalue
    exact arrayKeepsStack (d + 1) vs m' written' h' hm'
  | _, key, .null, _, _, h, hm => kept_of_printing h hm key .null
  | _, key, .bool b, _, _, h, hm => kept_of_printing h hm key (.bool b)
  | _, key, .double x, _, _, h, hm => kept_of_printing h hm key (.double x)
  | _, key, .int i, _, _, h, hm => kept_of_printing h hm key (.int i)
  | _, key, .string s, _, _, h, hm => kept_of_printing h hm key (.string s)

theorem arrayKeepsStack : ∀ (d : Nat) (vs : List Json) (m : OutputMeta) (written : List UInt8),
    Printing opts d m → m.world.d = .stream written → ArrayKeepsStack (outputCalls lib) vs m
  | _, [], _, _, _, _ => trivial
  | d, v :: vs, m, written, h, hm => by
    refine ⟨keepsStack d none v m written h hm, fun m' hparse => ?_⟩
    obtain ⟨h', written', hm'⟩ := after_of_parse h hm hparse
    exact arrayKeepsStack d vs m' written' h' hm'

theorem objKeepsStack : ∀ (d : Nat) (es : List (CStr × Json)) (m : OutputMeta) (written : List UInt8),
    Printing opts d m → m.world.d = .stream written → ObjKeepsStack (outputCalls lib) es m
  | _, [], _, _, _, _ => trivial
  | d, (key, v) :: es, m, written, h, hm => by
    refine ⟨keepsStack d (some key) v m written h hm, fun m' hparse => ?_⟩
    obtain ⟨h', written', hm'⟩ := after_of_parse h hm hparse
    exact objKeepsStack d es m' written' h' hm'

end

end Stream

/-! ### The counter -/

section Counter

variable {opts : OutputOpts} {f g : Nat → Nat} {ps : List Piece}

theorem counted_eq_iff {d : Nat} : counted d = d ↔ d + 1 < 2 ^ 32 := by
  unfold counted
  omega

theorem counted_le (d : Nat) : counted d ≤ d := by
  unfold counted
  omega

theorem length_fragment (f : Nat → Nat) (d : Nat) :
    ((Piece.fragments opts f (.indent d)).flatMap CStr.chars).length = f d * opts.indent.chars.length := by
  show ((List.replicate (f d) opts.indent).flatMap CStr.chars).length = _
  rw [List.length_flatMap, List.map_replicate, List.sum_replicate_nat]

theorem length_fragments_le (opts : OutputOpts) (ps : List Piece) (hfg : ∀ d, f d ≤ g d) :
    ((fragments opts f ps).flatMap CStr.chars).length ≤ ((fragments opts g ps).flatMap CStr.chars).length := by
  induction ps with
  | nil => exact le_rfl
  | cons p ps ih =>
    show ((p.fragments opts f ++ fragments opts f ps).flatMap CStr.chars).length ≤
      ((p.fragments opts g ++ fragments opts g ps).flatMap CStr.chars).length
    rw [List.flatMap_append, List.flatMap_append, List.length_append, List.length_append]
    refine Nat.add_le_add ?_ ih
    cases p with
    | text s => exact le_rfl
    | indent d =>
      rw [length_fragment, length_fragment]
      exact Nat.mul_le_mul_right _ (hfg d)

theorem fragment_congr {d : Nat} (h : f d = g d) : Piece.fragments opts f (.indent d) = Piece.fragments opts g (.indent d) :=
  congrArg (List.replicate · opts.indent) h

/-- Where an indent is not empty, the text determines how often it was printed: the rest cannot make up for a difference. -/
theorem agree_of_fragments_eq (hfg : ∀ d, f d ≤ g d) (hindent : opts.indent.chars ≠ [])
    (heq : (fragments opts f ps).flatMap CStr.chars = (fragments opts g ps).flatMap CStr.chars) :
    ∀ d, .indent d ∈ ps → f d = g d := by
  induction ps with
  | nil => exact fun d hd => absurd hd List.not_mem_nil
  | cons p ps ih =>
    have heq : (p.fragments opts f ++ fragments opts f ps).flatMap CStr.chars =
        (p.fragments opts g ++ fragments opts g ps).flatMap CStr.chars := heq
    rw [List.flatMap_append, List.flatMap_append] at heq
    intro d hd
    cases p with
    | text s => exact ih (List.append_cancel_left heq) d ((List.mem_cons.mp hd).resolve_left nofun)
    | indent d₀ =>
      have hlen := congrArg List.length heq
      rw [List.length_append, List.length_append, length_fragment, length_fragment] at hlen
      have hhead : f d₀ * opts.indent.chars.length = g d₀ * opts.indent.chars.length := by
        have hle := Nat.mul_le_mul_right opts.indent.chars.length (hfg d₀)
        have hrest := length_fragments_le opts ps hfg
        omega
      have hd₀ : f d₀ = g d₀ := Nat.eq_of_mul_eq_mul_right (List.length_pos_iff.mpr hindent) hhead
      rw [fragment_congr hd₀] at heq
      rcases List.mem_cons.mp hd with h | h
      · rw [Piece.indent.inj h, hd₀]
      · exact ih (List.append_cancel_left heq) d h

theorem fragments_eq_of_agree (h : opts.indent.chars = [] ∨ ∀ d, .indent d ∈ ps → f d = g d) :
    (fragments opts f ps).flatMap CStr.chars = (fragments opts g ps).flatMap CStr.chars := by
  induction ps with
  | nil => rfl
  | cons p ps ih =>
    show (p.fragments opts f ++ fragments opts f ps).flatMap CStr.chars =
      (p.fragments opts g ++ fragments opts g ps).flatMap CStr.chars
    rw [List.flatMap_append, List.flatMap_append, ih (h.imp_right fun h d hd => h d (List.mem_cons_of_mem _ hd))]
    congr 1
    cases p with
    | text s => rfl
    | indent d =>
      rcases h with hindent | h
      · apply (List.eq_nil_of_length_eq_zero _).trans (List.eq_nil_of_length_eq_zero _).symm
        · rw [length_fragment, hindent]; rfl
        · rw [length_fragment, hindent]; rfl
      · rw [fragment_congr (h d List.mem_cons_self)]

/-- Two ways to indent print the same if they agree at every line, or if nothing is printed for an indent. -/
theorem fragments_eq_iff (hfg : ∀ d, f d ≤ g d) :
    (fragments opts f ps).flatMap CStr.chars = (fragments opts g ps).flatMap CStr.chars ↔
      opts.indent.chars = [] ∨ ∀ d, .indent d ∈ ps → f d = g d := by
  refine ⟨fun heq => ?_, fragments_eq_of_agree⟩
  rw [or_iff_not_imp_left]
  exact fun hindent => agree_of_fragments_eq hfg hindent heq

end Counter

/-! ### The printer is the recursion -/

/-- **The printer is a recursion that indents every line by its depth**, whatever the document, as long as the counter of
the stack does not wrap around where a line is indented; and every subtree leaves the stack as it was. -/
theorem printsPretty_iff (lib : OutputLib) (opts : OutputOpts) (obj : Json) (hindent : percent ∉ opts.indent.chars) :
    (upkJsonObjToStream lib obj opts = .ok (pretty lib opts obj) ↔
      opts.indent.chars = [] ∨ ∀ d, .indent d ∈ pieces lib opts 0 none obj → d + 1 < 2 ^ 32) ∧
    KeepsStack (outputCalls lib) none obj (JsonMeta.push outputNode ⟨[], ⟨.stream [], opts⟩⟩) := by
  refine ⟨?_, keepsStack 0 none obj _ [] (.initial hindent _) rfl⟩
  rw [upkJsonObjToStream_eq hindent, Except.ok.injEq, pretty, fragments_eq_iff (g := id) counted_le]
  simp only [id, counted_eq_iff]

/-- A library that quotes strings as they are -/
def quoting : OutputLib where
  jsonString s := .concat [cstr "\"", s, cstr "\""]
  lf _ := cstr "0.000000"
  junk _ := 0

/-- Options with indents and lines -/
def spaced : OutputOpts := ⟨cstr " ", cstr "\t", cstr "\n", false⟩

theorem printsPretty_spaced :
    upkJsonObjToStream quoting (.object [(cstr "a", .array [.bool true, .string (cstr "b")])]) spaced =
      .ok (pretty quoting spaced (.object [(cstr "a", .array [.bool true, .string (cstr "b")])])) ∧
    KeepsStack (outputCalls quoting) none (.object [(cstr "a", .array [.bool true, .string (cstr "b")])])
      (JsonMeta.push outputNode ⟨[], ⟨.stream [], spaced⟩⟩) := by
  have h := printsPretty_iff quoting spaced (.object [(cstr "a", .array [.bool true, .string (cstr "b")])]) (by decide)
  refine ⟨h.1.mpr (.inr fun d hd => ?_), h.2⟩
  simp [pieces, arrayPieces, objPieces, entryPieces, openingPieces, closingPieces, linePieces, shownKey, spaced] at hd
  omega

/-- An array in an array, and so on, `n` deep -/
def nested : Nat → Json
  | 0 => .array []
  | n + 1 => .array [nested n]

theorem indent_mem_nested (lib : OutputLib) (opts : OutputOpts) (key : Option CStr) (d n : Nat) :
    .indent (d + n) ∈ pieces lib opts d key (nested n) := by
  induction n generalizing d key with
  | zero => exact List.mem_append_left _ List.mem_cons_self
  | succ n ih =>
    refine List.mem_append_right _ (List.mem_append_left _ ?_)
    rw [arrayPieces, Nat.add_comm n 1, ← Nat.add_assoc]
    exact List.mem_append_left _ (ih none (d + 1))

theorem not_pretty_nested : upkJsonObjToStream quoting (nested (2 ^ 32 - 1)) spaced ≠
    .ok (pretty quoting spaced (nested (2 ^ 32 - 1))) := by
  rw [upkJsonObjToStream_eq (by decide)]
  intro heq
  have hagree := agree_of_fragments_eq (g := id) counted_le (by decide) (Except.ok.inj heq) _
    (indent_mem_nested quoting spaced none 0 (2 ^ 32 - 1))
  have hlt := counted_eq_iff.mp hagree
  omega

end Upkeeper
