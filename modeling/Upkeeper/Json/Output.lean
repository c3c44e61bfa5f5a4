import Upkeeper.Config.Json
import Upkeeper.Library.Block
import Upkeeper.Library.Decimal
/-!
# Printing a JSON document (`upk_json.c`)

The printer walks the document with a stack of nodes that all have the same handlers. A line is indented by the number of
nodes on the stack less one, which is the field `count` of the stack; the handlers of arrays and objects push a copy of
the top, and the walk pops it behind their elements.

Each piece of text is formatted by a `printf` of its own, straight into a stream, or into a buffer on the C stack which is
then added to a string on the heap.
-/

namespace Upkeeper

open Wire (Fault)

/-- `upk_json_data_output_opts_t` -/
structure OutputOpts where
  pad : CStr
  indent : CStr
  sep : CStr
  suppressNullValues : Bool

/-- What the printer takes from outside: the text that `json_object_to_json_string` returns for a string, the text that
`printf` makes of a `double` with `%lf`, and the bytes that `realloc` adds to a block. -/
structure OutputLib where
  jsonString : CStr → CStr
  lf : Double → CStr
  junk : Nat → UInt8

/-- `upk_stream_string_t`, with its type: what has been written to the stream, or the string on the heap and its size -/
inductive StreamString
  | stream (written : List UInt8)
  | string (p : Option (List UInt8)) (len : Nat)

/-- `upk_json_output_data_t` -/
structure OutputData where
  d : StreamString
  opts : OutputOpts

/-! ### Formatting -/

/-- `'%'` -/
def percent : UInt8 := 37

/-- `printf(fmt)`: a conversion other than `%%` reads an argument that is not there. -/
def formatArgless : List UInt8 → Except Fault (List UInt8)
  | [] => .ok []
  | c :: fmt =>
    if c ≠ percent then do
      let text ← formatArgless fmt
      .ok (c :: text)
    else
      match fmt with
      | [] => .error .overRead
      | d :: fmt =>
        if d = percent then do
          let text ← formatArgless fmt
          .ok (percent :: text)
        else .error .overRead

/-- `'\\'` -/
def backslash : UInt8 := 92

/-- `'/'` -/
def slash : UInt8 := 47

/-- `upk_json_unescape_forwardslash` -/
def unescapeForwardslash : List UInt8 → List UInt8
  | [] => []
  | [c] => [c]
  | c :: d :: str =>
    if c = backslash ∧ d = slash then d :: unescapeForwardslash str else c :: unescapeForwardslash (d :: str)

/-- `upk_json_append_string` -/
def upkJsonAppendString (junk : Nat → UInt8) (p : Option (List UInt8)) (len : Nat) (string : CStr) :
    Except Fault StreamString := do
  let (p, len) := if p = none ∧ len = 0 then (some (Block.calloc 1), len + 1) else (p, len)
  let len := len + string.strnlen upkMaxStringLen
  let p := Block.realloc junk (p.getD []) len
  let p ← Block.strcat p string
  .ok (.string (some p) len)

/-- `upk_output_json_string`, of what the format makes of its arguments -/
def upkOutputJsonString (junk : Nat → UInt8) (text : CStr) : StreamString → Except Fault StreamString
  | .stream written => .ok (.stream (written ++ text.chars))
  | .string p len =>
    let buf := text.take (upkMaxStringLen - 2)
    upkJsonAppendString junk p len buf

/-! ### Handlers -/

/-- The handlers of the printer -/
inductive OutputHandler
  | null
  | bool
  | double
  | int
  | string
  | array
  | object
  | afterJsonObjPop
  | afterJsonArrayPop

abbrev OutputMeta := JsonMeta OutputHandler Unit OutputData

/-- `count` of a stack: every push adds one, and every pop takes one away. -/
def JsonMeta.count {κ δ ω : Type} (m : JsonMeta κ δ ω) : UInt32 := .ofNat m.stack.length

variable (lib : OutputLib)

namespace OutputMeta

/-- `upk_output_json_string` -/
def output (text : CStr) (m : OutputMeta) : Except Stop OutputMeta := do
  let d ← (upkOutputJsonString lib.junk text m.world.d).mapError Stop.fault
  .ok { m with world := { m.world with d } }

/-- `upk_output_json_string(data, data->opts.indent)`: the indent is the format. -/
def outputIndent (m : OutputMeta) : Except Stop OutputMeta := do
  let indent ← (formatArgless m.world.opts.indent.chars).mapError Stop.fault
  output lib (.ofChars indent) m

/-- `upk_json_print_indent` -/
def printIndent (m : OutputMeta) : Except Stop OutputMeta :=
  (List.range (m.count.toNat - 1)).foldlM (fun m _ => outputIndent lib m) m

/-- `"\"%s\"%s:%s"`, if there is a key -/
def printKey (key : Option CStr) (pad : CStr) (m : OutputMeta) : Except Stop OutputMeta :=
  match key with
  | none => .ok m
  | some key => output lib (.concat [cstr "\"", key, cstr "\"", m.world.opts.pad, cstr ":", pad]) m

/-- The handlers of scalars, whose value is printed as `value` -/
def outputScalar (value : CStr) (key : Option CStr) (m : OutputMeta) : Except Stop OutputMeta := do
  let m ← printIndent lib m
  let m ← printKey lib key m.world.opts.pad m
  output lib (.concat [value, cstr ",", m.world.opts.sep]) m

/-- The key of an array or an object, if it is not empty, on a line of its own -/
def outputOwnKey (key : Option CStr) (m : OutputMeta) : Except Stop OutputMeta :=
  match key with
  | none => .ok m
  | some key =>
    if key.strnlen upkMaxStringLen > 0 then do
      let m ← printKey lib (some key) m.world.opts.sep m
      printIndent lib m
    else .ok m

/-- The handlers of arrays and objects -/
def outputOpening (bracket : CStr) (key : Option CStr) (m : OutputMeta) : Except Stop OutputMeta := do
  let m ← printIndent lib m
  let m ← outputOwnKey lib key m
  let m ← output lib (.concat [bracket, m.world.opts.sep]) m
  let node ← m.top
  .ok (m.push node)

/-- The handlers behind arrays and objects -/
def outputClosing (bracket : CStr) (m : OutputMeta) : Except Stop OutputMeta := do
  let m ← printIndent lib m
  output lib (.concat [bracket, cstr ",", m.world.opts.sep]) m

end OutputMeta

open OutputMeta

/-- `upk_json_output_null_handler` -/
def upkJsonOutputNullHandler (key : Option CStr) (m : OutputMeta) : Except Stop OutputMeta :=
  if m.world.opts.suppressNullValues then .ok m else outputScalar lib (cstr "Null") key m

/-- `upk_json_output_bool_handler` -/
def upkJsonOutputBoolHandler (b : Bool) : Option CStr → OutputMeta → Except Stop OutputMeta :=
  outputScalar lib (if b then cstr "true" else cstr "false")

/-- `upk_json_output_double_handler` -/
def upkJsonOutputDoubleHandler (d : Double) : Option CStr → OutputMeta → Except Stop OutputMeta :=
  outputScalar lib (lib.lf d)

/-- `upk_json_output_int_handler` -/
def upkJsonOutputIntHandler (i : Int32) : Option CStr → OutputMeta → Except Stop OutputMeta :=
  outputScalar lib (.ofChars (Decimal.signed i.toInt))

/-- `v.val.str.esc_str` of a string, which `upk_json_value` sets -/
def escStr (s : CStr) : CStr := .ofChars (unescapeForwardslash (lib.jsonString s).chars)

/-- `upk_json_output_string_handler` -/
def upkJsonOutputStringHandler (s : CStr) : Option CStr → OutputMeta → Except Stop OutputMeta :=
  outputScalar lib (escStr lib s)

/-- `upk_json_output_array_handler` -/
def upkJsonOutputArrayHandler : Option CStr → OutputMeta → Except Stop OutputMeta := outputOpening lib (cstr "[")

/-- `upk_json_output_object_handler` -/
def upkJsonOutputObjectHandler : Option CStr → OutputMeta → Except Stop OutputMeta := outputOpening lib (cstr "\x7b")

/-- `upk_json_output_after_json_obj_pop_handler` -/
def upkJsonOutputAfterJsonObjPopHandler : OutputMeta → Except Stop OutputMeta := outputClosing lib (cstr "\x7d")

/-- `upk_json_output_after_json_array_pop_handler` -/
def upkJsonOutputAfterJsonArrayPopHandler : OutputMeta → Except Stop OutputMeta := outputClosing lib (cstr "]")

/-- What the handlers do; each is only called with a value of its type. -/
def outputCalls : HandlerCalls OutputHandler Unit OutputData
  | .null, _, key, .null, m => upkJsonOutputNullHandler lib key m
  | .bool, _, key, .bool b, m => upkJsonOutputBoolHandler lib b key m
  | .double, _, key, .double d, m => upkJsonOutputDoubleHandler lib d key m
  | .int, _, key, .int i, m => upkJsonOutputIntHandler lib i key m
  | .string, _, key, .string s, m => upkJsonOutputStringHandler lib s key m
  | .array, _, key, .array _, m => upkJsonOutputArrayHandler lib key m
  | .object, _, key, .object _, m => upkJsonOutputObjectHandler lib key m
  | .afterJsonObjPop, _, _, .object _, m => upkJsonOutputAfterJsonObjPopHandler lib m
  | .afterJsonArrayPop, _, _, .array _, m => upkJsonOutputAfterJsonArrayPopHandler lib m
  | _, _, _, _, _ => .error (.fault .badCast)

/-! ### The functions -/

/-- `initial_node` of `upk_json_obj_serializer` -/
def outputNode : StackNode OutputHandler Unit where
  data := ()
  handlers :=
    { jsonNull := some .null
      jsonBool := some .bool
      jsonDouble := some .double
      jsonInt := some .int
      jsonString := some .string
      jsonArray := some .array
      jsonObject := some .object
      afterJsonObjPop := some .afterJsonObjPop
      afterJsonArrayPop := some .afterJsonArrayPop }

/-- `upk_json_obj_serializer` -/
def upkJsonObjSerializer (obj : Json) (data : OutputData) : Except Stop StreamString := do
  let m : OutputMeta := { stack := [], world := data }
  let m ← upkJsonParseNode (outputCalls lib) none obj (m.push outputNode)
  .ok m.world.d

/-- `upk_json_obj_to_string`: the block that it returns, or `NULL` -/
def upkJsonObjToString (obj : Json) (opts : OutputOpts) : Except Stop (Option (List UInt8)) := do
  let d ← upkJsonObjSerializer lib obj { d := .string none 0, opts }
  match d with
  | .string p _ => .ok p
  | .stream _ => .ok none

/-- `upk_json_obj_to_stream`: what it writes to the stream -/
def upkJsonObjToStream (obj : Json) (opts : OutputOpts) : Except Stop (List UInt8) := do
  let d ← upkJsonObjSerializer lib obj { d := .stream [], opts }
  match d with
  | .stream written => .ok written
  | .string _ _ => .ok []

end Upkeeper
