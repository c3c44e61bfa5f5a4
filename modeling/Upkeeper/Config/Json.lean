import Upkeeper.Config.Types
/-!
# Walking a JSON document (`upk_json.c`)

The walk keeps a stack of handlers. It passes every value to the handler that the node on top of the stack has for its
type, then the elements of an array or an object, and after these it pops the stack. The pushes are left to the
handlers. A handler is a name `κ`; what it does is a parameter, which may change the stack and the memory `ω` that the
data pointers `δ` of the nodes lead to.

The stack is a `UPKLIST`, of which the walk uses the first node only; here it is a list, the first node first.
-/

namespace Upkeeper

open Wire (Fault)

/-- A `struct json_object`. A string is the one that `json_object_get_string` returns, an integer the one that
`json_object_get_int` returns, and the entries of an object stand in the order in which they are iterated. -/
inductive Json
  | null
  | bool (b : Bool)
  | double (d : Double)
  | int (i : Int32)
  | string (s : CStr)
  | array (vs : List Json)
  | object (es : List (CStr × Json))

/-- What ends the program in the middle of a walk: undefined behaviour, or the `exit` of `upk_fatal` -/
inductive Stop
  | fault (f : Fault)
  | exit
  deriving DecidableEq, Repr

/-- `upk_json_handlers_t` -/
structure Handlers (κ : Type) where
  jsonNull : Option κ
  jsonBool : Option κ
  jsonDouble : Option κ
  jsonInt : Option κ
  jsonString : Option κ
  jsonArray : Option κ
  jsonObject : Option κ
  afterJsonObjPop : Option κ
  afterJsonArrayPop : Option κ

/-- `upk_json_stack_node_t` -/
structure StackNode (κ δ : Type) where
  data : δ
  handlers : Handlers κ

/-- `upk_json_stack_meta_t`, with the memory that the handlers work on -/
structure JsonMeta (κ δ ω : Type) where
  stack : List (StackNode κ δ)
  world : ω

/-- What a handler does when it is called with the data of its node, a key and a value -/
abbrev HandlerCalls (κ δ ω : Type) :=
  κ → δ → Option CStr → Json → JsonMeta κ δ ω → Except Stop (JsonMeta κ δ ω)

variable {κ δ ω : Type}

namespace JsonMeta

/-- `upk_json_stack_push` -/
def push (node : StackNode κ δ) (m : JsonMeta κ δ ω) : JsonMeta κ δ ω := { m with stack := node :: m.stack }

/-- `upk_json_stack_pop` -/
def pop (m : JsonMeta κ δ ω) : JsonMeta κ δ ω := { m with stack := m.stack.tail }

/-- `*meta->head` -/
def top (m : JsonMeta κ δ ω) : Except Stop (StackNode κ δ) :=
  match m.stack with
  | [] => .error (.fault .nullDeref)
  | node :: _ => .ok node

end JsonMeta

/-- The handler of a node for a value -/
def Handlers.forValue (h : Handlers κ) : Json → Option κ
  | .null => h.jsonNull
  | .bool _ => h.jsonBool
  | .double _ => h.jsonDouble
  | .int _ => h.jsonInt
  | .string _ => h.jsonString
  | .array _ => h.jsonArray
  | .object _ => h.jsonObject

variable (call : HandlerCalls κ δ ω)

/-- The handler that the node on top has, if it has one -/
def callTop (handler : Handlers κ → Option κ) (key : Option CStr) (v : Json) (m : JsonMeta κ δ ω) :
    Except Stop (JsonMeta κ δ ω) := do
  let node ← m.top
  match handler node.handlers with
  | none => .ok m
  | some h => call h node.data key v m

/-- `upk_json_value` -/
def upkJsonValue (key : Option CStr) (v : Json) (m : JsonMeta κ δ ω) : Except Stop (JsonMeta κ δ ω) :=
  callTop call (fun h => h.forValue v) key v m

mutual

/-- `_upk_json_parse_node` -/
def upkJsonParseNode : Option CStr → Json → JsonMeta κ δ ω → Except Stop (JsonMeta κ δ ω)
  | key, .object es, m => do
    let m ← upkJsonValue call key (.object es) m
    let m ← upkJsonParseObj es m
    callTop call Handlers.afterJsonObjPop key (.object es) m.pop
  | key, .array vs, m => do
    let m ← upkJsonValue call key (.array vs) m
    let m ← upkJsonParseArray vs m
    callTop call Handlers.afterJsonArrayPop key (.array vs) m.pop
  | key, .null, m => upkJsonValue call key .null m
  | key, .bool b, m => upkJsonValue call key (.bool b) m
  | key, .double d, m => upkJsonValue call key (.double d) m
  | key, .int i, m => upkJsonValue call key (.int i) m
  | key, .string s, m => upkJsonValue call key (.string s) m
termination_by structural _ v => v

/-- `upk_json_parse_array` -/
def upkJsonParseArray : List Json → JsonMeta κ δ ω → Except Stop (JsonMeta κ δ ω)
  | [], m => .ok m
  | v :: vs, m => do
    let m ← upkJsonParseNode none v m
    upkJsonParseArray vs m
termination_by structural vs => vs

/-- `upk_json_parse_obj` -/
def upkJsonParseObj : List (CStr × Json) → JsonMeta κ δ ω → Except Stop (JsonMeta κ δ ω)
  | [], m => .ok m
  | e :: es, m => do
    let m ← upkJsonParseEntry e m
    upkJsonParseObj es m
termination_by structural es => es

/-- One entry of an object -/
def upkJsonParseEntry : CStr × Json → JsonMeta κ δ ω → Except Stop (JsonMeta κ δ ω)
  | (key, v), m => upkJsonParseNode (some key) v m
termination_by structural e => e

end

/-! ### What holds of every walk -/

/-- The subtree has been processed, and the stack has the height and the top node that it had before; or the program has
exited. -/
def Kept (m : JsonMeta κ δ ω) : Except Stop (JsonMeta κ δ ω) → Prop
  | .ok m' => m'.stack.length = m.stack.length ∧ m'.stack.head? = m.stack.head?
  | .error .exit => True
  | .error (.fault _) => False

mutual

/-- Every subtree that the walk comes to is processed, and leaves the stack as it was. -/
def KeepsStack : Option CStr → Json → JsonMeta κ δ ω → Prop
  | key, .object es, m => Kept m (upkJsonParseNode call key (.object es) m) ∧
      ∀ m', upkJsonValue call key (.object es) m = .ok m' → ObjKeepsStack es m'
  | key, .array vs, m => Kept m (upkJsonParseNode call key (.array vs) m) ∧
      ∀ m', upkJsonValue call key (.array vs) m = .ok m' → ArrayKeepsStack vs m'
  | key, .null, m => Kept m (upkJsonParseNode call key .null m)
  | key, .bool b, m => Kept m (upkJsonParseNode call key (.bool b) m)
  | key, .double d, m => Kept m (upkJsonParseNode call key (.double d) m)
  | key, .int i, m => Kept m (upkJsonParseNode call key (.int i) m)
  | key, .string s, m => Kept m (upkJsonParseNode call key (.string s) m)
termination_by structural _ v => v

/-- The elements of an array, one after another -/
def ArrayKeepsStack : List Json → JsonMeta κ δ ω → Prop
  | [], _ => True
  | v :: vs, m => KeepsStack none v m ∧ ∀ m', upkJsonParseNode call none v m = .ok m' → ArrayKeepsStack vs m'
termination_by structural vs => vs

/-- The entries of an object, one after another -/
def ObjKeepsStack : List (CStr × Json) → JsonMeta κ δ ω → Prop
  | [], _ => True
  | e :: es, m => EntryKeepsStack e m ∧ ∀ m', upkJsonParseEntry call e m = .ok m' → ObjKeepsStack es m'
termination_by structural es => es

/-- One entry of an object -/
def EntryKeepsStack : CStr × Json → JsonMeta κ δ ω → Prop
  | (key, v), m => KeepsStack (some key) v m
termination_by structural e => e

end

end Upkeeper
