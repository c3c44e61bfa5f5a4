import Upkeeper.Config.Handlers
/-!
# The handler stack of a configuration walk

The walk pops the stack at the end of every array and of every object, and the handler of an array or an object that it
does not know pushes nothing: the walk then goes on with the stack of somebody else. `outcome` computes from a document
how its walk ends, and the stack is kept exactly for the documents that it does not call lost.
-/

namespace Upkeeper

open Wire (Fault)

/-! ### Walks, whatever the handlers -/

/-- How the walk of a subtree ends: with the stack as it was, in the middle because the program exits, or with a stack
or a memory that is not what it should be -/
inductive Outcome
  | kept
  | exits
  | lost
  deriving DecidableEq, Repr

namespace Outcome

/-- The outcome of one subtree after another -/
def andThen : Outcome → Outcome → Outcome
  | .kept, o => o
  | o, _ => o

/-- The outcome of an array or an object for which nothing has been pushed, from that of what is in it: the node that is
popped at its end is its owner. -/
def unpushed : Outcome → Outcome
  | .exits => .exits
  | _ => .lost

end Outcome

section

variable {κ δ ω : Type} {call : HandlerCalls κ δ ω} {m m₁ : JsonMeta κ δ ω} {key : Option CStr}

/-- The nodes have no handlers for the end of an array or an object. -/
def NoPopHandlers (stack : List (StackNode κ δ)) : Prop :=
  ∀ node ∈ stack, node.handlers.afterJsonObjPop = none ∧ node.handlers.afterJsonArrayPop = none

/-- A walk from `m` has the outcome; `keeps` says that the stack is kept all along. -/
def Outcome.Describes (m : JsonMeta κ δ ω) (keeps : Prop) (walked : Except Stop (JsonMeta κ δ ω)) : Outcome → Prop
  | .kept => keeps ∧ ∃ w, walked = .ok { m with world := w }
  | .exits => keeps ∧ walked = .error .exit
  | .lost => ¬ keeps

theorem kept_withWorld (w : ω) : Kept m (.ok { m with world := w }) := ⟨rfl, rfl⟩

theorem Outcome.Describes.iff {o : Outcome} {keeps : Prop} {walked : Except Stop (JsonMeta κ δ ω)}
    (h : o.Describes m keeps walked) : keeps ↔ o ≠ .lost := by
  cases o with
  | kept => exact iff_of_true h.1 (by simp)
  | exits => exact iff_of_true h.1 (by simp)
  | lost => exact iff_of_false h (by simp)

theorem Outcome.Describes.scalar {walked : Except Stop (JsonMeta κ δ ω)} :
    (∃ w, walked = .ok { m with world := w }) → Outcome.kept.Describes m (Kept m walked) walked := by
  rintro ⟨w, rfl⟩
  exact ⟨kept_withWorld w, w, rfl⟩

theorem callTop_cons {node : StackNode κ δ} {rest : List (StackNode κ δ)} (h : m.stack = node :: rest)
    (handler : Handlers κ → Option κ) (v : Json) :
    callTop call handler key v m =
      match handler node.handlers with
      | none => .ok m
      | some name => call name node.data key v m := by
  simp only [callTop, JsonMeta.top, h]
  rfl

variable (call key) in
theorem callTop_noHandler {handler : Handlers κ → Option κ} (v : Json)
    (hnone : ∀ node ∈ m.stack, handler node.handlers = none) :
    (m.stack ≠ [] ∧ callTop call handler key v m = .ok m) ∨
      (m.stack = [] ∧ callTop call handler key v m = .error (.fault .nullDeref)) := by
  cases hstack : m.stack with
  | nil =>
    refine .inr ⟨rfl, ?_⟩
    simp only [callTop, JsonMeta.top, hstack]
    rfl
  | cons node rest =>
    refine .inl ⟨by simp, ?_⟩
    rw [callTop_cons hstack, hnone node (by simp [hstack])]

theorem Outcome.Describes.andThen {o o' : Outcome} {head : Except Stop (JsonMeta κ δ ω)} {headKeeps : Prop}
    {tail : JsonMeta κ δ ω → Except Stop (JsonMeta κ δ ω)} {tailKeeps : JsonMeta κ δ ω → Prop}
    (hhead : o.Describes m headKeeps head)
    (htail : ∀ w, o'.Describes { m with world := w } (tailKeeps { m with world := w }) (tail { m with world := w })) :
    (o.andThen o').Describes m (headKeeps ∧ ∀ m', head = .ok m' → tailKeeps m') (head >>= tail) := by
  cases o with
  | kept =>
    obtain ⟨hkeeps, w, rfl⟩ := hhead
    have hiff : (headKeeps ∧ ∀ m', Except.ok { m with world := w } = Except.ok (ε := Stop) m' → tailKeeps m') ↔
        tailKeeps { m with world := w } := by
      simp [hkeeps]
    rw [hiff]
    exact htail w
  | exits =>
    obtain ⟨hkeeps, rfl⟩ := hhead
    exact ⟨⟨hkeeps, by simp⟩, rfl⟩
  | lost => exact fun h => hhead h.1

variable {o : Outcome} {value : Except Stop (JsonMeta κ δ ω)}
  {children : JsonMeta κ δ ω → Except Stop (JsonMeta κ δ ω)} {childrenKeep : JsonMeta κ δ ω → Prop}
  {handler : Handlers κ → Option κ} {v : Json}

/-- An array or an object: its handler, what is in it, and the pop -/
def container (call : HandlerCalls κ δ ω) (value : Except Stop (JsonMeta κ δ ω))
    (children : JsonMeta κ δ ω → Except Stop (JsonMeta κ δ ω)) (handler : Handlers κ → Option κ) (key : Option CStr)
    (v : Json) : Except Stop (JsonMeta κ δ ω) := do
  let m ← value
  let m ← children m
  callTop call handler key v m.pop

theorem Outcome.Describes.pushed {node : StackNode κ δ} {w : ω} (hvalue : value = .ok ⟨node :: m.stack, w⟩)
    (hstack : m.stack ≠ []) (hnone : ∀ node ∈ m.stack, handler node.handlers = none)
    (hchildren : o.Describes ⟨node :: m.stack, w⟩ (childrenKeep ⟨node :: m.stack, w⟩)
      (children ⟨node :: m.stack, w⟩)) :
    o.Describes m (Kept m (container call value children handler key v) ∧ ∀ m', value = .ok m' → childrenKeep m')
      (container call value children handler key v) := by
  subst hvalue
  cases o with
  | kept =>
    obtain ⟨hkeeps, w', hwalked⟩ := hchildren
    have hend : container call (.ok ⟨node :: m.stack, w⟩) children handler key v = .ok { m with world := w' } := by
      show (children _ >>= fun m => callTop call handler key v m.pop) = _
      rw [hwalked]
      obtain ⟨-, hcall⟩ | ⟨hnil, -⟩ := callTop_noHandler call key (m := { m with world := w' }) v hnone
      · exact hcall
      · exact absurd hnil hstack
    exact ⟨⟨hend ▸ kept_withWorld w', by rintro _ ⟨⟩; exact hkeeps⟩, w', hend⟩
  | exits =>
    obtain ⟨hkeeps, hwalked⟩ := hchildren
    have hend : container call (.ok ⟨node :: m.stack, w⟩) children handler key v = .error .exit := by
      show (children _ >>= _) = _
      rw [hwalked]
      rfl
    exact ⟨⟨hend ▸ trivial, by rintro _ ⟨⟩; exact hkeeps⟩, hend⟩
  | lost => exact fun h => hchildren (h.2 _ rfl)

theorem Outcome.Describes.unpushed {w : ω} (hvalue : value = .ok { m with world := w })
    (hstack : m.stack ≠ []) (hnone : ∀ node ∈ m.stack, handler node.handlers = none)
    (hchildren : o.Describes { m with world := w } (childrenKeep { m with world := w }) (children { m with world := w })) :
    o.unpushed.Describes m
      (Kept m (container call value children handler key v) ∧ ∀ m', value = .ok m' → childrenKeep m')
      (container call value children handler key v) := by
  subst hvalue
  cases o with
  | kept =>
    obtain ⟨-, w', hwalked⟩ := hchildren
    rintro ⟨hkept, -⟩
    have hend : container call (.ok { m with world := w }) children handler key v =
        callTop call handler key v (JsonMeta.pop { m with world := w' }) := by
      show (children _ >>= _) = _
      rw [hwalked]
      rfl
    rw [hend] at hkept
    have hpopped : ∀ node ∈ (JsonMeta.pop { m with world := w' }).stack, handler node.handlers = none :=
      fun node hnode => hnone node (List.mem_of_mem_tail hnode)
    obtain ⟨-, hcall⟩ | ⟨-, hcall⟩ := callTop_noHandler call key v hpopped
    · rw [hcall] at hkept
      have hlen : m.stack.tail.length = m.stack.length := hkept.1
      have hpos := List.length_pos_iff.mpr hstack
      rw [List.length_tail] at hlen
      omega
    · rw [hcall] at hkept
      exact hkept
  | exits =>
    obtain ⟨hkeeps, hwalked⟩ := hchildren
    have hend : container call (.ok { m with world := w }) children handler key v = .error .exit := by
      show (children _ >>= _) = _
      rw [hwalked]
      rfl
    exact ⟨⟨hend ▸ trivial, by rintro _ ⟨⟩; exact hkeeps⟩, hend⟩
  | lost => exact fun h => hchildren (h.2 _ rfl)

end

/-! ### What the handlers do to the stack -/

/-- Whose handlers a node has -/
inductive Owner
  | svcconfInit
  | svcNode
  | service
  | svcids
  | customActions
  | ctrlconfInit
  | ctrlNode
  deriving DecidableEq, Repr

/-- A node with the handlers of the owner -/
def Owner.Has : Owner → ConfNode → Prop
  | .svcconfInit, node => node = svcconfInitNode
  | .svcNode, node => node = Upkeeper.svcNode
  | .service, node => ∃ t, node = serviceNode t
  | .svcids, node => ∃ t l, node = svcidsNode t l
  | .customActions, node => ∃ t, node = customActionsNode t
  | .ctrlconfInit, node => node = ctrlconfInitNode
  | .ctrlNode, node => node = Upkeeper.ctrlNode

theorem Owner.Has.noPopHandlers {o : Owner} {node : ConfNode} (h : o.Has node) :
    node.handlers.afterJsonObjPop = none ∧ node.handlers.afterJsonArrayPop = none := by
  cases o with
  | svcconfInit | svcNode | ctrlconfInit | ctrlNode =>
    obtain rfl := h
    exact ⟨rfl, rfl⟩
  | service | customActions =>
    obtain ⟨t, rfl⟩ := h
    exact ⟨rfl, rfl⟩
  | svcids =>
    obtain ⟨t, l, rfl⟩ := h
    exact ⟨rfl, rfl⟩

/-- There is nothing in the value. -/
def Json.isScalar : Json → Bool
  | .array _ | .object _ => false
  | _ => true

/-- What becomes of the stack when a value is handed to the node on top -/
inductive Receipt
  | keeps
  | pushes (o : Owner)
  | exits
  | faults
  deriving DecidableEq, Repr

/-- What the handlers of a node do with a value -/
def Owner.receives : Owner → Option CStr → Json → Receipt
  | .svcconfInit, _, .object _ => .pushes .svcNode
  | .svcNode, some _, .object _ => .pushes .service
  | .svcNode, none, .object _ => .faults
  | .service, some key, .string s =>
    if matchKey svcStringKeys key = some .longDescription ∧ longDescriptionMax < s.chars.length then .faults else .keeps
  | .service, some key, .array _ => if (matchKey svcidKeys key).isSome then .pushes .svcids else .keeps
  | .service, some key, .object _ =>
    if key.strcasecmpEq (cstr "CustomActions") then .pushes .customActions else .keeps
  | .service, none, .bool _ | .service, none, .int _ | .service, none, .string _ | .service, none, .array _
  | .service, none, .object _ => .faults
  | .customActions, none, .string _ => .faults
  | .ctrlconfInit, _, .object _ => .pushes .ctrlNode
  | .ctrlNode, some key, .double _ => if key.strcasecmpEq (cstr "BuddyPollingInterval") then .keeps else .exits
  | .ctrlNode, some key, .int _ => if (matchKey ctrlIntKeys key).isSome then .keeps else .exits
  | .ctrlNode, some key, .string _ => if (matchKey ctrlStringKeys key).isSome then .keeps else .exits
  | .ctrlNode, some key, .object _ => if key.strcasecmpEq (cstr "ServiceDefaults") then .pushes .service else .keeps
  | .ctrlNode, none, .double _ | .ctrlNode, none, .int _ | .ctrlNode, none, .string _ | .ctrlNode, none, .object _ =>
    .faults
  | _, _, _ => .keeps

theorem receives_scalar {o o' : Owner} {key : Option CStr} {v : Json} (hv : v.isScalar) :
    o.receives key v ≠ .pushes o' := by
  cases v with
  | array | object => simp [Json.isScalar] at hv
  | null | bool => cases o <;> cases key <;> simp [Owner.receives]
  | double | int | string => cases o <;> cases key <;> simp only [Owner.receives] <;> first | (split <;> simp) | simp

/-- A value that has been handed over from `m` -/
def Receipt.Describes (m : ConfMeta) (received : Except Stop ConfMeta) : Receipt → Prop
  | .keeps => ∃ w, received = .ok { m with world := w }
  | .pushes o => ∃ node w, o.Has node ∧ received = .ok ⟨node :: m.stack, w⟩
  | .exits => received = .error .exit
  | .faults => ∃ f, received = .error (.fault f)

variable {passwd : CStr → Option (UInt32 × UInt32)} {m : ConfMeta}

variable (passwd) in
theorem upkSvcconfStringHandler_ok {key s : CStr}
    (h : matchKey svcStringKeys key = some .longDescription → s.chars.length ≤ longDescriptionMax) :
    ∃ f, upkSvcconfStringHandler passwd key s = .ok f := by
  unfold upkSvcconfStringHandler
  cases hkey : matchKey svcStringKeys key with
  | none => exact ⟨_, rfl⟩
  | some k =>
    cases k with
    | longDescription => exact ⟨_, if_pos (h hkey)⟩
    | _ => exact ⟨_, rfl⟩

theorem service_string (t : SvcTarget) (key s : CStr) :
    (Owner.service.receives (some key) (.string s)).Describes m
      (confCalls passwd .svcconfStringHandler (.svc t) (some key) (.string s) m) := by
  simp only [Owner.receives, confCalls]
  split
  next h =>
    refine ⟨.overWrite, ?_⟩
    rw [upkSvcconfStringHandler, h.1]
    simp only [if_neg (not_le.mpr h.2)]
    rfl
  next h =>
    obtain ⟨f, hf⟩ := upkSvcconfStringHandler_ok passwd fun hkey => not_lt.mp fun hlen => h ⟨hkey, hlen⟩
    rw [hf]
    exact ⟨_, rfl⟩

theorem service_array (t : SvcTarget) (key : CStr) (vs : List Json) :
    (Owner.service.receives (some key) (.array vs)).Describes m
      (confCalls passwd .arrayHandler (.svc t) (some key) (.array vs) m) := by
  simp only [Owner.receives, confCalls, upkSvcconfArrayHandler]
  cases matchKey svcidKeys key with
  | none => exact ⟨_, rfl⟩
  | some l => exact ⟨_, _, ⟨t, l, rfl⟩, rfl⟩

theorem service_object (t : SvcTarget) (key : CStr) (es : List (CStr × Json)) :
    (Owner.service.receives (some key) (.object es)).Describes m
      (confCalls passwd .nestedObjectHandler (.svc t) (some key) (.object es) m) := by
  simp only [Owner.receives, confCalls, upkSvcconfNestedObjectHandler]
  split
  · exact ⟨_, _, ⟨t, rfl⟩, rfl⟩
  · exact ⟨_, rfl⟩

theorem ctrlNode_double (key : CStr) (dbl : Double) :
    (Owner.ctrlNode.receives (some key) (.double dbl)).Describes m
      (confCalls passwd .ctrlconfDoubleHandler .cfg (some key) (.double dbl) m) := by
  simp only [Owner.receives, confCalls, upkCtrlconfDoubleHandler]
  split
  · exact ⟨_, rfl⟩
  · exact rfl

theorem ctrlNode_int (key : CStr) (i : Int32) :
    (Owner.ctrlNode.receives (some key) (.int i)).Describes m
      (confCalls passwd .ctrlconfIntHandler .cfg (some key) (.int i) m) := by
  simp only [Owner.receives, confCalls, upkCtrlconfIntHandler]
  cases matchKey ctrlIntKeys key with
  | none => exact rfl
  | some k => cases k <;> exact ⟨_, rfl⟩

theorem ctrlNode_string (key s : CStr) :
    (Owner.ctrlNode.receives (some key) (.string s)).Describes m
      (confCalls passwd .ctrlconfStringHandler .cfg (some key) (.string s) m) := by
  simp only [Owner.receives, confCalls, upkCtrlconfStringHandler]
  cases matchKey ctrlStringKeys key with
  | none => exact rfl
  | some f => exact ⟨_, rfl⟩

theorem ctrlNode_object (key : CStr) (es : List (CStr × Json)) :
    (Owner.ctrlNode.receives (some key) (.object es)).Describes m
      (confCalls passwd .ctrlconfObjectHandler .cfg (some key) (.object es) m) := by
  simp only [Owner.receives, confCalls, upkCtrlconfObjectHandler]
  split
  · exact ⟨_, _, ⟨.serviceDefaults, rfl⟩, rfl⟩
  · exact ⟨_, rfl⟩

theorem receives_spec {o : Owner} {node : ConfNode} {rest : List ConfNode} (h : o.Has node)
    (hstack : m.stack = node :: rest) (key : Option CStr) (v : Json) :
    (o.receives key v).Describes m (upkJsonValue (confCalls passwd) key v m) := by
  rw [upkJsonValue, callTop_cons hstack]
  cases o with
  | svcconfInit =>
    obtain rfl := h
    cases v with
    | object => exact ⟨_, _, rfl, rfl⟩
    | _ => exact ⟨_, rfl⟩
  | svcNode =>
    obtain rfl := h
    cases v with
    | object =>
      cases key with
      | none => exact ⟨_, rfl⟩
      | some key => exact ⟨_, _, ⟨_, rfl⟩, rfl⟩
    | _ => cases key <;> exact ⟨_, rfl⟩
  | service =>
    obtain ⟨t, rfl⟩ := h
    cases key with
    | none => cases v <;> exact ⟨_, rfl⟩
    | some key =>
      cases v with
      | string s => exact service_string t key s
      | array vs => exact service_array t key vs
      | object es => exact service_object t key es
      | _ => exact ⟨_, rfl⟩
  | svcids =>
    obtain ⟨t, l, rfl⟩ := h
    cases v <;> exact ⟨_, rfl⟩
  | customActions =>
    obtain ⟨t, rfl⟩ := h
    cases v with
    | string => cases key <;> exact ⟨_, rfl⟩
    | _ => cases key <;> exact ⟨_, rfl⟩
  | ctrlconfInit =>
    obtain rfl := h
    cases v with
    | object => exact ⟨_, _, rfl, rfl⟩
    | _ => exact ⟨_, rfl⟩
  | ctrlNode =>
    obtain rfl := h
    cases key with
    | none => cases v <;> exact ⟨_, rfl⟩
    | some key =>
      cases v with
      | double dbl => exact ctrlNode_double key dbl
      | int i => exact ctrlNode_int key i
      | string s => exact ctrlNode_string key s
      | object es => exact ctrlNode_object key es
      | _ => exact ⟨_, rfl⟩

/-! ### How a walk ends -/

/-- The outcome of a value in which there is nothing -/
def Receipt.ends : Receipt → Outcome
  | .keeps | .pushes _ => .kept
  | .exits => .exits
  | .faults => .lost

/-- The outcome of an array or an object, from that of what is in it under either owner -/
def Receipt.around (owner : Owner) (children : Owner → Outcome) : Receipt → Outcome
  | .keeps => (children owner).unpushed
  | .pushes o => children o
  | .exits => .exits
  | .faults => .lost

mutual

/-- How the walk of a subtree ends that comes to a node of the owner -/
def outcome : Owner → Option CStr → Json → Outcome
  | o, key, .object es => (o.receives key (.object es)).around o fun o' => objOutcome o' es
  | o, key, .array vs => (o.receives key (.array vs)).around o fun o' => arrayOutcome o' vs
  | o, key, .null => (o.receives key .null).ends
  | o, key, .bool b => (o.receives key (.bool b)).ends
  | o, key, .double d => (o.receives key (.double d)).ends
  | o, key, .int i => (o.receives key (.int i)).ends
  | o, key, .string s => (o.receives key (.string s)).ends
termination_by structural _ _ v => v

def arrayOutcome : Owner → List Json → Outcome
  | _, [] => .kept
  | o, v :: vs => (outcome o none v).andThen (arrayOutcome o vs)
termination_by structural _ vs => vs

def objOutcome : Owner → List (CStr × Json) → Outcome
  | _, [] => .kept
  | o, e :: es => (entryOutcome o e).andThen (objOutcome o es)
termination_by structural _ es => es

def entryOutcome : Owner → CStr × Json → Outcome
  | o, (key, v) => outcome o (some key) v
termination_by structural _ e => e

end

/-- A stack whose top belongs to the owner, and all of whose nodes are nodes of the configuration -/
def Owner.OnTop (o : Owner) (stack : List ConfNode) : Prop :=
  (∃ node rest, stack = node :: rest ∧ o.Has node) ∧ NoPopHandlers stack

namespace Owner.OnTop

variable {o o' : Owner} {stack : List ConfNode}

theorem ne_nil (h : o.OnTop stack) : stack ≠ [] := by
  obtain ⟨⟨node, rest, rfl, -⟩, -⟩ := h
  simp

theorem push {node : ConfNode} (h : o.OnTop stack) (hnode : o'.Has node) : o'.OnTop (node :: stack) := by
  refine ⟨⟨node, stack, rfl, hnode⟩, ?_⟩
  intro n hn
  rcases List.mem_cons.mp hn with rfl | hn
  · exact hnode.noPopHandlers
  · exact h.2 n hn

variable (passwd) in
theorem received (h : o.OnTop m.stack) (key : Option CStr) (v : Json) :
    (o.receives key v).Describes m (upkJsonValue (confCalls passwd) key v m) := by
  obtain ⟨⟨node, rest, hstack, hnode⟩, -⟩ := h
  exact receives_spec hnode hstack key v

theorem scalar (h : o.OnTop m.stack) (key : Option CStr) {v : Json}
    (hv : v.isScalar) :
    (o.receives key v).ends.Describes m (Kept m (upkJsonValue (confCalls passwd) key v m))
      (upkJsonValue (confCalls passwd) key v m) := by
  have hreceived := h.received passwd key v
  cases hr : o.receives key v with
  | keeps =>
    rw [hr] at hreceived
    exact Outcome.Describes.scalar hreceived
  | pushes o' => exact absurd hr (receives_scalar hv)
  | exits =>
    rw [hr] at hreceived
    rw [show upkJsonValue _ _ _ _ = _ from hreceived]
    exact ⟨trivial, rfl⟩
  | faults =>
    rw [hr] at hreceived
    obtain ⟨f, hf⟩ := hreceived
    rw [hf]
    exact not_false

theorem container (h : o.OnTop m.stack) (key : Option CStr) (v : Json) {handler : Handlers ConfHandler → Option ConfHandler}
    (hnone : ∀ node ∈ m.stack, handler node.handlers = none) {childrenOutcome : Owner → Outcome}
    {children : ConfMeta → Except Stop ConfMeta} {childrenKeep : ConfMeta → Prop}
    (ih : ∀ o' m', Owner.OnTop o' m'.stack → (childrenOutcome o').Describes m' (childrenKeep m') (children m')) :
    ((o.receives key v).around o childrenOutcome).Describes m
      (Kept m (Upkeeper.container (confCalls passwd) (upkJsonValue (confCalls passwd) key v m) children handler key v) ∧
        ∀ m', upkJsonValue (confCalls passwd) key v m = .ok m' → childrenKeep m')
      (Upkeeper.container (confCalls passwd) (upkJsonValue (confCalls passwd) key v m) children handler key v) := by
  have hreceived := h.received passwd key v
  cases hr : o.receives key v with
  | keeps =>
    rw [hr] at hreceived
    obtain ⟨w, hvalue⟩ := hreceived
    exact Outcome.Describes.unpushed hvalue h.ne_nil hnone (ih o _ h)
  | pushes o' =>
    rw [hr] at hreceived
    obtain ⟨node, w, hnode, hvalue⟩ := hreceived
    exact Outcome.Describes.pushed hvalue h.ne_nil hnone (ih o' _ (h.push hnode))
  | exits =>
    rw [hr] at hreceived
    rw [show upkJsonValue _ _ _ _ = _ from hreceived]
    exact ⟨⟨trivial, by simp⟩, rfl⟩
  | faults =>
    rw [hr] at hreceived
    obtain ⟨f, hf⟩ := hreceived
    rw [hf]
    exact fun hkeeps => hkeeps.1

end Owner.OnTop

section

variable (passwd)

mutual

theorem outcome_spec : ∀ (o : Owner) (key : Option CStr) (v : Json) (m : ConfMeta), o.OnTop m.stack →
    (outcome o key v).Describes m (KeepsStack (confCalls passwd) key v m) (upkJsonParseNode (confCalls passwd) key v m)
  | _, key, .object es, _, h => h.container key (.object es) (fun node hnode => (h.2 node hnode).1) fun o' m' h' =>
      objOutcome_spec o' es m' h'
  | _, key, .array vs, _, h => h.container key (.array vs) (fun node hnode => (h.2 node hnode).2) fun o' m' h' =>
      arrayOutcome_spec o' vs m' h'
  | _, key, .null, _, h => h.scalar key rfl
  | _, key, .bool _, _, h => h.scalar key rfl
  | _, key, .double _, _, h => h.scalar key rfl
  | _, key, .int _, _, h => h.scalar key rfl
  | _, key, .string _, _, h => h.scalar key rfl

theorem arrayOutcome_spec : ∀ (o : Owner) (vs : List Json) (m : ConfMeta), o.OnTop m.stack →
    (arrayOutcome o vs).Describes m (ArrayKeepsStack (confCalls passwd) vs m) (upkJsonParseArray (confCalls passwd) vs m)
  | _, [], m, _ => ⟨trivial, m.world, rfl⟩
  | o, v :: vs, m, h => (outcome_spec o none v m h).andThen fun w => arrayOutcome_spec o vs { m with world := w } h

theorem objOutcome_spec : ∀ (o : Owner) (es : List (CStr × Json)) (m : ConfMeta), o.OnTop m.stack →
    (objOutcome o es).Describes m (ObjKeepsStack (confCalls passwd) es m) (upkJsonParseObj (confCalls passwd) es m)
  | _, [], m, _ => ⟨trivial, m.world, rfl⟩
  | o, e :: es, m, h => (entryOutcome_spec o e m h).andThen fun w => objOutcome_spec o es { m with world := w } h

theorem entryOutcome_spec : ∀ (o : Owner) (e : CStr × Json) (m : ConfMeta), o.OnTop m.stack →
    (entryOutcome o e).Describes m (EntryKeepsStack (confCalls passwd) e m) (upkJsonParseEntry (confCalls passwd) e m)
  | o, (key, v), m, h => outcome_spec o (some key) v m h

end

end

/-! ### Services: nothing exits -/

/-- The owners below a controller configuration's own entries -/
def Owner.ofServices : Owner → Bool
  | .ctrlconfInit | .ctrlNode => false
  | _ => true

/-- A value for which `upk_fatal` is not called. In an array of the controller's the missing key comes first. -/
def Owner.NeverFatal (o : Owner) (key : Option CStr) : Prop := o.ofServices ∨ o = .ctrlNode ∧ key = none

theorem Outcome.unpushed_eq_lost {o : Outcome} (h : o ≠ .exits) : o.unpushed = .lost := by
  cases o with
  | exits => exact absurd rfl h
  | _ => rfl

theorem Outcome.andThen_ne_exits {o o' : Outcome} (h : o ≠ .exits) (h' : o' ≠ .exits) : o.andThen o' ≠ .exits := by
  cases o with
  | kept => exact h'
  | _ => exact h

namespace Owner.NeverFatal

variable {o o' : Owner} {key : Option CStr} {v : Json}

theorem receives (h : o.NeverFatal key) : o.receives key v ≠ .exits := by
  rcases h with h | ⟨rfl, rfl⟩
  · cases o with
    | ctrlconfInit | ctrlNode => simp [ofServices] at h
    | _ => cases key <;> cases v <;> simp only [Owner.receives] <;> first | (split <;> simp) | simp
  · cases v <;> simp [Owner.receives]

theorem pushes (h : o.NeverFatal key) (hpush : o.receives key v = .pushes o') : o'.ofServices := by
  rcases h with h | ⟨rfl, rfl⟩
  · cases o with
    | ctrlconfInit | ctrlNode => simp [ofServices] at h
    | _ => cases key <;> cases v <;> grind [Owner.receives, ofServices]
  · cases v <;> simp [Owner.receives] at hpush

theorem object {es : List (CStr × Json)} (h : o.NeverFatal key) (hkeeps : o.receives key (.object es) = .keeps) :
    o.ofServices := by
  rcases h with h | ⟨rfl, rfl⟩
  · exact h
  · simp [Owner.receives] at hkeeps

theorem array (h : o.NeverFatal key) : o.NeverFatal none := h.imp_right fun h => ⟨h.1, rfl⟩

theorem ends (h : o.NeverFatal key) : (o.receives key v).ends ≠ .exits := by
  have hreceives := h.receives (v := v)
  cases hr : o.receives key v with
  | exits => exact absurd hr hreceives
  | _ => simp [Receipt.ends]

theorem around (h : o.NeverFatal key) {children : Owner → Outcome}
    (hpushes : ∀ o', o'.ofServices → children o' ≠ .exits)
    (hkeeps : o.receives key v = .keeps → children o ≠ .exits) :
    (o.receives key v).around o children ≠ .exits := by
  cases hr : o.receives key v with
  | keeps =>
    rw [show Receipt.keeps.around o children = _ from Outcome.unpushed_eq_lost (hkeeps hr)]
    simp
  | pushes o' => exact hpushes o' (h.pushes hr)
  | exits => exact absurd hr h.receives
  | faults => simp [Receipt.around]

end Owner.NeverFatal

mutual

theorem outcome_ne_exits : ∀ (o : Owner) (key : Option CStr) (v : Json), o.NeverFatal key → outcome o key v ≠ .exits
  | _, _, .object es, h =>
    h.around (fun o' ho' => objOutcome_ne_exits o' es ho') fun hkeeps => objOutcome_ne_exits _ es (h.object hkeeps)
  | _, _, .array vs, h =>
    h.around (fun o' ho' => arrayOutcome_ne_exits o' vs (.inl ho')) fun _ => arrayOutcome_ne_exits _ vs h.array
  | _, _, .null, h => h.ends
  | _, _, .bool _, h => h.ends
  | _, _, .double _, h => h.ends
  | _, _, .int _, h => h.ends
  | _, _, .string _, h => h.ends

theorem arrayOutcome_ne_exits : ∀ (o : Owner) (vs : List Json), o.NeverFatal none → arrayOutcome o vs ≠ .exits
  | _, [], _ => by simp [arrayOutcome]
  | o, v :: vs, h => Outcome.andThen_ne_exits (outcome_ne_exits o none v h) (arrayOutcome_ne_exits o vs h)

theorem objOutcome_ne_exits : ∀ (o : Owner) (es : List (CStr × Json)), o.ofServices → objOutcome o es ≠ .exits
  | _, [], _ => by simp [objOutcome]
  | o, e :: es, h => Outcome.andThen_ne_exits (entryOutcome_ne_exits o e h) (objOutcome_ne_exits o es h)

theorem entryOutcome_ne_exits : ∀ (o : Owner) (e : CStr × Json), o.ofServices → entryOutcome o e ≠ .exits
  | o, (key, v), h => outcome_ne_exits o (some key) v (.inl h)

end

/-! ### What a configuration may look like -/

/-- An entry of a service -/
def serviceEntryFits : CStr × Json → Bool
  | (key, .string s) =>
    !decide (matchKey svcStringKeys key = some .longDescription) || decide (s.chars.length ≤ longDescriptionMax)
  | (key, .array vs) => (matchKey svcidKeys key).isSome && vs.all Json.isScalar
  | (key, .object es) => key.strcasecmpEq (cstr "CustomActions") && es.all fun e => e.2.isScalar
  | _ => true

/-- An entry of a file of services -/
def svcconfEntryFits : CStr × Json → Bool
  | (_, .array _) => false
  | (_, .object es) => es.all serviceEntryFits
  | _ => true

/-- A file of services -/
def svcconfFits : Json → Bool
  | .array _ => false
  | .object es => es.all svcconfEntryFits
  | _ => true

/-- Kept or lost -/
def Outcome.keptIf (b : Bool) : Outcome := if b then .kept else .lost

theorem Outcome.keptIf_andThen (b c : Bool) : (keptIf b).andThen (keptIf c) = keptIf (b && c) := by
  cases b <;> rfl

theorem arrayOutcome_eq {o : Owner} {p : Json → Bool} {vs : List Json}
    (h : ∀ v, outcome o none v = .keptIf (p v)) : arrayOutcome o vs = .keptIf (vs.all p) := by
  induction vs with
  | nil => rfl
  | cons v vs ih => rw [arrayOutcome, h, ih, Outcome.keptIf_andThen, List.all_cons]

theorem objOutcome_eq {o : Owner} {p : CStr × Json → Bool} {es : List (CStr × Json)}
    (h : ∀ e, entryOutcome o e = .keptIf (p e)) : objOutcome o es = .keptIf (es.all p) := by
  induction es with
  | nil => rfl
  | cons e es ih => rw [objOutcome, h, ih, Outcome.keptIf_andThen, List.all_cons]

theorem outcome_svcids (key : Option CStr) (v : Json) : outcome .svcids key v = .keptIf v.isScalar := by
  cases v with
  | array vs => exact Outcome.unpushed_eq_lost (arrayOutcome_ne_exits _ vs (.inl rfl))
  | object es => exact Outcome.unpushed_eq_lost (objOutcome_ne_exits _ es rfl)
  | _ => cases key <;> rfl

theorem entryOutcome_customActions (e : CStr × Json) : entryOutcome .customActions e = .keptIf e.2.isScalar := by
  obtain ⟨key, v⟩ := e
  cases v with
  | array vs => exact Outcome.unpushed_eq_lost (arrayOutcome_ne_exits _ vs (.inl rfl))
  | object es => exact Outcome.unpushed_eq_lost (objOutcome_ne_exits _ es rfl)
  | _ => rfl

theorem entryOutcome_service (e : CStr × Json) : entryOutcome .service e = .keptIf (serviceEntryFits e) := by
  obtain ⟨key, v⟩ := e
  simp only [entryOutcome, serviceEntryFits]
  cases v with
  | string s =>
    simp only [outcome, Owner.receives]
    grind [Receipt.ends, Outcome.keptIf]
  | array vs =>
    simp only [outcome, Owner.receives]
    cases matchKey svcidKeys key with
    | none => exact Outcome.unpushed_eq_lost (arrayOutcome_ne_exits _ vs (.inl rfl))
    | some l => exact arrayOutcome_eq (outcome_svcids none)
  | object es =>
    simp only [outcome, Owner.receives]
    cases key.strcasecmpEq (cstr "CustomActions") with
    | false => exact Outcome.unpushed_eq_lost (objOutcome_ne_exits _ es rfl)
    | true => exact objOutcome_eq entryOutcome_customActions
  | _ => rfl

theorem entryOutcome_svcNode (e : CStr × Json) : entryOutcome .svcNode e = .keptIf (svcconfEntryFits e) := by
  obtain ⟨key, v⟩ := e
  cases v with
  | array vs => exact Outcome.unpushed_eq_lost (arrayOutcome_ne_exits _ vs (.inl rfl))
  | object es => exact objOutcome_eq entryOutcome_service
  | _ => rfl

theorem outcome_svcconfInit (v : Json) : outcome .svcconfInit none v = .keptIf (svcconfFits v) := by
  cases v with
  | array vs => exact Outcome.unpushed_eq_lost (arrayOutcome_ne_exits _ vs (.inl rfl))
  | object es => exact objOutcome_eq entryOutcome_svcNode
  | _ => rfl

mutual

/-- A file of the controller. Its handlers call `upk_fatal` for a string or a number that they do not know. -/
def ctrlconfOutcome : Json → Outcome
  | .object es => ctrlEntriesOutcome es
  | .array vs => (ctrlconfsOutcome vs).unpushed
  | .null => .kept
  | .bool _ => .kept
  | .double _ => .kept
  | .int _ => .kept
  | .string _ => .kept
termination_by structural v => v

/-- In an array that should not be there, every element is taken for a file. -/
def ctrlconfsOutcome : List Json → Outcome
  | [] => .kept
  | v :: vs => (ctrlconfOutcome v).andThen (ctrlconfsOutcome vs)
termination_by structural vs => vs

def ctrlEntriesOutcome : List (CStr × Json) → Outcome
  | [] => .kept
  | e :: es => (ctrlEntryOutcome e).andThen (ctrlEntriesOutcome es)
termination_by structural es => es

def ctrlEntryOutcome : CStr × Json → Outcome
  | (key, v) => ctrlValueOutcome key v
termination_by structural e => e

/-- An entry of a file of the controller -/
def ctrlValueOutcome : CStr → Json → Outcome
  | key, .string _ => if (matchKey ctrlStringKeys key).isSome then .kept else .exits
  | key, .int _ => if (matchKey ctrlIntKeys key).isSome then .kept else .exits
  | key, .double _ => if key.strcasecmpEq (cstr "BuddyPollingInterval") then .kept else .exits
  | key, .object es =>
    if key.strcasecmpEq (cstr "ServiceDefaults") then .keptIf (es.all serviceEntryFits)
    -- the entries are taken for entries of the file
    else (ctrlEntriesOutcome es).unpushed
  | _, .array _ => .lost
  | _, .bool _ => .kept
  | _, .null => .kept
termination_by structural _ v => v

end

mutual

theorem outcome_ctrlconfInit : ∀ (key : Option CStr) (v : Json), outcome .ctrlconfInit key v = ctrlconfOutcome v
  | _, .object es => objOutcome_ctrlNode es
  | _, .array vs => congrArg Outcome.unpushed (arrayOutcome_ctrlconfInit vs)
  | _, .null => rfl
  | _, .bool _ => rfl
  | _, .double _ => rfl
  | _, .int _ => rfl
  | _, .string _ => rfl

theorem arrayOutcome_ctrlconfInit : ∀ vs : List Json, arrayOutcome .ctrlconfInit vs = ctrlconfsOutcome vs
  | [] => rfl
  | v :: vs => by rw [arrayOutcome, ctrlconfsOutcome, outcome_ctrlconfInit none v, arrayOutcome_ctrlconfInit vs]

theorem objOutcome_ctrlNode : ∀ es : List (CStr × Json), objOutcome .ctrlNode es = ctrlEntriesOutcome es
  | [] => rfl
  | e :: es => by rw [objOutcome, ctrlEntriesOutcome, entryOutcome_ctrlNode e, objOutcome_ctrlNode es]

theorem entryOutcome_ctrlNode : ∀ e : CStr × Json, entryOutcome .ctrlNode e = ctrlEntryOutcome e
  | (key, v) => outcome_ctrlNode key v

theorem outcome_ctrlNode : ∀ (key : CStr) (v : Json), outcome .ctrlNode (some key) v = ctrlValueOutcome key v
  | key, .object es => by
    simp only [outcome, Owner.receives, ctrlValueOutcome]
    split
    · exact objOutcome_eq entryOutcome_service
    · exact congrArg Outcome.unpushed (objOutcome_ctrlNode es)
  | _, .array vs => Outcome.unpushed_eq_lost (arrayOutcome_ne_exits .ctrlNode vs (.inr ⟨rfl, rfl⟩))
  | key, .string _ => by
    simp only [outcome, Owner.receives, ctrlValueOutcome]
    split <;> rfl
  | key, .int _ => by
    simp only [outcome, Owner.receives, ctrlValueOutcome]
    split <;> rfl
  | key, .double _ => by
    simp only [outcome, Owner.receives, ctrlValueOutcome]
    split <;> rfl
  | _, .bool _ => rfl
  | _, .null => rfl

end

/-! ### The stack is kept for documents that fit, and for no others -/

/-- The stack is kept all along the walk of a document that `upk_svcconf_pack` starts. -/
def KeepsSvcconf (passwd : CStr → Option (UInt32 × UInt32)) (cfg : ControllerConfig) (doc : Json) : Prop :=
  KeepsStack (confCalls passwd) none doc ⟨[svcconfInitNode], cfg⟩

/-- The stack is kept all along the walk of a document that `upk_ctrlconf_pack` starts. -/
def KeepsCtrlconf (passwd : CStr → Option (UInt32 × UInt32)) (cfg : ControllerConfig) (doc : Json) : Prop :=
  KeepsStack (confCalls passwd) none doc ⟨[ctrlconfInitNode], cfg⟩

theorem onTop_start {o : Owner} {node : ConfNode} (h : o.Has node) : o.OnTop [node] := by
  refine ⟨⟨node, [], rfl, h⟩, ?_⟩
  intro n hn
  obtain rfl := List.mem_singleton.mp hn
  exact h.noPopHandlers

/-- **The stack stays balanced** in the walk of a file of services that has its arrays and objects in their places only,
and in the walk of a file of the controller that has, up to the first setting that `upk_fatal` rejects. -/
theorem keepsStack_iff (passwd : CStr → Option (UInt32 × UInt32)) (cfg : ControllerConfig) (doc : Json) :
    (KeepsSvcconf passwd cfg doc ↔ svcconfFits doc) ∧ (KeepsCtrlconf passwd cfg doc ↔ ctrlconfOutcome doc ≠ .lost) := by
  have hsvcconf := outcome_spec passwd .svcconfInit none doc ⟨[svcconfInitNode], cfg⟩ (onTop_start rfl)
  have hctrlconf := outcome_spec passwd .ctrlconfInit none doc ⟨[ctrlconfInitNode], cfg⟩ (onTop_start rfl)
  rw [outcome_svcconfInit] at hsvcconf
  rw [outcome_ctrlconfInit] at hctrlconf
  refine ⟨hsvcconf.iff.trans ?_, hctrlconf.iff⟩
  cases svcconfFits doc <;> simp [Outcome.keptIf]

/-- `{"a": []}`: the array has the node of the file popped. -/
theorem not_keepsStack_array :
    ¬ ∀ passwd cfg doc, KeepsSvcconf passwd cfg doc ∧ KeepsCtrlconf passwd cfg doc := by
  intro h
  exact (h (fun _ => none) .zero (.object [(cstr "a", .array [])])).1.1

end Upkeeper
