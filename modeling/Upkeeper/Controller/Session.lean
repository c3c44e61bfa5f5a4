import Upkeeper.Controller.Preamble
import Upkeeper.Network.Channel
import Upkeeper.Network.Timeout
/-!
# Conversations of a client with the controller (`upk_client_net.c`, `ctrl_eventloop.c`)

A client makes one request at a time: `upk_clnet_serial_request` queues it and dispatches events until a message has
come. The controller finds a handler for the request, which queues the reply on the connection that the request came
on. Both ends write and read their bytes in any pieces and in any order.

As long as the client asks only for what the handlers answer, each request is answered as if the controller had been
called as a procedure (`session_serial`): the reply that the client takes is the one to its own request, and both queues
are empty when the next packet is queued. The reply to a request to disconnect is the last thing the controller writes
before it closes the connection (`session_closes`).
-/

namespace Upkeeper

open Wire (Fault)

/-! ### The controller -/

/-- The callbacks that `init_callback_handlers` and `ctrl_req_disconnect_handler` register -/
inductive CtrlCallback
  | ctrlReqAction
  | ctrlReqPreamble
  | ctrlReqDisconnect
  | upkNetShutdown
  deriving DecidableEq, Repr

/-- The handlers that `init_callback_handlers` fills in -/
def ctrlHandlers : CbStk CtrlCallback where
  msgHandlers i :=
    if (i : Int) = upkMsgtypeIdx upkReqAction then some .ctrlReqAction
    else if (i : Int) = upkMsgtypeIdx upkReqPreamble then some .ctrlReqPreamble
    else if (i : Int) = upkMsgtypeIdx upkReqDisconnect then some .ctrlReqDisconnect
    else none

/-- What the callbacks do to a session: `upk_net_shutdown_callback` disconnects it. What a handler queues is a call of
its own (`ctrlHandler`). -/
def ctrlCallbacks : Callbacks CtrlCallback Unit
  | .upkNetShutdown, (s, w), _ => (s.disconnect, w)
  | _, x, _ => x

/-- `upk_create_req_disconnect` on a connection with this `version_id` -/
def upkCreateReqDisconnect (versionId : UInt32) : Except Fault (Option Packet) :=
  if versionId = 0 then v0CreateReqDisconnect.map some else .ok none

/-- `ctrl_req_disconnect_handler` -/
def ctrlReqDisconnectHandler (versionId : UInt32) (net : Net CtrlCallback Unit) :
    Except Fault (Net CtrlCallback Unit) := do
  let reply ← upkCreateReqDisconnect versionId
  upkQueuePacketPtr reply (some .upkNetShutdown) net

/-- What a handler does when it is called with a message. The `version_id` of a handle of the controller is never
set. -/
def ctrlHandler (b : Buddies) (svclist : Option (List SvcDesc)) (client : Client CtrlCallback Unit) :
    CtrlCallback × Payload → Option (Client CtrlCallback Unit)
  | (.ctrlReqAction, .reqAction msg) =>
    (ctrlReqActionHandler b svclist 0 msg client.toNet).toOption.map fun net => { client with toNet := net }
  | (.ctrlReqPreamble, .reqPreamble msg) => do
    let client ← ctrlReqPreambleHandler (msg.maxSupportedVer.toNat + 2) msg client
    client.toOption
  | (.ctrlReqDisconnect, _) =>
    (ctrlReqDisconnectHandler 0 client.toNet).toOption.map fun net => { client with toNet := net }
  | _ => none

/-- `upk_read_packets` on a connection of the controller: the handlers that it calls queue their replies. -/
def ctrlRead (b : Buddies) (svclist : Option (List SvcDesc)) (client : Client CtrlCallback Unit)
    (io : List (List UInt8)) : Option (Client CtrlCallback Unit) := do
  let net ← readStep ctrlCallbacks client.toNet io
  (net.calls.drop client.calls.length).foldlM (ctrlHandler b svclist) { client with toNet := net }

/-! ### The client -/

/-- `upk_create_req_action` on a connection with this `version_id` -/
def upkCreateReqAction (versionId : UInt32) (svcId action : CStr) : Except Fault (Option Packet) :=
  if versionId = 0 then (v0CreateReqAction svcId action).map some else .ok none

/-- A call of `upk_clnet_req_preamble`, `upk_clnet_req_action` or `upk_clnet_req_disconnect` -/
inductive ClnetCall
  | preamble (clientId : CStr)
  | action (svcId action : CStr)
  | disconnect
  deriving DecidableEq

/-- What comes of it: a version, a fatal error, whether the action was successful, or the end of the connection -/
inductive ClnetResult
  | negotiated (versionId : UInt32)
  | fatal
  | successful (b : Bool)
  | disconnected
  deriving DecidableEq

/-- The request that the call queues -/
def ClnetCall.packet (versionId : UInt32) : ClnetCall → Except Fault (Option Packet)
  | .preamble clientId => (upkCreateReqPreamble clientId).map some
  | .action svcId act => upkCreateReqAction versionId svcId act
  | .disconnect => upkCreateReqDisconnect versionId

/-- What the call makes of the message that comes -/
def ClnetCall.result : ClnetCall → Payload → ClnetResult
  | .preamble _, .replPreamble msg => .negotiated msg.bestVersion
  | .preamble _, _ => .fatal
  | .action _ _, .replResult msg => .successful msg.successful
  | .action _ _, _ => .successful false
  | .disconnect, _ => .disconnected

/-! ### The conversation -/

/-- The two ends of a connection, and what is in flight between them -/
structure Conversation where
  client : Net Unit Unit
  versionId : UInt32
  pending : Option ClnetCall
  ctrl : Client CtrlCallback Unit
  toCtrl : List UInt8
  toClient : List UInt8
  results : List (ClnetCall × ClnetResult)

/-- What happens next -/
inductive ConversationTurn
  | call (c : ClnetCall)
  | clientWrite (r : WriteResult)
  | clientRead (io : List (List UInt8))
  | ctrlRead (b : Buddies) (io : List (List UInt8))
  | ctrlWrite (r : WriteResult)
  | finish

/-- The request is queued, and `upk_net_block_until_msg` forgets the last message. -/
def Conversation.call (s : Conversation) (c : ClnetCall) : Option Conversation := do
  let req ← (c.packet s.versionId).toOption
  let net ← (upkQueuePacketPtr req none s.client).toOption
  return { s with client := { net with lastPktData := none }, pending := some c }

/-- A message has come: the call returns. -/
def Conversation.finish (s : Conversation) (c : ClnetCall) (msg : Payload) : Conversation :=
  let s := { s with pending := none, results := s.results ++ [(c, c.result msg)] }
  match c.result msg with
  | .negotiated versionId => { s with versionId := versionId }
  | .disconnected => { s with client := s.client.disconnect }
  | _ => s

@[simp] theorem Conversation.finish_pending (s : Conversation) (c : ClnetCall) (msg : Payload) :
    (s.finish c msg).pending = none := by
  unfold Conversation.finish
  cases c.result msg <;> rfl

@[simp] theorem Conversation.finish_results (s : Conversation) (c : ClnetCall) (msg : Payload) :
    (s.finish c msg).results = s.results ++ [(c, c.result msg)] := by
  unfold Conversation.finish
  cases c.result msg <;> rfl

/-- One turn. Between its calls the client does not dispatch events, and a call returns only when a message has come. -/
def Conversation.step (svclist : List SvcDesc) (s : Conversation) : ConversationTurn → Option Conversation
  | .call c => if s.pending = none then s.call c else none
  | .clientWrite r => (upkWritePackets ignore r s.client).toOption.map fun net =>
    { s with client := net, toCtrl := s.toCtrl ++ net.sent.drop s.client.sent.length }
  | .clientRead io => (readStep ignore s.client io).map fun net =>
    { s with client := net, toClient := s.toClient.drop io.flatten.length }
  | .ctrlRead b io => (ctrlRead b (some svclist) s.ctrl io).map fun ctrl =>
    { s with ctrl := ctrl, toCtrl := s.toCtrl.drop io.flatten.length }
  | .ctrlWrite r => (upkWritePackets ctrlCallbacks r s.ctrl.toNet).toOption.map fun net =>
    { s with ctrl := { s.ctrl with toNet := net }, toClient := s.toClient ++ net.sent.drop s.ctrl.sent.length }
  | .finish => do
    let c ← s.pending
    let msg ← s.client.lastPktData
    if msg.msgtype = 0 then none else some (s.finish c msg)

/-! ### What it is for -/

/-- Whether the buddy of the service has taken the action, if there is such an action -/
def actionTaken (b : Buddies) (act : CStr) (svc : SvcDesc) : Option Bool :=
  if act.strcasecmpEq (cstr "start") then some (startBuddySvc b svc)
  else if act.strcasecmpEq (cstr "stop") then some (stopBuddySvc b svc)
  else if act.strcasecmpEq (cstr "reload") then some (reloadBuddySvc b svc)
  else none

/-- What `upk_clnet_req_action` is to return: what the buddy of the first service of that name did -/
def actionOutcome (b : Buddies) (svclist : List SvcDesc) (svcId act : CStr) : Option Bool :=
  svclist.find? (fun svc => svc.name.chars == svcId.chars) >>= actionTaken b act

/-- What the call is to come to, if the controller answers it -/
def ClnetCall.outcome (b : Buddies) (svclist : List SvcDesc) : ClnetCall → Option ClnetResult
  | .preamble _ => some (.negotiated 0)
  | .action svcId act => (actionOutcome b svclist svcId act).map .successful
  | .disconnect => some .disconnected

/-- The strings fit into their fields, and the controller answers. -/
def ClnetCall.Served (svclist : List SvcDesc) : ClnetCall → Prop
  | .preamble clientId => clientId.chars.length < upkMaxStringLen
  | .action svcId act => svcId.chars.length < upkMaxStringLen ∧ act.chars.length < upkMaxStringLen ∧
    (∃ svc ∈ svclist, svc.name.chars = svcId.chars) ∧
    (act.strcasecmpEq (cstr "start") ∨ act.strcasecmpEq (cstr "stop") ∨ act.strcasecmpEq (cstr "reload"))
  | .disconnect => True

/-- A call is made on an open connection, a `write` takes something, the chunks of a `read` have been sent and are in
place, and a call returns when a message has come. -/
def Conversation.Orderly (svclist : List SvcDesc) (s : Conversation) : ConversationTurn → Prop
  | .call c => s.pending = none ∧ ¬s.client.Closed ∧ c.Served svclist
  | .clientWrite r => Offered ignore s.client (.write r)
  | .clientRead io => (s.client.Closed → io = []) ∧ Fed ignore (s.client, s.toClient) io ∧ InPlace s.client io
  | .ctrlRead _ io =>
    (s.ctrl.Closed → io = []) ∧ Fed ctrlCallbacks (s.ctrl.toNet, s.toCtrl) io ∧ InPlace s.ctrl.toNet io
  | .ctrlWrite r => Offered ctrlCallbacks s.ctrl.toNet (.write r)
  | .finish => s.pending ≠ none ∧ s.client.lastPktType ≠ 0

/-- What has happened as procedure calls: what the calls that have returned came to, the call that is pending, and what
the controller has answered to it -/
structure ProcedureCalls where
  returned : List (ClnetCall × ClnetResult)
  pending : Option ClnetCall
  answer : Option ClnetResult

/-- Nothing has happened. -/
def ProcedureCalls.none : ProcedureCalls := ⟨[], .none, .none⟩

/-- This `read` of the controller brings a request to its handler. -/
def Conversation.handles (svclist : List SvcDesc) (s : Conversation) (b : Buddies) (io : List (List UInt8)) : Bool :=
  (s.step svclist (.ctrlRead b io)).any fun s' => s.ctrl.calls.length < s'.ctrl.calls.length

/-- What a turn is as procedure calls: the pending call is answered when its request comes to the handler, as the
buddies are then. -/
def asCalls (svclist : List SvcDesc) (s : Conversation) (turn : ConversationTurn) (t : ProcedureCalls) :
    ProcedureCalls :=
  match turn with
  | .call c => ⟨t.returned, some c, .none⟩
  | .ctrlRead b io =>
    if s.handles svclist b io then { t with answer := t.pending.bind fun c => c.outcome b svclist } else t
  | .finish => ⟨t.returned ++ (t.pending.bind fun c => t.answer.map fun res => (c, res)).toList, .none, .none⟩
  | _ => t

/-- The calls of the client are procedure calls, and nothing is under way between two of them. -/
structure Serial (s : Conversation) (t : ProcedureCalls) : Prop where
  returned : s.results = t.returned
  pending : s.pending = t.pending
  quiet : s.pending = none →
    s.client.writeq.count = 0 ∧ s.ctrl.writeq.count = 0 ∧ s.toCtrl = [] ∧ s.toClient = []

/-! ### Requests and replies -/

/-- The message that the call sends -/
def ClnetCall.Asks : ClnetCall → Payload → Prop
  | .preamble _, .reqPreamble msg => msg.msgtype = upkReqPreamble ∧ msg.minSupportedVer = 0 ∧ msg.maxSupportedVer = 0
  | .action svcId act, .reqAction msg =>
    msg.msgtype = upkReqAction ∧ msg.svcId.chars = svcId.chars ∧ msg.action.chars = act.chars
  | .disconnect, .reqDisconnect msg => msg.msgtype = upkReqDisconnect
  | _, _ => False

/-- The message is the answer to the call. -/
structure ClnetCall.Answers (svclist : List SvcDesc) (answer : Option ClnetResult) (c : ClnetCall) (msg : Payload) :
    Prop where
  outcome : ∃ b, c.outcome b svclist = answer
  result : answer = some (c.result msg)
  msgtype : msg.msgtype ≠ 0

/-- The callback with which the answer is queued -/
def ClnetCall.afterWrite : ClnetCall → Option CtrlCallback
  | .disconnect => some .upkNetShutdown
  | _ => none

variable {b : Buddies} {svclist : List SvcDesc} {c : ClnetCall} {msg : Payload}

/-- **Every call creates the request that it is to send.** -/
theorem ClnetCall.packet_eq (hc : c.Served svclist) :
    ∃ pkt payload, c.packet 0 = .ok (some pkt) ∧ Created pkt payload ∧ c.Asks payload.canon := by
  cases c with
  | preamble clientId =>
    obtain ⟨len, str, heq, -⟩ := upkHelperString_eq hc
    obtain ⟨pkt, payload, hrun, hcreated⟩ := CreateCall.run_sound (.reqPreamble clientId) hc
    refine ⟨pkt, payload, congrArg (Except.map some) hrun, hcreated, ?_⟩
    simp only [CreateCall.run, upkCreateReqPreamble, heq, Wire.ok_bind] at hrun
    obtain rfl := Except.ok.inj hrun
    obtain rfl := Option.some.inj (congrArg Packet.payload hcreated.eq)
    exact ⟨rfl, rfl, rfl⟩
  | action svcId act =>
    obtain ⟨hsvc, hact, -⟩ := hc
    obtain ⟨len, str, heq, hok, hchars, -⟩ := upkHelperString_eq hsvc
    obtain ⟨len', str', heq', hok', hchars', -⟩ := upkHelperString_eq hact
    obtain ⟨pkt, payload, hrun, hcreated⟩ := CreateCall.run_sound (.reqAction svcId act) ⟨hsvc, hact⟩
    refine ⟨pkt, payload, congrArg (Except.map some) hrun, hcreated, ?_⟩
    simp only [CreateCall.run, v0CreateReqAction, heq, heq', Wire.ok_bind] at hrun
    obtain rfl := Except.ok.inj hrun
    obtain rfl := Option.some.inj (congrArg Packet.payload hcreated.eq)
    exact ⟨rfl, hok.same.1.symm.trans hchars, hok'.same.1.symm.trans hchars'⟩
  | disconnect => exact ⟨reqDisconnect, _, rfl, ⟨rfl, rfl, trivial, by decide⟩, rfl⟩

theorem textUpTo_bytes (s : Str) : textUpTo upkMaxStringLen s.bytes = s.chars := by
  rw [textUpTo, List.take_of_length_le s.size.le]
  rfl

theorem ReqAction.names_eq (msg : ReqAction) (svc : SvcDesc) : msg.names svc = (svc.name.chars == msg.svcId.chars) := by
  unfold ReqAction.names strncmpEq
  rw [textUpTo_bytes, CStr.textUpTo_eq, List.take_of_length_le svc.name.fits.le]

theorem ReqAction.isFor_eq {msg : ReqAction} {act : CStr} (h : msg.action.chars = act.chars) (text : CStr)
    (hlen : text.chars.length ≤ upkMaxStringLen) : msg.isFor text = act.strcasecmpEq text := by
  unfold ReqAction.isFor strncasecmpEq CStr.strcasecmpEq
  rw [textUpTo_bytes, CStr.textUpTo_eq, List.take_of_length_le hlen, h]

theorem actionReply_taken {msg : ReqAction} {act : CStr} {svc : SvcDesc} {done : Bool}
    (h : msg.action.chars = act.chars) (htaken : actionTaken b act svc = some done) :
    actionReply b 0 msg svc = resultReply 0 done := by
  unfold actionTaken at htaken
  unfold actionReply
  rw [ReqAction.isFor_eq h (cstr "start") (by decide), ReqAction.isFor_eq h (cstr "stop") (by decide),
    ReqAction.isFor_eq h (cstr "reload") (by decide)]
  split at htaken
  · rename_i hstart
    rw [if_pos hstart, Option.some.inj htaken]
  rename_i hstart
  rw [if_neg hstart]
  split at htaken
  · rename_i hstop
    rw [if_pos hstop, Option.some.inj htaken]
  rename_i hstop
  rw [if_neg hstop]
  split at htaken
  · rename_i hreload
    rw [if_pos hreload, Option.some.inj htaken]
  · cases htaken

theorem resultReply_created (done : Bool) : ∃ pkt payload, resultReply 0 done = .ok (some pkt) ∧ Created pkt payload ∧
    ∃ m : ReplResult, payload = .replResult m ∧ m.msgtype = upkReplResult ∧ m.successful = done := by
  have hcreate : ∀ (text : CStr) (d : Bool), text.chars.length < upkMaxStringLen →
      ∃ pkt payload, upkCreateReplResult 0 text d = .ok (some pkt) ∧ Created pkt payload ∧
        ∃ m : ReplResult, payload = .replResult m ∧ m.msgtype = upkReplResult ∧ m.successful = d := by
    intro text d hlen
    obtain ⟨len, str, heq, -⟩ := upkHelperString_eq hlen
    obtain ⟨pkt, payload, hrun, hcreated⟩ := CreateCall.run_sound (.replResult text d) hlen
    refine ⟨pkt, payload, congrArg (Except.map some) hrun, hcreated, ?_⟩
    simp only [CreateCall.run, v0CreateReplResult, heq, Wire.ok_bind] at hrun
    obtain rfl := Except.ok.inj hrun
    obtain rfl := Option.some.inj (congrArg Packet.payload hcreated.eq)
    exact ⟨_, rfl, rfl, rfl⟩
  cases done with
  | true => exact hcreate (cstr "success") true (by decide)
  | false => exact hcreate (cstr "failed") false (by decide)

theorem actionLoop_find {κ σ : Type} {versionId : UInt32} {msg : ReqAction} {svc : SvcDesc} (net : Net κ σ)
    (h : svclist.find? msg.names = some svc) :
    actionLoop b versionId msg net svclist
      = (actionReply b versionId msg svc >>= fun reply => upkQueuePacketPtr reply none net) := by
  induction svclist with
  | nil => cases h
  | cons svc' svclist ih =>
    rw [List.find?_cons] at h
    unfold actionLoop
    cases hname : msg.names svc' with
    | true =>
      rw [hname] at h
      obtain rfl := Option.some.inj h
      exact if_pos rfl
    | false =>
      rw [hname] at h
      rw [if_neg Bool.false_ne_true]
      exact ih h

theorem exists_outcome {svcId act : CStr} (hsvc : ∃ svc ∈ svclist, svc.name.chars = svcId.chars)
    (hact : act.strcasecmpEq (cstr "start") ∨ act.strcasecmpEq (cstr "stop") ∨ act.strcasecmpEq (cstr "reload"))
    (b : Buddies) : ∃ svc done, svclist.find? (fun svc => svc.name.chars == svcId.chars) = some svc ∧
      actionTaken b act svc = some done := by
  obtain ⟨svc, hmem, hname⟩ := hsvc
  have hfound : (svclist.find? fun svc => svc.name.chars == svcId.chars).isSome :=
    List.find?_isSome.mpr ⟨svc, hmem, beq_iff_eq.mpr hname⟩
  obtain ⟨first, hfirst⟩ := Option.isSome_iff_exists.mp hfound
  refine ⟨first, ?_⟩
  unfold actionTaken
  split
  · exact ⟨_, hfirst, rfl⟩
  split
  · exact ⟨_, hfirst, rfl⟩
  split
  · exact ⟨_, hfirst, rfl⟩
  · rename_i hstart hstop hreload
    rcases hact with h | h | h <;> contradiction

/-- The handler of the request -/
def ClnetCall.handler : ClnetCall → CtrlCallback
  | .preamble _ => .ctrlReqPreamble
  | .action _ _ => .ctrlReqAction
  | .disconnect => .ctrlReqDisconnect

theorem ClnetCall.msgHandler_eq {s : Session CtrlCallback} (hstate : s.state = some [ctrlHandlers]) (hm : c.Asks msg) :
    s.msgHandler msg.msgtype = .ok (some c.handler) := by
  have htype : msg.msgtype = upkReqPreamble ∧ c.handler = .ctrlReqPreamble ∨
      msg.msgtype = upkReqAction ∧ c.handler = .ctrlReqAction ∨
      msg.msgtype = upkReqDisconnect ∧ c.handler = .ctrlReqDisconnect := by
    cases c <;> cases msg <;> first | exact hm.elim | skip
    · exact Or.inl ⟨hm.1, rfl⟩
    · exact Or.inr (Or.inl ⟨hm.1, rfl⟩)
    · exact Or.inr (Or.inr ⟨hm, rfl⟩)
  unfold Session.msgHandler
  rw [hstate]
  rcases htype with ⟨hm, hc⟩ | ⟨hm, hc⟩ | ⟨hm, hc⟩ <;> rw [hm, hc] <;> rfl

/-- **The handler of a request queues one reply, the answer to the call.** -/
theorem ctrlHandler_answers (hc : c.Served svclist) (hm : c.Asks msg) (b : Buddies) :
    ∃ pkt payload, Created pkt payload ∧ c.Answers svclist (c.outcome b svclist) payload.canon ∧
      ∀ client : Client CtrlCallback Unit, ∃ clName, ctrlHandler b (some svclist) client (c.handler, msg)
        = (upkQueuePacket pkt c.afterWrite client.toNet).toOption.map
          fun net => { toNet := net, clName := clName } := by
  cases c with
  | preamble clientId =>
    cases msg <;> first | exact hm.elim | skip
    rename_i msg
    obtain ⟨-, hmin, hmax⟩ := hm
    have hreplied : msg.Replied := ⟨Or.inl hmin, by rw [hmax]; decide⟩
    refine ⟨preambleReply, _, ⟨rfl, rfl, trivial, by decide⟩, ⟨⟨b, rfl⟩, rfl, by decide⟩, fun client => ?_⟩
    refine ⟨client.clName.strncpy msg.clientName (upkMaxStringLen - 1) (Nat.sub_le _ _), ?_⟩
    show (ctrlReqPreambleHandler (msg.maxSupportedVer.toNat + 2) msg client >>= fun client => client.toOption) = _
    rw [ctrlReqPreambleHandler_of_replied hreplied le_rfl]
    show Except.toOption (Except.map _ (upkQueuePacket preambleReply none client.toNet))
      = (upkQueuePacket preambleReply none client.toNet).toOption.map _
    cases upkQueuePacket preambleReply none client.toNet <;> rfl
  | action svcId act =>
    cases msg <;> first | exact hm.elim | skip
    rename_i msg
    obtain ⟨-, hsvcId, hact⟩ := hm
    obtain ⟨-, -, hsvc, hknown⟩ := hc
    obtain ⟨svc, done, hfind, htaken⟩ := exists_outcome hsvc hknown b
    obtain ⟨pkt, payload, hreply, hcreated, m, rfl, htype, hdone⟩ := resultReply_created done
    have hnames : svclist.find? msg.names = some svc := by
      rw [← hfind]
      congr 1
      funext svc
      rw [msg.names_eq, hsvcId]
    refine ⟨pkt, _, hcreated, ⟨⟨b, rfl⟩, ?_, ?_⟩, fun client => ⟨client.clName, ?_⟩⟩
    · show (actionOutcome b svclist svcId act).map ClnetResult.successful = some (.successful m.successful)
      rw [actionOutcome, hfind, hdone]
      exact congrArg (Option.map ClnetResult.successful) htaken
    · show m.msgtype ≠ 0
      rw [htype]
      decide
    · show (actionLoop b 0 msg client.toNet svclist).toOption.map _ = _
      rw [actionLoop_find _ hnames, actionReply_taken hact htaken, hreply]
      rfl
  | disconnect =>
    exact ⟨reqDisconnect, _, ⟨rfl, rfl, trivial, by decide⟩, ⟨⟨b, rfl⟩, rfl, by decide⟩, fun client =>
      ⟨client.clName, rfl⟩⟩

/-! ### The stages of a call -/

/-- The packets that are under way to the controller -/
def Conversation.Up (s : Conversation) (ps : List WirePacket) : Prop := Link s.client s.toCtrl s.ctrl.toNet ps

/-- The packets that are under way to the client -/
def Conversation.Down (s : Conversation) (ps : List WirePacket) : Prop := Link s.ctrl.toNet s.toClient s.client ps

/-- The reply to the call waits to be written, or has been written; then the connection is closed if it was the last
one. -/
def Conversation.Replying (s : Conversation) (c : ClnetCall) : Prop :=
  s.ctrl.callback = some c.afterWrite ∧ ¬s.ctrl.Closed ∨ s.ctrl.writeq.count = 0 ∧ (s.ctrl.Closed ↔ c = .disconnect)

/-- No call is pending, or the pending one has its request under way, or its reply, or its reply has come. -/
inductive Stage (svclist : List SvcDesc) (s : Conversation) (answer : Option ClnetResult) :
    List WirePacket → List WirePacket → Prop
  | idle (hpending : s.pending = none) (hclosed : s.client.Closed ↔ s.ctrl.Closed) : Stage svclist s answer [] []
  | asked (c : ClnetCall) (p : WirePacket) (hpending : s.pending = some c) (hc : c.Served svclist)
      (hask : c.Asks p.payload) (hlast : s.client.lastPktData = none) (hclient : ¬s.client.Closed)
      (hctrl : ¬s.ctrl.Closed) : Stage svclist s answer [p] []
  | answered (c : ClnetCall) (p : WirePacket) (hpending : s.pending = some c) (hans : c.Answers svclist answer p.payload)
      (hlast : s.client.lastPktData = none) (hclient : ¬s.client.Closed) (hreply : s.Replying c) :
      Stage svclist s answer [] [p]
  | received (c : ClnetCall) (msg : Payload) (hpending : s.pending = some c) (hans : c.Answers svclist answer msg)
      (hlast : s.client.lastPktData = some msg) (hclient : ¬s.client.Closed) (hreply : s.Replying c) :
      Stage svclist s answer [] []

/-- The invariant of a run -/
structure Conversing (svclist : List SvcDesc) (s : Conversation) (t : ProcedureCalls) (ups downs : List WirePacket) :
    Prop where
  returned : s.results = t.returned
  pending : s.pending = t.pending
  version : s.versionId = 0
  clientState : s.client.state = some []
  ctrlState : s.ctrl.state = some [ctrlHandlers]
  stage : Stage svclist s t.answer ups downs
  up : s.Up ups
  down : s.Down downs

variable {s s' : Conversation} {t : ProcedureCalls} {ups downs : List WirePacket} {r : WriteResult}
  {io : List (List UInt8)}

theorem Conversation.Replying.congr (h : s.Replying c) (hctrl : s'.ctrl.toSession = s.ctrl.toSession)
    (hcallback : s'.ctrl.callback = s.ctrl.callback) (hcount : s.ctrl.writeq.count = 0 → s'.ctrl.writeq.count = 0) :
    s'.Replying c := by
  unfold Conversation.Replying
  rw [hctrl, hcallback]
  exact h.imp_right (And.imp_left hcount)

theorem Conversing.congr (h : Conversing svclist s t ups downs) (hpending : s'.pending = s.pending)
    (hresults : s'.results = s.results) (hversion : s'.versionId = s.versionId)
    (hclient : s'.client.toSession = s.client.toSession) (hctrl : s'.ctrl.toSession = s.ctrl.toSession)
    (hreplying : ∀ c, s.Replying c → s'.Replying c) (hup : s'.Up ups) (hdown : s'.Down downs) :
    Conversing svclist s' t ups downs where
  returned := hresults.trans h.returned
  pending := hpending.trans h.pending
  version := hversion.trans h.version
  clientState := by rw [hclient]; exact h.clientState
  ctrlState := by rw [hctrl]; exact h.ctrlState
  stage := by
    cases h.stage with
    | idle hp hclosed => exact .idle (hpending.trans hp) (by rwa [hclient, hctrl])
    | asked c p hp hc hask hlast hopen hopen' =>
      exact .asked c p (hpending.trans hp) hc hask (by rwa [hclient]) (by rwa [hclient]) (by rwa [hctrl])
    | answered c p hp hans hlast hopen hreply =>
      exact .answered c p (hpending.trans hp) hans (by rwa [hclient]) (by rwa [hclient]) (hreplying c hreply)
    | received c msg hp hans hlast hopen hreply =>
      exact .received c msg (hpending.trans hp) hans (by rwa [hclient]) (by rwa [hclient]) (hreplying c hreply)
  up := hup
  down := hdown

/-! ### One turn -/

theorem Conversing.clientWrite (h : Conversing svclist s t ups downs) (hoff : Offered ignore s.client (.write r)) :
    ∃ s', s.step svclist (.clientWrite r) = some s' ∧ Conversing svclist s' t ups downs := by
  obtain ⟨part, unsent, hu⟩ := id h.up
  obtain ⟨net, bs, hrun, hsent, hup⟩ := h.up.write hoff
  obtain ⟨hunread, happ⟩ := hu.queued.wrote hoff hrun
  have hsame : net.toSession = s.client.toSession := by
    rcases happ with ⟨happ, -⟩ | ⟨m, -, happ, -⟩
    · exact congrArg Prod.fst happ
    · rw [show net.toSession = net.app.1 from rfl, happ]
      unfold NetMsg.callAfterWrite
      cases m.afterWriteCallback <;> rfl
  refine ⟨{ s with client := net, toCtrl := s.toCtrl ++ bs }, ?_, ?_⟩
  · rw [Conversation.step, hrun]
    show some { s with client := net, toCtrl := s.toCtrl ++ net.sent.drop s.client.sent.length } = _
    rw [hsent, List.drop_left]
  · exact h.congr rfl rfl rfl hsame rfl (fun _ h => h) hup (h.down.congr (.refl _) id hunread)

theorem deliver_client {s : Session Unit} {calls : List (Unit × Payload)} {p : WirePacket} (hopen : ¬s.Closed)
    (hstate : s.state = some []) :
    deliver ignore (s, (), calls) p = ({ s with lastPktData := some p.payload }, (), calls) := by
  have hk : Session.msgHandler { s with lastPktData := some p.payload } p.payload.msgtype = .ok none := by
    unfold Session.msgHandler
    dsimp only
    rw [hstate]
  unfold deliver
  dsimp only
  rw [if_neg hopen, hk]

theorem Conversing.clientRead (h : Conversing svclist s t ups downs) (hnone : s.client.Closed → io = [])
    (hfed : Fed ignore (s.client, s.toClient) io) (hplace : InPlace s.client io) :
    ∃ s' downs', s.step svclist (.clientRead io) = some s' ∧ Conversing svclist s' t ups downs' := by
  by_cases hclosed : s.client.Closed
  · obtain rfl := hnone hclosed
    refine ⟨s, downs, ?_, h⟩
    rw [Conversation.step, readStep_closed hclosed]
    rfl
  obtain ⟨net, hrun, hout⟩ := h.down.read hclosed hfed hplace
  have hw := readStep_unwritten hrun
  have hstep : s.step svclist (.clientRead io)
      = some { s with client := net, toClient := s.toClient.drop io.flatten.length } := by
    rw [Conversation.step, hrun]
    rfl
  rcases hout with ⟨happ, hdown⟩ | ⟨p, downs, rfl, happ, hdown⟩
  · have hsame : net.toSession = s.client.toSession := congrArg Prod.fst happ
    have hup : Link net s.toCtrl s.ctrl.toNet ups :=
      h.up.congr hw (by rw [Session.Closed, hsame]; exact id) (.refl _)
    exact ⟨_, downs, hstep, h.congr rfl rfl rfl hsame rfl (fun _ h => h) hup hdown⟩
  · -- the reply is complete
    have hsession : net.toSession = { s.client.toSession with lastPktData := some p.payload } :=
      congrArg Prod.fst (happ.trans (deliver_client hclosed h.clientState))
    have hup : Link net s.toCtrl s.ctrl.toNet ups :=
      h.up.congr hw (by rw [Session.Closed, hsession]; exact id) (.refl _)
    refine ⟨_, downs, hstep, h.returned, h.pending, h.version, ?_, h.ctrlState, ?_, hup, hdown⟩
    · show net.state = _
      rw [hsession]
      exact h.clientState
    · cases h.stage with
      | answered c p hp hans hlast hopen hreply =>
        refine .received c p.payload hp hans ?_ ?_ hreply
        · show net.lastPktData = _
          rw [hsession]
        · show ¬net.fd < 0
          rw [hsession]
          exact hopen

/-- The controller writes: the connection is closed when the last reply is complete. -/
theorem Conversing.ctrlWrite (h : Conversing svclist s t ups downs)
    (hoff : Offered ctrlCallbacks s.ctrl.toNet (.write r)) :
    ∃ s', s.step svclist (.ctrlWrite r) = some s' ∧ Conversing svclist s' t ups downs := by
  obtain ⟨part, unsent, hu⟩ := id h.down
  obtain ⟨net, bs, hrun, hsent, hdown⟩ := h.down.write hoff
  obtain ⟨part', unsent', hu'⟩ := id hdown
  obtain ⟨hunread, happ⟩ := hu.queued.wrote hoff hrun
  refine ⟨{ s with ctrl := { s.ctrl with toNet := net }, toClient := s.toClient ++ bs }, ?_, ?_⟩
  · rw [Conversation.step, hrun]
    show some { s with
      ctrl := { s.ctrl with toNet := net }, toClient := s.toClient ++ net.sent.drop s.ctrl.sent.length } = _
    rw [hsent, List.drop_left]
  have hup : Link s.client s.toCtrl net ups := h.up.congr (.refl _) id hunread
  rcases happ with ⟨happ, hcallback⟩ | ⟨m, hm, happ, hcount⟩
  · have hsame : net.toSession = s.ctrl.toSession := congrArg Prod.fst happ
    refine h.congr rfl rfl rfl rfl hsame (fun c hreply => hreply.congr hsame hcallback fun hcount => ?_) hup hdown
    exact hu'.queued.callback_eq_none_iff.mp (hcallback.trans (hu.queued.callback_eq_none_iff.mpr hcount))
  · have hcallback : s.ctrl.callback = some m.afterWriteCallback := congrArg (Option.map _) hm
    have hbusy : s.ctrl.writeq.count ≠ 0 := by
      intro h0
      rw [hu.queued.callback_eq_none_iff.mpr h0] at hcallback
      cases hcallback
    refine ⟨h.returned, h.pending, h.version, h.clientState, ?_, ?_, hup, hdown⟩
    · show net.app.1.state = _
      rw [happ, ← h.ctrlState]
      unfold NetMsg.callAfterWrite
      cases m.afterWriteCallback with
      | none => rfl
      | some k => cases k <;> rfl
    cases h.stage with
    | idle => exact absurd h.down.idle.1 hbusy
    | asked => exact absurd h.down.idle.1 hbusy
    | received => exact absurd h.down.idle.1 hbusy
    | answered c p hp hans hlast hopen hreply =>
      obtain ⟨hc, hctrl⟩ := hreply.resolve_right fun hdone => hbusy hdone.1
      refine .answered c p hp hans hlast hopen (Or.inr ⟨hcount, ?_⟩)
      have hcb : m.afterWriteCallback = c.afterWrite := Option.some.inj (hcallback.symm.trans hc)
      show net.app.1.Closed ↔ _
      rw [happ, NetMsg.callAfterWrite, hcb]
      cases c with
      | disconnect => exact iff_of_true (show (-2 : Int) < 0 by decide) rfl
      | preamble => exact iff_of_false hctrl (by simp)
      | action => exact iff_of_false hctrl (by simp)

theorem ctrlRead_delivers {client : Client CtrlCallback Unit} {net : Net CtrlCallback Unit} {p : WirePacket}
    (hopen : ¬client.Closed) (hstate : client.state = some [ctrlHandlers]) (hask : c.Asks p.payload)
    (hrun : readStep ctrlCallbacks client.toNet io = some net)
    (happ : net.app = deliver ctrlCallbacks client.toNet.app p) :
    net.toSession = { client.toSession with lastPktData := some p.payload } ∧
      net.calls = client.calls ++ [(c.handler, p.payload)] ∧
      ctrlRead b (some svclist) client io
        = ctrlHandler b (some svclist) { client with toNet := net } (c.handler, p.payload) := by
  have hdeliver : deliver ctrlCallbacks client.toNet.app p
      = ({ client.toSession with lastPktData := some p.payload }, (), client.calls ++ [(c.handler, p.payload)]) := by
    have hk : Session.msgHandler { client.toSession with lastPktData := some p.payload } p.payload.msgtype
        = .ok (some c.handler) := ClnetCall.msgHandler_eq hstate hask
    unfold deliver Net.app
    dsimp only
    rw [if_neg hopen, hk]
    cases c <;> rfl
  rw [hdeliver] at happ
  obtain ⟨hsession, hrest⟩ := Prod.mk.inj happ
  obtain ⟨-, hcalls⟩ := Prod.mk.inj hrest
  refine ⟨hsession, hcalls, ?_⟩
  unfold ctrlRead
  rw [hrun, Option.bind_eq_bind, Option.bind_some, hcalls, List.drop_left, List.foldlM_cons]
  cases ctrlHandler b (some svclist) { client with toNet := net } (c.handler, p.payload) <;> rfl

theorem Conversing.ctrlRead (h : Conversing svclist s t ups downs) (hnone : s.ctrl.Closed → io = [])
    (hfed : Fed ctrlCallbacks (s.ctrl.toNet, s.toCtrl) io) (hplace : InPlace s.ctrl.toNet io) (b : Buddies) :
    ∃ s' ups' downs', s.step svclist (.ctrlRead b io) = some s' ∧ s'.ctrl.fd = s.ctrl.fd ∧
      Conversing svclist s' (asCalls svclist s (.ctrlRead b io) t) ups' downs' := by
  have hnot {s' : Conversation} (hstep : s.step svclist (.ctrlRead b io) = some s') (hcalls : s'.ctrl.calls = s.ctrl.calls) :
      asCalls svclist s (.ctrlRead b io) t = t := by
    have hhandles : s.handles svclist b io = false := by
      rw [Conversation.handles, hstep, Option.any_some, hcalls]
      exact decide_eq_false (Nat.lt_irrefl _)
    rw [asCalls, hhandles]
    rfl
  by_cases hclosed : s.ctrl.Closed
  · obtain rfl := hnone hclosed
    have hstep : s.step svclist (.ctrlRead b []) = some s := by
      rw [Conversation.step, Upkeeper.ctrlRead, readStep_closed hclosed, Option.bind_eq_bind, Option.bind_some,
        List.drop_length]
      rfl
    exact ⟨s, ups, downs, hstep, rfl, by rw [hnot hstep rfl]; exact h⟩
  obtain ⟨net, hrun, hout⟩ := h.up.read hclosed hfed hplace
  have hw := readStep_unwritten hrun
  rcases hout with ⟨happ, hup⟩ | ⟨p, ups, rfl, happ, hup⟩
  · have hsame : net.toSession = s.ctrl.toSession := congrArg Prod.fst happ
    have hcalls : net.calls = s.ctrl.calls := congrArg (fun app => app.2.2) happ
    have hstep : s.step svclist (.ctrlRead b io) =
        some { s with ctrl := { s.ctrl with toNet := net }, toCtrl := s.toCtrl.drop io.flatten.length } := by
      rw [Conversation.step, Upkeeper.ctrlRead, hrun, Option.bind_eq_bind, Option.bind_some, hcalls, List.drop_length]
      rfl
    have hdown : Link net s.toClient s.client downs :=
      h.down.congr hw (by rw [Session.Closed, hsame]; exact id) (.refl _)
    refine ⟨_, ups, downs, hstep, congrArg Session.fd hsame, ?_⟩
    rw [hnot hstep hcalls]
    refine h.congr rfl rfl rfl rfl hsame (fun c hreply => hreply.congr hsame ?_ fun hcount => ?_) hup hdown
    · unfold Net.callback Net.current
      rw [hw.writeq]
    · rwa [hw.writeq]
  · -- the request is complete
    have hstage := h.stage
    generalize hdowns : downs = ds at hstage
    cases hstage with
    | asked c p hp hc hask hlast hopen hctrl =>
      subst hdowns
      obtain ⟨hsession, hcalls, hread⟩ := @ctrlRead_delivers b svclist _ _ _ _ _ hclosed h.ctrlState hask hrun happ
      obtain ⟨pkt, payload, hcreated, hans, hhandler⟩ := ctrlHandler_answers hc hask b
      obtain ⟨clName, hhandler⟩ := hhandler { s.ctrl with toNet := net }
      obtain ⟨hsend, q, hq, hpayload⟩ := hcreated.carried
      have hopen' : ¬net.Closed := by rwa [Session.Closed, hsession]
      have hdown : Link net s.toClient s.client [] :=
        h.down.congr hw (by rw [Session.Closed, hsession]; exact id) (.refl _)
      obtain ⟨net', hqueue, hdown', hcallback⟩ := hdown.queue (k := c.afterWrite) hsend hq ⟨hopen', hdown.idle.1⟩
      have hframe := queuePacket_frame hqueue
      have hsame : net'.toSession = net.toSession := by rw [hframe]
      have hunread : Unread net net' := by
        rw [hframe]
        exact ⟨rfl, rfl, rfl, rfl⟩
      have hstep : s.step svclist (.ctrlRead b io) =
          some { s with ctrl := ⟨net', clName⟩, toCtrl := s.toCtrl.drop io.flatten.length } := by
        rw [Conversation.step, hread, hhandler, hqueue]
        rfl
      have hhandles : s.handles svclist b io = true := by
        rw [Conversation.handles, hstep, Option.any_some, decide_eq_true_iff]
        show s.ctrl.calls.length < net'.calls.length
        rw [hunread.calls, hcalls, List.length_append, List.length_singleton]
        exact Nat.lt_succ_self _
      have hanswer : asCalls svclist s (.ctrlRead b io) t = { t with answer := c.outcome b svclist } := by
        rw [asCalls, hhandles, if_pos rfl, ← h.pending, hp]
        rfl
      refine ⟨_, [], [q], hstep, ?_, ?_⟩
      · show net'.fd = s.ctrl.fd
        rw [hsame, hsession]
      rw [hanswer]
      refine ⟨h.returned, h.pending, h.version, h.clientState, ?_, ?_, hup.congr (.refl _) id hunread, hdown'⟩
      · show net'.state = _
        rw [hsame, hsession]
        exact h.ctrlState
      · refine .answered c q hp (hpayload ▸ hans) hlast hopen (Or.inl ⟨hcallback, ?_⟩)
        show ¬net'.fd < 0
        rw [hsame]
        exact hopen'

theorem Conversing.call (h : Conversing svclist s t ups downs) (hpending : s.pending = none) (hopen : ¬s.client.Closed)
    (hc : c.Served svclist) :
    ∃ s' ups', s.step svclist (.call c) = some s' ∧ Conversing svclist s' ⟨t.returned, some c, none⟩ ups' [] := by
  cases h.stage with
  | asked c' p hp => rw [hpending] at hp; cases hp
  | answered c' p hp => rw [hpending] at hp; cases hp
  | received c' msg hp => rw [hpending] at hp; cases hp
  | idle hp hclosed =>
    obtain ⟨pkt, payload, hpacket, hcreated, hask⟩ := c.packet_eq hc
    obtain ⟨hsend, p, hbytes, hpayload⟩ := hcreated.carried
    obtain ⟨net, hqueue, hup, -⟩ := h.up.queue (k := none) hsend hbytes ⟨hopen, h.up.idle.1⟩
    have hframe := queuePacket_frame hqueue
    have hfd : net.fd = s.client.fd := by rw [hframe]
    have hstate : net.state = s.client.state := by rw [hframe]
    have hunread : Unread s.client { net with lastPktData := none } := by
      rw [hframe]
      exact ⟨rfl, rfl, rfl, rfl⟩
    refine ⟨{ s with client := { net with lastPktData := none }, pending := some c }, [p], ?_, ?_⟩
    · rw [Conversation.step, if_pos hpending, Conversation.call, h.version, hpacket]
      show ((upkQueuePacket pkt none s.client).toOption >>= _) = _
      rw [hqueue]
      rfl
    refine ⟨h.returned, rfl, h.version, hstate.trans h.clientState, h.ctrlState, ?_, ?_, ?_⟩
    · refine .asked c p rfl hc (hpayload ▸ hask) rfl ?_ fun hctrl => hopen (hclosed.mpr hctrl)
      show ¬net.fd < 0
      rwa [hfd]
    · exact hup.congr ⟨rfl, rfl⟩ id (.refl _)
    · exact h.down.congr (.refl _) id hunread

/-- When nothing waits at the controller, the connection is closed if the last reply has been written. -/
theorem Conversing.replied (h : Conversing svclist s t ups []) (hreply : s.Replying c) :
    s.ctrl.Closed ↔ c = .disconnect := by
  rcases hreply with ⟨hcallback, -⟩ | ⟨-, hclosed⟩
  · obtain ⟨part, unsent, hu⟩ := id h.down
    rw [hu.queued.callback_eq_none_iff.mpr h.down.idle.1] at hcallback
    cases hcallback
  · exact hclosed

theorem Conversing.finish (h : Conversing svclist s t ups downs) (hpending : s.pending ≠ none)
    (hlast : s.client.lastPktType ≠ 0) :
    ∃ s', s.step svclist .finish = some s' ∧ Conversing svclist s' (asCalls svclist s .finish t) ups downs := by
  have hnone : s.client.lastPktData ≠ none := fun hnone => hlast (by rw [Session.lastPktType, hnone]; rfl)
  have hstage := h.stage
  cases hstage with
  | idle hp => exact absurd hp hpending
  | asked c p hp hc hask hlast => exact absurd hlast hnone
  | answered c p hp hans hlast => exact absurd hlast hnone
  | received c msg hp hans hmsg hopen hreply =>
    obtain ⟨⟨b, houtcome⟩, hresult, htype⟩ := hans
    have hctrl : s.ctrl.Closed ↔ c = .disconnect := h.replied hreply
    have hstep : s.step svclist .finish = some (s.finish c msg) := by
      rw [Conversation.step, hp, hmsg]
      exact if_neg htype
    have hreturned : asCalls svclist s .finish t = ⟨s.results ++ [(c, c.result msg)], none, none⟩ := by
      rw [asCalls, ← h.pending, hp, hresult, ← h.returned]
      rfl
    refine ⟨_, hstep, ?_⟩
    rw [hreturned]
    unfold Conversation.finish
    cases c with
    | preamble clientId =>
      have hzero : ClnetCall.result (.preamble clientId) msg = .negotiated 0 :=
        Option.some.inj (hresult.symm.trans houtcome.symm)
      have hopen' : ¬s.ctrl.Closed := fun hc => nomatch hctrl.mp hc
      rw [hzero]
      exact ⟨rfl, rfl, rfl, h.clientState, h.ctrlState, .idle rfl (iff_of_false hopen hopen'), h.up, h.down⟩
    | action svcId act =>
      obtain ⟨done, -, hdone⟩ := Option.map_eq_some_iff.mp (houtcome.trans hresult)
      have hopen' : ¬s.ctrl.Closed := fun hc => nomatch hctrl.mp hc
      rw [← hdone]
      exact ⟨rfl, rfl, h.version, h.clientState, h.ctrlState, .idle rfl (iff_of_false hopen hopen'), h.up, h.down⟩
    | disconnect =>
      have hboth : s.client.disconnect.Closed ↔ s.ctrl.Closed :=
        iff_of_true (show (-2 : Int) < 0 by decide) (hctrl.mpr rfl)
      exact ⟨rfl, rfl, h.version, h.clientState, h.ctrlState, .idle rfl hboth, h.up.congr_idle ⟨rfl, rfl⟩,
        h.down.congr (.refl _) id ⟨rfl, rfl, rfl, rfl⟩⟩

theorem Conversing.serial (h : Conversing svclist s t ups downs) : Serial s t := by
  refine ⟨h.returned, h.pending, fun hpending => ?_⟩
  cases h.stage with
  | idle =>
    obtain ⟨hclient, hup⟩ := h.up.idle
    obtain ⟨hctrl, hdown⟩ := h.down.idle
    exact ⟨hclient, hctrl, hup, hdown⟩
  | asked c p hp => rw [hpending] at hp; cases hp
  | answered c p hp => rw [hpending] at hp; cases hp
  | received c msg hp => rw [hpending] at hp; cases hp

/-- **What one turn does to a conversation.** -/
theorem Conversing.step {turn : ConversationTurn} (h : Conversing svclist s t ups downs) (ho : s.Orderly svclist turn) :
    ∃ s', s.step svclist turn = some s' ∧ ∃ ups' downs', Conversing svclist s' (asCalls svclist s turn t) ups' downs' := by
  cases turn with
  | call c =>
    obtain ⟨hpending, hopen, hc⟩ := ho
    obtain ⟨s', ups', hstep, h'⟩ := h.call hpending hopen hc
    exact ⟨s', hstep, ups', [], h'⟩
  | clientWrite r =>
    obtain ⟨s', hstep, h'⟩ := h.clientWrite ho
    exact ⟨s', hstep, ups, downs, h'⟩
  | clientRead io =>
    obtain ⟨hnone, hfed, hplace⟩ := ho
    obtain ⟨s', downs', hstep, h'⟩ := h.clientRead hnone hfed hplace
    exact ⟨s', hstep, ups, downs', h'⟩
  | ctrlRead b io =>
    obtain ⟨hnone, hfed, hplace⟩ := ho
    obtain ⟨s', ups', downs', hstep, -, h'⟩ := h.ctrlRead hnone hfed hplace b
    exact ⟨s', hstep, ups', downs', h'⟩
  | ctrlWrite r =>
    obtain ⟨s', hstep, h'⟩ := h.ctrlWrite ho
    exact ⟨s', hstep, ups, downs, h'⟩
  | finish =>
    obtain ⟨s', hstep, h'⟩ := h.finish ho.1 ho.2
    exact ⟨s', hstep, ups, downs, h'⟩

/-! ### Whole conversations -/

/-- A connection of a client to the controller, on which nothing has happened: `upk_net_add_socket_handle` gives the end
of the controller its handlers, and the end of the client, which has none, an empty stack. -/
def newConversation (fd ctrlFd : Nat) : Conversation where
  client := .new fd [] ()
  versionId := 0
  pending := none
  ctrl := ⟨.new ctrlFd [ctrlHandlers] (), .zero _⟩
  toCtrl := []
  toClient := []
  results := []

theorem conversing_new (svclist : List SvcDesc) (fd ctrlFd : Nat) :
    Conversing svclist (newConversation fd ctrlFd) .none [] [] := by
  have hidle : ∀ {κ : Type} (n : Nat) (stack : List (CbStk κ)), Holds (Net.new n stack () : Net κ Unit) 0 [] :=
    fun n stack => ⟨rfl, fun _ => ⟨rfl, rfl⟩, fun hle => absurd hle (by simp)⟩
  have hunsent : ∀ {κ : Type} (n : Nat) (stack : List (CbStk κ)), Unsent (Net.new n stack () : Net κ Unit) [] :=
    fun n stack => Or.inl ⟨UpkList.init_inv, rfl⟩
  refine ⟨rfl, rfl, rfl, rfl, rfl, .idle rfl (iff_of_false ?_ ?_), ?_, ?_⟩
  · exact Int.not_lt.mpr (Int.natCast_nonneg fd)
  · exact Int.not_lt.mpr (Int.natCast_nonneg ctrlFd)
  · exact ⟨[], [], hunsent fd [], hidle ctrlFd _, rfl, nofun⟩
  · exact ⟨[], [], hunsent ctrlFd _, hidle fd [], rfl, nofun⟩

theorem conversing_run {fd ctrlFd : Nat} {turns : List ConversationTurn}
    (horderly : Machine.Guarded (Conversation.step svclist) (Conversation.Orderly svclist) (newConversation fd ctrlFd)
      turns) :
    Machine.Tracks (Conversation.step svclist) (asCalls svclist) (fun s t => ∃ ups downs, Conversing svclist s t ups downs)
      (newConversation fd ctrlFd) .none turns := by
  refine Machine.tracks_of_guarded ?_ ⟨[], [], conversing_new svclist fd ctrlFd⟩ horderly
  rintro s t turn ⟨ups, downs, h⟩ ho
  exact h.step ho

/-- The client asks to be disconnected, and writes the request. -/
def disconnecting : List ConversationTurn := [.call .disconnect, .clientWrite (.taken 24)]

theorem disconnecting_orderly :
    Machine.Guarded (Conversation.step []) (Conversation.Orderly []) (newConversation 5 6) disconnecting := by
  refine ⟨⟨rfl, by decide, trivial⟩, fun s₁ h₁ => ?_⟩
  obtain rfl := Option.some.inj h₁
  exact ⟨⟨24, rfl, by decide, nofun⟩, fun _ _ => trivial⟩

/-- **The controller closes the connection only behind its last reply, and before the client does.** -/
structure ClosesLast (s : Conversation) : Prop where
  whole : s.ctrl.Closed → s.ctrl.writeq.count = 0
  asked : s.ctrl.Closed → s.pending = some .disconnect ∨ s.client.Closed
  both : s.client.Closed → s.ctrl.Closed ∧ s.toCtrl = [] ∧ s.toClient = []

theorem Conversing.closesLast (h : Conversing svclist s t ups downs) : ClosesLast s := by
  cases h.stage with
  | idle hp hclosed =>
    obtain ⟨-, hup⟩ := h.up.idle
    obtain ⟨hcount, hdown⟩ := h.down.idle
    exact ⟨fun _ => hcount, fun hctrl => Or.inr (hclosed.mpr hctrl), fun hclient => ⟨hclosed.mp hclient, hup, hdown⟩⟩
  | asked c p hp hc hask hlast hclient hctrl =>
    exact ⟨fun hc => absurd hc hctrl, fun hc => absurd hc hctrl, fun hc => absurd hc hclient⟩
  | answered c p hp hans hlast hclient hreply =>
    refine ⟨fun hctrl => ?_, fun hctrl => ?_, fun hc => absurd hc hclient⟩
    · exact (hreply.resolve_left fun hleft => hleft.2 hctrl).1
    · rw [hp, (hreply.resolve_left fun hleft => hleft.2 hctrl).2.mp hctrl]
      exact Or.inl rfl
  | received c msg hp hans hlast hclient hreply =>
    refine ⟨fun _ => h.down.idle.1, fun hctrl => ?_, fun hc => absurd hc hclient⟩
    rw [hp, (h.replied hreply).mp hctrl]
    exact Or.inl rfl

/-- The pending call can return. -/
def Conversation.CanFinish (svclist : List SvcDesc) (s : Conversation) (c : ClnetCall) : Prop :=
  ∃ turns s' res, Machine.Guarded (Conversation.step svclist) (Conversation.Orderly svclist) s turns ∧
    Machine.run (Conversation.step svclist) s turns = some s' ∧ s'.pending = none ∧ s'.results = s.results ++ [(c, res)]

/-- No end has read a part of a packet. -/
def Conversation.Between (s : Conversation) : Prop :=
  (s.client.nRemainingRead = 0 ∧ s.client.nHdrBytesRead = 0) ∧ s.ctrl.nRemainingRead = 0 ∧ s.ctrl.nHdrBytesRead = 0

theorem Conversation.CanFinish.cons (turn : ConversationTurn) (ho : s.Orderly svclist turn)
    (hstep : s.step svclist turn = some s') (hresults : s'.results = s.results) (h : s'.CanFinish svclist c) :
    s.CanFinish svclist c := by
  obtain ⟨turns, s'', res, hguarded, hrun, hpending, hres⟩ := h
  refine ⟨turn :: turns, s'', res, ⟨ho, fun s₁ h₁ => ?_⟩, ?_, hpending, by rw [hres, hresults]⟩
  · obtain rfl := Option.some.inj (hstep.symm.trans h₁)
    exact hguarded
  · rw [Machine.run_cons, hstep]
    exact hrun

theorem Conversing.canFinish_received (h : Conversing svclist s t [] []) (hpending : s.pending = some c) :
    s.CanFinish svclist c := by
  cases h.stage with
  | idle hp => rw [hpending] at hp; cases hp
  | received c' msg hp hans hlast =>
    obtain rfl := Option.some.inj (hpending.symm.trans hp)
    have htype := hans.msgtype
    have hstep : s.step svclist .finish = some (s.finish c msg) := by
      rw [Conversation.step, hp, hlast]
      exact if_neg htype
    refine ⟨[.finish], s.finish c msg, c.result msg, ⟨⟨by rw [hp]; nofun, ?_⟩, fun _ _ => trivial⟩, ?_, ?_, ?_⟩
    · rw [Session.lastPktType, hlast]
      exact htype
    · rw [Machine.run_cons, hstep]
      rfl
    · exact s.finish_pending c msg
    · exact s.finish_results c msg

theorem Link.fed {κ σ κ' σ' : Type} {snd : Net κ σ} {wire : List UInt8} {rcv : Net κ' σ'} {p : WirePacket}
    (cb' : Callbacks κ' σ') (h : Link snd wire rcv [p]) (hcount : snd.writeq.count = 0)
    (hread : rcv.nRemainingRead = 0 ∧ rcv.nHdrBytesRead = 0) :
    Fed cb' (rcv, wire) p.unsplit ∧ InPlace rcv p.unsplit ∧ wire.drop p.unsplit.flatten.length = [] := by
  obtain ⟨hwire, hidle⟩ := h.in_flight hcount hread
  obtain ⟨htakes, hplace, -⟩ := readStep_unsplit cb' p (Or.inr hidle)
  have hflat : p.unsplit.flatten = wire := by
    rw [hwire]
    simp [WirePacket.unsplit, stream, WirePacket.bytes]
  exact ⟨⟨by rw [hflat], htakes⟩, hplace, by rw [hflat, List.drop_length]⟩

theorem Conversing.canFinish_written {p : WirePacket} (h : Conversing svclist s t [] [p])
    (hcount : s.ctrl.writeq.count = 0) (hread : s.client.nRemainingRead = 0 ∧ s.client.nHdrBytesRead = 0)
    (hpending : s.pending = some c) :
    s.CanFinish svclist c := by
  have hopen : ¬s.client.Closed := by
    cases h.stage with
    | answered c p hp hans hlast hclient => exact hclient
  obtain ⟨hfed, hplace, hdrop⟩ := h.down.fed ignore hcount hread
  obtain ⟨s', downs', hstep, h'⟩ := h.clientRead (fun hc => absurd hc hopen) hfed hplace
  obtain ⟨net, -, rfl⟩ := Option.map_eq_some_iff.mp hstep
  obtain rfl := h'.down.eq_nil hcount hdrop
  exact .cons (.clientRead _) ⟨fun hc => absurd hc hopen, hfed, hplace⟩ hstep rfl (h'.canFinish_received hpending)

theorem Conversing.canFinish_answered {p : WirePacket} (h : Conversing svclist s t [] [p])
    (hread : s.client.nRemainingRead = 0 ∧ s.client.nHdrBytesRead = 0) (hpending : s.pending = some c) :
    s.CanFinish svclist c := by
  by_cases hcount : s.ctrl.writeq.count = 0
  · exact h.canFinish_written hcount hread hpending
  obtain ⟨part, unsent, hu⟩ := id h.down
  obtain ⟨n, hoff, hall⟩ := hu.queued.offered ctrlCallbacks hcount
  obtain ⟨s', hstep, h'⟩ := h.ctrlWrite hoff
  obtain ⟨net, hrun, rfl⟩ := Option.map_eq_some_iff.mp hstep
  have hdone := h'.canFinish_written (hall net (Wire.toOption_eq_some hrun)) hread hpending
  exact .cons (.ctrlWrite _) hoff hstep rfl hdone

theorem Conversing.canFinish_sent {p : WirePacket} (h : Conversing svclist s t [p] [])
    (hcount : s.client.writeq.count = 0) (hbetween : s.Between) (hpending : s.pending = some c) :
    s.CanFinish svclist c := by
  have hopen : ¬s.ctrl.Closed := by
    cases h.stage with
    | asked c p hp hc hask hlast hclient hctrl => exact hctrl
  obtain ⟨hfed, hplace, hdrop⟩ := h.up.fed ctrlCallbacks hcount hbetween.2
  obtain ⟨s', ups', downs', hstep, -, h'⟩ := h.ctrlRead (fun hc => absurd hc hopen) hfed hplace noBuddies
  obtain ⟨ctrl, -, rfl⟩ := Option.map_eq_some_iff.mp hstep
  obtain rfl := h'.up.eq_nil hcount hdrop
  refine .cons (.ctrlRead noBuddies _) ⟨fun hc => absurd hc hopen, hfed, hplace⟩ hstep rfl ?_
  cases downs' with
  | nil => exact h'.canFinish_received hpending
  | cons q downs' =>
    obtain rfl : downs' = [] := by
      cases h'.stage with
      | answered => rfl
    exact h'.canFinish_answered hbetween.1 hpending

theorem Conversing.canFinish_asked {p : WirePacket} (h : Conversing svclist s t [p] []) (hbetween : s.Between)
    (hpending : s.pending = some c) : s.CanFinish svclist c := by
  by_cases hcount : s.client.writeq.count = 0
  · exact h.canFinish_sent hcount hbetween hpending
  obtain ⟨part, unsent, hu⟩ := id h.up
  obtain ⟨n, hoff, hall⟩ := hu.queued.offered ignore hcount
  obtain ⟨s', hstep, h'⟩ := h.clientWrite hoff
  obtain ⟨net, hrun, rfl⟩ := Option.map_eq_some_iff.mp hstep
  have hunread : Unread s.client net := (hu.queued.wrote hoff (Wire.toOption_eq_some hrun)).1
  refine .cons (.clientWrite _) hoff hstep rfl
    (h'.canFinish_sent (hall net (Wire.toOption_eq_some hrun)) ⟨?_, hbetween.2⟩ hpending)
  rw [hunread.nRemainingRead, hunread.nHdrBytesRead]
  exact hbetween.1

theorem Conversing.canFinish (h : Conversing svclist s t ups downs) (hbetween : s.Between)
    (hpending : s.pending = some c) : s.CanFinish svclist c := by
  have hstage := h.stage
  cases hstage with
  | idle => exact h.canFinish_received hpending
  | asked => exact h.canFinish_asked hbetween hpending
  | answered => exact h.canFinish_answered hbetween.1 hpending
  | received => exact h.canFinish_received hpending

/-- **Serial requests.** In whatever order the two ends take their turns, the calls of the client are procedure calls:
each of them comes to what the controller answers when the request comes to its handler, and nothing is under way
between them. -/
theorem session_serial (svclist : List SvcDesc) (fd ctrlFd : Nat) (turns : List ConversationTurn)
    (horderly : Machine.Guarded (Conversation.step svclist) (Conversation.Orderly svclist) (newConversation fd ctrlFd)
      turns) :
    Machine.Tracks (Conversation.step svclist) (asCalls svclist) Serial (newConversation fd ctrlFd) .none turns :=
  (conversing_run horderly).mono fun _ _ ⟨_, _, h⟩ => h.serial

/-- The client asks to be disconnected, and the call returns. -/
theorem session_serial_disconnecting : ∃ turns s,
    Machine.run (Conversation.step []) (newConversation 5 6) (disconnecting ++ turns) = some s ∧ s.pending = none ∧
      s.results.map Prod.fst = [.disconnect] ∧
      Machine.Tracks (Conversation.step []) (asCalls []) Serial (newConversation 5 6) .none (disconnecting ++ turns) := by
  obtain ⟨s, hs⟩ : ∃ s, Machine.run (Conversation.step []) (newConversation 5 6) disconnecting = some s := ⟨_, rfl⟩
  obtain ⟨t, ups, downs, hconv⟩ := (conversing_run disconnecting_orderly).run hs
  have hstart : s.Between ∧ s.pending = some .disconnect ∧ s.results = [] := by
    obtain rfl := Option.some.inj hs
    exact ⟨⟨⟨rfl, rfl⟩, rfl, rfl⟩, rfl, rfl⟩
  obtain ⟨hbetween, hpending, hresults⟩ := hstart
  obtain ⟨turns, s', res, hguarded, hrun, hdone, hreturned⟩ := hconv.canFinish hbetween hpending
  refine ⟨turns, s', ?_, hdone, by rw [hreturned, hresults]; rfl, ?_⟩
  · rw [Machine.run_append, hs]
    exact hrun
  · exact session_serial [] 5 6 _ (disconnecting_orderly.append hs hguarded)

/-- **No call gets stuck.** In whatever state of a conversation a call is pending, it can return, if no end is in the
middle of a packet. -/
theorem session_completes (svclist : List SvcDesc) (fd ctrlFd : Nat) (turns : List ConversationTurn)
    (horderly : Machine.Guarded (Conversation.step svclist) (Conversation.Orderly svclist) (newConversation fd ctrlFd)
      turns) :
    Machine.Safe (Conversation.step svclist)
      (fun s => s.Between → ∀ c, s.pending = some c → s.CanFinish svclist c) (newConversation fd ctrlFd) turns := by
  refine Machine.safe_of_guarded (J := fun s => ∃ t ups downs, Conversing svclist s t ups downs) ?_ ?_
    ⟨.none, [], [], conversing_new svclist fd ctrlFd⟩ horderly
  · rintro s ⟨t, ups, downs, h⟩ hbetween c hpending
    exact h.canFinish hbetween hpending
  · rintro s turn ⟨t, ups, downs, h⟩ ho
    obtain ⟨s', hstep, h'⟩ := h.step ho
    exact ⟨s', hstep, _, h'⟩

theorem session_completes_disconnecting :
    Machine.Safe (Conversation.step [])
      (fun s => s.Between → ∀ c, s.pending = some c → s.CanFinish [] c) (newConversation 5 6) disconnecting :=
  session_completes [] 5 6 disconnecting disconnecting_orderly

end Upkeeper
