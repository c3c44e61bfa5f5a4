import Upkeeper.Buddy.Types
import Upkeeper.Config.Types
import Upkeeper.Network.Write
/-!
# Action requests (`ctrl_req_action_handler` in `ctrl_eventloop.c`)

The controller looks the service up by its name, has its buddy take the action, and queues the result on the connection
that asked. Only the three actions that it knows create a reply; every other one of a known service gets to
`upk_queue_packet` with `NULL`, and a request for an unknown service is left without an answer (`answersOnce_iff`).
-/

namespace Upkeeper

open Wire (Fault)

/-! ### Reaching a buddy (`ctrl_buddy.c`) -/

/-- How the buddies are reached. `SvcRunPath` is a `char[UPK_MAX_PATH_LEN]` that `upk_ctrlconf_string_handler` sets to
at most `UPK_MAX_STRING_LEN - 1` bytes; `connect` is what the kernel makes of a socket path: a descriptor, or a
failure. -/
structure Buddies where
  svcRunPath : CharBuf upkMaxStringLen
  connect : CStr → Option Nat

/-- `buddy_sock_path` -/
def buddySockPath (b : Buddies) (buddy : SvcDesc) : CharBuf upkMaxPathLen where
  toCStr := ((b.svcRunPath.append (cstr "/")).append buddy.name.toCStr).append (cstr "/buddy.sock")
  fits := by
    have hrun : b.svcRunPath.chars.length < 2048 := b.svcRunPath.fits
    have hname : buddy.name.chars.length < 2048 := buddy.name.fits
    show (((_ ++ _) ++ _) ++ (cstr "/buddy.sock").chars).length < 8192
    rw [List.length_append, List.length_append, List.length_append]
    have hsep : (cstr "/").chars.length = 1 := rfl
    have hsock : (cstr "/buddy.sock").chars.length = 11 := rfl
    omega

/-- `buddy_connect` -/
def buddyConnect (b : Buddies) (sockpath : CStr) : Int :=
  match b.connect sockpath with
  | some fd => fd
  | none => -2

/-- `send_buddy_cmd`: only the descriptor decides the result, not what becomes of the command. -/
def sendBuddyCmd (fd : Int) (_cmd : UInt32) : Bool := 0 ≤ fd

/-- The body that the actions share -/
def buddyAction (cmd : UInt32) (b : Buddies) (buddy : SvcDesc) : Bool :=
  let fd := buddyConnect b (buddySockPath b buddy).toCStr
  if 0 ≤ fd then sendBuddyCmd fd cmd else false

/-- `start_buddy_svc` -/
def startBuddySvc : Buddies → SvcDesc → Bool := buddyAction upkCtrlActionStart

/-- `stop_buddy_svc` -/
def stopBuddySvc : Buddies → SvcDesc → Bool := buddyAction upkCtrlActionStop

/-- `reload_buddy_svc` -/
def reloadBuddySvc : Buddies → SvcDesc → Bool := buddyAction upkCtrlActionReload

/-! ### The handler -/

/-- `upk_create_repl_result` on a connection with this `version_id` -/
def upkCreateReplResult (versionId : UInt32) (msg : CStr) (successful : Bool) : Except Fault (Option Packet) :=
  if versionId = 0 then (v0CreateReplResult msg successful).map some else .ok none

/-- The reply to an action that the buddy took or did not take -/
def resultReply (versionId : UInt32) (done : Bool) : Except Fault (Option Packet) :=
  if done then upkCreateReplResult versionId (cstr "success") true
  else upkCreateReplResult versionId (cstr "failed") false

/-- The request is for this action. -/
def ReqAction.isFor (msg : ReqAction) (action : CStr) : Bool :=
  strncasecmpEq upkMaxStringLen msg.action.bytes action.chars

/-- The request names this service. -/
def ReqAction.names (msg : ReqAction) (svc : SvcDesc) : Bool :=
  strncmpEq upkMaxStringLen svc.name.chars msg.svcId.bytes

/-- What `reply` is when the action has been taken; `"unconfigure"` has an empty branch of its own. -/
def actionReply (b : Buddies) (versionId : UInt32) (msg : ReqAction) (svc : SvcDesc) : Except Fault (Option Packet) :=
  if msg.isFor (cstr "start") then resultReply versionId (startBuddySvc b svc)
  else if msg.isFor (cstr "stop") then resultReply versionId (stopBuddySvc b svc)
  else if msg.isFor (cstr "reload") then resultReply versionId (reloadBuddySvc b svc)
  else if msg.isFor (cstr "unconfigure") then .ok none
  else .ok none

variable {κ σ : Type}

/-- `upk_queue_packet`, with a pointer that it reads `payload_len` through -/
def upkQueuePacketPtr (pkt : Option Packet) (afterWriteCallback : Option κ) (net : Net κ σ) : Except Fault (Net κ σ) := do
  let pkt ← orNull pkt
  upkQueuePacket pkt afterWriteCallback net

/-- The loop over the services: the first one that the request names ends it. -/
def actionLoop (b : Buddies) (versionId : UInt32) (msg : ReqAction) (net : Net κ σ) :
    List SvcDesc → Except Fault (Net κ σ)
  | [] => .ok net
  | svc :: svclist =>
    if msg.names svc then do
      let reply ← actionReply b versionId msg svc
      upkQueuePacketPtr reply none net
    else actionLoop b versionId msg net svclist

/-- `ctrl_req_action_handler` for the connection that the request came on -/
def ctrlReqActionHandler (b : Buddies) (svclist : Option (List SvcDesc)) (versionId : UInt32) (msg : ReqAction)
    (net : Net κ σ) : Except Fault (Net κ σ) := do
  let svclist ← orNull svclist
  actionLoop b versionId msg net svclist

/-! ### One answer -/

/-- All that the handler does to a connection is to queue a reply, one that can be sent. -/
def AnswersOnce (handler : Net κ σ → Except Fault (Net κ σ)) : Prop :=
  ∃ pkt : Packet, pkt.pkttype = pktReply ∧ pkt.Sendable ∧ ∀ net, handler net = upkQueuePacket pkt none net

/-- The request is for one of the actions that are carried out. -/
def ReqAction.Known (msg : ReqAction) : Prop :=
  msg.isFor (cstr "start") = true ∨ msg.isFor (cstr "stop") = true ∨ msg.isFor (cstr "reload") = true

instance (msg : ReqAction) : Decidable msg.Known := inferInstanceAs (Decidable (_ ∨ _))

variable {b : Buddies} {svclist : List SvcDesc} {versionId : UInt32} {msg : ReqAction}

theorem v0CreateReplResult_eq {text : CStr} (done : Bool) (hlen : text.chars.length < upkMaxStringLen) :
    ∃ pkt, v0CreateReplResult text done = .ok pkt ∧ pkt.pkttype = pktReply ∧ pkt.Sendable := by
  obtain ⟨pkt, payload, hrun, hcreated⟩ := CreateCall.run_sound (.replResult text done) hlen
  refine ⟨pkt, hrun, ?_, hcreated.sendable.1⟩
  obtain ⟨⟨len, str⟩, -, hpkt⟩ := Wire.bind_eq_ok.mp hrun
  obtain rfl := Except.ok.inj hpkt
  rfl

/-- A reply is created on a connection of version 0 only. -/
theorem resultReply_eq (versionId : UInt32) (done : Bool) : ∃ reply, resultReply versionId done = .ok reply ∧
    (versionId ≠ 0 → reply = none) ∧
    (versionId = 0 → ∃ pkt : Packet, reply = some pkt ∧ pkt.pkttype = pktReply ∧ pkt.Sendable) := by
  have hcreate : ∀ (text : CStr) (d : Bool), text.chars.length < upkMaxStringLen →
      ∃ reply, upkCreateReplResult versionId text d = .ok reply ∧ (versionId ≠ 0 → reply = none) ∧
        (versionId = 0 → ∃ pkt : Packet, reply = some pkt ∧ pkt.pkttype = pktReply ∧ pkt.Sendable) := by
    intro text d hlen
    unfold upkCreateReplResult
    by_cases hversion : versionId = 0
    · obtain ⟨pkt, hpkt, htype, hsend⟩ := v0CreateReplResult_eq d hlen
      rw [if_pos hversion, hpkt]
      exact ⟨some pkt, rfl, fun h => absurd hversion h, fun _ => ⟨pkt, rfl, htype, hsend⟩⟩
    · rw [if_neg hversion]
      exact ⟨none, rfl, fun _ => rfl, fun h => absurd h hversion⟩
  cases done with
  | true => exact hcreate (cstr "success") true (by decide)
  | false => exact hcreate (cstr "failed") false (by decide)

/-- Either the action is known and the connection is of version 0, and a reply is created, or `reply` stays `NULL`. -/
theorem actionReply_eq (b : Buddies) (versionId : UInt32) (msg : ReqAction) (svc : SvcDesc) :
    ∃ reply, actionReply b versionId msg svc = .ok reply ∧
    (¬(versionId = 0 ∧ msg.Known) → reply = none) ∧
    (versionId = 0 ∧ msg.Known → ∃ pkt : Packet, reply = some pkt ∧ pkt.pkttype = pktReply ∧ pkt.Sendable) := by
  have hknown : ∀ done, msg.Known → ∃ reply, resultReply versionId done = .ok reply ∧
      (¬(versionId = 0 ∧ msg.Known) → reply = none) ∧
      (versionId = 0 ∧ msg.Known → ∃ pkt : Packet, reply = some pkt ∧ pkt.pkttype = pktReply ∧ pkt.Sendable) := by
    intro done hk
    obtain ⟨reply, hreply, hnone, hsome⟩ := resultReply_eq versionId done
    exact ⟨reply, hreply, fun h => hnone fun h0 => h ⟨h0, hk⟩, fun h => hsome h.1⟩
  unfold actionReply
  by_cases hstart : msg.isFor (cstr "start") = true
  · rw [if_pos hstart]
    exact hknown _ (Or.inl hstart)
  · rw [if_neg hstart]
    by_cases hstop : msg.isFor (cstr "stop") = true
    · rw [if_pos hstop]
      exact hknown _ (Or.inr (Or.inl hstop))
    · rw [if_neg hstop]
      by_cases hreload : msg.isFor (cstr "reload") = true
      · rw [if_pos hreload]
        exact hknown _ (Or.inr (Or.inr hreload))
      · rw [if_neg hreload, ite_self]
        have hunknown : ¬msg.Known := by
          rintro (h | h | h)
          · exact hstart h
          · exact hstop h
          · exact hreload h
        exact ⟨none, rfl, fun _ => rfl, fun h => absurd h.2 hunknown⟩

theorem actionLoop_eq (svclist : List SvcDesc) :
    ((∀ svc ∈ svclist, msg.names svc = false) ∧ ∀ net : Net κ σ, actionLoop b versionId msg net svclist = .ok net) ∨
    ∃ svc ∈ svclist, msg.names svc = true ∧ ∀ net : Net κ σ, actionLoop b versionId msg net svclist =
      (actionReply b versionId msg svc >>= fun reply => upkQueuePacketPtr reply none net) := by
  induction svclist with
  | nil => exact Or.inl ⟨by simp, fun _ => rfl⟩
  | cons svc svclist ih =>
    by_cases hname : msg.names svc = true
    · exact Or.inr ⟨svc, List.mem_cons_self, hname, fun net => if_pos hname⟩
    · have hskip : ∀ net : Net κ σ,
          actionLoop b versionId msg net (svc :: svclist) = actionLoop b versionId msg net svclist :=
        fun net => if_neg hname
      rcases ih with ⟨hnone, heq⟩ | ⟨svc', hmem, hname', heq⟩
      · refine Or.inl ⟨?_, fun net => (hskip net).trans (heq net)⟩
        intro s hs
        rcases List.mem_cons.mp hs with rfl | hs
        · exact Bool.eq_false_iff.mpr hname
        · exact hnone s hs
      · exact Or.inr ⟨svc', List.mem_cons_of_mem _ hmem, hname', fun net => (hskip net).trans (heq net)⟩

theorem queuePacket_new_ne (κ : Type) (w : σ) {pkt : Packet} (hpkt : pkt.Sendable) :
    ∃ net', upkQueuePacket pkt none (Net.new 5 [] w : Net κ σ) = .ok net' ∧ net' ≠ Net.new 5 [] w := by
  have hempty : (Net.new 5 [] w : Net κ σ).writeq.Inv [] := UpkList.init_inv
  have hopen : ¬(Net.new 5 [] w : Net κ σ).Closed := (by decide : ¬(5 : Int) < 0)
  obtain ⟨net', a, m, hrun, hsend⟩ := queuePacket_eq hempty hopen hpkt none
  refine ⟨net', hrun, ?_⟩
  rintro rfl
  exact absurd hsend.one.thisp (by simp [Net.new, UpkList.init])

/-- **An action request gets one reply exactly when it asks for a known action of a known service**, on a connection of
version 0, the only one there is. -/
theorem answersOnce_iff [Inhabited σ] (b : Buddies) (svclist : Option (List SvcDesc)) (versionId : UInt32)
    (msg : ReqAction) :
    AnswersOnce (ctrlReqActionHandler b svclist versionId msg : Net κ σ → Except Fault (Net κ σ)) ↔
      versionId = 0 ∧ (∃ l ∈ svclist, ∃ svc ∈ l, msg.names svc = true) ∧ msg.Known := by
  cases svclist with
  | none =>
    refine ⟨fun ⟨pkt, _, hsend, heq⟩ => ?_, fun h => ?_⟩
    · obtain ⟨net', hrun, -⟩ := queuePacket_new_ne κ (default : σ) hsend
      have := (heq _).trans hrun
      cases this
    · obtain ⟨-, ⟨l, hl, -⟩, -⟩ := h
      cases hl
  | some svclist =>
    have hloop : ∀ net : Net κ σ, ctrlReqActionHandler b (some svclist) versionId msg net =
        actionLoop b versionId msg net svclist := fun _ => rfl
    rcases actionLoop_eq  svclist with
      ⟨hnone, heq⟩ | ⟨svc, hmem, hname, heq⟩
    · refine ⟨fun ⟨pkt, _, hsend, hq⟩ => ?_, fun h => ?_⟩
      · obtain ⟨net', hrun, hne⟩ := queuePacket_new_ne κ (default : σ) hsend
        have hsame : Except.ok (Net.new 5 [] default) = Except.ok net' :=
          ((heq _).symm.trans ((hloop _).symm.trans (hq _))).trans hrun
        exact absurd (Except.ok.inj hsame).symm hne
      · obtain ⟨-, ⟨l, hl, svc, hmem, hname⟩, -⟩ := h
        obtain rfl := Option.some.inj hl
        rw [hnone svc hmem] at hname
        cases hname
    · obtain ⟨reply, hreply, hnull, hsome⟩ := actionReply_eq b versionId msg svc
      have hqueue : ∀ net : Net κ σ, ctrlReqActionHandler b (some svclist) versionId msg net =
          upkQueuePacketPtr reply none net := by
        intro net
        rw [hloop, heq, hreply]
        rfl
      by_cases hgood : versionId = 0 ∧ msg.Known
      · obtain ⟨pkt, rfl, htype, hsend⟩ := hsome hgood
        exact ⟨fun _ => ⟨hgood.1, ⟨svclist, rfl, svc, hmem, hname⟩, hgood.2⟩, fun _ => ⟨pkt, htype, hsend, hqueue⟩⟩
      · refine ⟨fun ⟨pkt, _, hsend, hq⟩ => ?_, fun h => absurd ⟨h.1, h.2.2⟩ hgood⟩
        obtain rfl := hnull hgood
        obtain ⟨net', hrun, -⟩ := queuePacket_new_ne κ (default : σ) hsend
        have := ((hqueue _).symm.trans (hq _)).trans hrun
        cases this

/-! ### Requests that are not answered -/

/-- A request for an action of a service -/
def actionRequest (svcId action : CStr) : ReqAction :=
  ⟨upkReqAction, .ofNat svcId.chars.length, .ofBytes _ svcId.chars, .ofNat action.chars.length, .ofBytes _ action.chars⟩

/-- The buddies of one service, none of which can be reached -/
def noBuddies : Buddies := ⟨strncpyString .empty, fun _ => none⟩

/-- A service `web` -/
def web : SvcDesc := { upkSvcDescClear with name := strncpyString (cstr "web") }

/-- To unconfigure a service makes the handler pass `NULL` to `upk_queue_packet`; an unknown service is not answered. -/
theorem not_answersOnce_unconfigure :
    (∀ net : Net Unit Unit,
      ctrlReqActionHandler noBuddies (some [web]) 0 (actionRequest (cstr "web") (cstr "unconfigure")) net =
        .error .nullDeref) ∧
    (∀ net : Net Unit Unit,
      ctrlReqActionHandler noBuddies (some [web]) 0 (actionRequest (cstr "db") (cstr "start")) net = .ok net) ∧
    ¬AnswersOnce (ctrlReqActionHandler noBuddies (some [web]) 0 (actionRequest (cstr "web") (cstr "unconfigure")) :
      Net Unit Unit → Except Fault (Net Unit Unit)) := by
  have hnull : ∀ net : Net Unit Unit,
      ctrlReqActionHandler noBuddies (some [web]) 0 (actionRequest (cstr "web") (cstr "unconfigure")) net =
        .error .nullDeref := fun _ => rfl
  refine ⟨hnull, fun _ => rfl, ?_⟩
  rintro ⟨pkt, -, hsend, hq⟩
  obtain ⟨net', hrun, -⟩ := queuePacket_new_ne Unit () hsend
  have := ((hnull _).symm.trans (hq _)).trans hrun
  cases this

end Upkeeper
