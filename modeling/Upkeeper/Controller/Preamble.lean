import Upkeeper.Controller.Actions
/-!
# Version negotiation (`ctrl_req_preamble_handler` in `ctrl_eventloop.c`)

The controller answers a preamble with the highest version that it and the client have in common. The bounds of the
client are unsigned on the wire, and signed here: from 2³¹ on they are negative. A client whose highest version is so
large is turned away although it speaks version 0, and one whose lowest version is so large is answered although it
does not (`negotiates_iff`).
-/

namespace Upkeeper

open Wire (Fault)

variable {κ σ : Type}

/-! ### The handler -/

/-- A connection of the controller, with the name that its client has given -/
structure Client (κ σ : Type) extends Net κ σ where
  clName : Str

/-- `for(i = …; i >= lo && !reply; i--)`, from `i` on. Where `i--` overflows there is no result, and none when the fuel
runs out. -/
def forDown (lo : Int32) (body : Int32 → Option Packet → Option (Option Packet)) :
    Nat → Int32 → Option Packet → Option (Option Packet)
  | 0, _, _ => none
  | fuel + 1, i, reply =>
    if lo ≤ i ∧ reply.isNone then do
      let reply ← body i reply
      if i = Int32.minValue then none else forDown lo body fuel (i - 1) reply
    else some reply

/-- The loop over the versions of the controller, for the version `n` of the client -/
def matchVersion (fuel : Nat) (n : Int32) : Option Packet → Option (Option Packet) :=
  forDown upkMinSupportedProto.toInt32
    (fun p reply => if n = p then (upkCreateReplPreamble p.toUInt32).toOption.map some else some reply) fuel
    upkMaxSupportedProto.toInt32

/-- `ctrl_req_preamble_handler` for the client that has sent the preamble -/
def ctrlReqPreambleHandler (fuel : Nat) (msg : ReqPreamble) (client : Client κ σ) :
    Option (Except Fault (Client κ σ)) := do
  let clmin := msg.minSupportedVer.toInt32
  let clmax := msg.maxSupportedVer.toInt32
  if upkMaxSupportedProto.toInt32 < clmin ∨ clmax < upkMinSupportedProto.toInt32 then return .ok client
  let reply ← forDown clmin (matchVersion fuel) fuel clmax none
  return do
    -- the version is read out of the reply for a log message
    let reply ← orNull reply
    let client := { client with clName := client.clName.strncpy msg.clientName (upkMaxStringLen - 1) (Nat.sub_le _ _) }
    let net ← upkQueuePacket reply none client.toNet
    return { client with toNet := net }

/-! ### What it is for -/

/-- Both sides support the version. -/
def Common (msg : ReqPreamble) (v : UInt32) : Prop :=
  (msg.minSupportedVer ≤ v ∧ v ≤ msg.maxSupportedVer) ∧ upkMinSupportedProto ≤ v ∧ v ≤ upkMaxSupportedProto

/-- The handler gets to its end. It queues a reply with the highest common version if there is one, and otherwise leaves
the client alone. -/
structure Negotiates (κ σ : Type) (msg : ReqPreamble) : Prop where
  highest : ∀ v, Common msg v → (∀ v', Common msg v' → v' ≤ v) → ∃ pkt, upkCreateReplPreamble v = .ok pkt ∧
    ∃ n, ∀ fuel ≥ n, ∀ client : Client κ σ, ∃ clName, ctrlReqPreambleHandler fuel msg client =
      some ((upkQueuePacket pkt none client.toNet).map fun net => { toNet := net, clName := clName })
  none : (∀ v, ¬Common msg v) → ∃ n, ∀ fuel ≥ n, ∀ client : Client κ σ,
    ctrlReqPreambleHandler fuel msg client = some (.ok client)

/-! ### The loops -/

theorem toInt_sub_one {i : Int32} (h : i ≠ Int32.minValue) : (i - 1).toInt = i.toInt - 1 := by
  have hlow := i.le_toInt
  have hhigh := i.toInt_lt
  have hne : i.toInt ≠ -2 ^ 31 := fun h' => h (Int32.toInt_inj.mp (h'.trans (by decide)))
  rw [Int32.toInt_sub, Int32.toInt_one, Int.bmod_eq_of_le] <;> omega

/-- The search stops at `t` if that is the first version with a reply. -/
theorem forDown_found {lo t : Int32} {body : Int32 → Option Packet → Option (Option Packet)} {pkt : Packet}
    (hskip : ∀ i, t < i → body i none = some none) (hhit : body t none = some (some pkt)) (hlo : lo ≤ t)
    (ht : t ≠ Int32.minValue) {k fuel : Nat} {i : Int32} (hi : i.toInt = t.toInt + k) (hfuel : k + 2 ≤ fuel) :
    forDown lo body fuel i none = some (some pkt) := by
  induction k generalizing i fuel with
  | zero =>
    obtain rfl : i = t := Int32.toInt_inj.mp (by omega)
    obtain ⟨fuel, rfl⟩ : ∃ f, fuel = f + 2 := ⟨fuel - 2, by omega⟩
    rw [forDown, if_pos ⟨hlo, rfl⟩, hhit]
    show (if i = Int32.minValue then none else forDown lo body (fuel + 1) (i - 1) (some pkt)) = _
    rw [if_neg ht, forDown, if_neg]
    rintro ⟨-, ⟨⟩⟩
  | succ k ih =>
    obtain ⟨fuel, rfl⟩ : ∃ f, fuel = f + 1 := ⟨fuel - 1, by omega⟩
    have hlt : t < i := Int32.lt_iff_toInt_lt.mpr (by omega)
    have hmin : i ≠ Int32.minValue := by
      rintro rfl
      have := t.le_toInt
      have hval : Int32.minValue.toInt = -2 ^ 31 := by decide
      omega
    have hle : lo ≤ i := by
      rw [Int32.le_iff_toInt_le] at hlo ⊢
      omega
    rw [forDown, if_pos ⟨hle, rfl⟩, hskip i hlt]
    show (if i = Int32.minValue then none else forDown lo body fuel (i - 1) none) = _
    rw [if_neg hmin]
    exact ih (by rw [toInt_sub_one hmin]; omega) (by omega)

theorem matchVersion_zero (fuel : Nat) :
    matchVersion (fuel + 2) 0 none = some (some (upkCreatePkt (.replPreamble ⟨upkReplPreamble, 0⟩) 8 pktReply 0)) := rfl

theorem matchVersion_ne {n : Int32} (h : n ≠ 0) (fuel : Nat) : matchVersion (fuel + 2) n none = some none := by
  unfold matchVersion
  rw [forDown, if_pos (by decide)]
  show ((if n = 0 then _ else some none) >>= _) = _
  rw [if_neg h]
  rfl

theorem toInt_toInt32 (x : UInt32) :
    x.toInt32.toInt = if x.toNat < 2 ^ 31 then (x.toNat : Int) else (x.toNat : Int) - 2 ^ 32 := by
  show x.toBitVec.toInt = _
  rw [BitVec.toInt_eq_toNat_cond, UInt32.toNat_toBitVec]
  have := x.toNat_lt
  split <;> split <;> omega

/-- The reply with version 0 -/
def preambleReply : Packet := upkCreatePkt (.replPreamble ⟨upkReplPreamble, 0⟩) 8 pktReply 0

/-- The handler gets to a reply. -/
def ReqPreamble.Replied (msg : ReqPreamble) : Prop :=
  (msg.minSupportedVer = 0 ∨ 0x80000000 ≤ msg.minSupportedVer) ∧ msg.maxSupportedVer < 0x80000000

theorem replied_iff {msg : ReqPreamble} :
    msg.Replied ↔ ¬(upkMaxSupportedProto.toInt32 < msg.minSupportedVer.toInt32 ∨
      msg.maxSupportedVer.toInt32 < upkMinSupportedProto.toInt32) := by
  have hmin := msg.minSupportedVer.toNat_lt
  have hmax := msg.maxSupportedVer.toNat_lt
  have hzero : upkMaxSupportedProto.toInt32.toInt = 0 ∧ upkMinSupportedProto.toInt32.toInt = 0 := by decide
  unfold ReqPreamble.Replied
  rw [Int32.lt_iff_toInt_lt, Int32.lt_iff_toInt_lt, hzero.1, hzero.2, toInt_toInt32, toInt_toInt32,
    ← UInt32.toNat_inj, UInt32.le_iff_toNat_le, UInt32.lt_iff_toNat_lt]
  simp only [UInt32.reduceToNat]
  split <;> split <;> omega

variable {msg : ReqPreamble} {fuel : Nat} {client : Client κ σ}

/-- **What the handler does with a client that it turns away.** -/
theorem ctrlReqPreambleHandler_of_not_replied (h : ¬msg.Replied) :
    ctrlReqPreambleHandler fuel msg client = some (.ok client) := by
  unfold ctrlReqPreambleHandler
  exact if_pos (not_not.mp (replied_iff.not.mp h))

/-- **What the handler does with every other client**: the versions are searched from the highest one of the client on
down to zero. -/
theorem ctrlReqPreambleHandler_of_replied (h : msg.Replied) (hfuel : msg.maxSupportedVer.toNat + 2 ≤ fuel) :
    ctrlReqPreambleHandler fuel msg client = some ((upkQueuePacket preambleReply none client.toNet).map fun net =>
      { toNet := net, clName := client.clName.strncpy msg.clientName (upkMaxStringLen - 1) (Nat.sub_le _ _) }) := by
  have hrange := replied_iff.mp h
  have hmax : msg.maxSupportedVer.toInt32.toInt = msg.maxSupportedVer.toNat := by
    have hlt : msg.maxSupportedVer.toNat < 2 ^ 31 := UInt32.lt_iff_toNat_lt.mp h.2
    rw [toInt_toInt32, if_pos hlt]
  have hmin : msg.minSupportedVer.toInt32 ≤ 0 := by
    rw [Int32.le_iff_toInt_le]
    have : ¬upkMaxSupportedProto.toInt32.toInt < msg.minSupportedVer.toInt32.toInt :=
      fun hlt => hrange (Or.inl (Int32.lt_iff_toInt_lt.mpr hlt))
    exact Int.not_lt.mp this
  obtain ⟨fuel, rfl⟩ : ∃ f, fuel = f + 2 := ⟨fuel - 2, by omega⟩
  have hfound : forDown msg.minSupportedVer.toInt32 (matchVersion (fuel + 2)) (fuel + 2) msg.maxSupportedVer.toInt32 none
      = some (some preambleReply) := by
    refine forDown_found (k := msg.maxSupportedVer.toNat) (fun i hi => ?_) (matchVersion_zero fuel) hmin (by decide) ?_ hfuel
    · exact matchVersion_ne (fun h0 => absurd hi (by rw [h0]; decide)) fuel
    · rw [hmax, Int32.toInt_zero, Int.zero_add]
  unfold ctrlReqPreambleHandler
  dsimp only
  rw [if_neg hrange, hfound]
  show some (upkQueuePacket preambleReply none client.toNet >>= fun net => _) = _
  cases upkQueuePacket preambleReply none client.toNet <;> rfl

/-! ### The negotiation -/

theorem common_iff {v : UInt32} : Common msg v ↔ v = 0 ∧ msg.minSupportedVer = 0 := by
  unfold Common upkMinSupportedProto upkMaxSupportedProto
  simp only [UInt32.le_iff_toNat_le, ← UInt32.toNat_inj, UInt32.toNat_zero]
  omega

theorem preambleReply_sendable : preambleReply.Sendable := ⟨_, _, rfl, by decide, by decide, by decide⟩

/-- A fresh connection whose client has not given a name -/
def Client.new (w : σ) : Client κ σ := { toNet := Net.new 5 [] w, clName := .zero _ }

theorem reply_ne_silence (κ : Type) (w : σ) (clName : Str) :
    some ((upkQueuePacket preambleReply none (Client.new w : Client κ σ).toNet).map
      fun net => (⟨net, clName⟩ : Client κ σ)) ≠ some (.ok (Client.new w)) := by
  obtain ⟨net', hqueue, hne⟩ := queuePacket_new_ne κ w preambleReply_sendable
  have hnet : upkQueuePacket preambleReply none (Client.new w : Client κ σ).toNet = .ok net' := hqueue
  rw [hnet]
  exact fun heq => hne (congrArg Client.toNet (Except.ok.inj (Option.some.inj heq)))

/-- **The highest common version is negotiated exactly if the sign bit makes no difference**: the highest version of a
client that supports version 0 is below 2³¹, and a client whose lowest version is at least 2³¹ has a highest one that is
as large. -/
theorem negotiates_iff [Inhabited σ] (msg : ReqPreamble) :
    Negotiates κ σ msg ↔ (msg.minSupportedVer = 0 → msg.maxSupportedVer < 0x80000000) ∧
      (0x80000000 ≤ msg.minSupportedVer → 0x80000000 ≤ msg.maxSupportedVer) := by
  have hcommon : Common msg 0 ↔ msg.minSupportedVer = 0 := common_iff.trans (and_iff_right rfl)
  constructor
  · intro h
    constructor
    · intro hmin
      by_contra hmax
      obtain ⟨pkt, hpkt, n, hrun⟩ := h.highest 0 (hcommon.mpr hmin) fun v hv => (common_iff.mp hv).1 ▸ UInt32.le_refl _
      obtain rfl : preambleReply = pkt := Except.ok.inj hpkt
      obtain ⟨clName, hrun⟩ := hrun n le_rfl (Client.new default)
      rw [ctrlReqPreambleHandler_of_not_replied fun hr => hmax hr.2] at hrun
      exact reply_ne_silence κ default clName hrun.symm
    · intro hmin
      by_contra hmax
      have hreplied : msg.Replied := ⟨Or.inr hmin, UInt32.not_le.mp hmax⟩
      have hnone : ∀ v, ¬Common msg v := by
        intro v hv
        rw [(common_iff.mp hv).2] at hmin
        exact absurd hmin (by decide)
      obtain ⟨n, hrun⟩ := h.none hnone
      have hsilent := hrun (n + msg.maxSupportedVer.toNat + 2) (by omega) (Client.new default)
      rw [ctrlReqPreambleHandler_of_replied hreplied (by omega)] at hsilent
      exact reply_ne_silence κ default _ hsilent
  · rintro ⟨hlow, hhigh⟩
    constructor
    · intro v hv _
      obtain ⟨rfl, hmin⟩ := common_iff.mp hv
      refine ⟨preambleReply, rfl, msg.maxSupportedVer.toNat + 2, fun fuel hfuel client => ?_⟩
      exact ⟨_, ctrlReqPreambleHandler_of_replied ⟨Or.inl hmin, hlow hmin⟩ hfuel⟩
    · intro hnone
      refine ⟨0, fun fuel _ client => ctrlReqPreambleHandler_of_not_replied ?_⟩
      rintro ⟨hmin | hmin, hmax⟩
      · exact hnone 0 (hcommon.mpr hmin)
      · exact UInt32.not_lt.mpr (hhigh hmin) hmax

/-- A client that speaks all versions gets no answer. -/
theorem not_negotiates_allVersions :
    Common ⟨upkReqPreamble, 0, 0xffffffff, 0, .zero _⟩ 0 ∧
      ¬Negotiates Unit Unit ⟨upkReqPreamble, 0, 0xffffffff, 0, .zero _⟩ := by
  have hcommon : Common ⟨upkReqPreamble, 0, 0xffffffff, 0, .zero _⟩ 0 := common_iff.mpr ⟨rfl, rfl⟩
  refine ⟨hcommon, fun h => ?_⟩
  obtain ⟨pkt, hpkt, n, hrun⟩ := h.highest 0 hcommon fun v hv => (common_iff.mp hv).1 ▸ UInt32.le_refl _
  obtain rfl : preambleReply = pkt := Except.ok.inj hpkt
  obtain ⟨clName, hrun⟩ := hrun n le_rfl (Client.new ())
  rw [ctrlReqPreambleHandler_of_not_replied fun hr => absurd hr.2 (by decide)] at hrun
  exact reply_ne_silence Unit () clName hrun.symm

end Upkeeper
