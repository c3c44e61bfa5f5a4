import Upkeeper.Network.Types
import Upkeeper.Protocol.Deserialize
/-!
# Reading packets (`upk_read_packets`)

One call reads what is left of the header, or of the body, or of the header and then some of the body. The header
is read to the start of `readbuf` and the body to the byte behind the header, wherever the last call stopped.
-/

namespace Upkeeper

open Wire (Fault ofBe32)

variable {κ σ : Type}

/-- Code that takes the results of its `read`s from a list -/
abbrev ReadM := StateT (List ReadResult) (Except Halt)

/-- What C leaves undefined ends the call. -/
def Halt.lift {α : Type} : Except Fault α → ReadM α
  | .ok a => pure a
  | .error f => throw (.fault f)

/-- `read(handle->fd, handle->readbuf + off, n)`, and the `size_t` that its result is assigned to -/
def sysRead (off n : Nat) (net : Net κ σ) : ReadM (Net κ σ × UInt64)
  | .data bs :: rs =>
    if n < bs.length then .error .noResult
    else if h : off + bs.length ≤ upkMaxPacketSize then
      .ok (({ net with readbuf := net.readbuf.store off bs h }, .ofNat bs.length), rs)
    else .error (.fault .overWrite)
  | .fail e :: rs => .ok (({ net with errno := e }, sizeMax), rs)
  | [] => .error .noResult

/-- The code of a function behind the point where it may have returned because it disconnected the handle -/
def ifOpen (f : Net κ σ → ReadM (Net κ σ)) (net : Net κ σ) : ReadM (Net κ σ) :=
  if net.Closed then pure net else f net

/-- The header bytes that are still missing; `n_read < 0` is never true of a `size_t`. -/
def readHeader (net : Net κ σ) : ReadM (Net κ σ) :=
  if net.nRemainingRead = 0 ∧ net.nHdrBytesRead.toNat < upkPacketHeaderLen then do
    let (net, nRead) ← sysRead 0 (upkPacketHeaderLen - net.nHdrBytesRead.toNat) { net with errno := .zero }
    if nRead < 1 ∧ !net.errno.retry then return net.disconnect
    return { net with nHdrBytesRead := net.nHdrBytesRead + nRead.toUInt8 }
  else return net

/-- The header is checked when it is complete, and the length of the body is taken from it. -/
def verifyHeader (net : Net κ σ) : ReadM (Net κ σ) :=
  if net.nRemainingRead = 0 ∧ net.nHdrBytesRead.toNat = upkPacketHeaderLen then
    let payloadLen := ofBe32 (net.readbuf.bytes.take 4)
    let versionId := ofBe32 ((net.readbuf.bytes.drop 4).take 4)
    let net := { net with nHdrBytesRead := 0 }
    if ¬(upkMinSupportedProto ≤ versionId ∧ versionId ≤ upkMaxSupportedProto) then return net.disconnect
    else if upkMaxPacketSize < payloadLen.toNat then return net.disconnect
    else return { net with nRemainingRead := (payloadLen + .ofNat upkPacketFooterLen).toUInt64 }
  else return net

/-- `callbacks->head->msg_handlers[UPK_MSGTYPE_IDX(type)]`, if there are callbacks -/
def Session.msgHandler (s : Session κ) (type : UInt32) : Except Fault (Option κ) :=
  match s.state with
  | none | some [] => .ok none
  | some (stk :: _) =>
    if h : 0 ≤ upkMsgtypeIdx type ∧ (upkMsgtypeIdx type).toNat < totalNMsgTypes then .ok (stk.msgHandlers ⟨_, h.2⟩)
    else .error .overRead

/-- `upk_call_received_packet_callbacks` -/
def upkCallReceivedPacketCallbacks (cb : Callbacks κ σ) (pkt : Packet) (net : Net κ σ) : Except Fault (Net κ σ) := do
  let some payload := pkt.payload | .error .nullDeref
  let net := { net with lastPktData := some payload }
  match ← net.msgHandler payload.msgtype with
  | none => return net
  | some k => return { net.call cb k (some payload) with calls := net.calls ++ [(k, payload)] }

/-- The bytes of the body that are still missing, and the packet when they were the last. -/
def readBody (cb : Callbacks κ σ) (net : Net κ σ) : ReadM (Net κ σ) :=
  if 0 < net.nRemainingRead then do
    let (net, nRead) ← sysRead upkPacketHeaderLen net.nRemainingRead.toNat net
    if nRead < 1 ∧ !net.errno.retry then return net.disconnect
    let net := { net with nRemainingRead := net.nRemainingRead - nRead }
    if net.nRemainingRead = 0 then do
      match ← Halt.lift (upkDeserializePacket net.readbuf.bytes) with
      | .freed _ => throw (.fault .useAfterFree)
      | .packet pkt => do
        let net ← Halt.lift (upkCallReceivedPacketCallbacks cb pkt net)
        return { net with readbuf := .zero _ }
    else return net
  else return net

/-- `upk_read_packets` on the current handle -/
def upkReadPackets (cb : Callbacks κ σ) (net : Net κ σ) : ReadM (Net κ σ) := do
  let net ← ifOpen readHeader net
  let net ← ifOpen verifyHeader net
  ifOpen (readBody cb) net

/-! ### One stage at a time -/

variable {cb : Callbacks κ σ} {net : Net κ σ} {c : List UInt8} {rs rs' : List ReadResult}

theorem ReadM.bind_ok {α β : Type} {x : ReadM α} {f : α → ReadM β} {a : α} (h : x rs = .ok (a, rs')) :
    (x >>= f) rs = f a rs' := by
  show (x rs >>= fun p => f p.1 p.2) = _
  rw [h]
  rfl

theorem ReadM.bind_error {α β : Type} {x : ReadM α} {f : α → ReadM β} {e : Halt} (h : x rs = .error e) :
    (x >>= f) rs = .error e := by
  show (x rs >>= fun p => f p.1 p.2) = _
  rw [h]
  rfl

theorem ReadM.lift_bind {α β : Type} {x : Except Fault α} {f : α → ReadM β} {a : α} (h : x = .ok a) :
    (Halt.lift x >>= f) rs = f a rs := by
  rw [h]
  rfl

theorem ReadM.lift_error {α β : Type} {x : Except Fault α} {f : α → ReadM β} {e : Fault} (h : x = .error e) :
    (Halt.lift x >>= f) rs = .error (.fault e) := by
  rw [h]
  rfl

theorem ifOpen_closed {f : Net κ σ → ReadM (Net κ σ)} (h : net.Closed) : ifOpen f net rs = .ok (net, rs) := by
  unfold ifOpen
  rw [if_pos h]
  rfl

theorem ifOpen_open {f : Net κ σ → ReadM (Net κ σ)} (h : ¬net.Closed) : ifOpen f net = f net := if_neg h

theorem sysRead_data {off n : Nat} (hn : c.length ≤ n) (h : off + c.length ≤ upkMaxPacketSize) :
    sysRead off n net (.data c :: rs)
      = .ok (({ net with readbuf := net.readbuf.store off c h }, .ofNat c.length), rs) :=
  (if_neg (Nat.not_lt.mpr hn)).trans (dif_pos h)

theorem sysRead_noResult {off n : Nat} {cs : List (List UInt8)} (h : ∀ c ∈ cs.head?, n < c.length) :
    sysRead off n net (cs.map .data) = .error .noResult := by
  cases cs with
  | nil => rfl
  | cons c cs => exact if_pos (h c rfl)

theorem toNat_ofNat_length (h : c.length ≤ upkMaxPacketSize) : (UInt64.ofNat c.length).toNat = c.length := by
  have hmax : upkMaxPacketSize = 65536 := rfl
  rw [UInt64.toNat_ofNat', Nat.mod_eq_of_lt]
  omega

theorem not_lt_one (hne : c ≠ []) (h : c.length ≤ upkMaxPacketSize) : ¬UInt64.ofNat c.length < 1 := by
  have hpos := List.length_pos_of_ne_nil hne
  rw [UInt64.lt_iff_toNat_lt, toNat_ofNat_length h, UInt64.toNat_one]
  omega

theorem readHeader_skip (h : ¬(net.nRemainingRead = 0 ∧ net.nHdrBytesRead.toNat < upkPacketHeaderLen)) :
    readHeader net rs = .ok (net, rs) := by
  unfold readHeader
  rw [if_neg h]
  rfl

theorem readHeader_noResult {cs : List (List UInt8)} (hrem : net.nRemainingRead = 0)
    (hhdr : net.nHdrBytesRead.toNat < upkPacketHeaderLen)
    (h : ∀ c ∈ cs.head?, upkPacketHeaderLen - net.nHdrBytesRead.toNat < c.length) :
    readHeader net (cs.map .data) = .error .noResult := by
  unfold readHeader
  rw [if_pos ⟨hrem, hhdr⟩]
  exact ReadM.bind_error (sysRead_noResult h)

theorem readHeader_data (rs : List ReadResult) (hrem : net.nRemainingRead = 0) (hne : c ≠ [])
    (hlen : net.nHdrBytesRead.toNat + c.length ≤ upkPacketHeaderLen) (h : 0 + c.length ≤ upkMaxPacketSize) :
    ∃ net', readHeader net (.data c :: rs) = .ok (net', rs) ∧ net' = { net with
      errno := .zero, readbuf := net.readbuf.store 0 c h, nHdrBytesRead := net'.nHdrBytesRead } ∧
      net'.nHdrBytesRead.toNat = net.nHdrBytesRead.toNat + c.length := by
  have h16 : upkPacketHeaderLen = 16 := rfl
  have hpos := List.length_pos_of_ne_nil hne
  have hmax : c.length ≤ upkMaxPacketSize := by rwa [Nat.zero_add] at h
  refine ⟨{ net with
    errno := .zero, readbuf := net.readbuf.store 0 c h
    nHdrBytesRead := net.nHdrBytesRead + (UInt64.ofNat c.length).toUInt8 }, ?_, rfl, ?_⟩
  · unfold readHeader
    rw [if_pos ⟨hrem, by omega⟩, ReadM.bind_ok (sysRead_data (by omega) h)]
    dsimp only
    rw [if_neg fun hlt => not_lt_one hne hmax hlt.1]
    rfl
  · show (net.nHdrBytesRead + (UInt64.ofNat c.length).toUInt8).toNat = _
    rw [UInt8.toNat_add, UInt64.toNat_toUInt8, toNat_ofNat_length hmax]
    omega

theorem verifyHeader_skip (h : ¬(net.nRemainingRead = 0 ∧ net.nHdrBytesRead.toNat = upkPacketHeaderLen)) :
    verifyHeader net rs = .ok (net, rs) := by
  unfold verifyHeader
  rw [if_neg h]
  rfl

theorem toNat_add_footer {len : UInt32} (h : len.toNat ≤ upkMaxPacketSize) :
    (len + .ofNat upkPacketFooterLen).toUInt64.toNat = len.toNat + upkPacketFooterLen := by
  have hmax : upkMaxPacketSize = 65536 := rfl
  rw [UInt32.toNat_toUInt64, UInt32.toNat_add]
  simp only [upkPacketFooterLen, UInt32.reduceOfNat, UInt32.reduceToNat]
  omega

theorem verifyHeader_accept {len : UInt32} (rs : List ReadResult) (hrem : net.nRemainingRead = 0)
    (hhdr : net.nHdrBytesRead.toNat = upkPacketHeaderLen) (hl : ofBe32 (net.readbuf.bytes.take 4) = len)
    (hv : ofBe32 ((net.readbuf.bytes.drop 4).take 4) = 0) (hmax : len.toNat ≤ upkMaxPacketSize) :
    ∃ net', verifyHeader net rs = .ok (net', rs) ∧
      net' = { net with nHdrBytesRead := 0, nRemainingRead := net'.nRemainingRead } ∧
      net'.nRemainingRead.toNat = len.toNat + upkPacketFooterLen := by
  refine ⟨{ net with nHdrBytesRead := 0, nRemainingRead := (len + .ofNat upkPacketFooterLen).toUInt64 }, ?_, rfl,
    toNat_add_footer hmax⟩
  unfold verifyHeader
  rw [if_pos ⟨hrem, hhdr⟩]
  dsimp only
  rw [hl, hv, if_neg (not_not.mpr (by decide)), if_neg (Nat.not_lt.mpr hmax)]
  rfl

theorem readBody_skip (h : net.nRemainingRead = 0) : readBody cb net rs = .ok (net, rs) := by
  unfold readBody
  rw [if_neg (by simp [h])]
  rfl

theorem readBody_noResult {cs : List (List UInt8)} (hrem : net.nRemainingRead ≠ 0)
    (h : ∀ c ∈ cs.head?, net.nRemainingRead.toNat < c.length) :
    readBody cb net (cs.map .data) = .error .noResult := by
  unfold readBody
  rw [if_pos (UInt64.pos_iff_ne_zero.mpr hrem)]
  exact ReadM.bind_error (sysRead_noResult h)

theorem readBody_part (cb : Callbacks κ σ) (rs : List ReadResult) (hne : c ≠ [])
    (hlen : c.length < net.nRemainingRead.toNat) (h : upkPacketHeaderLen + c.length ≤ upkMaxPacketSize) :
    ∃ net', readBody cb net (.data c :: rs) = .ok (net', rs) ∧ net' = { net with
      readbuf := net.readbuf.store upkPacketHeaderLen c h, nRemainingRead := net'.nRemainingRead } ∧
      net'.nRemainingRead.toNat = net.nRemainingRead.toNat - c.length := by
  have hmax : c.length ≤ upkMaxPacketSize := by omega
  have hsub : (net.nRemainingRead - .ofNat c.length).toNat = net.nRemainingRead.toNat - c.length := by
    rw [UInt64.toNat_sub_of_le, toNat_ofNat_length hmax]
    rw [UInt64.le_iff_toNat_le, toNat_ofNat_length hmax]
    omega
  refine ⟨{ net with
    readbuf := net.readbuf.store upkPacketHeaderLen c h
    nRemainingRead := net.nRemainingRead - .ofNat c.length }, ?_, rfl, hsub⟩
  unfold readBody
  have hpos : 0 < net.nRemainingRead := by
    rw [UInt64.lt_iff_toNat_lt, UInt64.toNat_zero]
    omega
  have hleft : net.nRemainingRead - .ofNat c.length ≠ 0 := by
    intro h0
    rw [h0, UInt64.toNat_zero] at hsub
    omega
  rw [if_pos hpos, ReadM.bind_ok (sysRead_data (by omega) h)]
  dsimp only
  rw [if_neg fun hlt => not_lt_one hne hmax hlt.1, if_neg hleft]
  rfl

/-- The complete packet in `readbuf` is decoded, and delivered. -/
def receivePacket (cb : Callbacks κ σ) (net : Net κ σ) : ReadM (Net κ σ) := do
  match ← Halt.lift (upkDeserializePacket net.readbuf.bytes) with
  | .freed _ => throw (.fault .useAfterFree)
  | .packet pkt => do
    let net ← Halt.lift (upkCallReceivedPacketCallbacks cb pkt net)
    return { net with readbuf := .zero _ }

theorem receivePacket_packet {pkt : Packet} {net' : Net κ σ}
    (hpkt : upkDeserializePacket net.readbuf.bytes = .ok (.packet pkt))
    (hcall : upkCallReceivedPacketCallbacks cb pkt net = .ok net') :
    receivePacket cb net rs = .ok ({ net' with readbuf := .zero _ }, rs) := by
  unfold receivePacket
  rw [ReadM.lift_bind hpkt]
  dsimp only
  rw [ReadM.lift_bind hcall]
  rfl

theorem readBody_complete (hne : c ≠ []) (hlen : c.length = net.nRemainingRead.toNat)
    (h : upkPacketHeaderLen + c.length ≤ upkMaxPacketSize) :
    readBody cb net (.data c :: rs)
      = receivePacket cb { net with readbuf := net.readbuf.store upkPacketHeaderLen c h, nRemainingRead := 0 } rs := by
  have hmax : c.length ≤ upkMaxPacketSize := by omega
  have hpos : 0 < net.nRemainingRead := by
    have := List.length_pos_of_ne_nil hne
    rw [UInt64.lt_iff_toNat_lt, UInt64.toNat_zero]
    omega
  have hleft : net.nRemainingRead - .ofNat c.length = 0 := by
    apply UInt64.toNat.inj
    rw [UInt64.toNat_sub_of_le, toNat_ofNat_length hmax, hlen, Nat.sub_self, UInt64.toNat_zero]
    rw [UInt64.le_iff_toNat_le, toNat_ofNat_length hmax, hlen]
  unfold readBody
  rw [if_pos hpos, ReadM.bind_ok (sysRead_data hlen.le h)]
  dsimp only
  rw [if_neg fun hlt => not_lt_one hne hmax hlt.1, hleft, if_pos rfl]
  rfl

theorem readBody_last {pkt : Packet} {net' : Net κ σ} (hne : c ≠ []) (hlen : c.length = net.nRemainingRead.toNat)
    (h : upkPacketHeaderLen + c.length ≤ upkMaxPacketSize)
    (hpkt : upkDeserializePacket (net.readbuf.store upkPacketHeaderLen c h).bytes = .ok (.packet pkt))
    (hcall : upkCallReceivedPacketCallbacks cb pkt
      { net with readbuf := net.readbuf.store upkPacketHeaderLen c h, nRemainingRead := 0 } = .ok net') :
    readBody cb net (.data c :: rs) = .ok ({ net' with readbuf := .zero _ }, rs) := by
  rw [readBody_complete hne hlen h]
  exact receivePacket_packet hpkt hcall

end Upkeeper
