import Upkeeper.Library.Machine
import Upkeeper.Network.Read
import Upkeeper.Protocol.RoundTrip
/-!
# Fragmentation of the incoming stream

The bytes of a connection are the packets of the peer one after another, and every `read` returns a chunk of them.
`upk_read_packets` counts the bytes of a header or of a body that it has, but stores every chunk at the start of its
area. So a chunk that continues a header or a body overwrites what came before; the packets are delivered as they were
sent as long as that makes no difference (`InPlace`).

`Holds net n t` is the invariant inside a packet of `n` bytes: the bytes `t` of it have arrived, and stand in `readbuf`.
-/

namespace Upkeeper

open Wire (Fault ofBe32 be32)

variable {κ σ : Type}

/-! ### What is sent -/

/-- A packet on the wire that the decoder accepts, and that fits into `readbuf` -/
structure WirePacket where
  len : UInt32
  seq : UInt32
  pkttype : UInt32
  crc : UInt32
  body : List UInt8
  payload : Payload
  body_length : body.length = len.toNat
  short : len.toNat ≤ upkMaxPacketSize - 20
  typed : pkttype < 4
  checked : upkVerifyCrc32 body crc = true
  decoded : v0DeserializePayload body pkttype = .ok payload
  known : 0 ≤ upkMsgtypeIdx payload.msgtype ∧ (upkMsgtypeIdx payload.msgtype).toNat < totalNMsgTypes

namespace WirePacket

variable {p : WirePacket}

/-- The first read of the packet -/
def header (p : WirePacket) : List UInt8 := be32 p.len ++ (be32 0 ++ (be32 p.seq ++ be32 p.pkttype))

/-- The payload and the checksum -/
def rest (p : WirePacket) : List UInt8 := p.body ++ be32 p.crc

/-- The packet as it is sent -/
def bytes (p : WirePacket) : List UInt8 := p.header ++ p.rest

theorem header_length : p.header.length = 16 := rfl

theorem rest_length : p.rest.length = p.len.toNat + 4 := by
  rw [rest, List.length_append, p.body_length, Wire.be32_length]

theorem bytes_length : p.bytes.length = p.len.toNat + 20 := by
  rw [bytes, List.length_append, header_length, rest_length]
  omega

theorem bytes_eq (p : WirePacket) : p.bytes = packetBytes p.len 0 p.seq p.pkttype p.body p.crc := by
  simp [bytes, header, rest, packetBytes]

/-- What the decoder makes of it -/
def packet (p : WirePacket) : Packet := ⟨p.len, 0, p.seq, p.pkttype, some p.payload, p.crc⟩

theorem deserialize (p : WirePacket) (bs : List UInt8) :
    upkDeserializePacket (p.bytes ++ bs) = .ok (.packet p.packet) := by
  have hmax : p.len.toNat ≤ upkMaxPacketSize := p.short.trans (Nat.sub_le _ _)
  rw [bytes_eq, upkDeserializePacket_bytes p.body_length hmax bs, if_neg (not_not.mpr p.typed),
    if_neg (not_not.mpr p.checked), p.decoded]
  rfl

/-- The packet in two reads -/
def unsplit (p : WirePacket) : List (List UInt8) := [p.header, p.rest]

end WirePacket

/-- The packets one after another -/
def stream (ps : List WirePacket) : List UInt8 := (ps.map WirePacket.bytes).flatten

theorem ofNat_wire_toNat {payload : Payload} (hshort : payload.wire.length ≤ upkMaxPacketSize - 20) :
    (UInt32.ofNat payload.wire.length).toNat = payload.wire.length := by
  rw [UInt32.toNat_ofNat', Nat.mod_eq_of_lt]
  exact hshort.trans_lt (by decide)

/-- The packet that carries a message -/
def Payload.onWire (payload : Payload) (hm : payload.msgtype = payload.tag.2) (hs : payload.StrsOk)
    (hshort : payload.wire.length ≤ upkMaxPacketSize - 20) : WirePacket where
  len := .ofNat payload.wire.length
  seq := 0
  pkttype := payload.tag.1
  crc := upkCrc32 payload.wire
  body := payload.wire
  payload := payload.canon
  body_length := (ofNat_wire_toNat hshort).symm
  short := by rwa [ofNat_wire_toNat hshort]
  typed := by rcases payload.tag_pkttype with h | h | h <;> rw [h] <;> decide
  checked := beq_self_eq_true _
  decoded := (payload.coded hm hs).deserial
  known := by
    have hcanon : payload.canon.msgtype = payload.msgtype := by cases payload <;> rfl
    rw [hcanon, hm]
    cases payload <;> simp only [Payload.tag] <;> decide

/-- **What a constructor creates and `upk_serialize_packet` writes is such a packet.** -/
theorem Created.onWire {pkt : Packet} {payload : Payload} (h : Created pkt payload) :
    ∃ p : WirePacket, p.bytes = frame pkt payload.wire ∧ p.payload = payload.canon := by
  obtain ⟨rfl, hm, hs, hshort⟩ := h
  exact ⟨payload.onWire hm hs hshort, WirePacket.bytes_eq _, rfl⟩

/-! ### What is delivered -/

/-- What the callbacks have made of a connection so far -/
abbrev App (κ σ : Type) := Session κ × σ × List (κ × Payload)

/-- The part of a connection that the callbacks see, and their calls -/
def Net.app (net : Net κ σ) : App κ σ := (net.toSession, net.world, net.calls)

/-- The delivery of a packet -/
def deliver (cb : Callbacks κ σ) (app : App κ σ) (p : WirePacket) : App κ σ :=
  let (s, w, calls) := app
  if s.Closed then app else
    let s := { s with lastPktData := some p.payload }
    match s.msgHandler p.payload.msgtype with
    | .ok (some k) =>
      let (s, w) := cb k (s, w) (some p.payload)
      (s, w, calls ++ [(k, p.payload)])
    | _ => (s, w, calls)

/-- The deliveries of packets one after another -/
def deliverAll (cb : Callbacks κ σ) (app : App κ σ) (ps : List WirePacket) : App κ σ := ps.foldl (deliver cb) app

variable {cb : Callbacks κ σ} {net : Net κ σ} {p : WirePacket} {ps : List WirePacket} {t c : List UInt8}
  {rs : List ReadResult}

theorem deliver_closed {app : App κ σ} (h : app.1.Closed) : deliver cb app p = app := if_pos h

theorem deliverAll_closed {app : App κ σ} (h : app.1.Closed) : deliverAll cb app ps = app := by
  unfold deliverAll
  induction ps with
  | nil => rfl
  | cons p ps ih => rw [List.foldl_cons, deliver_closed h, ih]

theorem callReceivedPacketCallbacks_eq (cb : Callbacks κ σ) (p : WirePacket) (net : Net κ σ) (hopen : ¬net.Closed) :
    ∃ net', upkCallReceivedPacketCallbacks cb p.packet net = .ok net' ∧ net'.app = deliver cb net.app p ∧
      net'.nHdrBytesRead = net.nHdrBytesRead ∧ net'.nRemainingRead = net.nRemainingRead := by
  unfold upkCallReceivedPacketCallbacks deliver Net.app
  simp only [WirePacket.packet]
  rw [if_neg hopen]
  have hidx : ∃ k, Session.msgHandler { net.toSession with lastPktData := some p.payload } p.payload.msgtype = .ok k := by
    unfold Session.msgHandler
    rcases net.state with _ | _ | ⟨stk, stks⟩
    · exact ⟨_, rfl⟩
    · exact ⟨_, rfl⟩
    · exact ⟨_, dif_pos p.known⟩
  obtain ⟨k, hk⟩ := hidx
  rw [hk]
  cases k with
  | none => exact ⟨_, rfl, rfl, rfl, rfl⟩
  | some k => exact ⟨_, rfl, rfl, rfl, rfl⟩

/-! ### Inside a packet -/

/-- The bytes `t` of a packet of `n` bytes have arrived. -/
structure Holds (net : Net κ σ) (n : Nat) (t : List UInt8) : Prop where
  buf : net.readbuf.bytes.take t.length = t
  header : t.length < 16 → net.nRemainingRead = 0 ∧ net.nHdrBytesRead.toNat = t.length
  body : 16 ≤ t.length → net.nHdrBytesRead.toNat = 0 ∧ net.nRemainingRead.toNat + t.length = n

theorem Holds.nil {n m : Nat} (h : Holds net n []) : Holds net m [] :=
  ⟨rfl, h.header, fun hle => absurd hle (by simp)⟩

/-- Storing the chunk at the start of the area at `off` has the same effect as storing it behind the `k` bytes that
are there. -/
def Seated (a : CharArr upkMaxPacketSize) (off k : Nat) (c : List UInt8) : Prop :=
  ∀ h, (a.store off c h).bytes.take (off + k + c.length) = a.bytes.take (off + k) ++ c

instance (a : CharArr upkMaxPacketSize) (off k : Nat) (c : List UInt8) : Decidable (Seated a off k c) :=
  inferInstanceAs (Decidable (∀ _, _))

theorem Seated.zero (a : CharArr upkMaxPacketSize) (off : Nat) (c : List UInt8) : Seated a off 0 c :=
  fun _ => CharArr.take_store_end

/-- What a call leaves when `t` has arrived of the packet `p`: the packet is delivered when it is complete. -/
def Progress (cb : Callbacks κ σ) (p : WirePacket) (net net' : Net κ σ) (t : List UInt8) : Prop :=
  if t.length < p.bytes.length then net'.app = net.app ∧ Holds net' p.bytes.length t
  else net'.app = deliver cb net.app p ∧ Holds net' 0 []

theorem call_header {n : Nat} (cb : Callbacks κ σ) (rs : List ReadResult) (hopen : ¬net.Closed) (h : Holds net n t)
    (hne : c ≠ []) (hlen : t.length + c.length < 16) (hseat : Seated net.readbuf 0 t.length c) :
    ∃ net', upkReadPackets cb net (.data c :: rs) = .ok (net', rs) ∧ net'.app = net.app ∧ Holds net' n (t ++ c) := by
  obtain ⟨hrem, hhdr⟩ := h.header (by omega)
  have h16 : upkPacketHeaderLen = 16 := rfl
  have hfit : 0 + c.length ≤ upkMaxPacketSize := by
    have hmax : upkMaxPacketSize = 65536 := rfl
    omega
  obtain ⟨net', hread, hnet', hcount⟩ := readHeader_data rs hrem hne (by omega) hfit
  have hrem' : net'.nRemainingRead = 0 := by rw [hnet', ← hrem]
  have hopen' : ¬net'.Closed := by rwa [hnet']
  refine ⟨net', ?_, by rw [hnet']; rfl, ?_, fun _ => ⟨hrem', ?_⟩, fun hle => ?_⟩
  · unfold upkReadPackets
    rw [ifOpen_open hopen, ReadM.bind_ok hread, ifOpen_open hopen',
      ReadM.bind_ok (verifyHeader_skip fun hfull => by omega), ifOpen_open hopen']
    exact readBody_skip hrem'
  · rw [hnet', List.length_append]
    have := hseat hfit
    rw [Nat.zero_add, h.buf] at this
    exact this
  · rw [hcount, hhdr, List.length_append]
  · rw [List.length_append] at hle
    omega

/-- The chunk that completes the header: the call goes on with the body. -/
theorem call_headerEnd {n : Nat} (cb : Callbacks κ σ) (rs : List ReadResult) (hopen : ¬net.Closed) (h : Holds net n t)
    (hne : c ≠ []) (ht : t ++ c = p.header) (hseat : Seated net.readbuf 0 t.length c) :
    ∃ net', upkReadPackets cb net (.data c :: rs) = readBody cb net' rs ∧ net'.app = net.app ∧
      Holds net' p.bytes.length p.header := by
  have h16 : upkPacketHeaderLen = 16 := rfl
  have hmax : upkMaxPacketSize = 65536 := rfl
  have hpos := List.length_pos_of_ne_nil hne
  have hlen : t.length + c.length = 16 := by rw [← List.length_append, ht, WirePacket.header_length]
  have hshort := p.short
  obtain ⟨hrem, hhdr⟩ := h.header (by omega)
  have hfit : 0 + c.length ≤ upkMaxPacketSize := by omega
  obtain ⟨net₁, hread, hnet₁, hcount⟩ := readHeader_data rs hrem hne (by omega) hfit
  have hbuf : net₁.readbuf.bytes.take 16 = p.header := by
    have := hseat hfit
    rw [Nat.zero_add, h.buf, hlen, ht] at this
    rw [hnet₁]
    exact this
  have hl : ofBe32 (net₁.readbuf.bytes.take 4) = p.len := by
    have : net₁.readbuf.bytes.take 4 = be32 p.len := by
      rw [← Nat.min_eq_left (by omega : 4 ≤ 16), ← List.take_take, hbuf]
      rfl
    rw [this, Wire.ofBe32_be32]
  have hv : ofBe32 ((net₁.readbuf.bytes.drop 4).take 4) = 0 := by
    have : (net₁.readbuf.bytes.drop 4).take 4 = be32 0 := by
      rw [List.take_drop, ← Nat.min_eq_left (by omega : 4 + 4 ≤ 16), ← List.take_take, hbuf]
      rfl
    rw [this, Wire.ofBe32_be32]
  have hrem₁ : net₁.nRemainingRead = 0 := by rw [hnet₁, ← hrem]
  have hopen₁ : ¬net₁.Closed := by rwa [hnet₁]
  obtain ⟨net₂, hverify, hnet₂, hcount₂⟩ := verifyHeader_accept rs hrem₁ (by omega) hl hv (by omega)
  have hopen₂ : ¬net₂.Closed := by rwa [hnet₂]
  refine ⟨net₂, ?_, by rw [hnet₂, hnet₁]; rfl, ?_, fun hlt => ?_, fun _ => ⟨?_, ?_⟩⟩
  · unfold upkReadPackets
    rw [ifOpen_open hopen, ReadM.bind_ok hread, ifOpen_open hopen₁, ReadM.bind_ok hverify, ifOpen_open hopen₂]
  · rw [WirePacket.header_length, hnet₂]
    exact hbuf
  · rw [WirePacket.header_length] at hlt
    omega
  · rw [hnet₂]
    rfl
  · rw [hcount₂, WirePacket.header_length, WirePacket.bytes_length]
    rfl

theorem call_body (cb : Callbacks κ σ) (rs : List ReadResult) (hopen : ¬net.Closed) (h : Holds net p.bytes.length t)
    (ht : 16 ≤ t.length) (hne : c ≠ []) (hpre : t ++ c <+: p.bytes) (hseat : Seated net.readbuf 16 (t.length - 16) c) :
    ∃ net', readBody cb net (.data c :: rs) = .ok (net', rs) ∧ Progress cb p net net' (t ++ c) := by
  obtain ⟨hhdr, hcount⟩ := h.body ht
  have hlen : t.length + c.length ≤ p.bytes.length := by simpa using hpre.length_le
  have hpos := List.length_pos_of_ne_nil hne
  have hfit : upkPacketHeaderLen + c.length ≤ upkMaxPacketSize := by
    have h16 : upkPacketHeaderLen = 16 := rfl
    have hmax : upkMaxPacketSize = 65536 := rfl
    have hshort := p.short
    rw [WirePacket.bytes_length] at hlen
    omega
  have hbuf : (net.readbuf.store upkPacketHeaderLen c hfit).bytes.take (t.length + c.length) = t ++ c := by
    have := hseat hfit
    rwa [Nat.add_sub_cancel' ht, h.buf] at this
  unfold Progress
  rw [List.length_append]
  by_cases hend : t.length + c.length < p.bytes.length
  · obtain ⟨net', hread, hnet', hcount'⟩ := readBody_part cb rs hne (by omega : c.length < net.nRemainingRead.toNat) hfit
    refine ⟨net', hread, ?_⟩
    rw [if_pos hend]
    refine ⟨by rw [hnet']; rfl, ?_, fun hlt => ?_, fun _ => ⟨?_, ?_⟩⟩
    · rw [hnet', List.length_append]
      exact hbuf
    · rw [List.length_append] at hlt
      omega
    · rw [hnet']
      exact hhdr
    · rw [hcount', List.length_append]
      omega
  · have heq : t ++ c = p.bytes := hpre.eq_of_length_le (by rw [List.length_append]; omega)
    have hpkt := p.deserialize ((net.readbuf.store upkPacketHeaderLen c hfit).bytes.drop (t.length + c.length))
    rw [← heq, ← hbuf, List.take_append_drop] at hpkt
    obtain ⟨net', hcall, happ, hhdr', hrem'⟩ := callReceivedPacketCallbacks_eq cb p
      { net with readbuf := net.readbuf.store upkPacketHeaderLen c hfit, nRemainingRead := 0 } hopen
    refine ⟨_, readBody_last hne (by omega) hfit hpkt hcall, ?_⟩
    rw [if_neg hend]
    refine ⟨happ, rfl, fun _ => ⟨hrem', ?_⟩, fun hle => absurd hle (by simp)⟩
    show net'.nHdrBytesRead.toNat = 0
    rw [hhdr']
    exact hhdr

/-! ### One call -/

/-- The call ends, or is undefined, with all results used up. -/
def Ends : Except Halt (Net κ σ × List ReadResult) → Prop
  | .ok (_, rs) => rs = []
  | .error e => e ≠ .noResult

/-- The chunks are what the reads of the call return: none is empty, missing or left over, and none is longer than the
read asked for. -/
def Takes (cb : Callbacks κ σ) (net : Net κ σ) (io : List (List UInt8)) : Prop :=
  (∀ c ∈ io, c ≠ []) ∧ (net.Closed ∨ Ends (upkReadPackets cb net (io.map .data)))

/-- The first chunk of the call continues the header or the body in its place. -/
def InPlace (net : Net κ σ) (io : List (List UInt8)) : Prop :=
  ¬net.Closed → ∀ c ∈ io.head?,
    if net.nRemainingRead = 0 then Seated net.readbuf 0 net.nHdrBytesRead.toNat c
    else Seated net.readbuf 16 ((ofBe32 (net.readbuf.bytes.take 4)).toNat + 4 - net.nRemainingRead.toNat) c

instance : (r : Except Halt (Net κ σ × List ReadResult)) → Decidable (Ends r)
  | .ok (_, []) => isTrue rfl
  | .ok (_, _ :: _) => isFalse (List.cons_ne_nil _ _)
  | .error .noResult => isFalse fun h => h rfl
  | .error (.fault _) => isTrue (by simp [Ends])

instance (cb : Callbacks κ σ) (net : Net κ σ) (io : List (List UInt8)) : Decidable (Takes cb net io) :=
  inferInstanceAs (Decidable (_ ∧ _))

instance (net : Net κ σ) (io : List (List UInt8)) : Decidable (InPlace net io) :=
  inferInstanceAs (Decidable (¬_ → ∀ _, _))

/-- A call of `upk_read_packets` whose reads return the chunks `io`. On a closed connection nothing is read. -/
def readStep (cb : Callbacks κ σ) (net : Net κ σ) (io : List (List UInt8)) : Option (Net κ σ) :=
  match upkReadPackets cb net (io.map .data) with
  | .ok (net', rs) => if rs.isEmpty ∨ net.Closed then some net' else none
  | .error _ => none

theorem upkReadPackets_closed (h : net.Closed) : upkReadPackets cb net rs = .ok (net, rs) := by
  unfold upkReadPackets
  rw [ReadM.bind_ok (ifOpen_closed h), ReadM.bind_ok (ifOpen_closed h), ifOpen_closed h]

theorem readStep_closed (h : net.Closed) (io : List (List UInt8)) : readStep cb net io = some net := by
  unfold readStep
  rw [upkReadPackets_closed h]
  exact if_pos (Or.inr h)

theorem readStep_ok {net' : Net κ σ} {io : List (List UInt8)} (h : upkReadPackets cb net (io.map .data) = .ok (net', [])) :
    readStep cb net io = some net' := by
  unfold readStep
  rw [h]
  rfl

theorem prefix_packet {more : List UInt8} (hpre : t <+: p.bytes ++ more) (hlen : t.length ≤ p.bytes.length) :
    t <+: p.bytes :=
  List.prefix_of_prefix_length_le hpre (List.prefix_append _ _) hlen

theorem Holds.remaining {n : Nat} (h : Holds net n t) (ht : 16 ≤ t.length) (hlt : t.length < n) :
    net.nRemainingRead ≠ 0 := by
  intro h0
  obtain ⟨-, hcount⟩ := h.body ht
  rw [h0, UInt64.toNat_zero] at hcount
  omega

theorem Holds.payloadLen (h : Holds net p.bytes.length t) (hpre : t <+: p.bytes) (ht : 16 ≤ t.length) :
    ofBe32 (net.readbuf.bytes.take 4) = p.len := by
  have htake : net.readbuf.bytes.take 4 = be32 p.len := by
    rw [← Nat.min_eq_left (by omega : 4 ≤ t.length), ← List.take_take, h.buf, List.prefix_iff_eq_take.mp hpre,
      List.take_take, Nat.min_eq_left (by omega : 4 ≤ t.length)]
    rfl
  rw [htake, Wire.ofBe32_be32]

theorem Ends.head_header {io : List (List UInt8)} {n : Nat} (hopen : ¬net.Closed) (h : Holds net n t)
    (ht : t.length < 16) (hends : Ends (upkReadPackets cb net (io.map .data))) :
    ∃ c io', io = c :: io' ∧ t.length + c.length ≤ 16 := by
  have h16 : upkPacketHeaderLen = 16 := rfl
  obtain ⟨hrem, hhdr⟩ := h.header ht
  by_contra hcon
  have hnone : readHeader net (io.map .data) = .error .noResult := by
    refine readHeader_noResult hrem (by omega) fun c hc => ?_
    by_contra hle
    obtain ⟨io', rfl⟩ := List.head?_eq_some_iff.mp hc
    exact hcon ⟨c, io', rfl, by omega⟩
  unfold upkReadPackets at hends
  rw [ifOpen_open hopen, ReadM.bind_error hnone] at hends
  exact hends rfl

theorem Ends.head_body {io : List (List UInt8)} {n : Nat} (h : Holds net n t) (ht : 16 ≤ t.length) (hlt : t.length < n)
    (hends : Ends (readBody cb net (io.map .data))) : ∃ c io', io = c :: io' ∧ t.length + c.length ≤ n := by
  obtain ⟨-, hcount⟩ := h.body ht
  by_contra hcon
  have hrem := h.remaining ht hlt
  have hnone : readBody cb net (io.map .data) = .error .noResult := by
    refine readBody_noResult hrem fun c hc => ?_
    by_contra hle
    obtain ⟨io', rfl⟩ := List.head?_eq_some_iff.mp hc
    exact hcon ⟨c, io', rfl, by omega⟩
  rw [hnone] at hends
  exact hends rfl

theorem call_bodyEnds {io : List (List UInt8)} {more : List UInt8} (hopen : ¬net.Closed)
    (h : Holds net p.bytes.length t) (ht : 16 ≤ t.length) (hlt : t.length < p.bytes.length) (hne : ∀ c ∈ io, c ≠ [])
    (hends : Ends (readBody cb net (io.map .data))) (hpre : t ++ io.flatten <+: p.bytes ++ more)
    (hseat : ∀ c ∈ io.head?, Seated net.readbuf 16 (t.length - 16) c) :
    ∃ net', readBody cb net (io.map .data) = .ok (net', []) ∧ t ++ io.flatten <+: p.bytes ∧
      Progress cb p net net' (t ++ io.flatten) := by
  obtain ⟨c, io', rfl, hlen⟩ := hends.head_body h ht hlt
  have htc : t ++ c <+: p.bytes := by
    refine prefix_packet ((List.prefix_append_right_inj t).mpr ?_ |>.trans hpre) (by rwa [List.length_append])
    exact List.prefix_append c _
  obtain ⟨net', hread, hprog⟩ := call_body cb (io'.map .data) hopen h ht (hne c List.mem_cons_self) htc (hseat c rfl)
  rw [List.map_cons] at hends ⊢
  rw [hread] at hends ⊢
  obtain rfl : io' = [] := List.map_eq_nil_iff.mp hends
  rw [List.flatten_singleton]
  exact ⟨net', rfl, htc, hprog⟩

theorem upkReadPackets_body {n : Nat} (cb : Callbacks κ σ) (rs : List ReadResult) (hopen : ¬net.Closed)
    (h : Holds net n t) (ht : 16 ≤ t.length) (hlt : t.length < n) :
    upkReadPackets cb net rs = readBody cb net rs := by
  have hrem := h.remaining ht hlt
  unfold upkReadPackets
  rw [ifOpen_open hopen, ReadM.bind_ok (readHeader_skip fun hr => hrem hr.1), ifOpen_open hopen,
    ReadM.bind_ok (verifyHeader_skip fun hr => hrem hr.1), ifOpen_open hopen]

theorem InPlace.body {io : List (List UInt8)} (hplace : InPlace net io) (hopen : ¬net.Closed)
    (h : Holds net p.bytes.length t) (htp : t <+: p.bytes) (ht : 16 ≤ t.length) (hlt : t.length < p.bytes.length) :
    ∀ c ∈ io.head?, Seated net.readbuf 16 (t.length - 16) c := by
  intro c hc
  obtain ⟨-, hcount⟩ := h.body ht
  have htotal : p.bytes.length = p.len.toNat + 20 := WirePacket.bytes_length
  have hseat := hplace hopen c hc
  rwa [if_neg (h.remaining ht hlt), h.payloadLen htp ht,
    show p.len.toNat + 4 - net.nRemainingRead.toNat = t.length - 16 by omega] at hseat

theorem takes_body (cb : Callbacks κ σ) (hopen : ¬net.Closed) (h : Holds net p.bytes.length t) (ht : 16 ≤ t.length)
    (hlt : t.length < p.bytes.length) (hne : c ≠ []) (hpre : t ++ c <+: p.bytes) (hplace : InPlace net [c]) :
    Takes cb net [c] := by
  have htp : t <+: p.bytes := (List.prefix_append t c).trans hpre
  obtain ⟨net', hread, -⟩ := call_body cb [] hopen h ht hne hpre (hplace.body hopen h htp ht hlt c rfl)
  refine ⟨by simpa using hne, .inr ?_⟩
  rw [List.map_singleton, upkReadPackets_body cb _ hopen h ht hlt, hread]
  rfl

/-- **What one call does inside a packet.** -/
theorem call_progress {io : List (List UInt8)} {more : List UInt8} (hopen : ¬net.Closed)
    (h : Holds net p.bytes.length t) (htp : t <+: p.bytes) (hlt : t.length < p.bytes.length) (hio : Takes cb net io)
    (hplace : InPlace net io) (hpre : t ++ io.flatten <+: p.bytes ++ more) :
    ∃ net', readStep cb net io = some net' ∧ t ++ io.flatten <+: p.bytes ∧
      Progress cb p net net' (t ++ io.flatten) := by
  have hends := hio.2.resolve_left hopen
  have hne := hio.1
  have htotal : p.bytes.length = p.len.toNat + 20 := WirePacket.bytes_length
  by_cases ht : t.length < 16
  · obtain ⟨hrem, hhdr⟩ := h.header ht
    obtain ⟨c, io', rfl, hlen⟩ := hends.head_header hopen h ht
    have hc := hne c List.mem_cons_self
    have hseat : Seated net.readbuf 0 t.length c := by
      have := hplace hopen c rfl
      rwa [if_pos hrem, hhdr] at this
    have htc : t ++ c <+: p.bytes := by
      refine prefix_packet ((List.prefix_append_right_inj t).mpr ?_ |>.trans hpre) (by rw [List.length_append]; omega)
      exact List.prefix_append c _
    rw [List.map_cons] at hends
    by_cases hend : t.length + c.length < 16
    · obtain ⟨net', hread, happ, hholds⟩ := call_header cb (io'.map .data) hopen h hc hend hseat
      rw [hread] at hends
      obtain rfl : io' = [] := List.map_eq_nil_iff.mp hends
      rw [List.flatten_singleton]
      refine ⟨net', readStep_ok hread, htc, ?_⟩
      unfold Progress
      rw [if_pos (by rw [List.length_append]; omega)]
      exact ⟨happ, hholds⟩
    · have hheader : t ++ c = p.header := by
        have : t ++ c = p.bytes.take 16 := by
          rw [List.prefix_iff_eq_take.mp htc, List.length_append, show t.length + c.length = 16 by omega]
        rw [this]
        rfl
      obtain ⟨mid, hread, happ, hholds⟩ := call_headerEnd cb (io'.map .data) hopen h hc hheader hseat
      have hmid : ¬mid.Closed := by
        have : mid.toSession = net.toSession := congrArg Prod.fst happ
        rwa [Session.Closed, this]
      rw [hread] at hends
      rw [List.flatten_cons, ← List.append_assoc, hheader] at hpre ⊢
      obtain ⟨net', hbody, hpre', hprog⟩ := call_bodyEnds hmid hholds (by rw [WirePacket.header_length])
        (by rw [WirePacket.header_length]; omega) (fun d hd => hne d (List.mem_cons_of_mem _ hd)) hends hpre
        (fun d _ => Seated.zero _ _ _)
      refine ⟨net', readStep_ok (hread.trans hbody), hpre', ?_⟩
      unfold Progress at hprog ⊢
      rwa [happ] at hprog
  · have hbody := upkReadPackets_body cb (io.map .data) hopen h (by omega) hlt
    rw [hbody] at hends
    obtain ⟨net', hread, hpre', hprog⟩ :=
      call_bodyEnds hopen h (by omega) hlt hne hends hpre (hplace.body hopen h htp (by omega) hlt)
    exact ⟨net', readStep_ok (hbody.trans hread), hpre', hprog⟩

/-! ### Runs -/

/-- A connection and what its socket still has to give -/
abbrev Feed (κ σ : Type) := Net κ σ × List UInt8

/-- A call of `upk_read_packets` whose reads return the chunks `io` of the stream -/
def feedStep (cb : Callbacks κ σ) (s : Feed κ σ) (io : List (List UInt8)) : Option (Feed κ σ) :=
  if io.flatten <+: s.2 then (readStep cb s.1 io).map fun net => (net, s.2.drop io.flatten.length) else none

/-- The calls get their chunks from the stream. -/
def Fed (cb : Callbacks κ σ) (s : Feed κ σ) (io : List (List UInt8)) : Prop := io.flatten <+: s.2 ∧ Takes cb s.1 io

instance (cb : Callbacks κ σ) (s : Feed κ σ) (io : List (List UInt8)) : Decidable (Fed cb s io) :=
  inferInstanceAs (Decidable (_ ∧ _))

/-- The length of the packet that is being read -/
def nextLength : List WirePacket → Nat
  | [] => 0
  | p :: _ => p.bytes.length

/-- The bytes `t` that have arrived are the packets `pre` and the first bytes `part` of the next one. -/
structure Cut (ps pre post : List WirePacket) (t part : List UInt8) : Prop where
  packets : ps = pre ++ post
  bytes : t = stream pre ++ part
  sent : part <+: stream post
  short : ∀ p ∈ post.head?, part.length < p.bytes.length

/-- **The packets that have arrived are delivered as if each had come in two reads.** -/
def Delivered (cb : Callbacks κ σ) (ps : List WirePacket) (net : Net κ σ) (s : Feed κ σ) (t : List UInt8) : Prop :=
  ∃ pre post part, Cut ps pre post t part ∧
    ∃ ref, Machine.run (feedStep cb) (net, stream pre) (pre.map WirePacket.unsplit) = some (ref, []) ∧ s.1.app = ref.app

/-- The invariant of a run -/
def Arrived (cb : Callbacks κ σ) (ps : List WirePacket) (app : App κ σ) (s : Feed κ σ) (t : List UInt8) : Prop :=
  ∃ pre post part, Cut ps pre post t part ∧ part ++ s.2 = stream post ∧ s.1.app = deliverAll cb app pre ∧
    (s.1.Closed ∨ Holds s.1 (nextLength post) part)

theorem feedStep_ok {s : Feed κ σ} {io : List (List UInt8)} {more : List UInt8} {net' : Net κ σ}
    (hmore : io.flatten ++ more = s.2) (hstep : readStep cb s.1 io = some net') : feedStep cb s io = some (net', more) := by
  unfold feedStep
  rw [if_pos ⟨more, hmore⟩, hstep, ← hmore, List.drop_left]
  rfl

theorem stream_cons : stream (p :: ps) = p.bytes ++ stream ps := rfl

theorem stream_append {qs : List WirePacket} : stream (ps ++ qs) = stream ps ++ stream qs := by
  simp [stream]

theorem bytes_pos : 0 < p.bytes.length := by
  rw [WirePacket.bytes_length]
  omega

theorem exists_cut (ps : List WirePacket) : ∀ t, t <+: stream ps → ∃ pre post part, Cut ps pre post t part := by
  induction ps with
  | nil =>
    intro t ht
    obtain rfl := List.prefix_nil.mp ht
    exact ⟨[], [], [], rfl, rfl, List.nil_prefix, by simp⟩
  | cons p ps ih =>
    intro t ht
    by_cases hlt : t.length < p.bytes.length
    · exact ⟨[], p :: ps, t, rfl, rfl, ht, by simpa using hlt⟩
    · -- the first packet is complete
      obtain ⟨rest, rfl⟩ : p.bytes <+: t :=
        List.prefix_of_prefix_length_le (List.prefix_append _ _) ht (by omega)
      obtain ⟨pre, post, part, hcut⟩ := ih rest ((List.prefix_append_right_inj _).mp ht)
      refine ⟨p :: pre, post, part, by rw [hcut.packets, List.cons_append], ?_, hcut.sent, hcut.short⟩
      rw [hcut.bytes, stream_cons, List.append_assoc]

theorem Arrived.closed {app : App κ σ} {s : Feed κ σ} {io : List (List UInt8)} (hclosed : s.1.Closed)
    (h : Arrived cb ps app s t) (hio : io.flatten <+: s.2) :
    ∃ s', feedStep cb s io = some s' ∧ Arrived cb ps app s' (t ++ io.flatten) := by
  obtain ⟨pre, post, part, hcut, hunread, happ, -⟩ := h
  obtain ⟨more, hmore⟩ := hio
  refine ⟨(s.1, s.2.drop io.flatten.length), ?_, ?_⟩
  · unfold feedStep
    rw [if_pos ⟨more, hmore⟩, readStep_closed hclosed]
    rfl
  have hpost : part ++ io.flatten <+: stream post := ⟨more, by rw [← hunread, ← hmore, List.append_assoc]⟩
  obtain ⟨pre', post', part', hcut'⟩ := exists_cut post _ hpost
  refine ⟨pre ++ pre', post', part', ⟨?_, ?_, hcut'.sent, hcut'.short⟩, ?_, ?_, Or.inl hclosed⟩
  · rw [hcut.packets, hcut'.packets, List.append_assoc]
  · rw [hcut.bytes, List.append_assoc, hcut'.bytes, stream_append, List.append_assoc]
  · have hbytes : stream pre' ++ (part' ++ s.2.drop io.flatten.length) = stream pre' ++ stream post' := by
      rw [← List.append_assoc, ← hcut'.bytes, ← stream_append, ← hcut'.packets, ← hunread, List.append_assoc, ← hmore,
        List.drop_left]
    exact List.append_cancel_left hbytes
  · rw [deliverAll, List.foldl_append]
    show s.1.app = deliverAll cb (deliverAll cb app pre) pre'
    rw [← happ, deliverAll_closed hclosed]

/-- **What one call does to a run.** -/
theorem Arrived.step {app : App κ σ} {s : Feed κ σ} {io : List (List UInt8)} (h : Arrived cb ps app s t)
    (hfed : Fed cb s io) (hplace : InPlace s.1 io) :
    ∃ s', feedStep cb s io = some s' ∧ Arrived cb ps app s' (t ++ io.flatten) := by
  by_cases hopen : s.1.Closed
  · exact h.closed hopen hfed.1
  obtain ⟨pre, post, part, hcut, hunread, happ, hholds⟩ := h
  replace hholds := hholds.resolve_left hopen
  obtain ⟨⟨more, hmore⟩, htakes⟩ := hfed
  have hpre : part ++ io.flatten <+: stream post := ⟨more, by rw [← hunread, ← hmore, List.append_assoc]⟩
  cases post with
  | nil =>
    -- an open connection would read, but all has been read
    obtain ⟨rfl, hflat⟩ := List.append_eq_nil_iff.mp (List.prefix_nil.mp hpre)
    obtain ⟨c, io', rfl, -⟩ := (htakes.2.resolve_left hopen).head_header hopen hholds (by simp)
    have hc := htakes.1 c List.mem_cons_self
    simp [hc] at hflat
  | cons p post =>
    have hlt := hcut.short p rfl
    have hpart : part <+: p.bytes := prefix_packet hcut.sent hlt.le
    obtain ⟨net', hstep, hpre', hprog⟩ := call_progress hopen hholds hpart hlt htakes hplace hpre
    refine ⟨(net', more), feedStep_ok hmore hstep, ?_⟩
    have hall : part ++ io.flatten ++ more = stream (p :: post) := by rw [List.append_assoc, hmore, hunread]
    unfold Progress at hprog
    by_cases hend : (part ++ io.flatten).length < p.bytes.length
    · rw [if_pos hend] at hprog
      refine ⟨pre, p :: post, part ++ io.flatten, ⟨hcut.packets, ?_, hpre, by simpa using hend⟩, hall, ?_, Or.inr hprog.2⟩
      · rw [hcut.bytes, List.append_assoc]
      · rw [hprog.1, happ]
    · rw [if_neg hend] at hprog
      have heq : part ++ io.flatten = p.bytes := hpre'.eq_of_length_le (by omega)
      refine ⟨pre ++ [p], post, [], ⟨?_, ?_, List.nil_prefix, fun q _ => bytes_pos⟩, ?_, ?_, Or.inr hprog.2.nil⟩
      · rw [hcut.packets, List.append_assoc]
        rfl
      · rw [hcut.bytes, List.append_assoc, heq, stream_append, List.append_nil]
        simp [stream]
      · rw [heq, stream_cons] at hall
        exact List.append_cancel_left hall
      · rw [hprog.1, happ, deliverAll, deliverAll, List.foldl_append]
        rfl

theorem readStep_unsplit (cb : Callbacks κ σ) (p : WirePacket) (h : net.Closed ∨ Holds net 0 []) :
    Takes cb net p.unsplit ∧ InPlace net p.unsplit ∧ ∃ net', readStep cb net p.unsplit = some net' ∧
      net'.app = deliver cb net.app p ∧ (net'.Closed ∨ Holds net' 0 []) := by
  have hheader : p.header ≠ [] := List.ne_nil_of_length_pos (by rw [WirePacket.header_length]; omega)
  have hrest : p.rest ≠ [] := List.ne_nil_of_length_pos (by rw [WirePacket.rest_length]; omega)
  have hne : ∀ c ∈ p.unsplit, c ≠ [] := by simp [WirePacket.unsplit, hheader, hrest]
  by_cases hopen : net.Closed
  · exact ⟨⟨hne, Or.inl hopen⟩, fun h => absurd hopen h, net, readStep_closed hopen _, (deliver_closed hopen).symm,
      Or.inl hopen⟩
  have hholds := h.resolve_left hopen
  obtain ⟨hrem, hhdr⟩ := hholds.header (by simp)
  obtain ⟨mid, hread, happ, hmid⟩ := call_headerEnd cb [.data p.rest] hopen hholds hheader (List.nil_append _)
    (Seated.zero _ _ _)
  have hopen' : ¬mid.Closed := by
    have : mid.toSession = net.toSession := congrArg Prod.fst happ
    rwa [Session.Closed, this]
  obtain ⟨net', hbody, hprog⟩ := call_body cb [] hopen' hmid (by rw [WirePacket.header_length]) hrest List.prefix_rfl
    (Seated.zero _ _ _)
  have hcall := hread.trans hbody
  have hbytes : p.header ++ p.rest = p.bytes := rfl
  unfold Progress at hprog
  rw [hbytes, if_neg (Nat.lt_irrefl _), happ] at hprog
  refine ⟨⟨hne, Or.inr ?_⟩, fun _ c hc => ?_, net', readStep_ok hcall, hprog.1, Or.inr hprog.2⟩
  · show Ends (upkReadPackets cb net [.data p.header, .data p.rest])
    rw [hcall]
    rfl
  · rw [if_pos hrem, hhdr]
    exact Seated.zero _ _ _

theorem feedStep_unsplit (cb : Callbacks κ σ) (p : WirePacket) (more : List UInt8) (h : net.Closed ∨ Holds net 0 []) :
    Fed cb (net, p.bytes ++ more) p.unsplit ∧ InPlace net p.unsplit ∧
      ∃ net', feedStep cb (net, p.bytes ++ more) p.unsplit = some (net', more) ∧ net'.app = deliver cb net.app p ∧
        (net'.Closed ∨ Holds net' 0 []) := by
  obtain ⟨htakes, hplace, net', hstep, happ, h'⟩ := readStep_unsplit cb p h
  have hflat : p.unsplit.flatten = p.bytes := by simp [WirePacket.unsplit, WirePacket.bytes]
  have hsent : p.unsplit.flatten ++ more = p.bytes ++ more := by rw [hflat]
  exact ⟨⟨⟨more, hsent⟩, htakes⟩, hplace, net', feedStep_ok hsent hstep, happ, h'⟩

/-- **The packets in two reads each are delivered one after another.** -/
theorem run_unsplit (cb : Callbacks κ σ) (ps : List WirePacket) : ∀ net : Net κ σ, net.Closed ∨ Holds net 0 [] →
    ∃ ref, Machine.run (feedStep cb) (net, stream ps) (ps.map WirePacket.unsplit) = some (ref, []) ∧
      ref.app = deliverAll cb net.app ps := by
  induction ps with
  | nil => exact fun net _ => ⟨net, rfl, rfl⟩
  | cons p ps ih =>
    intro net h
    obtain ⟨-, -, net', hstep, happ, h'⟩ := feedStep_unsplit cb p (stream ps) h
    obtain ⟨ref, hrun, href⟩ := ih net' h'
    refine ⟨ref, ?_, by rw [href, happ]; rfl⟩
    rw [List.map_cons, Machine.run_cons, stream_cons, hstep]
    exact hrun

theorem guarded_unsplit (cb : Callbacks κ σ) (ps : List WirePacket) : ∀ net : Net κ σ, net.Closed ∨ Holds net 0 [] →
    Machine.Guarded (feedStep cb) (fun s io => Fed cb s io ∧ InPlace s.1 io) (net, stream ps)
      (ps.map WirePacket.unsplit) := by
  induction ps with
  | nil => exact fun _ _ => trivial
  | cons p ps ih =>
    intro net h
    obtain ⟨hfed, hplace, net', hstep, -, h'⟩ := feedStep_unsplit cb p (stream ps) h
    refine ⟨⟨hfed, hplace⟩, fun s hs => ?_⟩
    obtain rfl := Option.some.inj (hstep.symm.trans hs)
    exact ih net' h'

/-- **Fragmentation.** In a run whose chunks are all in place, the packets that have arrived are at every point
delivered as if each had come in two reads. -/
theorem feed_delivered (cb : Callbacks κ σ) (ps : List WirePacket) (net : Net κ σ) (calls : List (List (List UInt8)))
    (hnet : net.nRemainingRead = 0 ∧ net.nHdrBytesRead = 0)
    (hfed : Machine.Guarded (feedStep cb) (Fed cb) (net, stream ps) calls)
    (hplace : Machine.Guarded (feedStep cb) (fun s io => InPlace s.1 io) (net, stream ps) calls) :
    Machine.Tracks (feedStep cb) (fun _ io t => t ++ io.flatten) (Delivered cb ps net) (net, stream ps) [] calls := by
  have hidle : Holds net 0 [] := ⟨rfl, fun _ => ⟨hnet.1, by rw [hnet.2]; rfl⟩, fun hle => absurd hle (by simp)⟩
  have hstart : Arrived cb ps net.app (net, stream ps) [] :=
    ⟨[], ps, [], ⟨rfl, rfl, List.nil_prefix, fun p _ => bytes_pos⟩, rfl, rfl, Or.inr hidle.nil⟩
  refine (Machine.tracks_of_guarded (fun s t io h hG => h.step hG.1 hG.2) hstart (hfed.and hplace)).mono ?_
  rintro s t ⟨pre, post, part, hcut, -, happ, -⟩
  obtain ⟨ref, hrun, href⟩ := run_unsplit cb pre net (Or.inr hidle)
  exact ⟨pre, post, part, hcut, ref, hrun, happ.trans href.symm⟩

/-- A listing request -/
def reqListPacket : WirePacket where
  len := 4
  seq := 0
  pkttype := pktRequest
  crc := upkCrc32 [0, 0, 0, 6]
  body := [0, 0, 0, 6]
  payload := .reqList ⟨upkReqList⟩
  body_length := rfl
  short := by decide
  typed := by decide
  checked := beq_self_eq_true _
  decoded := rfl
  known := by decide

/-- A new connection on which all messages have the same handler -/
def newNet : Net Unit Unit := .new 5 [⟨fun _ => some ()⟩] ()

/-- The first byte of the header comes alone. -/
def splitHeader : List (List (List UInt8)) :=
  [[reqListPacket.header.take 1], [reqListPacket.header.drop 1, reqListPacket.rest]]

/-- The start of a sequence. The last byte of its checksum is 0. -/
def reqSeqStartPacket : WirePacket :=
  (Payload.reqSeqStart ⟨upkReqSeqStart, upkReqAction, 182⟩).onWire rfl trivial (by decide)

def threeRequests : List WirePacket := [reqSeqStartPacket, reqListPacket, reqListPacket]

/-- The first request without its last byte -/
def withoutLast : List (List UInt8) := [reqSeqStartPacket.header, reqSeqStartPacket.rest.dropLast]

/-- The last byte of the first request comes in a call of its own, and then come the other two requests. -/
def lateByte : List (List (List UInt8)) :=
  withoutLast :: [[0]] :: [reqListPacket, reqListPacket].map WirePacket.unsplit

theorem guarded_lateByte : Machine.Guarded (feedStep ignore) (fun s io => Fed ignore s io ∧ InPlace s.1 io)
    (newNet, stream threeRequests) lateByte := by
  have hidle : Holds newNet 0 [] := ⟨rfl, fun _ => ⟨rfl, rfl⟩, fun hle => absurd hle (by simp)⟩
  have hlen : ([] ++ withoutLast.flatten).length = 31 := by decide +kernel
  have hbytes : [] ++ withoutLast.flatten ++ [0] = reqSeqStartPacket.bytes := by decide +kernel
  have hfirst : Fed ignore (newNet, stream threeRequests) withoutLast ∧ InPlace newNet withoutLast := by decide +kernel
  -- the first byte of the body is 0, as its last one
  have hplace : ∀ net ∈ readStep ignore newNet withoutLast, ¬net.Closed ∧ InPlace net [[0]] := by decide +kernel
  obtain ⟨net₁, hstep₁, -, hprog₁⟩ := call_progress (by decide) hidle.nil List.nil_prefix
    (bytes_pos (p := reqSeqStartPacket)) hfirst.1.2 hfirst.2 hfirst.1.1
  obtain ⟨hopen₁, hplace₁⟩ := hplace net₁ hstep₁
  have hshort : ([] ++ withoutLast.flatten).length < reqSeqStartPacket.bytes.length := by
    rw [hlen]
    decide
  unfold Progress at hprog₁
  rw [if_pos hshort] at hprog₁
  have htakes₁ : Takes ignore net₁ [[0]] :=
    takes_body ignore hopen₁ hprog₁.2 (by omega) hshort (by decide) (hbytes ▸ List.prefix_rfl) hplace₁
  have hsent : [] ++ withoutLast.flatten ++ [[0]].flatten <+:
      reqSeqStartPacket.bytes ++ stream [reqListPacket, reqListPacket] := hbytes ▸ List.prefix_append _ _
  obtain ⟨net₂, hstep₂, -, hprog₂⟩ := call_progress hopen₁ hprog₁.2 (hbytes ▸ List.prefix_append _ _) hshort htakes₁
    hplace₁ hsent
  unfold Progress at hprog₂
  rw [if_neg (by rw [List.length_append, hlen]; decide)] at hprog₂
  refine ⟨hfirst, fun s₁ hs₁ => ?_⟩
  obtain rfl := Option.some.inj ((feedStep_ok (by rfl) hstep₁).symm.trans hs₁)
  refine ⟨⟨⟨List.prefix_append [0] _, htakes₁⟩, hplace₁⟩, fun s₂ hs₂ => ?_⟩
  obtain rfl := Option.some.inj ((feedStep_ok (by rfl) hstep₂).symm.trans hs₂)
  exact guarded_unsplit ignore _ net₂ (.inr hprog₂.2)

/-- **The requests of `lateByte`** are a run whose chunks are all in place. -/
theorem feed_delivered_reqList : Machine.Tracks (feedStep ignore) (fun _ io t => t ++ io.flatten)
    (Delivered ignore threeRequests newNet) (newNet, stream threeRequests) [] lateByte :=
  feed_delivered ignore threeRequests newNet lateByte ⟨rfl, rfl⟩ (guarded_lateByte.imp fun _ _ h => h.1)
    (guarded_lateByte.imp fun _ _ h => h.2)

/-- The header of the request arrives in two chunks: the second overwrites the first, the length that is read is 1024
instead of 4, and the request is not delivered. -/
theorem not_delivered_splitHeader :
    Machine.Guarded (feedStep ignore) (Fed ignore) (newNet, stream [reqListPacket]) splitHeader ∧
      ¬Machine.Tracks (feedStep ignore) (fun _ io t => t ++ io.flatten) (Delivered ignore [reqListPacket] newNet)
        (newNet, stream [reqListPacket]) [] splitHeader := by
  refine ⟨⟨⟨by decide, by decide, Or.inr rfl⟩, fun s₁ h₁ => ⟨?_, fun _ _ => trivial⟩⟩, ?_⟩
  · obtain rfl := Option.some.inj h₁
    exact ⟨by decide, by decide, Or.inr rfl⟩
  rintro ⟨-, s₁, h₁, -, s₂, h₂, pre, post, part, hcut, ref, hrun, happ⟩
  obtain rfl := Option.some.inj h₁
  have hcalls : s₂.1.calls = [] := by
    obtain rfl := Option.some.inj h₂
    rfl
  have hall : stream pre ++ part = reqListPacket.bytes := by rw [← hcut.bytes]; rfl
  have hidle : Holds newNet 0 [] := ⟨rfl, fun _ => ⟨rfl, rfl⟩, fun hle => absurd hle (by simp)⟩
  cases pre with
  | nil =>
    have hlt := hcut.short reqListPacket (by rw [← hcut.packets.trans (List.nil_append post)]; rfl)
    rw [← hall] at hlt
    exact lt_irrefl _ hlt
  | cons p pre =>
    obtain ⟨rfl, hnil⟩ := List.cons_eq_cons.mp hcut.packets
    obtain ⟨rfl, -⟩ := List.append_eq_nil_iff.mp hnil.symm
    obtain ⟨ref', hrun', href'⟩ := run_unsplit ignore [reqListPacket] newNet (Or.inr hidle)
    obtain rfl : ref = ref' := congrArg Prod.fst (Option.some.inj (hrun.symm.trans hrun'))
    rw [href'] at happ
    have hone : s₂.1.calls = [((), .reqList ⟨upkReqList⟩)] := congrArg (fun app => app.2.2) happ
    rw [hcalls] at hone
    cases hone

end Upkeeper
