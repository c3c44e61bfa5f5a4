import Upkeeper.Protocol.Coded
/-!
# The decoder on hostile input

`messageLayout` lists the fields of each message of the protocol, and `IsMessage` is the grammar that goes with it: a
payload is a message if it is made of the fields of its message type, with strings that fit their buffers and behind
their lengths, and of nothing else. It does not speak of the decoder, and everything that the encoders write is a
message (`Payload.isMessage`). The header and the checksum are checked and reported; everything behind them is not.
So the decoder is safe on exactly the packets that the header or the checksum rejects and on those with a message for a
payload (`decodesSafely_iff`): on any other message type or length that gets through it fails an assertion, calls an
empty table entry, reads or writes out of bounds, or returns a packet without a word about the bytes left over.
-/

namespace Upkeeper

open Wire (Fault Reader Item Follows Fits Sequence Spells be32 ofBe32)

/-! ### Layouts -/

/-- A `uint32_t` or an enumeration -/
abbrev fu32 : Item := .field .u32

/-- A `bool` -/
abbrev fbool : Item := .field .u8

/-- A string behind its length -/
abbrev fstr : Item := .field (.str upkMaxStringLen)

/-- The requests, from `UPK_REQ_ORIGIN` on -/
def reqLayouts : List (List Item) :=
  [[fu32, fu32, fu32, fstr], [fu32, fu32, fu32], [fu32, fbool], [fu32, fstr, fstr], [fu32, fu32, fbool, fbool, fstr],
   [fu32], [fu32, fstr, fu32], [fu32, fbool, fstr], [fu32, fbool, fstr], [fu32]]

/-- The block of a `v0_svcinfo_t` -/
def svcinfoLayout : List Wire.Field :=
  [.u32, .u32, .str upkMaxStringLen, .u32, .u32, .u32, .u32, .u32, .u32, .u32, .u32]

/-- The replies, from `UPK_REPL_ORIGIN` on -/
def replLayouts : List (List Item) :=
  [[fu32, fu32], [fu32, fu32, fu32], [fu32, fbool], [fu32, fbool, fstr], [fu32, fstr],
   [fu32, .block svcinfoLayout, fstr], [fu32], [fu32, fu32, fu32, fstr, fstr]]

/-- The publications, from `UPK_PUB_ORIGIN` on -/
def pubLayouts : List (List Item) := [[fu32], [fu32]]

/-- The layout of the messages of a packet type and a message type -/
def messageLayout (pkttype msgtype : UInt32) : Option (List Item) :=
  if pkttype = pktRequest then reqLayouts[(msgtype - upkReqOrigin).toNat]?
  else if pkttype = pktReply then replLayouts[(msgtype - upkReplOrigin).toNat]?
  else if pkttype = pktPubmsg then pubLayouts[(msgtype - upkPubOrigin).toNat]?
  else none

/-- The payload is a message of a packet type: a message type, the fields that go with it, and nothing behind them. -/
def IsMessage (pkttype : UInt32) (w : List UInt8) : Prop :=
  ∃ msgtype body is, w = be32 msgtype ++ body ∧ messageLayout pkttype msgtype = some is ∧ Spells is w

/-- The payload is no message of the packet type, or its checksum is another one. -/
def Malformed (pkttype crc : UInt32) (w : List UInt8) : Prop := ¬(upkVerifyCrc32 w crc ∧ IsMessage pkttype w)

/-- The payload starts like a message of the packet type: what the decoders need. -/
def Readable (pkttype : UInt32) (w : List UInt8) : Prop :=
  4 ≤ w.length ∧ ∃ is ∈ messageLayout pkttype (ofBe32 (w.take 4)), Fits is w

theorem IsMessage.readable {t : UInt32} {w : List UInt8} (h : IsMessage t w) : Readable t w := by
  obtain ⟨msgtype, body, is, rfl, his, hw⟩ := h
  have htake : (be32 msgtype ++ body).take 4 = be32 msgtype := List.take_left' (Wire.be32_length msgtype)
  have hfits := hw.fits []
  rw [List.append_nil] at hfits
  refine ⟨by simp, is, ?_, hfits⟩
  rwa [htake, Wire.ofBe32_be32]

/-! ### Every decoder follows its layout -/

theorem follows_fetchBool {β : Type} {f : Bool → Reader β} {is : List Item} (h : ∀ b, Follows (f b) is) :
    Follows (fetchBool >>= f) (fbool :: is) := by
  unfold fetchBool
  rw [bind_assoc]
  exact .u8_bind fun b => by
    rw [pure_bind]
    exact h _

theorem follows_deserialSvcinfoData : Follows deserialSvcinfoData (svcinfoLayout.map .field) :=
  .u32_bind fun _ => .u32_bind fun _ => .str_bind fun _ _ => .u32_bind fun _ => .u32_bind fun _ => .u32_bind fun _ =>
    .u32_bind fun _ => .u32_bind fun _ => .u32_bind fun _ => .u32_bind fun _ => .u32_bind fun _ => .pure _

theorem follows_deserialGeneric (mk : GenericMsg → Payload) : Follows (deserialGeneric mk) [fu32] :=
  .u32_bind fun _ => .pure _

theorem follows_deserialSeqStart (mk : SeqStart → Payload) : Follows (deserialSeqStart mk) [fu32, fu32, fu32] :=
  .u32_bind fun _ => .u32_bind fun _ => .u32_bind fun _ => .pure _

theorem follows_deserialSeqEnd (mk : SeqEnd → Payload) : Follows (deserialSeqEnd mk) [fu32, fbool] :=
  .u32_bind fun _ => follows_fetchBool fun _ => .pure _

theorem follows_deserialReqSubscr (mk : ReqSubscr → Payload) : Follows (deserialReqSubscr mk) [fu32, fbool, fstr] :=
  .u32_bind fun _ => follows_fetchBool fun _ => .str_bind fun _ _ => .pure _

theorem follows_deserialReqDispatch : List.Forall₂ Follows deserialReqDispatch reqLayouts := by
  refine .cons ?_ <| .cons (follows_deserialSeqStart _) <| .cons (follows_deserialSeqEnd _) <| .cons ?_ <|
    .cons ?_ <| .cons (follows_deserialGeneric _) <| .cons ?_ <| .cons (follows_deserialReqSubscr _) <|
    .cons (follows_deserialReqSubscr _) <| .cons (follows_deserialGeneric _) .nil
  · exact .u32_bind fun _ => .u32_bind fun _ => .u32_bind fun _ => .str_bind fun _ _ => .pure _
  · exact .u32_bind fun _ => .str_bind fun _ _ => .str_bind fun _ _ => .pure _
  · exact .u32_bind fun _ => .u32_bind fun _ => follows_fetchBool fun _ => follows_fetchBool fun _ =>
      .str_bind fun _ _ => .pure _
  · exact .u32_bind fun _ => .str_bind fun _ _ => .u32_bind fun _ => .pure _

theorem follows_deserialReplDispatch : List.Forall₂ Follows deserialReplDispatch replLayouts := by
  refine .cons ?_ <| .cons (follows_deserialSeqStart _) <| .cons (follows_deserialSeqEnd _) <| .cons ?_ <|
    .cons ?_ <| .cons ?_ <| .cons (follows_deserialGeneric _) <| .cons ?_ .nil
  · exact .u32_bind fun _ => .u32_bind fun _ => .pure _
  · exact .u32_bind fun _ => follows_fetchBool fun _ => .str_bind fun _ _ => .pure _
  · exact .u32_bind fun _ => .str_bind fun _ _ => .pure _
  · exact .u32_bind fun _ => .block_bind follows_deserialSvcinfoData fun _ _ => .str_bind fun _ _ => .pure _
  · exact .u32_bind fun _ => .u32_bind fun _ => .u32_bind fun _ => .str_bind fun _ _ => .str_bind fun _ _ => .pure _

theorem follows_deserialPubDispatch : List.Forall₂ Follows deserialPubDispatch pubLayouts :=
  .cons (follows_deserialGeneric _) <| .cons (follows_deserialGeneric _) .nil

/-! ### Dispatch -/

theorem deserializeTyped_ok_iff {table : List (Reader Payload)} {layouts : List (List Item)}
    (h : List.Forall₂ Follows table layouts) (origin : UInt32) (w : List UInt8) :
    (∃ p, deserializeTyped table origin w = .ok p) ↔
      4 ≤ w.length ∧ ∃ is ∈ layouts[(ofBe32 (w.take 4) - origin).toNat]?, Fits is w := by
  unfold deserializeTyped
  rw [Reader.u32_eq]
  by_cases hlen : 4 ≤ w.length
  · rw [if_pos hlen, Wire.ok_bind]
    dsimp only
    rcases Wire.follows_getElem? h (ofBe32 (w.take 4) - origin).toNat with ⟨hd, hl⟩ | ⟨d, is, hd, hl, hfol⟩
    · -- the assertion fails
      rw [hd, hl]
      simp
    · rw [hd, hl]
      dsimp only
      have hok := hfol.isOk_iff w
      constructor
      · rintro ⟨p, hp⟩
        refine ⟨hlen, is, rfl, hok.mp ?_⟩
        cases hdw : d w with
        | error e =>
          rw [hdw] at hp
          exact absurd hp (by rintro ⟨⟩)
        | ok x => exact ⟨x, rfl⟩
      · rintro ⟨-, js, hjs, hfit⟩
        obtain rfl := Option.some.inj hjs
        obtain ⟨x, hx⟩ := hok.mpr hfit
        exact ⟨x.1, by rw [hx, Wire.ok_bind]; rfl⟩
  · rw [if_neg hlen]
    refine iff_of_false ?_ fun hc => hlen hc.1
    rintro ⟨p, ⟨⟩⟩

theorem v0DeserializePayload_ok_iff {t : UInt32} (ht : t < 4) (w : List UInt8) :
    (∃ p, v0DeserializePayload w t = .ok p) ↔ Readable t w := by
  have hcases : t = 0 ∨ t = pktRequest ∨ t = pktReply ∨ t = pktPubmsg := by
    have hlt : t.toNat < 4 := UInt32.lt_iff_toNat_lt.mp ht
    simp only [pktRequest, pktReply, pktPubmsg, ← UInt32.toNat_inj, UInt32.reduceToNat]
    omega
  rcases hcases with rfl | rfl | rfl | rfl
  · refine iff_of_false ?_ ?_
    · rintro ⟨p, ⟨⟩⟩
    · rintro ⟨-, is, ⟨⟩, -⟩
  · exact deserializeTyped_ok_iff follows_deserialReqDispatch upkReqOrigin w
  · exact deserializeTyped_ok_iff follows_deserialReplDispatch upkReplOrigin w
  · exact deserializeTyped_ok_iff follows_deserialPubDispatch upkPubOrigin w

/-! ### What the encoders write -/

theorem spells_u32 (x : UInt32) : fu32.Spells (be32 x) := .field (.u32 x)

theorem spells_bool (b : Bool) : fbool.Spells [boolByte b] := .field (.u8 _)

theorem StrOk.spells {len : UInt32} {s : Str} (h : StrOk len s) :
    Wire.Field.Spells (.str upkMaxStringLen) (be32 len ++ s.chars) :=
  .str h.len.symm (Nat.le_of_lt h.lt)

theorem StrOk.spells_item {len : UInt32} {s : Str} (h : StrOk len s) : fstr.Spells (be32 len ++ s.chars) :=
  .field h.spells

theorem V0Svcinfo.spells {s : V0Svcinfo} (h : StrOk s.lastActionNameLen s.lastActionName) :
    Sequence Wire.Field.Spells svcinfoLayout s.wire :=
  .one (.u32 _) <| .one (.u32 _) <| .two h.spells <| .one (.u32 _) <| .one (.u32 _) <| .one (.u32 _) <|
    .one (.u32 _) <| .one (.u32 _) <| .one (.u32 _) <| .one (.u32 _) <| .one (.u32 _) .nil

theorem IsMessage.of {p : Payload} {is : List Item} (pkttype msgtype : UInt32) (htag : p.tag = (pkttype, msgtype))
    (hm : p.msgtype = p.tag.2) (his : messageLayout pkttype msgtype = some is) (hw : Spells is p.wire) :
    IsMessage p.tag.1 p.wire := by
  rw [htag] at hm ⊢
  exact ⟨msgtype, p.fields.flatten, is, congrArg (be32 · ++ p.fields.flatten) hm, his, hw⟩

/-- **Everything that the encoders write is a message of its type.** -/
theorem Payload.isMessage (p : Payload) (hm : p.msgtype = p.tag.2) (h : p.StrsOk) : IsMessage p.tag.1 p.wire := by
  cases p with
  | reqPreamble m =>
    exact .of pktRequest upkReqPreamble rfl hm rfl <| .one (spells_u32 _) <| .one (spells_u32 _) <|
      .one (spells_u32 _) <| .two (StrOk.spells_item h) .nil
  | reqSeqStart m =>
    exact .of pktRequest upkReqSeqStart rfl hm rfl <| .one (spells_u32 _) <| .one (spells_u32 _) <|
      .one (spells_u32 _) .nil
  | reqSeqEnd m =>
    exact .of pktRequest upkReqSeqEnd rfl hm rfl <| .one (spells_u32 _) <| .one (spells_bool _) .nil
  | reqAction m =>
    exact .of pktRequest upkReqAction rfl hm rfl <| .one (spells_u32 _) <| .two h.1.spells_item <|
      .two h.2.spells_item .nil
  | reqSignal m =>
    exact .of pktRequest upkReqSignal rfl hm rfl <| .one (spells_u32 _) <| .one (spells_u32 _) <|
      .one (spells_bool _) <| .one (spells_bool _) <| .two (StrOk.spells_item h) .nil
  | reqList m =>
    exact .of pktRequest upkReqList rfl hm rfl <| .one (spells_u32 _) .nil
  | reqStatus m =>
    exact .of pktRequest upkReqStatus rfl hm rfl <| .one (spells_u32 _) <| .two (StrOk.spells_item h) <|
      .one (spells_u32 _) .nil
  | reqSubscribe m =>
    exact .of pktRequest upkReqSubscribe rfl hm rfl <| .one (spells_u32 _) <| .one (spells_bool _) <|
      .two (StrOk.spells_item h) .nil
  | reqUnsubscribe m =>
    exact .of pktRequest upkReqUnsubscribe rfl hm rfl <| .one (spells_u32 _) <| .one (spells_bool _) <|
      .two (StrOk.spells_item h) .nil
  | reqDisconnect m =>
    exact .of pktRequest upkReqDisconnect rfl hm rfl <| .one (spells_u32 _) .nil
  | replPreamble m =>
    exact .of pktReply upkReplPreamble rfl hm rfl <| .one (spells_u32 _) <| .one (spells_u32 _) .nil
  | replSeqStart m =>
    exact .of pktReply upkReplSeqStart rfl hm rfl <| .one (spells_u32 _) <| .one (spells_u32 _) <|
      .one (spells_u32 _) .nil
  | replSeqEnd m =>
    exact .of pktReply upkReplSeqEnd rfl hm rfl <| .one (spells_u32 _) <| .one (spells_bool _) .nil
  | replResult m =>
    exact .of pktReply upkReplResult rfl hm rfl <| .one (spells_u32 _) <| .one (spells_bool _) <|
      .two (StrOk.spells_item h) .nil
  | replListing m =>
    exact .of pktReply upkReplListing rfl hm rfl <| .one (spells_u32 _) <| .two (StrOk.spells_item h) .nil
  | replSvcinfo m =>
    exact .of pktReply upkReplSvcinfo rfl hm rfl <| .one (spells_u32 _) <|
      .two (.block h.2.1.symm (V0Svcinfo.spells h.1)) <| .two h.2.2.spells_item .nil
  | replAck m =>
    exact .of pktReply upkReplAck rfl hm rfl <| .one (spells_u32 _) .nil
  | replError m =>
    exact .of pktReply upkReplError rfl hm rfl <| .one (spells_u32 _) <| .one (spells_u32 _) <|
      .one (spells_u32 _) <| .two h.1.spells_item <| .two h.2.spells_item .nil
  | pubPublication m =>
    exact .of pktPubmsg upkPubPublication rfl hm rfl <| .one (spells_u32 _) .nil
  | pubCancelation m =>
    exact .of pktPubmsg upkPubCancelation rfl hm rfl <| .one (spells_u32 _) .nil

/-! ### The whole decoder -/

/-- The decoder returns, and reports an error if the input is malformed. -/
def DecodesSafely (buf : List UInt8) (malformed : Prop) : Prop :=
  ∃ out, upkDeserializePacket buf = .ok out ∧ (malformed → ∃ err, out = .freed err)

/-- **The decoder is safe exactly on the packets that the header or the checksum rejects, and on those with a payload
that is a message of its type.** -/
theorem decodesSafely_iff (len seq t crc : UInt32) (w : List UInt8) (hlen : w.length = len.toNat)
    (hmax : len.toNat ≤ upkMaxPacketSize) :
    DecodesSafely (packetBytes len 0 seq t w crc) (Malformed t crc w) ↔
      ¬t < 4 ∨ ¬upkVerifyCrc32 w crc ∨ IsMessage t w := by
  have hdes := @upkDeserializePacket_bytes len seq t crc w hlen hmax []
  rw [List.append_nil] at hdes
  unfold DecodesSafely
  rw [hdes]
  by_cases ht : t < 4
  · by_cases hcrc : upkVerifyCrc32 w crc = true
    · rw [if_neg (not_not.mpr ht), if_neg (not_not.mpr hcrc)]
      have hok := v0DeserializePayload_ok_iff ht w
      constructor
      · rintro ⟨out, hout, hreport⟩
        -- what the payload decoder returns is no error
        refine Or.inr (Or.inr (not_not.mp fun hno => ?_))
        obtain ⟨err, rfl⟩ := hreport fun hc => hno hc.2
        cases hp : v0DeserializePayload w t <;> rw [hp] at hout <;> cases hout
      · rintro (h | h | h)
        · exact absurd ht h
        · exact absurd hcrc h
        · obtain ⟨p, hp⟩ := hok.mpr h.readable
          exact ⟨_, by rw [hp]; rfl, fun hbad => absurd ⟨hcrc, h⟩ hbad⟩
    · rw [if_neg (not_not.mpr ht), if_pos hcrc]
      exact iff_of_true ⟨_, rfl, fun _ => ⟨_, rfl⟩⟩ (Or.inr (Or.inl hcrc))
  · rw [if_pos ht]
    exact iff_of_true ⟨_, rfl, fun _ => ⟨_, rfl⟩⟩ (Or.inl ht)

/-- The payload of a request to start `web` -/
def startWeb : List UInt8 := be32 upkReqAction ++ (be32 3 ++ [119, 101, 98] ++ (be32 5 ++ [115, 116, 97, 114, 116] ++ []))

theorem startWeb_isMessage : IsMessage pktRequest startWeb :=
  ⟨upkReqAction, _, _, rfl, rfl, .cons (spells_u32 _) <| .cons (.field (.str rfl (by decide))) <|
    .cons (.field (.str rfl (by decide))) .nil⟩

/-- Under its right checksum the request is decoded. -/
theorem decodesSafely_startWeb :
    upkVerifyCrc32 startWeb 0x9ce80193 ∧
      DecodesSafely (packetBytes 20 0 7 pktRequest startWeb 0x9ce80193)
        (Malformed pktRequest 0x9ce80193 startWeb) :=
  ⟨by decide +kernel,
    (decodesSafely_iff 20 7 pktRequest 0x9ce80193 startWeb rfl (by decide)).mpr (.inr (.inr startWeb_isMessage))⟩

/-- A packet of type 0 with an empty payload gets to the empty entry of `deserial_pkt_dispatch`, and a request of
message type 0 to the assertion. -/
theorem not_decodesSafely_zero :
    ¬DecodesSafely (packetBytes 0 0 0 0 [] 0xffffffff) (Malformed 0 0xffffffff []) ∧
      ¬DecodesSafely (packetBytes 4 0 0 1 [0, 0, 0, 0] 0xffffffff) (Malformed 1 0xffffffff [0, 0, 0, 0]) := by
  constructor
  · rintro ⟨out, hout, -⟩
    have hnull : upkDeserializePacket (packetBytes 0 0 0 0 [] 0xffffffff) = .error .nullCall := rfl
    exact absurd (hnull.symm.trans hout) (by rintro ⟨⟩)
  · rintro ⟨out, hout, -⟩
    have hassert : upkDeserializePacket (packetBytes 4 0 0 1 [0, 0, 0, 0] 0xffffffff) = .error .assertFailed := rfl
    exact absurd (hassert.symm.trans hout) (by rintro ⟨⟩)

end Upkeeper
