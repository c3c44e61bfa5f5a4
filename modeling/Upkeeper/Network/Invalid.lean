import Upkeeper.Network.Read
/-!
# Invalid packets

`upk_deserialize_packet` gives up on a packet at four places. They go to one label, which reports the error and frees
the packet, and the pointer to it is still returned: it is never `NULL`, and `NULL` is all that `upk_read_packets`
looks for. So an invalid packet is never dropped (`rejectsAsNull_iff`).
-/

namespace Upkeeper

open Wire (Fault ofBe32)

/-- The 32-bit word at an offset -/
def wordAt (off : Nat) (buf : List UInt8) : UInt32 := ofBe32 ((buf.drop off).take 4)

/-- The payload of a packet of that length -/
def payloadOf (payloadLen : UInt32) (buf : List UInt8) : List UInt8 :=
  (buf.drop upkPacketHeaderLen).take payloadLen.toNat

/-- One of the four checks rejects the packet. -/
inductive Invalid (buf : List UInt8) : Prop
  | payloadLen (h : upkMaxPacketSize < (wordAt 0 buf).toNat)
  | versionId (h : ¬(upkMinSupportedProto ≤ wordAt 4 buf ∧ wordAt 4 buf ≤ upkMaxSupportedProto))
  | pkttype (h : wordAt 12 buf ∉ [pktRequest, pktReply, pktPubmsg])
  | crc32 (h : wordAt (upkPacketHeaderLen + (wordAt 0 buf).toNat) buf ≠ upkCrc32 (payloadOf (wordAt 0 buf) buf))

/-! ### What is returned -/

/-- What `upk_deserialize_packet` returns -/
inductive PktPtr
  | null
  | packet (pkt : Packet)
  | freed

/-- `return UPK_DATA`: it comes from `calloc`, and nothing sets it to `NULL` when it is freed. -/
def Deserialized.returned : Deserialized → PktPtr
  | .packet pkt => .packet pkt
  | .freed _ => .freed

/-- The chunk is the end of a body, and the packet in `readbuf` is complete with it. -/
structure Completes {κ σ : Type} (net : Net κ σ) (c : List UInt8) (buf : List UInt8) : Prop where
  opened : ¬net.Closed
  rest : 0 < net.nRemainingRead
  length : c.length = net.nRemainingRead.toNat
  readbuf : ∃ h, (net.readbuf.store upkPacketHeaderLen c h).bytes = buf

/-- The packet is dropped: the decoder returns `NULL`, and `upk_read_packets` calls nobody. -/
structure RejectsAsNull (buf : List UInt8) : Prop where
  returned : ∃ out, upkDeserializePacket buf = .ok out ∧ out.returned = .null
  dropped : ∀ {κ σ : Type} (cb : Callbacks κ σ) (net : Net κ σ) (c : List UInt8), Completes net c buf →
    ∃ net', upkReadPackets cb net [.data c] = .ok (net', []) ∧ net'.calls = net.calls

/-! ### The four checks -/

theorem fetchUint32_eq_ok {bs bs' : List UInt8} {x : UInt32} (h : fetchUint32 bs = .ok (x, bs')) :
    x = wordAt 0 bs ∧ bs' = bs.drop 4 := by
  rw [fetchUint32, Wire.Reader.u32_eq] at h
  split at h
  · cases h
    exact ⟨rfl, rfl⟩
  · cases h

theorem fetchDataToBuf_eq_ok {bs bs' w : List UInt8} {len : UInt32} (h : fetchDataToBuf len bs = .ok (w, bs')) :
    w = bs.take len.toNat ∧ bs' = bs.drop len.toNat := by
  rw [fetchDataToBuf, Wire.Reader.take] at h
  split at h
  · cases h
    exact ⟨rfl, rfl⟩
  · cases h

theorem wordAt_drop (off n : Nat) (buf : List UInt8) : wordAt off (buf.drop n) = wordAt (n + off) buf := by
  unfold wordAt
  rw [List.drop_drop]

/-- Packet type 0 is below the limit of version 0, but has no decoder. -/
theorem upkDeserializePayload_zero (payloadBuf : List UInt8) :
    upkDeserializePayload payloadBuf 0 0 = .error .nullCall := rfl

/-- **A packet that comes out of the decoder has passed the four checks.** -/
theorem not_invalid_of_packet {buf : List UInt8} {pkt : Packet} (h : upkDeserializePacket buf = .ok (.packet pkt)) :
    ¬Invalid buf := by
  unfold upkDeserializePacket at h
  obtain ⟨⟨len, buf₁⟩, h₁, h⟩ := Wire.bind_eq_ok.mp h
  obtain ⟨rfl, rfl⟩ := fetchUint32_eq_ok h₁
  dsimp only at h
  split at h
  · cases h
  rename_i hlen
  obtain ⟨⟨ver, buf₂⟩, h₂, h⟩ := Wire.bind_eq_ok.mp h
  obtain ⟨rfl, rfl⟩ := fetchUint32_eq_ok h₂
  dsimp only at h
  split at h
  · cases h
  rename_i hver
  obtain ⟨⟨seq, buf₃⟩, h₃, h⟩ := Wire.bind_eq_ok.mp h
  obtain ⟨rfl, rfl⟩ := fetchUint32_eq_ok h₃
  obtain ⟨⟨t, buf₄⟩, h₄, h⟩ := Wire.bind_eq_ok.mp h
  obtain ⟨rfl, rfl⟩ := fetchUint32_eq_ok h₄
  dsimp only at h
  simp only [List.drop_drop, wordAt_drop, Nat.reduceAdd] at h hver hlen
  have hzero : wordAt 4 buf = 0 := by
    rw [not_not] at hver
    exact UInt32.le_antisymm hver.2 hver.1
  rw [hzero] at h
  change (if ¬wordAt 12 buf < 4 then _ else _) = _ at h
  split at h
  · cases h
  rename_i htype
  obtain ⟨⟨w, buf₅⟩, h₅, h⟩ := Wire.bind_eq_ok.mp h
  obtain ⟨rfl, rfl⟩ := fetchDataToBuf_eq_ok h₅
  obtain ⟨⟨crc, buf₆⟩, h₆, h⟩ := Wire.bind_eq_ok.mp h
  obtain ⟨rfl, rfl⟩ := fetchUint32_eq_ok h₆
  dsimp only at h
  split at h
  · cases h
  rename_i hcrc
  obtain ⟨payload, hpayload, -⟩ := Wire.bind_eq_ok.mp h
  rintro (hbad | hbad | hbad | hbad)
  · exact hlen (Nat.not_le.mpr hbad)
  · exact hver hbad
  · refine hbad ?_
    rw [not_not, UInt32.lt_iff_toNat_lt] at htype
    have hne : wordAt 12 buf ≠ 0 := by
      intro h0
      rw [h0, upkDeserializePayload_zero] at hpayload
      cases hpayload
    have hpos : (wordAt 12 buf).toNat ≠ 0 := fun h0 => hne (UInt32.toNat.inj h0)
    simp only [List.mem_cons, List.not_mem_nil, or_false, pktRequest, pktReply, pktPubmsg, ← UInt32.toNat_inj]
    simp only [UInt32.reduceToNat] at htype ⊢
    omega
  · rw [not_not, upkVerifyCrc32, beq_iff_eq] at hcrc
    rw [wordAt_drop, Nat.add_zero, wordAt_drop] at hcrc
    exact hbad hcrc.symm

/-- **An invalid packet ends the decoder in a fault, or comes back as a pointer to freed memory.** -/
theorem Invalid.deserialize {buf : List UInt8} (h : Invalid buf) :
    (∃ err, upkDeserializePacket buf = .ok (.freed err)) ∨ ∃ f, upkDeserializePacket buf = .error f := by
  cases hout : upkDeserializePacket buf with
  | error f => exact Or.inr ⟨f, rfl⟩
  | ok out =>
    cases out with
    | packet pkt => exact absurd h (not_invalid_of_packet hout)
    | freed err => exact Or.inl ⟨err, rfl⟩

/-- **The end of an invalid packet is the end of the call.** -/
theorem Completes.fault {κ σ : Type} {net : Net κ σ} {c buf : List UInt8} (cb : Callbacks κ σ)
    (h : Completes net c buf) (hbad : Invalid buf) : ∃ f, upkReadPackets cb net [.data c] = .error (.fault f) := by
  obtain ⟨hopen, hrest, hlen, hfit, hbuf⟩ := h
  have hrem : net.nRemainingRead ≠ 0 := fun h0 => by
    rw [h0] at hrest
    exact absurd hrest (by decide)
  have hbody : ∃ f, readBody cb net [.data c] = .error (.fault f) := by
    have hne : c ≠ [] := fun h0 => hrem (UInt64.toNat.inj (by rw [← hlen, h0]; rfl))
    rw [readBody_complete hne hlen hfit]
    unfold receivePacket
    rw [hbuf]
    rcases hbad.deserialize with ⟨err, hout⟩ | ⟨f, hout⟩
    · exact ⟨.useAfterFree, ReadM.lift_bind hout⟩
    · exact ⟨f, ReadM.lift_error hout⟩
  obtain ⟨f, hf⟩ := hbody
  refine ⟨f, ?_⟩
  unfold upkReadPackets
  rw [ReadM.bind_ok (by rw [ifOpen_open hopen]; exact readHeader_skip fun hc => hrem hc.1),
    ReadM.bind_ok (by rw [ifOpen_open hopen]; exact verifyHeader_skip fun hc => hrem hc.1), ifOpen_open hopen]
  exact hf

/-- **No invalid packet is dropped.** What comes back is never `NULL`, and the `upk_read_packets` that completes the
packet goes on with a pointer to freed memory, or does not get out of the decoder. -/
theorem rejectsAsNull_iff (buf : List UInt8) :
    ((Invalid buf → RejectsAsNull buf) ↔ ¬Invalid buf) ∧
      (Invalid buf → ∀ {κ σ : Type} (cb : Callbacks κ σ) (net : Net κ σ) (c : List UInt8), Completes net c buf →
        ∃ f, upkReadPackets cb net [.data c] = .error (.fault f)) := by
  refine ⟨⟨fun h hbad => ?_, fun h hbad => absurd hbad h⟩, fun hbad _ _ cb net c h => h.fault cb hbad⟩
  obtain ⟨out, hout, hnull⟩ := (h hbad).returned
  cases out with
  | packet pkt => cases hnull
  | freed err => cases hnull

/-- A request whose checksum is wrong -/
theorem not_rejectsAsNull_crc32 :
    Invalid (packetBytes 0 0 0 1 [] 0) ∧ ¬RejectsAsNull (packetBytes 0 0 0 1 [] 0) := by
  refine ⟨.crc32 (by decide), fun h => ?_⟩
  obtain ⟨out, hout, hnull⟩ := h.returned
  have hfreed : upkDeserializePacket (packetBytes 0 0 0 1 [] 0) = .ok (.freed .invalidPkt) := rfl
  rw [hfreed] at hout
  cases hout
  cases hnull

end Upkeeper
