import Upkeeper.Network.Failure
import Upkeeper.Network.Fragment
/-!
# The bounds of `readbuf`

The header check lets a payload of `UPK_MAX_PACKET_SIZE` bytes pass, which leaves no room for the header in front of it
and the footer behind it: the body is asked for at the byte 16 of `readbuf`, with up to 20 bytes too many. Where the
peer keeps to payloads that leave this room, every request of every run stays in the buffer (`within_iff`).
-/

namespace Upkeeper

open Wire (ofBe32)

variable {κ σ : Type}

/-- What a call asks `read` for: `n` bytes, for the byte `off` of `readbuf` and the bytes behind it -/
inductive Requests (net : Net κ σ) (rs : List ReadResult) : Nat → Nat → Prop
  | header (h : Due net .header) : Requests net rs 0 (upkPacketHeaderLen - net.nHdrBytesRead.toNat)
  | body {net₁ rs'} (hread : (ifOpen readHeader net >>= ifOpen verifyHeader) rs = .ok (net₁, rs'))
      (h : Due net₁ .body) : Requests net rs upkPacketHeaderLen net₁.nRemainingRead.toNat

/-- The call stays in `readbuf`. -/
def Within (net : Net κ σ) (io : List (List UInt8)) : Prop :=
  ∀ off n, Requests net (io.map .data) off n → off + n ≤ upkMaxPacketSize

/-- The header in `readbuf` is complete, and the check accepts it. -/
structure Accepts (net : Net κ σ) (len : UInt32) : Prop where
  opened : ¬net.Closed
  nRemainingRead : net.nRemainingRead = 0
  nHdrBytesRead : net.nHdrBytesRead.toNat = upkPacketHeaderLen
  payloadLen : ofBe32 (net.readbuf.bytes.take 4) = len
  versionId : ofBe32 ((net.readbuf.bytes.drop 4).take 4) = 0
  short : len.toNat ≤ upkMaxPacketSize

/-- The header that the call completes, if it is accepted, announces a payload that leaves room for the header and the
footer. -/
def LeavesRoom (net : Net κ σ) (io : List (List UInt8)) : Prop :=
  ∀ net₁ rs len, ifOpen readHeader net (io.map .data) = .ok (net₁, rs) → Accepts net₁ len →
    upkPacketHeaderLen + len.toNat + upkPacketFooterLen ≤ upkMaxPacketSize

/-- The invariant of a run: what is left of the body fits behind the header. -/
def BodyFits (net : Net κ σ) : Prop :=
  0 < net.nRemainingRead → upkPacketHeaderLen + net.nRemainingRead.toNat ≤ upkMaxPacketSize

/-! ### The stages of a call -/

variable {cb : Callbacks κ σ} {net net₁ net' : Net κ σ} {rs rs' : List ReadResult} {off n : Nat} {len : UInt32}

theorem ifOpen_ok {f : Net κ σ → ReadM (Net κ σ)} (h : ifOpen f net rs = .ok (net', rs')) :
    net' = net ∧ rs' = rs ∧ net.Closed ∨ ¬net.Closed ∧ f net rs = .ok (net', rs') := by
  by_cases hclosed : net.Closed
  · rw [ifOpen_closed hclosed] at h
    cases h
    exact Or.inl ⟨rfl, rfl, hclosed⟩
  · rw [ifOpen_open hclosed] at h
    exact Or.inr ⟨hclosed, h⟩

theorem ReadM.bind_eq_ok {α β : Type} {x : ReadM α} {f : α → ReadM β} {b : β} :
    (x >>= f) rs = .ok (b, rs') ↔ ∃ a rs₁, x rs = .ok (a, rs₁) ∧ f a rs₁ = .ok (b, rs') := by
  constructor
  · intro h
    obtain ⟨⟨a, rs₁⟩, hx, hf⟩ := Wire.bind_eq_ok.mp h
    exact ⟨a, rs₁, hx, hf⟩
  · rintro ⟨a, rs₁, hx, hf⟩
    rw [ReadM.bind_ok hx]
    exact hf

theorem sysRead_ok {nRead : UInt64} (h : sysRead off n net rs = .ok ((net', nRead), rs')) :
    net'.nRemainingRead = net.nRemainingRead ∧
      ((∃ c, rs = .data c :: rs' ∧ c.length ≤ n ∧ off + c.length ≤ upkMaxPacketSize ∧ nRead = .ofNat c.length) ∨
        ∃ e, rs = .fail e :: rs') := by
  unfold sysRead at h
  split at h
  · split at h
    · cases h
    · rename_i hn
      split at h
      · rename_i hoff
        cases h
        exact ⟨rfl, Or.inl ⟨_, rfl, Nat.not_lt.mp hn, hoff, rfl⟩⟩
      · cases h
  · cases h
    exact ⟨rfl, Or.inr ⟨_, rfl⟩⟩
  · cases h

theorem readHeader_nRemainingRead (h : readHeader net rs = .ok (net', rs')) :
    net'.nRemainingRead = net.nRemainingRead ∧ rs' <:+ rs := by
  unfold readHeader at h
  split at h
  · obtain ⟨⟨net₁, nRead⟩, rs₁, hsys, h⟩ := ReadM.bind_eq_ok.mp h
    obtain ⟨hrem, hrs⟩ := sysRead_ok hsys
    have hsuffix : rs₁ <:+ rs := by
      rcases hrs with ⟨c, rfl, -⟩ | ⟨e, rfl⟩ <;> exact List.suffix_cons _ _
    dsimp only at h
    split at h
    · cases h
      exact ⟨hrem, hsuffix⟩
    · cases h
      exact ⟨hrem, hsuffix⟩
  · cases h
    exact ⟨rfl, List.suffix_rfl⟩

theorem verifyHeader_nRemainingRead (hopen : ¬net.Closed) (h : verifyHeader net rs = .ok (net', rs')) :
    rs' = rs ∧ (net'.nRemainingRead = net.nRemainingRead ∨
      ∃ len, Accepts net len ∧ net'.nRemainingRead.toNat = len.toNat + upkPacketFooterLen) := by
  unfold verifyHeader at h
  split at h
  · rename_i hhdr
    dsimp only at h
    split at h
    · cases h
      exact ⟨rfl, Or.inl rfl⟩
    · rename_i hver
      split at h
      · cases h
        exact ⟨rfl, Or.inl rfl⟩
      · rename_i hlen
        rw [not_not] at hver
        cases h
        have hshort := Nat.not_lt.mp hlen
        have hzero := UInt32.le_antisymm hver.2 hver.1
        exact ⟨rfl, Or.inr ⟨_, ⟨hopen, hhdr.1, hhdr.2, rfl, hzero, hshort⟩, toNat_add_footer hshort⟩⟩
  · cases h
    exact ⟨rfl, Or.inl rfl⟩

theorem Accepts.verifyHeader (h : Accepts net len) (rs : List ReadResult) :
    ∃ net', ifOpen Upkeeper.verifyHeader net rs = .ok (net', rs) ∧ Due net' .body ∧
      net'.nRemainingRead.toNat = len.toNat + upkPacketFooterLen := by
  obtain ⟨net', hverify, hnet', hrem⟩ :=
    verifyHeader_accept rs h.nRemainingRead h.nHdrBytesRead h.payloadLen h.versionId h.short
  refine ⟨net', by rw [ifOpen_open h.opened, hverify], ⟨?_, ?_⟩, hrem⟩
  · rw [hnet']
    exact h.opened
  · rw [UInt64.lt_iff_toNat_lt, hrem, UInt64.toNat_zero, upkPacketFooterLen]
    omega

theorem header_stages (h : (ifOpen readHeader net >>= ifOpen Upkeeper.verifyHeader) rs = .ok (net', rs')) :
    rs' <:+ rs ∧ (net'.nRemainingRead = net.nRemainingRead ∨
      ∃ net₁ rs₁ len, ifOpen readHeader net rs = .ok (net₁, rs₁) ∧ Accepts net₁ len ∧
        net'.nRemainingRead.toNat = len.toNat + upkPacketFooterLen) := by
  obtain ⟨net₁, rs₁, hread, hverify⟩ := ReadM.bind_eq_ok.mp h
  have hfirst : net₁.nRemainingRead = net.nRemainingRead ∧ rs₁ <:+ rs := by
    rcases ifOpen_ok hread with ⟨rfl, rfl, -⟩ | ⟨-, hread⟩
    · exact ⟨rfl, List.suffix_rfl⟩
    · exact readHeader_nRemainingRead hread
  rcases ifOpen_ok hverify with ⟨rfl, rfl, -⟩ | ⟨hopen, hverify⟩
  · exact ⟨hfirst.2, Or.inl hfirst.1⟩
  · obtain ⟨rfl, hsame | ⟨len, hacc, hlen⟩⟩ := verifyHeader_nRemainingRead hopen hverify
    · exact ⟨hfirst.2, Or.inl (hsame.trans hfirst.1)⟩
    · exact ⟨hfirst.2, Or.inr ⟨net₁, _, len, hread, hacc, hlen⟩⟩

theorem readBody_nRemainingRead (hdata : ∀ e, ReadResult.fail e ∉ rs) (h : readBody cb net rs = .ok (net', rs')) :
    net'.nRemainingRead.toNat ≤ net.nRemainingRead.toNat := by
  unfold readBody at h
  split at h
  · obtain ⟨⟨net₁, nRead⟩, rs₁, hsys, h⟩ := ReadM.bind_eq_ok.mp h
    obtain ⟨hrem, ⟨c, -, hn, hoff, rfl⟩ | ⟨e, rfl⟩⟩ := sysRead_ok hsys
    · have hle : (net.nRemainingRead - .ofNat c.length).toNat ≤ net.nRemainingRead.toNat := by
        have hc : (UInt64.ofNat c.length).toNat = c.length := toNat_ofNat_length (by omega)
        rw [UInt64.toNat_sub_of_le _ _ (UInt64.le_iff_toNat_le.mpr (hc.trans_le hn))]
        exact Nat.sub_le _ _
      dsimp only at h
      rw [hrem] at h
      split at h
      · cases h
        exact hrem ▸ le_rfl
      · split at h
        · have hrec : receivePacket cb { net₁ with nRemainingRead := net.nRemainingRead - .ofNat c.length } rs₁
              = .ok (net', rs') := h
          obtain ⟨-, pkt, net₂, -, hcall, rfl⟩ := receivePacket_eq_ok.mp hrec
          have hrem₂ : net₂.nRemainingRead = _ := callReceivedPacketCallbacks_nRemainingRead hcall
          rw [hrem₂]
          exact hle
        · cases h
          exact hle
    · exact absurd List.mem_cons_self (hdata e)
  · cases h
    exact le_rfl

/-! ### Calls -/

/-- **A call stays in `readbuf` exactly if the header that it completes leaves room for the rest of the packet.** -/
theorem within_iff_leavesRoom {io : List (List UInt8)} (h : BodyFits net) : Within net io ↔ LeavesRoom net io := by
  have hsize : upkMaxPacketSize = 65536 ∧ upkPacketHeaderLen = 16 := ⟨rfl, rfl⟩
  constructor
  · intro hwithin net₁ rs₁ len hread hacc
    obtain ⟨net₂, hverify, hdue, hrem⟩ := hacc.verifyHeader rs₁
    have hbody := hwithin _ _ (.body (ReadM.bind_eq_ok.mpr ⟨net₁, rs₁, hread, hverify⟩) hdue)
    omega
  · intro hroom off n hreq
    cases hreq with
    | header hdue => omega
    | body hread hdue =>
      obtain ⟨-, hrem | ⟨net₁, rs₁, len, hhdr, hacc, hrem⟩⟩ := header_stages hread
      · rw [hrem]
        exact h (hrem ▸ hdue.2)
      · have hfits := hroom net₁ rs₁ len hhdr hacc
        omega

theorem BodyFits.step {io : List (List UInt8)} (h : BodyFits net) (hroom : LeavesRoom net io)
    (hstep : readStep cb net io = some net') : BodyFits net' := by
  obtain ⟨rs', hcall⟩ : ∃ rs', upkReadPackets cb net (io.map .data) = .ok (net', rs') := by
    unfold readStep at hstep
    split at hstep
    · rename_i hcall
      split at hstep
      · exact ⟨_, Option.some.inj hstep ▸ hcall⟩
      · cases hstep
    · cases hstep
  unfold upkReadPackets at hcall
  rw [← bind_assoc] at hcall
  obtain ⟨net₂, rs₂, hstages, hbody⟩ := ReadM.bind_eq_ok.mp hcall
  obtain ⟨hsuffix, hrem⟩ := header_stages hstages
  have hfits : BodyFits net₂ := by
    intro hpos
    rcases hrem with hrem | ⟨net₁, rs₁, len, hread, hacc, hrem⟩
    · rw [hrem]
      exact h (hrem ▸ hpos)
    · have := hroom net₁ rs₁ len hread hacc
      omega
  rcases ifOpen_ok hbody with ⟨rfl, -⟩ | ⟨-, hbody⟩
  · exact hfits
  · have hdata : ∀ e, ReadResult.fail e ∉ rs₂ := by
      intro e he
      obtain ⟨c, -, hc⟩ := List.mem_map.mp (hsuffix.subset he)
      cases hc
    have hle := readBody_nRemainingRead hdata hbody
    intro hpos
    have hpos₂ : 0 < net₂.nRemainingRead := by
      rw [UInt64.lt_iff_toNat_lt] at hpos ⊢
      omega
    have := hfits hpos₂
    omega

/-- **Reads and `readbuf`.** For every stream and every way of splitting it into reads, all reads of a run stay in
`readbuf` exactly if every header that is accepted leaves room for the rest of the packet. -/
theorem within_iff (cb : Callbacks κ σ) (fd : Int) (callbackStack : List (CbStk κ)) (w : σ)
    (ios : List (List (List UInt8))) :
    Machine.Guarded (readStep cb) Within (Net.new fd callbackStack w) ios ↔
      Machine.Guarded (readStep cb) LeavesRoom (Net.new fd callbackStack w) ios :=
  Machine.guarded_iff_of_inv (fun _ _ h => within_iff_leavesRoom h) (fun _ _ _ h hroom hstep => h.step hroom hstep)
    fun h0 => absurd h0 (by decide : ¬(0 : UInt64) < 0)

/-- A header that announces a payload of 65517 bytes -/
def largeHeader : List UInt8 := [0, 0, 255, 237, 0, 0, 0, 0, 0, 0, 0, 0, 0, 0, 0, 1]

/-- The body is asked for with one byte too many. -/
theorem not_within_largeHeader :
    ¬Machine.Guarded (readStep ignore) Within (Net.new 5 [] ()) [[largeHeader]] := by
  rintro ⟨hwithin, -⟩
  let net : Net Unit Unit := Net.new 5 [] ()
  have hopen : ¬net.Closed := by decide
  obtain ⟨net₁, hread, hnet₁, hhdr⟩ :=
    @readHeader_data Unit Unit net largeHeader [] rfl (by decide) (by decide) (by decide)
  have hacc : Accepts net₁ 65517 := by
    rw [hnet₁]
    exact ⟨hopen, rfl, hhdr, rfl, rfl, by decide⟩
  obtain ⟨net₂, hverify, hdue, hrem⟩ := hacc.verifyHeader []
  have hread' : ifOpen readHeader net [.data largeHeader] = .ok (net₁, []) := by rw [ifOpen_open hopen, hread]
  have hbody := hwithin _ _ (.body (ReadM.bind_eq_ok.mpr ⟨net₁, [], hread', hverify⟩) hdue)
  rw [hrem] at hbody
  exact absurd hbody (by decide)

end Upkeeper
