import Upkeeper.Network.Read
import Upkeeper.Network.Write
/-!
# Failed transfers

A `read` or a `write` that returns `-1` returns `SIZE_MAX` to a `size_t`, and neither `n_read < 1` nor `n_read < 0`
is true of it: the failure is counted as `2⁶⁴ - 1` bytes, which steps the counter of the transfer by one in the wrong
direction, and the connection is not closed, whatever `errno` says. A connection gets over a failure only where the
counter wraps around (`survives_iff`).
-/

namespace Upkeeper

open Wire (Fault)

variable {κ σ : Type}

/-! ### The transfers of a connection -/

/-- What is called on a connection -/
inductive Call (κ : Type)
  | read (rs : List ReadResult)
  | write (r : WriteResult)
  | queue (pkt : Packet) (afterWriteCallback : Option κ)

/-- The outcome of a call -/
def callResult (cb : Callbacks κ σ) (net : Net κ σ) : Call κ → Except Halt (Net κ σ)
  | .read rs => (upkReadPackets cb net rs).map Prod.fst
  | .write r => upkWritePackets cb r net
  | .queue pkt k => (upkQueuePacket pkt k net).mapError .fault

/-- One call -/
def callStep (cb : Callbacks κ σ) (net : Net κ σ) (call : Call κ) : Option (Net κ σ) := (callResult cb net call).toOption

/-- The places where bytes are transferred -/
inductive Site
  | header
  | body
  | write

/-- The transfer is made. -/
def Due (net : Net κ σ) : Site → Prop
  | .header => ¬net.Closed ∧ net.nRemainingRead = 0 ∧ net.nHdrBytesRead.toNat < upkPacketHeaderLen
  | .body => ¬net.Closed ∧ 0 < net.nRemainingRead
  | .write => ¬net.Closed ∧ ¬net.writeq.count < 1 ∧ ∃ msgp m, net.writeq.thisp = some msgp ∧
      net.writeq.val? msgp = some m ∧ 0 < m.msgLen - m.nBytesWritten

/-- A transfer of the call returns `-1`: where, in which state of the connection, and with which `errno`. -/
inductive Fails (net : Net κ σ) : Call κ → Site → Net κ σ → Errno → Prop
  | header {rs e} (h : Due net .header) : Fails net (.read (.fail e :: rs)) .header net e
  | body {rs rs' net₁ e} (hread : (ifOpen readHeader net >>= ifOpen verifyHeader) rs = .ok (net₁, .fail e :: rs'))
      (h : Due net₁ .body) : Fails net (.read rs) .body net₁ e
  | write {e} (h : Due net .write) : Fails net (.write (.fail e)) .write net e

/-! ### What should come of it -/

/-- The counters of the transfers are as they were, and no callback has been called. -/
structure Untouched (net net' : Net κ σ) : Prop where
  nHdrBytesRead : net'.nHdrBytesRead = net.nHdrBytesRead
  nRemainingRead : net'.nRemainingRead = net.nRemainingRead
  nBytesWritten : ∀ a, (net'.writeq.val? a).map NetMsg.nBytesWritten = (net.writeq.val? a).map NetMsg.nBytesWritten
  session : net'.toSession = net.toSession
  world : net'.world = net.world
  calls : net'.calls = net.calls

/-- The call gets over a failure that came in the state `net₀`. -/
def Survives (cb : Callbacks κ σ) (net : Net κ σ) (call : Call κ) (net₀ : Net κ σ) (e : Errno) : Prop :=
  ∃ net', callResult cb net call = .ok net' ∧ if e.retry then Untouched net₀ net' else net'.Closed

/-- The counter is one step from the end of its transfer, which the failure completes: a packet or a message, with a
callback that closes the connection. -/
def WrapsAround (cb : Callbacks κ σ) (net : Net κ σ) (e : Errno) : Site → Prop
  | .header => False
  | .body => e.retry = false ∧ net.nRemainingRead = sizeMax ∧
      ∃ pkt net', upkDeserializePacket net.readbuf.bytes = .ok (.packet pkt) ∧
        upkCallReceivedPacketCallbacks cb pkt { net with errno := e, nRemainingRead := 0 } = .ok net' ∧ net'.Closed
  | .write => e.retry = false ∧ ∃ msgp m k, net.writeq.thisp = some msgp ∧ net.writeq.val? msgp = some m ∧
      m.nBytesWritten = m.msgLen + 1 ∧ m.afterWriteCallback = some k ∧
      (cb k (net.toSession, net.world) none).1.Closed ∧ ∀ p ∈ net.writeq.prevp, (net.writeq.heap p).isSome

/-! ### The three transfers -/

variable {cb : Callbacks κ σ} {net net₀ : Net κ σ} {call : Call κ} {site : Site} {e : Errno} {rs rs' : List ReadResult}

theorem not_sizeMax_lt_one (b : Bool) : ¬(sizeMax < 1 ∧ b = true) := fun h => absurd h.1 (by decide)

theorem sub_sizeMax (x : UInt64) : x - sizeMax = x + 1 := by
  apply UInt64.toNat.inj
  rw [UInt64.toNat_sub, UInt64.toNat_add, sizeMax]
  have := x.toNat_lt
  simp only [UInt64.reduceToNat]
  omega

theorem add_sizeMax (x : UInt64) : x + sizeMax = x - 1 := by
  apply UInt64.toNat.inj
  rw [UInt64.toNat_sub, UInt64.toNat_add, sizeMax]
  have := x.toNat_lt
  simp only [UInt64.reduceToNat]
  omega

theorem sysRead_fail {off n : Nat} :
    sysRead off n net (.fail e :: rs) = .ok (({ net with errno := e }, sizeMax), rs) := rfl

theorem readHeader_fail (h : Due net .header) :
    upkReadPackets cb net (.fail e :: rs)
      = .ok ({ net with errno := e, nHdrBytesRead := net.nHdrBytesRead - 1 }, rs) := by
  obtain ⟨hopen, hrem, hhdr⟩ := h
  have h16 : upkPacketHeaderLen = 16 := rfl
  have hsub : net.nHdrBytesRead + sizeMax.toUInt8 = net.nHdrBytesRead - 1 := by
    apply UInt8.toNat.inj
    have hbyte : sizeMax.toUInt8.toNat = 255 := rfl
    rw [UInt8.toNat_sub, UInt8.toNat_add, hbyte]
    have := net.nHdrBytesRead.toNat_lt
    simp only [UInt8.reduceToNat]
    omega
  have hne : (net.nHdrBytesRead - 1).toNat ≠ upkPacketHeaderLen := by
    rw [UInt8.toNat_sub, h16]
    have := net.nHdrBytesRead.toNat_lt
    simp only [UInt8.reduceToNat]
    omega
  let net' : Net κ σ := { net with errno := e, nHdrBytesRead := net.nHdrBytesRead - 1 }
  have hread : readHeader net (.fail e :: rs) = .ok (net', rs) := by
    unfold readHeader
    rw [if_pos ⟨hrem, hhdr⟩, ReadM.bind_ok sysRead_fail]
    dsimp only
    rw [if_neg (not_sizeMax_lt_one _), hsub]
    rfl
  have hopen' : ¬net'.Closed := hopen
  unfold upkReadPackets
  rw [ReadM.bind_ok (by rw [ifOpen_open hopen]; exact hread),
    ReadM.bind_ok (by rw [ifOpen_open hopen']; exact verifyHeader_skip fun hc => hne hc.2), ifOpen_open hopen']
  exact readBody_skip hrem

/-- There is one byte more to come, unless there were `SIZE_MAX`. -/
theorem readBody_fail (h : Due net .body) :
    readBody cb net (.fail e :: rs)
      = if net.nRemainingRead = sizeMax then
          receivePacket cb { net with errno := e, nRemainingRead := 0 } rs
        else .ok ({ net with errno := e, nRemainingRead := net.nRemainingRead + 1 }, rs) := by
  unfold readBody
  rw [if_pos h.2, ReadM.bind_ok sysRead_fail]
  dsimp only
  rw [if_neg (not_sizeMax_lt_one _), sub_sizeMax]
  by_cases hmax : net.nRemainingRead = sizeMax
  · have hzero : net.nRemainingRead + 1 = 0 := by rw [hmax]; rfl
    rw [if_pos hmax, hzero, if_pos rfl]
    rfl
  · rw [if_neg hmax, if_neg]
    · rfl
    · intro h0
      refine hmax ?_
      rw [← sub_sizeMax, UInt64.sub_eq_iff_eq_add, UInt64.zero_add] at h0
      exact h0

theorem sysWrite_fail_bind {α : Type} {m : NetMsg κ} {off n : Nat} (f : Net κ σ × UInt64 → Except Halt α) :
    (sysWrite m off n (.fail e) net >>= f) = f ({ net with errno := e }, sizeMax) := rfl

/-- A byte less has been written, unless that is all of the message. -/
theorem writePackets_fail {msgp : Addr} {m : NetMsg κ} (hopen : ¬net.Closed) (hcount : ¬net.writeq.count < 1)
    (hthis : net.writeq.thisp = some msgp) (hval : net.writeq.val? msgp = some m) (hleft : 0 < m.msgLen - m.nBytesWritten) :
    ∃ q, UpkList.Modified net.writeq msgp (fun _ => { m with nBytesWritten := m.nBytesWritten - 1 }) q ∧
      (∀ x, (q.heap x).isSome = (net.writeq.heap x).isSome) ∧
      upkWritePackets cb (.fail e) net
        = if m.nBytesWritten = m.msgLen + 1 then
            (doneWriting cb { m with nBytesWritten := m.nBytesWritten - 1 } { net with errno := e, writeq := q }).mapError
              .fault
          else .ok { net with errno := e, writeq := q } := by
  obtain ⟨q, hq, hmod, hlive⟩ :=
    UpkList.exists_modifyVal hval fun _ => { m with nBytesWritten := m.nBytesWritten - 1 }
  have hend : m.nBytesWritten - 1 = m.msgLen ↔ m.nBytesWritten = m.msgLen + 1 := UInt64.sub_eq_iff_eq_add
  refine ⟨q, hmod, hlive, ?_⟩
  unfold upkWritePackets
  rw [if_neg hopen, if_neg hcount, hthis]
  dsimp only
  rw [hval]
  dsimp only
  rw [if_pos hleft, sysWrite_fail_bind]
  dsimp only
  rw [if_neg (not_sizeMax_lt_one _), add_sizeMax, hq]
  by_cases h : m.nBytesWritten = m.msgLen + 1
  · rw [if_pos h]
    exact if_pos (hend.mpr h)
  · rw [if_neg h]
    exact if_neg fun hc => h (hend.mp hc)

/-! ### What comes of a failure -/

theorem receivePacket_eq_ok {net' : Net κ σ} : receivePacket cb net rs = .ok (net', rs') ↔
    rs' = rs ∧ ∃ pkt net₁, upkDeserializePacket net.readbuf.bytes = .ok (.packet pkt) ∧
      upkCallReceivedPacketCallbacks cb pkt net = .ok net₁ ∧ net' = { net₁ with readbuf := .zero _ } := by
  unfold receivePacket
  cases hout : upkDeserializePacket net.readbuf.bytes with
  | error f =>
    rw [ReadM.lift_error rfl]
    simp
  | ok out =>
    rw [ReadM.lift_bind rfl]
    cases out with
    | freed err =>
      refine iff_of_false (fun h => by cases h) ?_
      rintro ⟨-, pkt, net₁, ⟨⟩, -⟩
    | packet pkt =>
      dsimp only
      cases hcall : upkCallReceivedPacketCallbacks cb pkt net with
      | error f =>
        rw [ReadM.lift_error rfl]
        refine iff_of_false (fun h => by cases h) ?_
        rintro ⟨-, pkt', net₁, hpkt, hcall', -⟩
        cases hpkt
        rw [hcall] at hcall'
        cases hcall'
      | ok net₁ =>
        rw [ReadM.lift_bind rfl]
        constructor
        · intro h
          cases h
          exact ⟨rfl, pkt, net₁, rfl, hcall, rfl⟩
        · rintro ⟨rfl, pkt', net₂, hpkt, hcall', rfl⟩
          cases hpkt
          rw [hcall] at hcall'
          cases hcall'
          rfl

theorem callReceivedPacketCallbacks_nRemainingRead {pkt : Packet} {net' : Net κ σ}
    (h : upkCallReceivedPacketCallbacks cb pkt net = .ok net') : net'.nRemainingRead = net.nRemainingRead := by
  unfold upkCallReceivedPacketCallbacks at h
  split at h
  · obtain ⟨k, -, h⟩ := Wire.bind_eq_ok.mp h
    cases k <;> cases h <;> rfl
  · cases h

theorem not_survives_header (h : Due net .header) : ¬Survives cb net (.read (.fail e :: rs)) net e := by
  rintro ⟨net', hres, hafter⟩
  rw [callResult, readHeader_fail h] at hres
  obtain rfl := Except.ok.inj hres
  split at hafter
  · have hsame : net.nHdrBytesRead - 1 = net.nHdrBytesRead := hafter.nHdrBytesRead
    have := congrArg UInt8.toNat hsame
    rw [UInt8.toNat_sub] at this
    have hlt := net.nHdrBytesRead.toNat_lt
    simp only [UInt8.reduceToNat] at this
    omega
  · exact h.1 hafter

theorem survives_body_iff (hread : (ifOpen readHeader net >>= ifOpen verifyHeader) rs = .ok (net₀, .fail e :: rs'))
    (h : Due net₀ .body) : Survives cb net (.read rs) net₀ e ↔ WrapsAround cb net₀ e .body := by
  have hcall : upkReadPackets cb net rs = readBody cb net₀ (.fail e :: rs') := by
    unfold upkReadPackets
    rw [← bind_assoc, ReadM.bind_ok hread, ifOpen_open h.1]
  rw [Survives, callResult, hcall, readBody_fail h]
  by_cases hmax : net₀.nRemainingRead = sizeMax
  · rw [if_pos hmax]
    constructor
    · rintro ⟨net', hres, hafter⟩
      cases hrec : receivePacket cb { net₀ with errno := e, nRemainingRead := 0 } rs' with
      | error f =>
        rw [hrec] at hres
        cases hres
      | ok out =>
        rw [hrec] at hres
        obtain rfl := Except.ok.inj hres
        obtain ⟨-, pkt, net₁, hpkt, hcb, hout⟩ := receivePacket_eq_ok.mp hrec
        cases hretry : e.retry with
        | true =>
          -- the counter has become zero
          rw [hretry, if_pos rfl, hout] at hafter
          have hrem : net₁.nRemainingRead = net₀.nRemainingRead := hafter.nRemainingRead
          rw [callReceivedPacketCallbacks_nRemainingRead hcb, hmax] at hrem
          exact absurd hrem (by decide : (0 : UInt64) ≠ sizeMax)
        | false =>
          rw [hretry, if_neg (by decide), hout] at hafter
          exact ⟨hretry, hmax, pkt, net₁, hpkt, hcb, hafter⟩
    · rintro ⟨hretry, -, pkt, net₁, hpkt, hcb, hclosed⟩
      refine ⟨{ net₁ with readbuf := .zero _ }, ?_, ?_⟩
      · have hrec : receivePacket cb { net₀ with errno := e, nRemainingRead := 0 } rs'
            = .ok ({ net₁ with readbuf := .zero _ }, rs') :=
          receivePacket_eq_ok.mpr ⟨rfl, pkt, net₁, hpkt, hcb, rfl⟩
        rw [hrec]
        rfl
      · rw [hretry, if_neg (by decide)]
        exact hclosed
  · rw [if_neg hmax]
    refine iff_of_false ?_ fun hwrap => hmax hwrap.2.1
    rintro ⟨net', hres, hafter⟩
    obtain rfl := Except.ok.inj hres
    split at hafter
    · have hsame : net₀.nRemainingRead + 1 = net₀.nRemainingRead := hafter.nRemainingRead
      have := congrArg UInt64.toNat hsame
      rw [UInt64.toNat_add] at this
      have hlt := net₀.nRemainingRead.toNat_lt
      simp only [UInt64.reduceToNat] at this
      omega
    · exact h.1 hafter

theorem survives_write_iff (h : Due net .write) :
    Survives cb net (.write (.fail e)) net e ↔ WrapsAround cb net e .write := by
  obtain ⟨hopen, hcount, msgp, m, hthis, hval, hleft⟩ := h
  obtain ⟨q, hmod, hlive, hres⟩ := writePackets_fail hopen hcount hthis hval hleft
  rw [Survives, callResult, hres]
  by_cases hend : m.nBytesWritten = m.msgLen + 1
  · rw [if_pos hend]
    have hlive' : (q.heap msgp).isSome := by
      obtain ⟨c, hc, -⟩ := Option.map_eq_some_iff.mp hval
      rw [hlive, hc]
      rfl
    have hthis' : q.thisp = some msgp := hmod.thisp.trans hthis
    constructor
    · rintro ⟨net', hdone, hafter⟩
      obtain ⟨q', hunlink, rfl⟩ := doneWriting_eq_ok.mp (Wire.mapError_eq_ok hdone)
      cases hretry : e.retry with
      | true =>
        -- the message is gone
        rw [hretry, if_pos rfl] at hafter
        have hgone := hafter.nBytesWritten msgp
        rw [hval, UpkList.val?, UpkList.unlink_freed hthis' hlive' hunlink] at hgone
        cases hgone
      | false =>
        rw [hretry, if_neg (by decide)] at hafter
        unfold NetMsg.callAfterWrite at hafter
        cases hk : m.afterWriteCallback with
        | none =>
          rw [hk] at hafter
          exact absurd hafter hopen
        | some k =>
          rw [hk] at hafter
          refine ⟨hretry, msgp, m, k, hthis, hval, hend, hk, hafter, fun p hp => ?_⟩
          rw [← hlive]
          refine (UpkList.exists_unlink_iff hthis' hlive').mp ⟨q', hunlink⟩ p ?_
          rwa [hmod.prevp]
    · rintro ⟨hretry, msgp', m', k, hthis'', hval', -, hk, hclosed, hprev⟩
      obtain rfl := Option.some.inj (hthis.symm.trans hthis'')
      obtain rfl := Option.some.inj (hval.symm.trans hval')
      obtain ⟨q', hunlink⟩ := (UpkList.exists_unlink_iff hthis' hlive').mpr fun p hp => by
        rw [hlive]
        exact hprev p (hmod.prevp ▸ hp)
      let m' : NetMsg κ := { m with nBytesWritten := m.nBytesWritten - 1 }
      let net₁ : Net κ σ := { net with errno := e, writeq := q }
      have hdone : doneWriting cb m' net₁ = .ok { m'.callAfterWrite cb net₁ with
          writeq := q', pendingWriteq := net₁.pendingWriteq - 1 } := doneWriting_eq_ok.mpr ⟨q', hunlink, rfl⟩
      refine ⟨_, congrArg (Except.mapError Halt.fault) hdone, ?_⟩
      rw [hretry, if_neg (by decide)]
      have hcall : m'.callAfterWrite cb net₁ = net₁.call cb k none := by
        have hk' : m'.afterWriteCallback = some k := hk
        unfold NetMsg.callAfterWrite
        rw [hk']
      rw [hcall]
      exact hclosed
  · rw [if_neg hend]
    refine iff_of_false ?_ ?_
    · rintro ⟨net', hok, hafter⟩
      obtain rfl := Except.ok.inj hok
      split at hafter
      · have hsame := hafter.nBytesWritten msgp
        rw [hmod.val, hval, Option.map_map, Option.map_some, Option.map_some, Option.some.injEq] at hsame
        have hsub : m.nBytesWritten - 1 = m.nBytesWritten := hsame
        have := congrArg UInt64.toNat hsub
        rw [UInt64.toNat_sub] at this
        have hlt := m.nBytesWritten.toNat_lt
        simp only [UInt64.reduceToNat] at this
        omega
      · exact hopen hafter
    · rintro ⟨-, msgp', m', k, hthis', hval', hend', -⟩
      obtain rfl := Option.some.inj (hthis.symm.trans hthis')
      obtain rfl := Option.some.inj (hval.symm.trans hval')
      exact hend hend'

/-- **A connection gets over a failed transfer exactly where the counter of the transfer wraps around.** -/
theorem survives_iff (cb : Callbacks κ σ) (h : Fails net call site net₀ e) :
    Survives cb net call net₀ e ↔ WrapsAround cb net₀ e site := by
  cases h with
  | header h => exact iff_of_false (not_survives_header h) id
  | body hread h => exact survives_body_iff hread h
  | write h => exact survives_write_iff h

/-! ### Runs -/

/-- A property of the failures of a call, with the state and the `errno` of each -/
def EachFailure (P : Net κ σ → Call κ → Site → Net κ σ → Errno → Prop) (net : Net κ σ) (call : Call κ) : Prop :=
  ∀ site net₀ e, Fails net call site net₀ e → P net call site net₀ e

/-- **Failed transfers.** In a run of calls on a fresh connection, the connection gets over the failures of `read` and
`write` exactly if each of them is one that wraps a counter around. -/
theorem survivesAll_iff (cb : Callbacks κ σ) (fd : Int) (callbackStack : List (CbStk κ)) (w : σ) (calls : List (Call κ)) :
    Machine.Guarded (callStep cb) (EachFailure fun net call _ net₀ e => Survives cb net call net₀ e)
        (Net.new fd callbackStack w) calls ↔
      Machine.Guarded (callStep cb) (EachFailure fun _ _ site net₀ e => WrapsAround cb net₀ e site)
        (Net.new fd callbackStack w) calls := by
  refine Machine.guarded_congr fun net call => ?_
  constructor
  · intro h site net₀ e hfail
    exact (survives_iff cb hfail).mp (h site net₀ e hfail)
  · intro h site net₀ e hfail
    exact (survives_iff cb hfail).mpr (h site net₀ e hfail)

/-- The first read finds nothing, and the header counter goes to 255. -/
theorem not_survivesAll_eagain :
    ¬Machine.Guarded (callStep ignore) (EachFailure fun net call _ net₀ e => Survives ignore net call net₀ e)
        (Net.new 5 [] ()) [.read [.fail .eagain]] := by
  rintro ⟨h, -⟩
  have hdue : Due (Net.new 5 [] () : Net Unit Unit) .header := ⟨by decide, rfl, by decide⟩
  exact not_survives_header hdue (h .header _ .eagain (.header hdue))

end Upkeeper
