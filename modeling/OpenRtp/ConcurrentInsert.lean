import OpenRtp.Base.LockedAppend
import OpenRtp.RtpSession

/-!
# Concurrent insertion into a session

`InsertRtpPacket` and `InsertRtcpPacket` as calls that append under a lock, for any
number of callers.  Each vector has a mutex of its own, so either vector is decided by
the order its mutex was acquired in and the packets each caller has for it.
-/

namespace OpenRtp

open LockedAppend

/-- `RtcpPacket`. -/
structure RtcpPacket where
  pRtcpHeader : Option Nat
deriving DecidableEq, Repr

inductive SessionMutex
  | mtxRtpMutex
  | mtxRtcpMutex
deriving DecidableEq, Repr

inductive SessionVector
  | vRtpPackets
  | vRtcpPackets
deriving DecidableEq, Repr

namespace SessionVector

/-- What a vector holds. -/
abbrev Item : SessionVector → Type
  | vRtpPackets => RtpPacket
  | vRtcpPackets => RtcpPacket

/-- The mutex a vector is guarded by. -/
def guard : SessionVector → SessionMutex
  | vRtpPackets => .mtxRtpMutex
  | vRtcpPackets => .mtxRtcpMutex

end SessionVector

/-- A call on the session. -/
inductive SessionCall
  | insertRtpPacket (rtppacket : RtpPacket)
  | insertRtcpPacket (rtcppacket : RtcpPacket)
deriving DecidableEq, Repr

namespace SessionCall

/-- The bodies of `InsertRtpPacket` and `InsertRtcpPacket`. -/
def body : SessionCall → Call SessionMutex SessionVector SessionVector.Item
  | insertRtpPacket rtppacket => ⟨.mtxRtpMutex, .vRtpPackets, rtppacket⟩
  | insertRtcpPacket rtcppacket => ⟨.mtxRtcpMutex, .vRtcpPackets, rtcppacket⟩

theorem guarded : Guarded body SessionVector.guard where
  own k k' same := by cases k <;> cases k' <;> first | rfl | cases same
  guarded call := by cases call <;> rfl

/-- The vector a call is to insert into. -/
def vector : SessionCall → SessionVector
  | insertRtpPacket _ => .vRtpPackets
  | insertRtcpPacket _ => .vRtcpPackets

theorem mutex_body (call : SessionCall) : (body call).mutex = call.vector.guard := by
  cases call <;> rfl

/-- The RTP packet a call is to insert. -/
def rtpPacket? : SessionCall → Option RtpPacket
  | insertRtpPacket rtppacket => some rtppacket
  | insertRtcpPacket _ => none

/-- The RTCP packet a call is to insert. -/
def rtcpPacket? : SessionCall → Option RtcpPacket
  | insertRtpPacket _ => none
  | insertRtcpPacket rtcppacket => some rtcppacket

/-- The packets that some calls are to put into a vector, in order, whatever their bodies do:
RTP packets belong into `m_vRtpPackets`, and RTCP packets into `m_vRtcpPackets`. -/
def packets : (k : SessionVector) → List SessionCall → List k.Item
  | .vRtpPackets, calls => calls.filterMap rtpPacket?
  | .vRtcpPackets, calls => calls.filterMap rtcpPacket?

/-- The bodies append each packet to the vector it belongs into. -/
theorem itemsOf_body (k : SessionVector) (calls : List SessionCall) :
    itemsOf body k calls = packets k calls := by
  cases k <;> refine congrArg (List.filterMap · calls) (funext fun call => ?_) <;>
    cases call <;> rfl

end SessionCall

/-- A session and its callers. -/
abbrev SessionState (ι : Type*) := State ι SessionMutex SessionVector SessionCall SessionVector.Item

namespace SessionState

open SessionCall

variable {ι : Type*} [DecidableEq ι] {programs : ι → List SessionCall} {sched : List ι}
  {s : SessionState ι} {i : ι}

/-- The next step of caller `i`. -/
def step (s : SessionState ι) (i : ι) : Option (SessionState ι) := State.step body s i

/-- The callers that acquired the mutex of a vector along a run, in order. -/
def acquisitions (programs : ι → List SessionCall) (k : SessionVector) (sched : List ι) : List ι :=
  LockedAppend.acquisitions body SessionVector.guard programs k sched

/-- A caller that nobody interrupts inserts as the sequential session does. -/
theorem insertRtpPacket_alone (inv : s.Inv body programs) {done todo : List SessionCall}
    {rtppacket : RtpPacket}
    (here : s.callers i = ⟨done, none, insertRtpPacket rtppacket :: todo⟩)
    (free : s.holder .mtxRtpMutex = none) (mem : Memory) {v : PacketVector}
    (same : (s.vectors .vRtpPackets).contents = v.elems) :
    ∃ s', run step s (List.replicate 5 i) = some s' ∧
      (s'.vectors .vRtpPackets).contents =
        (RtpSession.insertRtpPacket mem v rtppacket).2.elems := by
  obtain ⟨s', reached, contents, _⟩ := append_alone inv here free
  refine ⟨s', reached, contents.trans ?_⟩
  rw [RtpSession.insertRtpPacket, PacketVector.pushBack_elems, ← same]
  rfl

/-- **No packet is lost or duplicated.**  When no call is in progress, each vector holds
the packets replayed from the order its mutex was acquired in: of each caller exactly the
packets of its completed calls, in program order.  Any other run with the same packets
for that vector and the same order leaves the same contents, whatever its calls on the
other vector. -/
theorem inserted_packets_replay
    (reached : run step (State.init programs) sched = some s)
    (quiet : ∀ i, (s.callers i).current = none) (k : SessionVector) :
    let entries := replay (fun i => packets k (programs i)) (acquisitions programs k sched)
    (s.vectors k).contents = entries.map Prod.snd ∧
      (∀ i, (entries.filter fun entry => entry.1 = i).map Prod.snd =
          packets k (s.callers i).done ∧
        (s.callers i).done ++ (s.callers i).todo = programs i) ∧
      ∀ programs' sched' s', run step (State.init programs') sched' = some s' →
        (∀ i, (s'.callers i).current = none) →
        (∀ i, packets k (programs' i) = packets k (programs i)) →
        acquisitions programs' k sched' = acquisitions programs k sched →
        (s'.vectors k).contents = (s.vectors k).contents := by
  obtain ⟨contents, inOrder⟩ := contents_eq_replay (k := k) guarded reached quiet
  simp only [itemsOf_body] at contents inOrder
  refine ⟨contents, fun i => ⟨inOrder i, ?_⟩, ?_⟩
  · have program := (run_inv_history (k := k) guarded reached).1.program i
    simpa [Caller.program, quiet i] using program
  · intro programs' sched' s' reached' quiet' same order
    obtain ⟨contents', _⟩ := contents_eq_replay (k := k) guarded reached' quiet'
    simp only [itemsOf_body] at contents'
    refine contents'.trans (Eq.trans ?_ contents.symm)
    change (replay (fun i => packets k (programs' i)) (acquisitions programs' k sched')).map _ = _
    rw [order, funext same]
    rfl

/-- A packet with a given sequence number. -/
def numbered (sequenceNumber : UInt16) : RtpPacket :=
  .construct ⟨false, false, 0, false, 0, sequenceNumber, 0, 0, []⟩

/-- Two callers of the session. -/
def twoCallers : Bool → List SessionCall
  | true => [insertRtpPacket (numbered 1), insertRtcpPacket ⟨none⟩, insertRtpPacket (numbered 2)]
  | false => [insertRtcpPacket ⟨none⟩, insertRtpPacket (numbered 3)]

/-- A schedule that interleaves the two. -/
def interleaved : List Bool :=
  [true, false, true, true, false, false, true, true, false, false, false, true, false, true,
    true, false, true, false, true, false, true, true, true, true, true]

theorem interleaved_replay :
    let s := (run step (State.init twoCallers) interleaved).getD (State.init twoCallers)
    (s.vectors .vRtpPackets).contents =
      (replay (fun i => packets .vRtpPackets (twoCallers i))
        (acquisitions twoCallers .vRtpPackets interleaved)).map Prod.snd ∧
    (s.vectors .vRtpPackets).contents = [numbered 1, numbered 3, numbered 2] := by
  have reached : run step (State.init twoCallers) interleaved =
      some ((run step (State.init twoCallers) interleaved).getD (State.init twoCallers)) := rfl
  exact ⟨(inserted_packets_replay reached (by decide) .vRtpPackets).1, rfl⟩

end SessionState

end OpenRtp
