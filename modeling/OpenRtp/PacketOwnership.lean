import OpenRtp.PacketFrame

/-!
# Who owns a packet's buffers

The destructor releases what a packet points to, and the implicit copies share
the pointers, so exclusive ownership depends on what is copied.  `OwnsExclusively`
is the property over all live packets, the caller's and the session's;
`CopiesNoBuffer` is the condition on a single operation that keeps it.

`owned_iff_copiesNoBuffer` is the exact statement for whole runs: buffers stay
exclusively owned throughout a run precisely when no operation of the run copies
a packet that holds a buffer.  Under that condition the elements of the session
hold nothing (`ElementsHoldNothing`), which is why growth and the destruction of
the session release nothing.
-/

namespace OpenRtp

/-- A live packet object: a packet of the caller, or an element of the vector. -/
inductive Slot
  | caller (x : Nat)
  | element (k : Nat)
deriving DecidableEq, Repr

namespace World

/-- The pointer `f` of every live packet, through the caller's packets and the
session. -/
def heldBy (f : RtpPacket → Option Nat) (packets : Nat → Option RtpPacket)
    (session : Option PacketVector) : Slot → Option Nat
  | .caller x => (packets x).bind f
  | .element k => (session.bind fun v => v.elems[k]?).bind f

/-- `m_pPayload` of every live packet. -/
def payloads (w : World) : Slot → Option Nat :=
  heldBy RtpPacket.pPayload w.packets w.session

/-- `m_rtphdr_ext.extensions` of every live packet. -/
def extensions (w : World) : Slot → Option Nat :=
  heldBy (fun p => p.rtphdrExt.extensions) w.packets w.session

/-- No buffer was released twice, and every buffer a live packet holds is live and
held by no other live packet. -/
structure OwnsExclusively (w : World) : Prop where
  bytes : w.mem.bytes.Owned w.payloads
  words : w.mem.words.Owned w.extensions

end World

/-- Both pointers are null. -/
def RtpPacket.HoldsNothing (p : RtpPacket) : Prop :=
  p.pPayload = none ∧ p.rtphdrExt.extensions = none

instance (p : RtpPacket) : Decidable p.HoldsNothing :=
  inferInstanceAs (Decidable (_ ∧ _))

/-- The operation, in the state before it, copies no packet that holds a buffer;
assigning a packet to itself copies nothing. -/
def CopiesNoBuffer (w : World) : PacketOp → Prop
  | .copyConstruct _ y => ∀ p, w.packets y = some p → p.HoldsNothing
  | .copyAssign x y => x = y ∨ ∀ p, w.packets y = some p → p.HoldsNothing
  | .insertRtpPacket x => ∀ p, w.packets x = some p → p.HoldsNothing
  | _ => True

/-- No element of the session holds a buffer. -/
def World.ElementsHoldNothing (w : World) : Prop :=
  ∀ v, w.session = some v → ∀ p ∈ v.elems, p.HoldsNothing

namespace World

/-! ## How the holders change -/

theorem heldBy_update (f : RtpPacket → Option Nat) (packets : Nat → Option RtpPacket)
    (session : Option PacketVector) (x : Nat) (o : Option RtpPacket) :
    heldBy f (Function.update packets x o) session =
      Function.update (heldBy f packets session) (.caller x) (o.bind f) := by
  funext s
  cases s with
  | caller y =>
      rcases eq_or_ne y x with rfl | other
      · simp [heldBy]
      · simp [heldBy, other]
  | element k => simp [heldBy]

/-- Changing a packet in a way `f` does not see changes no holder. -/
theorem heldBy_update_same {f : RtpPacket → Option Nat} {packets : Nat → Option RtpPacket}
    {session : Option PacketVector} {x : Nat} {p q : RtpPacket}
    (alive : packets x = some p) (same : f q = f p) :
    heldBy f (Function.update packets x (some q)) session = heldBy f packets session := by
  rw [heldBy_update, Option.bind_some, same]
  exact Function.update_eq_self_iff.mpr (by simp [heldBy, alive])

/-- Packets that hold nothing can join or replace the session's. -/
theorem heldBy_session {f : RtpPacket → Option Nat} {packets : Nat → Option RtpPacket}
    {old new : Option PacketVector}
    (nothing : ∀ v, new = some v → ∀ p ∈ v.elems, f p = none) (s : Slot) (i : Nat)
    (holds : heldBy f packets new s = some i) : heldBy f packets old s = some i := by
  cases s with
  | caller x => exact holds
  | element k =>
      simp only [heldBy, Option.bind_eq_some_iff] at holds
      obtain ⟨p, ⟨v, session, at_k⟩, pointer⟩ := holds
      rw [nothing v session p (List.mem_of_getElem? at_k)] at pointer
      cases pointer

/-! ## Destruction -/

/-- Destroying packets that hold nothing releases nothing. -/
theorem destroy_all_of_holdsNothing {elems : List RtpPacket} (mem : Memory)
    (nothing : ∀ p ∈ elems, p.HoldsNothing) :
    elems.foldl RtpPacket.destroy mem = mem := by
  induction elems with
  | nil => rfl
  | cons p elems ih =>
      obtain ⟨payload, extensions⟩ := nothing p List.mem_cons_self
      have idle : p.destroy mem = mem := by
        simp [RtpPacket.destroy, payload, extensions, Heap.releasePtr]
      rw [List.foldl_cons, idle]
      exact ih fun q member => nothing q (List.mem_cons_of_mem p member)

theorem pushBack_mem_of_holdsNothing {v : PacketVector} {mem : Memory} {p : RtpPacket}
    (nothing : ∀ q ∈ v.elems, q.HoldsNothing) : (v.pushBack mem p).1 = mem := by
  unfold PacketVector.pushBack
  split
  · rfl
  · exact destroy_all_of_holdsNothing mem nothing

/-- The destructor keeps ownership of the packet it destroys: the payload is
released, the extension words are released or lost. -/
theorem OwnsExclusively.destroy {w : World} (owned : w.OwnsExclusively) {x : Nat}
    {p : RtpPacket} (alive : w.packets x = some p) :
    OwnsExclusively { w with
      mem := p.destroy w.mem, packets := Function.update w.packets x none } where
  bytes := by
    have released := owned.bytes.releasePtr (.caller x)
    simpa only [payloads, heldBy, heldBy_update, RtpPacket.destroy, alive,
      Option.bind_some, Option.bind_none] using released
  words := by
    have released := owned.words.releasePtr (.caller x)
    have dropped := owned.words.drop (.caller x)
    simp only [extensions, heldBy, heldBy_update, RtpPacket.destroy, alive,
      Option.bind_some, Option.bind_none] at released dropped ⊢
    split
    · exact released
    · exact dropped

/-! ## The two setters -/

theorem OwnsExclusively.setPayload {w : World} (owned : w.OwnsExclusively) {x : Nat}
    {p : RtpPacket} (alive : w.packets x = some p) (alloc : Bool)
    (payloadLength : UInt32) (payload : Option Nat) :
    OwnsExclusively (w.finish x (p.setPayload alloc w.mem payloadLength payload)) := by
  rcases p.setPayload_cases alloc w.mem payloadLength payload with
    ⟨mem, packet, _⟩ | ⟨src, _, _, _, mem, packet⟩
  · constructor
    · simpa only [finish, payloads, mem, packet, heldBy_update_same alive] using owned.bytes
    · simpa only [finish, extensions, mem, packet, heldBy_update_same alive] using owned.words
  · constructor
    · have copied := owned.bytes.newCopy (.caller x) src payloadLength.toNat
      simpa only [finish, payloads, mem, packet, heldBy_update, Option.bind_some] using copied
    · simpa only [finish, extensions, mem, packet, heldBy_update_same alive] using owned.words

theorem OwnsExclusively.setHeaderExtension {w : World} (owned : w.OwnsExclusively)
    {x : Nat} {p : RtpPacket} (alive : w.packets x = some p) (alloc : Bool)
    (ext : RtpHeaderExtension) :
    OwnsExclusively (w.finish x (p.setHeaderExtension alloc w.mem ext)) := by
  rcases p.setHeaderExtension_cases alloc w.mem ext with
    ⟨mem, packet, _⟩ | ⟨src, _, _, _, mem, packet⟩
  · constructor
    · simpa only [finish, payloads, mem, packet, heldBy_update_same alive] using owned.bytes
    · simpa only [finish, extensions, mem, packet, heldBy_update_same alive] using owned.words
  · constructor
    · simpa only [finish, payloads, mem, packet, heldBy_update_same alive] using owned.bytes
    · have copied := owned.words.newCopy (.caller x) src ext.length.toNat
      simpa only [finish, extensions, mem, packet, heldBy_update, Option.bind_some] using copied

/-! ## One operation -/

/-- A packet that holds nothing can be put anywhere. -/
theorem OwnsExclusively.place {w : World} (owned : w.OwnsExclusively) (x : Nat)
    {q : RtpPacket} (nothing : q.HoldsNothing) :
    OwnsExclusively { w with packets := Function.update w.packets x (some q) } where
  bytes := by
    simpa only [payloads, heldBy_update, Option.bind_some, nothing.1] using
      owned.bytes.drop (.caller x)
  words := by
    simpa only [extensions, heldBy_update, Option.bind_some, nothing.2] using
      owned.words.drop (.caller x)

/-- A packet can be replaced by one with the same two pointers. -/
theorem OwnsExclusively.samePointers {w : World} (owned : w.OwnsExclusively) {x : Nat}
    {p q : RtpPacket} (alive : w.packets x = some p) (payload : q.pPayload = p.pPayload)
    (extensions : q.rtphdrExt.extensions = p.rtphdrExt.extensions) :
    OwnsExclusively { w with packets := Function.update w.packets x (some q) } where
  bytes := by
    simpa only [payloads, heldBy_update_same alive payload] using owned.bytes
  words := by
    simpa only [World.extensions, heldBy_update_same (f := fun p => p.rtphdrExt.extensions)
      alive extensions] using owned.words

/-- What a run that copies no buffer maintains. -/
structure OwnershipInv (w : World) : Prop where
  owned : w.OwnsExclusively
  elements : w.ElementsHoldNothing

theorem ownershipInv_init : OwnershipInv init where
  owned :=
    { bytes := .empty fun s => by cases s <;> rfl
      words := .empty fun s => by cases s <;> rfl }
  elements v session p member := by
    cases session
    cases member

/-- An operation that copies no buffer keeps the invariant. -/
theorem OwnershipInv.step {w t : World} {op : PacketOp} (inv : OwnershipInv w)
    (clean : CopiesNoBuffer w op) (h : w.step op = some t) : OwnershipInv t := by
  obtain ⟨owned, elements⟩ := inv
  cases Steps.of_step h with
  | construct fresh => exact ⟨owned.place _ ⟨rfl, rfl⟩, elements⟩
  | copyConstruct fresh alive => exact ⟨owned.place _ (clean _ alive), elements⟩
  | copyAssign target alive =>
      rcases clean with rfl | nothing
      · exact ⟨owned.samePointers alive rfl rfl, elements⟩
      · exact ⟨owned.place _ (nothing _ alive), elements⟩
  | setHeaderExtension alive own =>
      exact ⟨owned.setHeaderExtension alive _ _, elements⟩
  | setPayload alive own => exact ⟨owned.setPayload alive _ _ _, elements⟩
  | setHeader alive => exact ⟨owned.samePointers alive (by simp) (by simp), elements⟩
  | @insertRtpPacket x p v alive session =>
      -- neither the inserted copy nor the elements growth copies and destroys hold a buffer
      have old := elements v session
      have new : ∀ q ∈ (v.pushBack w.mem p).2.elems, q.HoldsNothing := by
        intro q member
        rw [PacketVector.pushBack_elems, List.mem_append, List.mem_singleton] at member
        rcases member with member | rfl
        · exact old q member
        · exact clean q alive
      have idle : (v.pushBack w.mem p).1 = w.mem := pushBack_mem_of_holdsNothing old
      refine ⟨⟨?_, ?_⟩, ?_⟩
      · rw [idle]
        refine owned.bytes.forget (heldBy_session fun u same q member => ?_)
        cases same
        exact (new q member).1
      · rw [idle]
        refine owned.words.forget (heldBy_session fun u same q member => ?_)
        cases same
        exact (new q member).2
      · intro u same
        cases same
        exact new
  | destroy alive => exact ⟨owned.destroy alive, elements⟩
  | @destroySession v session =>
      have idle := destroy_all_of_holdsNothing w.mem (elements v session)
      refine ⟨⟨?_, ?_⟩, fun u gone => by cases gone⟩
      · rw [idle]
        exact owned.bytes.forget (heldBy_session fun u gone => by cases gone)
      · rw [idle]
        exact owned.words.forget (heldBy_session fun u gone => by cases gone)
  | newByteArray => exact ⟨⟨owned.bytes.add _, owned.words⟩, elements⟩
  | newWordArray => exact ⟨⟨owned.bytes, owned.words.add _⟩, elements⟩
  | writeByte own =>
      exact ⟨⟨owned.bytes.of_releases_eq (Heap.releases_store _ _ _ _), owned.words⟩, elements⟩
  | writeWord own =>
      exact ⟨⟨owned.bytes, owned.words.of_releases_eq (Heap.releases_store _ _ _ _)⟩, elements⟩

/-- Two live packets with the same pointers hold nothing, in a state where buffers
are exclusively owned. -/
theorem OwnsExclusively.holdsNothing_of_shared {w : World} (owned : w.OwnsExclusively)
    {s t : Slot} {p : RtpPacket} (apart : s ≠ t)
    (payload : w.payloads s = p.pPayload ∧ w.payloads t = p.pPayload)
    (extensions : w.extensions s = p.rtphdrExt.extensions ∧
      w.extensions t = p.rtphdrExt.extensions) : p.HoldsNothing := by
  constructor
  · cases held : p.pPayload with
    | none => rfl
    | some i =>
        exact absurd (owned.bytes.unique s t i (payload.1.trans held) (payload.2.trans held))
          apart
  · cases held : p.rtphdrExt.extensions with
    | none => rfl
    | some i =>
        exact absurd
          (owned.words.unique s t i (extensions.1.trans held) (extensions.2.trans held)) apart

/-- An operation after which buffers are exclusively owned copied none. -/
theorem copiesNoBuffer_of_owned {w t : World} {op : PacketOp} (owned : t.OwnsExclusively)
    (h : w.step op = some t) : CopiesNoBuffer w op := by
  cases Steps.of_step h with
  | @copyConstruct x y p fresh alive =>
      intro q same
      cases alive.symm.trans same
      have apart : y ≠ x := by
        rintro rfl
        cases fresh.symm.trans alive
      refine owned.holdsNothing_of_shared (s := .caller x) (t := .caller y)
        (by simpa using apart.symm)
        ⟨?_, ?_⟩ ⟨?_, ?_⟩ <;>
      simp [payloads, extensions, heldBy, alive, apart]
  | @copyAssign x y q p target alive =>
      by_cases same : x = y
      · exact .inl same
      · refine .inr fun q again => ?_
        cases alive.symm.trans again
        refine owned.holdsNothing_of_shared (s := .caller x) (t := .caller y)
          (by simpa using same) ⟨?_, ?_⟩ ⟨?_, ?_⟩ <;>
        simp [payloads, extensions, heldBy, alive, Ne.symm same]
  | @insertRtpPacket x p v alive session =>
      intro q same
      cases alive.symm.trans same
      refine owned.holdsNothing_of_shared (s := .caller x) (t := .element v.elems.length)
        (by simp) ⟨?_, ?_⟩ ⟨?_, ?_⟩ <;>
      simp [payloads, extensions, heldBy, alive]
  | _ => trivial

/-! ## Runs without copies -/

/-- No packet is copied. -/
def NeverCopied (_ : World) : PacketOp → Prop
  | .copyConstruct _ _ | .copyAssign _ _ | .insertRtpPacket _ => False
  | _ => True

instance (w : World) : ∀ op, Decidable (NeverCopied w op)
  | .copyConstruct _ _ | .copyAssign _ _ | .insertRtpPacket _ => isFalse id
  | .construct _ _ | .setHeaderExtension _ _ _ | .setPayload _ _ _ _ | .setHeader _ _
  | .destroy _ | .destroySession | .newByteArray _ | .newWordArray _ | .writeByte _ _ _
  | .writeWord _ _ _ => isTrue trivial

/-- What a run without copies maintains. -/
structure SingleInv (w : World) : Prop where
  frame : FrameInv w
  ownership : OwnershipInv w

theorem SingleInv.step {w t : World} {op : PacketOp} (inv : w.SingleInv)
    (single : NeverCopied w op) (h : w.step op = some t) : t.SingleInv := by
  refine ⟨inv.frame.step h, inv.ownership.step ?_ h⟩
  cases op with
  | copyConstruct | copyAssign | insertRtpPacket => exact single.elim
  | _ => trivial

end World

open World in
/-- **Exclusive ownership over whole runs.** Buffers are exclusively owned in every
state of a run exactly when no operation of the run copies a packet that holds
one. -/
theorem owned_iff_copiesNoBuffer {ops : List PacketOp} {w : World}
    (reached : run World.step World.init ops = some w) :
    Always World.step OwnsExclusively World.init ops ↔
      Along World.step CopiesNoBuffer World.init ops := by
  constructor
  · exact along_of_always (I := fun _ => True) (fun _ _ _ _ _ => trivial)
      (fun _ _ _ _ _ first owned => copiesNoBuffer_of_owned owned first) trivial reached
  · exact always_of_along (fun _ _ _ inv clean first => inv.step clean first)
      (fun _ inv => inv.owned) ownershipInv_init

/-- The caller sets a payload, sends the packet through a session and lets both go. -/
def insertThenDestroy : List PacketOp :=
  [.construct 0 ⟨false, false, 0, false, 96, 1, 0, 0, []⟩, .newByteArray 1,
    .setPayload 0 1 (some 0) true, .insertRtpPacket 0, .destroy 0, .destroySession]

/-- The session's copy shares the payload with the caller's packet, so the buffer
is released twice. -/
theorem insertThenDestroy_releases_twice :
    ∃ w, run World.step World.init insertThenDestroy = some w ∧
      (w.mem.bytes.get? 1).map Block.releases = some 2 ∧ ¬ w.OwnsExclusively := by
  have twice : (run World.step World.init insertThenDestroy).map
      (fun w => (w.mem.bytes.get? 1).map Block.releases) = some (some 2) := by decide
  obtain ⟨w, reached, count⟩ := Option.map_eq_some_iff.mp twice
  refine ⟨w, reached, count, fun owned => ?_⟩
  obtain ⟨b, here, two⟩ := Option.map_eq_some_iff.mp count
  have once := owned.bytes.releasedOnce 1 b here
  omega

/-- A packet is copied and inserted before it has a payload, which it then keeps to itself. -/
theorem owned_with_empty_copies :
    Always World.step World.OwnsExclusively World.init
      [.construct 0 ⟨false, false, 0, false, 96, 1, 0, 0, []⟩, .copyConstruct 1 0,
        .insertRtpPacket 0, .newByteArray 1, .setPayload 0 1 (some 0) true, .destroy 0,
        .destroy 1, .destroySession] := by
  have fresh : (RtpPacket.construct ⟨false, false, 0, false, 96, 1, 0, 0, []⟩).HoldsNothing := by
    decide
  refine (owned_iff_copiesNoBuffer (w := _) rfl).mpr ?_
  simpa [Along, CopiesNoBuffer, World.step, World.init] using fresh

end OpenRtp
