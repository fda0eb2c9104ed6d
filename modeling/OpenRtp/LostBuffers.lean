import OpenRtp.PacketOwnership

/-!
# Lost buffers

Both setters overwrite the pointer they keep their buffer in, and the destructor looks at the
extension flag before it releases the extension words.  A buffer is lost when it is live and
no packet points to it: none is, along a run without copies, exactly when every buffer is
made where the pointer is null and no packet is destroyed that has extension words and no
extension flag (`noneLost_iff`).
-/

namespace OpenRtp

namespace World

/-- Every live array is the caller's or held. -/
def Covered {α : Type*} (h : Heap α) (arrays : List Nat) (held : Nat → Option Nat) : Prop :=
  ∀ i, h.Live i → i ∈ arrays ∨ ∃ x, held x = some i

/-- Every live buffer the caller did not make is one a packet points to. -/
structure NoneLost (w : World) : Prop where
  bytes : Covered w.mem.bytes w.byteArrays w.payloadOf
  words : Covered w.mem.words w.wordArrays w.extensionsOf

/-- A setter that makes a buffer finds the pointer null, and the destructor finds no extension
words or the extension flag set. -/
def LosesNone (w : World) : PacketOp → Prop
  | .setHeaderExtension x ext alloc =>
      alloc = true → 0 < ext.length → ext.extensions ≠ none →
        ∀ p ∈ w.packets x, p.rtphdrExt.extensions = none
  | .setPayload x payloadLength payload alloc =>
      alloc = true → 0 < payloadLength → payload ≠ none →
        ∀ p ∈ w.packets x, p.pPayload = none
  | .destroy x =>
      ∀ p ∈ w.packets x, p.rtphdr.extension = true ∨ p.rtphdrExt.extensions = none
  | _ => True

instance (w : World) : ∀ op, Decidable (LosesNone w op)
  | .setHeaderExtension _ _ _ | .setPayload _ _ _ _ => inferInstanceAs (Decidable (_ → _))
  | .destroy _ => inferInstanceAs (Decidable (∀ p ∈ _, _))
  | .construct _ _ | .copyConstruct _ _ | .copyAssign _ _ | .setHeader _ _ | .insertRtpPacket _
  | .destroySession | .newByteArray _ | .newWordArray _ | .writeByte _ _ _
  | .writeWord _ _ _ => isTrue trivial

/-! ## One kind of array -/

section Covered

variable {α : Type*} {h h' : Heap α} {arrays : List Nat} {f : RtpPacket → Option Nat}
  {packets : Nat → Option RtpPacket} {x : Nat} {p q : RtpPacket}

/-- Where a packet points, it still points if its pointer stays. -/
theorem pointers_place {i : Nat} (holds : ∃ y, pointers f packets y = some i)
    (kept : pointers f packets x = some i → f q = some i) :
    ∃ y, pointers f (Function.update packets x (some q)) y = some i := by
  rcases holds with ⟨y, holds⟩
  have still : pointers f (Function.update packets x (some q)) y = some i := by
    unfold pointers at holds kept ⊢
    rcases eq_or_ne y x with rfl | other
    · rw [Function.update_self, Option.bind_some]
      exact kept holds
    · rwa [Function.update_of_ne other]
  exact ⟨y, still⟩

/-- A packet is put where nothing is lost. -/
theorem Covered.place (covered : Covered h arrays (pointers f packets))
    (kept : ∀ i, pointers f packets x = some i → f q = some i) :
    Covered h arrays (pointers f (Function.update packets x (some q))) := fun i live =>
  (covered i live).imp_right fun holds => pointers_place holds (kept i)

/-- A packet whose pointer was null takes a fresh array. -/
theorem Covered.fresh (covered : Covered h arrays (pointers f packets)) (alive : packets x = some p)
    (null : f p = none) (live : ∀ i, h'.Live i → i = h.size ∨ h.Live i)
    (taken : f q = some h.size) :
    Covered h' arrays (pointers f (Function.update packets x (some q))) := by
  intro i now
  rcases live i now with rfl | before
  · exact .inr ⟨x, by simp [pointers, taken]⟩
  · have nothing : pointers f packets x ≠ some i := by
      rw [pointers, alive, Option.bind_some, null]
      exact (Option.some_ne_none i).symm
    exact (covered i before).imp_right fun holds =>
      pointers_place holds fun own => absurd own nothing

/-- A packet goes and what it pointed to is released. -/
theorem Covered.released (covered : Covered h arrays (pointers f packets))
    (alive : packets x = some p) (live : ∀ i, h'.Live i → h.Live i ∧ f p ≠ some i) :
    Covered h' arrays (pointers f (Function.update packets x none)) := by
  intro i now
  rcases live i now with ⟨before, apart⟩
  rcases covered i before with caller | ⟨y, holds⟩
  · exact .inl caller
  · have other : y ≠ x := by
      rintro rfl
      rw [pointers, alive, Option.bind_some] at holds
      exact apart holds
    have still : pointers f (Function.update packets x none) y = some i := by
      rwa [pointers, Function.update_of_ne other]
    exact .inr ⟨y, still⟩

/-- The caller makes an array. -/
theorem Covered.own {held : Nat → Option Nat} (covered : Covered h arrays held)
    (live : ∀ i, h'.Live i → i = h.size ∨ h.Live i) : Covered h' (arrays ++ [h.size]) held := by
  intro i now
  rcases live i now with rfl | before
  · exact .inl (List.mem_append_right _ (List.mem_singleton_self _))
  · exact (covered i before).imp_left (List.mem_append_left _)

/-- If nothing is lost when the pointer of the packet at `x` goes or becomes a fresh one, it
was null. -/
theorem Covered.null {left : Option RtpPacket} {session : Option PacketVector}
    (covered : Covered h' arrays (pointers f (Function.update packets x left)))
    (alive : packets x = some p) (apart : Apart h arrays (pointers f packets))
    (owned : h.Owned (heldBy f packets session)) (live : ∀ i, h.Live i → h'.Live i)
    (fresh : ∀ i, left.bind f = some i → h.size ≤ i) : f p = none := by
  cases holds : f p with
  | none => rfl
  | some i =>
      have held : pointers f packets x = some i := by simp [pointers, alive, holds]
      rcases covered i (live i (owned.live (.caller x) i held)) with caller | ⟨y, still⟩
      · exact absurd caller (apart.held_not_mem x i held)
      · have below : i < h.size := apart.held_lt x i held
        unfold pointers at still
        rcases eq_or_ne y x with rfl | other
        · rw [Function.update_self] at still
          exact absurd (fresh i still) (Nat.not_le_of_lt below)
        · rw [Function.update_of_ne other] at still
          have same := owned.unique (.caller y) (.caller x) i still held
          cases same
          exact absurd rfl other

end Covered

/-! ## One operation -/

variable {w t : World} {op : PacketOp}

/-- A packet with the pointer of the one it replaces loses nothing. -/
theorem covered_replace {α : Type*} {h : Heap α} {arrays : List Nat}
    {f : RtpPacket → Option Nat} {packets : Nat → Option RtpPacket} {x : Nat} {p q : RtpPacket}
    (covered : Covered h arrays (pointers f packets)) (alive : packets x = some p)
    (same : f q = f p) : Covered h arrays (pointers f (Function.update packets x (some q))) := by
  refine covered.place fun i holds => ?_
  rw [pointers, alive, Option.bind_some] at holds
  rw [same, holds]

theorem NoneLost.setPayload (lost : w.NoneLost) {x : Nat} {p : RtpPacket}
    (alive : w.packets x = some p) {alloc : Bool} {payloadLength : UInt32} {payload : Option Nat}
    (null : alloc = true → 0 < payloadLength → payload ≠ none → p.pPayload = none) :
    (w.finish x (p.setPayload alloc w.mem payloadLength payload)).NoneLost := by
  rcases p.setPayload_cases alloc w.mem payloadLength payload with
    ⟨mem, packet, _⟩ | ⟨src, source, positive, allocated, mem, packet⟩
  · rw [finish, mem, packet]
    exact ⟨covered_replace lost.bytes alive rfl, covered_replace lost.words alive rfl⟩
  · have empty := null allocated positive (source ▸ Option.some_ne_none src)
    rw [finish, mem, packet]
    exact ⟨lost.bytes.fresh alive empty (fun i => (Heap.live_new_memcpy _ _ _ _ _).mp) rfl,
      covered_replace lost.words alive rfl⟩

theorem NoneLost.setHeaderExtension (lost : w.NoneLost) {x : Nat} {p : RtpPacket}
    (alive : w.packets x = some p) {alloc : Bool} {ext : RtpHeaderExtension}
    (null : alloc = true → 0 < ext.length → ext.extensions ≠ none →
      p.rtphdrExt.extensions = none) :
    (w.finish x (p.setHeaderExtension alloc w.mem ext)).NoneLost := by
  rcases p.setHeaderExtension_cases alloc w.mem ext with
    ⟨mem, packet, _⟩ | ⟨src, source, positive, allocated, mem, packet⟩
  · rw [finish, mem, packet]
    exact ⟨covered_replace lost.bytes alive rfl, covered_replace lost.words alive rfl⟩
  · have empty := null allocated positive (source ▸ Option.some_ne_none src)
    rw [finish, mem, packet]
    exact ⟨covered_replace lost.bytes alive rfl,
      lost.words.fresh alive empty (fun i => (Heap.live_new_memcpy _ _ _ _ _).mp) rfl⟩

theorem NoneLost.destroy (lost : w.NoneLost) {x : Nat} {p : RtpPacket}
    (alive : w.packets x = some p)
    (released : p.rtphdr.extension = true ∨ p.rtphdrExt.extensions = none) :
    NoneLost { w with mem := p.destroy w.mem, packets := Function.update w.packets x none } := by
  have live : ∀ i, (p.destroy w.mem).words.Live i →
      w.mem.words.Live i ∧ p.rtphdrExt.extensions ≠ some i := by
    intro i live
    rcases released with flag | null
    · rw [RtpPacket.destroy, if_pos flag] at live
      exact (Heap.live_releasePtr _ _ _).mp live
    · have same : (p.destroy w.mem).words = w.mem.words := by
        simp [RtpPacket.destroy, null, Heap.releasePtr]
      rw [same] at live
      exact ⟨live, by simp [null]⟩
  exact ⟨lost.bytes.released alive fun i => (Heap.live_releasePtr _ _ _).mp,
    lost.words.released alive live⟩

theorem NoneLost.step (lost : w.NoneLost) (inv : OwnershipInv w) (single : NeverCopied w op)
    (met : LosesNone w op) (h : w.step op = some t) : t.NoneLost := by
  cases Steps.of_step h with
  | construct fresh =>
      refine ⟨lost.bytes.place fun i holds => ?_, lost.words.place fun i holds => ?_⟩ <;>
      · rw [pointers, fresh] at holds
        cases holds
  | copyConstruct | copyAssign | insertRtpPacket => exact single.elim
  | @setHeaderExtension x ext alloc p alive own =>
      exact lost.setHeaderExtension alive fun ok positive source => met ok positive source p alive
  | @setPayload x payloadLength payload alloc p alive own =>
      exact lost.setPayload alive fun ok positive source => met ok positive source p alive
  | setHeader alive =>
      exact ⟨covered_replace lost.bytes alive (by simp),
        covered_replace lost.words alive (by simp)⟩
  | destroy alive => exact lost.destroy alive (met _ alive)
  | @destroySession v session =>
      rw [destroy_all_of_holdsNothing w.mem (inv.elements v session)]
      exact ⟨lost.bytes, lost.words⟩
  | newByteArray => exact ⟨lost.bytes.own fun i => (Heap.live_add _ _ _).mp, lost.words⟩
  | newWordArray => exact ⟨lost.bytes, lost.words.own fun i => (Heap.live_add _ _ _).mp⟩
  | writeByte own =>
      exact ⟨fun i live => lost.bytes i ((Heap.live_congr (Heap.releases_store _ _ _ _ _)).mp live),
        lost.words⟩
  | writeWord own =>
      exact ⟨lost.bytes,
        fun i live => lost.words i ((Heap.live_congr (Heap.releases_store _ _ _ _ _)).mp live)⟩

theorem noneLost_init : World.init.NoneLost where
  bytes i live := by
    rcases live with ⟨b, here, _⟩
    cases here
  words i live := by
    rcases live with ⟨b, here, _⟩
    cases here

/-- An operation after which nothing is lost met the condition. -/
theorem losesNone_of_noneLost (inv : w.SingleInv) (h : w.step op = some t) (after : t.NoneLost) :
    LosesNone w op := by
  cases Steps.of_step h with
  | @setPayload x payloadLength payload alloc p alive own =>
      rintro rfl positive source q here
      cases alive.symm.trans here
      rcases p.setPayload_cases true w.mem payloadLength payload with
        ⟨_, _, skipped⟩ | ⟨src, _, _, _, mem, packet⟩
      · rcases skipped rfl with rfl | null
        · simp at positive
        · exact absurd null source
      · rw [finish, mem, packet] at after
        exact after.bytes.null alive inv.frame.bytes inv.ownership.owned.bytes
          (fun i live => (Heap.live_new_memcpy _ _ _ _ _).mpr (.inr live))
          fun i fresh => Nat.le_of_eq (Option.some.inj fresh)
  | @setHeaderExtension x ext alloc p alive own =>
      rintro rfl positive source q here
      cases alive.symm.trans here
      rcases p.setHeaderExtension_cases true w.mem ext with
        ⟨_, _, skipped⟩ | ⟨src, _, _, _, mem, packet⟩
      · rcases skipped rfl with zero | null
        · simp [zero] at positive
        · exact absurd null source
      · rw [finish, mem, packet] at after
        exact after.words.null alive inv.frame.words inv.ownership.owned.words
          (fun i live => (Heap.live_new_memcpy _ _ _ _ _).mpr (.inr live))
          fun i fresh => Nat.le_of_eq (Option.some.inj fresh)
  | @destroy x p alive =>
      intro q here
      cases alive.symm.trans here
      cases flag : p.rtphdr.extension with
      | true => exact .inl rfl
      | false =>
          have words : (p.destroy w.mem).words = w.mem.words := by
            simp [RtpPacket.destroy, flag]
          have null := after.words.null alive inv.frame.words inv.ownership.owned.words
            (fun i live => words ▸ live) fun i fresh => by cases fresh
          exact .inr null
  | _ => trivial

end World

open World in
/-- **No buffer is lost.** In a run that copies no packet, every live buffer the caller did not
make is one that a packet points to, in every state, exactly when every setter that makes a
buffer finds a null pointer and every destructor finds the extension flag set or no extension
words. -/
theorem noneLost_iff {ops : List PacketOp} {w : World}
    (reached : run World.step World.init ops = some w)
    (single : Along World.step NeverCopied World.init ops) :
    Always World.step NoneLost World.init ops ↔ Along World.step LosesNone World.init ops := by
  have initial : SingleInv World.init := ⟨frameInv_init, ownershipInv_init⟩
  constructor
  · exact along_of_always_within (I := SingleInv) (fun _ _ _ inv single h => inv.step single h)
      (fun _ _ _ inv _ _ h after => losesNone_of_noneLost inv h after) initial reached single
  · intro met
    exact always_of_along (Q := fun w => w.SingleInv ∧ w.NoneLost)
      (fun _ _ _ inv met h =>
        ⟨inv.1.step met.1 h, inv.2.step inv.1.ownership met.1 met.2 h⟩)
      (fun _ inv => inv.2) ⟨initial, noneLost_init⟩ (single.and met)

/-- A second `SetPayload` leaves the buffer of the first behind, and a packet without the
extension flag keeps its extension words when it is destroyed. -/
theorem second_payload_lost :
    (∃ w, run World.step World.init
        [.newByteArray 1, .construct 0 ⟨false, false, 0, false, 96, 1, 0, 0, []⟩,
          .setPayload 0 1 (some 0) true, .setPayload 0 1 (some 0) true, .destroy 0] = some w ∧
      w.mem.bytes.Live 1 ∧ ¬ w.NoneLost) ∧
    ∃ w, run World.step World.init
        [.newWordArray 1, .construct 0 ⟨false, false, 0, false, 96, 1, 0, 0, []⟩,
          .setHeaderExtension 0 ⟨7, 1, some 0⟩ true, .destroy 0] = some w ∧
      w.mem.words.Live 1 ∧ ¬ w.NoneLost := by
  refine ⟨⟨_, rfl, ⟨_, rfl, rfl⟩, fun lost => ?_⟩, _, rfl, ⟨_, rfl, rfl⟩, fun lost => ?_⟩
  · rcases lost.bytes 1 ⟨_, rfl, rfl⟩ with caller | ⟨x, holds⟩
    · revert caller
      decide
    · rcases eq_or_ne x 0 with rfl | other
      · cases holds
      · simp [World.payloadOf, World.pointers, World.init, World.finish, other] at holds
  · rcases lost.words 1 ⟨_, rfl, rfl⟩ with caller | ⟨x, holds⟩
    · revert caller
      decide
    · rcases eq_or_ne x 0 with rfl | other
      · cases holds
      · simp [World.extensionsOf, World.pointers, World.init, World.finish, other] at holds

/-- One payload, one extension under its flag, and both are released. -/
theorem noneLost_released :
    Always World.step World.NoneLost World.init
      [.newByteArray 1, .newWordArray 1, .construct 0 ⟨false, false, 0, false, 96, 1, 0, 0, []⟩,
        .setPayload 0 1 (some 0) true, .setHeaderExtension 0 ⟨7, 1, some 0⟩ true,
        .setHeader 0 (.extension true), .setPayload 0 0 none true, .destroy 0] :=
  (noneLost_iff (w := _) rfl (by decide)).mpr (by decide)

end OpenRtp
