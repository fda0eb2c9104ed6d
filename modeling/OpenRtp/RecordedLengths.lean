import OpenRtp.PacketOwnership

/-!
# Recorded lengths

`SetPayload` and `SetHeaderExtension` record the length they are given whether or not they
make a buffer of that length.  `Traced` is a program that remembers, for each packet, the
last call of either setter, so that one can say which call filled a buffer.

The recorded lengths are those of the buffers exactly along the runs in which no setter is
given a positive length and a null pointer (`lengths_filled_iff`).
-/

namespace OpenRtp

/-- A setter call: the array `new[]` makes next, and what the source holds. -/
structure Filling (α : Type*) where
  buffer : Nat
  copied : List (Option α)
deriving DecidableEq, Repr

/-- A program and the last setter calls on each packet. -/
structure Traced where
  world : World
  payloadCall : Nat → Option (Filling UInt8)
  extensionCall : Nat → Option (Filling UInt32)

namespace Traced

open World

def init : Traced := ⟨World.init, fun _ => none, fun _ => none⟩

def payloadCallAfter (s : Traced) : PacketOp → Nat → Option (Filling UInt8)
  | .construct x _ => Function.update s.payloadCall x none
  | .setPayload x payloadLength payload _ =>
      Function.update s.payloadCall x (some
        ⟨s.world.mem.bytes.size, s.world.mem.bytes.view payload payloadLength.toNat⟩)
  | _ => s.payloadCall

def extensionCallAfter (s : Traced) : PacketOp → Nat → Option (Filling UInt32)
  | .construct x _ => Function.update s.extensionCall x none
  | .setHeaderExtension x ext _ =>
      Function.update s.extensionCall x (some
        ⟨s.world.mem.words.size, s.world.mem.words.view ext.extensions ext.length.toNat⟩)
  | _ => s.extensionCall

def step (s : Traced) (op : PacketOp) : Option Traced :=
  (s.world.step op).map fun w => ⟨w, s.payloadCallAfter op, s.extensionCallAfter op⟩

/-- The first `n` cells behind the pointer were all written by that call. -/
def FilledBy {α : Type*} (h : Heap α) (call : Option (Filling α)) (ptr : Option Nat) (n : Nat) :
    Prop :=
  n = 0 ∨ ∃ c ∈ call, ptr = some c.buffer ∧ h.HasCells c.buffer n ∧
    h.read c.buffer n = c.copied

/-- A recorded length is 0, or the pointer leads to that many cells, written by the call that
recorded it. -/
structure LengthsFilled (s : Traced) : Prop where
  payload : ∀ x p, s.world.packets x = some p →
    FilledBy s.world.mem.bytes (s.payloadCall x) p.pPayload p.uPayloadLength.toNat
  extension : ∀ x p, s.world.packets x = some p →
    FilledBy s.world.mem.words (s.extensionCall x) p.rtphdrExt.extensions
      p.rtphdrExt.length.toNat

/-- What a reader that trusts the recorded lengths relies on. -/
structure Readable (s : Traced) : Prop where
  filled : s.LengthsFilled
  bytesLive : ∀ x i, s.world.payloadOf x = some i → s.world.mem.bytes.Live i
  wordsLive : ∀ x i, s.world.extensionsOf x = some i → s.world.mem.words.Live i

/-- Allocation succeeds, a source is null or has the stated length, and no packet is copied. -/
def SetterCall (s : Traced) : PacketOp → Prop
  | .setHeaderExtension _ ext alloc => alloc = true ∧
      ∀ a ∈ ext.extensions, s.world.mem.words.HasCells a ext.length.toNat
  | .setPayload _ payloadLength payload alloc => alloc = true ∧
      ∀ a ∈ payload, s.world.mem.bytes.HasCells a payloadLength.toNat
  | .copyConstruct _ _ | .copyAssign _ _ | .insertRtpPacket _ => False
  | _ => True

instance (s : Traced) : ∀ op, Decidable (SetterCall s op)
  | .setHeaderExtension _ _ _ | .setPayload _ _ _ _ => inferInstanceAs (Decidable (_ ∧ _))
  | .copyConstruct _ _ | .copyAssign _ _ | .insertRtpPacket _ => isFalse id
  | .construct _ _ | .setHeader _ _ | .destroy _ | .destroySession | .newByteArray _
  | .newWordArray _ | .writeByte _ _ _ | .writeWord _ _ _ => isTrue trivial

/-- A positive length comes with a pointer. -/
def SourceGiven (_ : Traced) : PacketOp → Prop
  | .setHeaderExtension _ ext _ => ext.length = 0 ∨ ext.extensions ≠ none
  | .setPayload _ payloadLength payload _ => payloadLength = 0 ∨ payload ≠ none
  | _ => True

instance (s : Traced) : ∀ op, Decidable (SourceGiven s op)
  | .setHeaderExtension _ _ _ | .setPayload _ _ _ _ => inferInstanceAs (Decidable (_ ∨ _))
  | .construct _ _ | .copyConstruct _ _ | .copyAssign _ _ | .setHeader _ _ | .insertRtpPacket _
  | .destroy _ | .destroySession | .newByteArray _ | .newWordArray _ | .writeByte _ _ _
  | .writeWord _ _ _ => isTrue trivial

variable {s t : Traced} {op : PacketOp}

theorem step_world (h : s.step op = some t) :
    s.world.step op = some t.world ∧ t.payloadCall = s.payloadCallAfter op ∧
      t.extensionCall = s.extensionCallAfter op := by
  obtain ⟨w, stepped, rfl⟩ := Option.map_eq_some_iff.mp h
  exact ⟨stepped, rfl, rfl⟩

/-! ## One buffer -/

section Filling

variable {α : Type*} {h h' : Heap α} {call : Option (Filling α)} {ptr : Option Nat} {n src : Nat}

/-- What stays readable stays filled. -/
theorem FilledBy.congr (filled : FilledBy h call ptr n)
    (same : ∀ i, ptr = some i → ∀ m, h'.read i m = h.read i m) : FilledBy h' call ptr n := by
  rcases Nat.eq_zero_or_pos n with zero | positive
  · exact .inl zero
  · rcases filled with zero | ⟨c, called, rfl, enough, copied⟩
    · exact .inl zero
    · have read := same c.buffer rfl n
      have length : (h'.read c.buffer n).length = n := by rw [read, Heap.length_read enough]
      exact .inr ⟨c, called, rfl, Heap.hasCells_of_length_read positive length,
        read.trans copied⟩

/-- `new[]` and `memcpy` fill what they make. -/
theorem filledBy_newCopy (positive : 0 < n) (enough : h.HasCells src n) :
    FilledBy ((h.new n).memcpy h.size src n) (some ⟨h.size, h.view (some src) n⟩)
      (some h.size) n := by
  have read := Heap.read_new_memcpy enough
  have length : (((h.new n).memcpy h.size src n).read h.size n).length = n := by
    rw [read, Heap.length_read enough]
  exact .inr ⟨_, rfl, rfl, Heap.hasCells_of_length_read positive length, read⟩

/-- A length recorded without a new buffer is filled only if it is 0. -/
theorem FilledBy.zero_of_old {copied : List (Option α)}
    (filled : FilledBy h (some ⟨h'.size, copied⟩) ptr n) (old : ∀ i, ptr = some i → i < h'.size) :
    n = 0 := by
  rcases filled with zero | ⟨c, called, here, _⟩
  · exact zero
  · cases called
    exact absurd (old _ here) (Nat.lt_irrefl _)

variable {f : RtpPacket → Option Nat} {length : RtpPacket → Nat}
  {packets : Nat → Option RtpPacket} {calls : Nat → Option (Filling α)} {x : Nat}
  {p q : RtpPacket}

/-- Putting a packet with its own call at `x`. -/
theorem filledBy_place (own : FilledBy h call (f q) (length q))
    (others : ∀ y p, packets y = some p → FilledBy h (calls y) (f p) (length p)) (y : Nat)
    (alive : Function.update packets x (some q) y = some p) :
    FilledBy h (Function.update calls x call y) (f p) (length p) := by
  rcases eq_or_ne y x with rfl | other
  · rw [Function.update_self] at alive ⊢
    cases alive
    exact own
  · rw [Function.update_of_ne other] at alive ⊢
    exact others y p alive

/-- Changing the packet at `x` elsewhere. -/
theorem filledBy_keep {old : RtpPacket} (before : packets x = some old)
    (others : ∀ y p, packets y = some p → FilledBy h (calls y) (f p) (length p)) (y : Nat)
    (alive : Function.update packets x (some q) y = some p) (pointer : f q = f old)
    (recorded : length q = length old) : FilledBy h (calls y) (f p) (length p) := by
  have own : FilledBy h (calls x) (f q) (length q) := by
    rw [pointer, recorded]
    exact others x old before
  have placed := filledBy_place own others y alive
  rwa [Function.update_eq_self] at placed

end Filling

/-! ## One operation -/

theorem LengthsFilled.step (filled : s.LengthsFilled) (inv : FrameInv s.world)
    (call : SetterCall s op) (given : SourceGiven s op) (h : s.step op = some t) :
    t.LengthsFilled := by
  obtain ⟨w, payloadCall, extensionCall⟩ := t
  obtain ⟨stepped, rfl, rfl⟩ := step_world h
  have kept := inv.step_read stepped
  have payload : ∀ y p, s.world.packets y = some p →
      FilledBy w.mem.bytes (s.payloadCall y) p.pPayload p.uPayloadLength.toNat :=
    fun y p alive => (filled.payload y p alive).congr fun i holds n =>
      kept.bytes y i (by simp [payloadOf, pointers, alive, holds]) n
  have extension : ∀ y p, s.world.packets y = some p →
      FilledBy w.mem.words (s.extensionCall y) p.rtphdrExt.extensions p.rtphdrExt.length.toNat :=
    fun y p alive => (filled.extension y p alive).congr fun i holds n =>
      kept.words y i (by simp [extensionsOf, pointers, alive, holds]) n
  cases Steps.of_step stepped with
  | construct fresh =>
      exact ⟨fun y p => filledBy_place (.inl rfl) payload y,
        fun y p => filledBy_place (.inl rfl) extension y⟩
  | copyConstruct | copyAssign => exact call.elim
  | setHeader alive =>
      exact ⟨fun y p after => filledBy_keep alive payload y after (by simp) (by simp),
        fun y p after => filledBy_keep alive extension y after (by simp) (by simp)⟩
  | @setPayload x payloadLength src alloc p alive own =>
      obtain ⟨rfl, enough⟩ := call
      rcases p.setPayload_cases true s.world.mem payloadLength src with
        ⟨mem, packet, skipped⟩ | ⟨src, rfl, positive, _, mem, packet⟩
      all_goals
        rw [mem] at payload extension
        rw [mem, packet]
      · have zero : payloadLength = 0 := (skipped rfl).elim id fun null =>
          given.resolve_right fun source => source null
        refine ⟨fun y p => filledBy_place (.inl ?_) payload y,
          fun y p after => filledBy_keep alive extension y after rfl rfl⟩
        rw [zero]
        rfl
      · exact ⟨fun y p => filledBy_place (filledBy_newCopy positive (enough src rfl)) payload y,
          fun y p after => filledBy_keep alive extension y after rfl rfl⟩
  | @setHeaderExtension x ext alloc p alive own =>
      obtain ⟨rfl, enough⟩ := call
      rcases p.setHeaderExtension_cases true s.world.mem ext with
        ⟨mem, packet, skipped⟩ | ⟨src, source, positive, _, mem, packet⟩
      all_goals
        rw [mem] at payload extension
        rw [mem, packet]
      · have zero : ext.length = 0 := (skipped rfl).elim id fun null =>
          given.resolve_right fun source => source null
        refine ⟨fun y p after => filledBy_keep alive payload y after rfl rfl,
          fun y p => filledBy_place (.inl ?_) extension y⟩
        rw [zero]
        rfl
      · refine ⟨fun y p after => filledBy_keep alive payload y after rfl rfl,
          fun y p => filledBy_place ?_ extension y⟩
        rw [source]
        exact filledBy_newCopy positive (enough src source)
  | destroy alive =>
      exact ⟨fun y p after => payload y p (alive_of_removed after),
        fun y p after => extension y p (alive_of_removed after)⟩
  | insertRtpPacket | destroySession | newByteArray | newWordArray | writeByte | writeWord =>
      exact ⟨payload, extension⟩

/-- A length recorded with a null pointer is not that of any buffer the call made. -/
theorem sourceGiven_of_filled (inv : FrameInv s.world) (h : s.step op = some t)
    (after : t.LengthsFilled) : SourceGiven s op := by
  obtain ⟨w, payloadCall, extensionCall⟩ := t
  obtain ⟨stepped, rfl, rfl⟩ := step_world h
  cases Steps.of_step stepped with
  | @setPayload x payloadLength src alloc p alive own =>
      cases src with
      | some src => exact .inr (Option.some_ne_none src)
      | none =>
          have filled := after.payload x { p with uPayloadLength := payloadLength }
            (Function.update_self x _ _)
          simp only [payloadCallAfter, Function.update_self] at filled
          have zero := filled.zero_of_old fun i holds =>
            inv.bytes.held_lt x i (by simp [payloadOf, pointers, alive, holds])
          exact .inl (UInt32.toNat_inj.mp zero)
  | @setHeaderExtension x ext alloc p alive own =>
      cases source : ext.extensions with
      | some src => exact .inr (source ▸ Option.some_ne_none src)
      | none =>
          have filled := after.extension x
            { p with rtphdrExt := { ext with extensions := p.rtphdrExt.extensions } }
            (by simp [RtpPacket.setHeaderExtension, source])
          simp only [extensionCallAfter, Function.update_self] at filled
          have zero := filled.zero_of_old fun i holds =>
            inv.words.held_lt x i (by simp [extensionsOf, pointers, alive, holds])
          exact .inl (UInt16.toNat_inj.mp zero)
  | _ => trivial

theorem neverCopied_of_setterCall (call : SetterCall s op) : NeverCopied s.world op := by
  cases op with
  | copyConstruct | copyAssign | insertRtpPacket => exact call.elim
  | _ => trivial

theorem readable_of_filled (inv : SingleInv s.world) (filled : s.LengthsFilled) : s.Readable where
  filled := filled
  bytesLive x := inv.ownership.owned.bytes.live (.caller x)
  wordsLive x := inv.ownership.owned.words.live (.caller x)

/-- **Recorded lengths.** In a run of setter calls whose sources, where they are not null,
have the stated lengths, every recorded length is that of a live buffer filled by the call
that recorded it, in every state, exactly when no call is given a positive length and null. -/
theorem lengths_filled_iff {ops : List PacketOp} {s : Traced} (reached : run step init ops = some s)
    (calls : Along step SetterCall init ops) :
    Always step Readable init ops ↔ Along step SourceGiven init ops := by
  constructor
  · exact along_of_always (I := fun s => FrameInv s.world)
      (fun s op t inv h => inv.step (step_world h).1)
      (fun s op t inv _ h after => sourceGiven_of_filled inv h after.filled) frameInv_init reached
  · intro given
    refine always_of_along (Q := fun s => SingleInv s.world ∧ s.LengthsFilled)
      (fun s op t inv met h =>
        ⟨inv.1.step (neverCopied_of_setterCall met.1) (step_world h).1,
          inv.2.step inv.1.frame met.1 met.2 h⟩)
      (fun s inv => readable_of_filled inv.1 inv.2) ⟨⟨frameInv_init, ownershipInv_init⟩, ?_⟩
      (calls.and given)
    exact ⟨fun x p alive => (by cases alive), fun x p alive => (by cases alive)⟩

/-- On a fresh packet `SetPayload` with length 3 and a null pointer records 3 bytes that are
not there. -/
theorem null_source_recorded :
    ∃ s, run step init [.construct 0 ⟨false, false, 0, false, 96, 1, 0, 0, []⟩,
        .setPayload 0 3 none true] = some s ∧
      (s.world.packets 0).map (fun p => (p.uPayloadLength, p.pPayload)) = some (3, none) ∧
      ¬ s.Readable := by
  refine ⟨_, rfl, rfl, fun readable => ?_⟩
  rcases readable.filled.payload 0 _ rfl with zero | ⟨c, called, null, _⟩
  · cases zero
  · cases null

/-- A payload of two bytes is replaced by one of one byte, and the extension by none. -/
theorem lengths_filled_given :
    Always step Readable init
      [.newByteArray 2, .newWordArray 1, .construct 0 ⟨false, true, 0, false, 96, 1, 0, 0, []⟩,
        .setPayload 0 2 (some 0) true, .setHeaderExtension 0 ⟨7, 1, some 0⟩ true,
        .writeByte 0 0 9, .setPayload 0 1 (some 0) true, .setHeaderExtension 0 ⟨7, 0, none⟩ true] :=
  (lengths_filled_iff (s := _) rfl (by decide)).mpr (by decide)

end Traced

end OpenRtp
