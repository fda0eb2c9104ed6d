import OpenRtp.RtpSession

/-!
# What operations leave alone

No packet holds an array of the caller, and every identity in use is below the next one to
be given out (`Apart`).  So an operation leaves the arrays that packets point to as they
were (`FrameInv.step_read`): setters fill fresh arrays, the caller writes to its own, and a
release changes no cell.
-/

namespace OpenRtp

/-- Packets and the caller keep apart: no packet holds an array of the caller, and
all of them are below the next identity to be given out. -/
structure Apart {α : Type*} (h : Heap α) (arrays : List Nat) (held : Nat → Option Nat) :
    Prop where
  arrays_lt : ∀ a ∈ arrays, a < h.size
  held_lt : ∀ x i, held x = some i → i < h.size
  held_not_mem : ∀ x i, held x = some i → i ∉ arrays

namespace Apart

variable {α : Type*} {h h' : Heap α} {arrays : List Nat} {held held' : Nat → Option Nat}

/-- Packets may take over nothing but what they held. -/
theorem forget (apart : Apart h arrays held) (size : h'.size = h.size)
    (fewer : ∀ x i, held' x = some i → ∃ y, held y = some i) : Apart h' arrays held' where
  arrays_lt a member := size ▸ apart.arrays_lt a member
  held_lt x i holds := by
    obtain ⟨y, before⟩ := fewer x i holds
    exact size ▸ apart.held_lt y i before
  held_not_mem x i holds := by
    obtain ⟨y, before⟩ := fewer x i holds
    exact apart.held_not_mem y i before

/-- A packet takes a fresh array. -/
theorem take (apart : Apart h arrays held) (size : h'.size = h.size + 1)
    (taken : ∀ x i, held' x = some i → i = h.size ∨ held x = some i) :
    Apart h' arrays held' where
  arrays_lt a member := size ▸ Nat.lt_succ_of_lt (apart.arrays_lt a member)
  held_lt x i holds := by
    rcases taken x i holds with rfl | before
    · exact size ▸ Nat.lt_succ_self h.size
    · exact size ▸ Nat.lt_succ_of_lt (apart.held_lt x i before)
  held_not_mem x i holds member := by
    rcases taken x i holds with rfl | before
    · exact Nat.lt_irrefl _ (apart.arrays_lt _ member)
    · exact apart.held_not_mem x i before member

/-- The caller makes an array. -/
theorem own (apart : Apart h arrays held) (size : h'.size = h.size + 1) :
    Apart h' (arrays ++ [h.size]) held where
  arrays_lt a member := by
    rw [List.mem_append, List.mem_singleton] at member
    rcases member with member | rfl
    · exact size ▸ Nat.lt_succ_of_lt (apart.arrays_lt a member)
    · exact size ▸ Nat.lt_succ_self h.size
  held_lt x i holds := size ▸ Nat.lt_succ_of_lt (apart.held_lt x i holds)
  held_not_mem x i holds member := by
    rw [List.mem_append, List.mem_singleton] at member
    rcases member with member | rfl
    · exact apart.held_not_mem x i holds member
    · exact Nat.lt_irrefl _ (apart.held_lt x _ holds)

end Apart

namespace World

/-- The pointer `f` of every packet of the caller. -/
def pointers (f : RtpPacket → Option Nat) (packets : Nat → Option RtpPacket) (x : Nat) :
    Option Nat :=
  (packets x).bind f

def payloadOf (w : World) : Nat → Option Nat := pointers RtpPacket.pPayload w.packets

def extensionsOf (w : World) : Nat → Option Nat :=
  pointers (fun p => p.rtphdrExt.extensions) w.packets

/-- The frame invariant of plain runs, for both kinds of array. -/
structure FrameInv (w : World) : Prop where
  bytes : Apart w.mem.bytes w.byteArrays w.payloadOf
  words : Apart w.mem.words w.wordArrays w.extensionsOf

theorem frameInv_init : FrameInv init where
  bytes := ⟨by simp [init], by simp [init, payloadOf, pointers],
    by simp [init, payloadOf, pointers]⟩
  words := ⟨by simp [init], by simp [init, extensionsOf, pointers],
    by simp [init, extensionsOf, pointers]⟩

/-- A pointer of the packet put at `x`, or one that was there before. -/
theorem pointers_update {f : RtpPacket → Option Nat} {packets : Nat → Option RtpPacket}
    {x y i : Nat} {q : RtpPacket}
    (holds : pointers f (Function.update packets x (some q)) y = some i) :
    f q = some i ∨ pointers f packets y = some i := by
  unfold pointers at holds ⊢
  rcases eq_or_ne y x with rfl | other
  · rw [Function.update_self, Option.bind_some] at holds
    exact .inl holds
  · rw [Function.update_of_ne other] at holds
    exact .inr holds

/-- What is left after a packet is gone was there before. -/
theorem alive_of_removed {packets : Nat → Option RtpPacket} {x y : Nat} {p : RtpPacket}
    (alive : Function.update packets x none y = some p) : packets y = some p := by
  rcases eq_or_ne y x with rfl | other
  · simp at alive
  · rwa [Function.update_of_ne other] at alive

section Place

variable {α : Type*} {h h' : Heap α} {arrays : List Nat} {f : RtpPacket → Option Nat}
  {packets : Nat → Option RtpPacket} {x : Nat} {q : RtpPacket}

/-- Putting at `x` a packet that holds nothing but what some packet held. -/
theorem apart_place (apart : Apart h arrays (pointers f packets))
    (kept : ∀ i, f q = some i → ∃ y, pointers f packets y = some i) :
    Apart h arrays (pointers f (Function.update packets x (some q))) :=
  apart.forget rfl fun y i holds =>
    (pointers_update holds).elim (kept i) fun before => ⟨y, before⟩

/-- Putting at `x` a packet with the pointer of the one at `y`. -/
theorem apart_replace (apart : Apart h arrays (pointers f packets)) {p : RtpPacket} {y : Nat}
    (alive : packets y = some p) (same : f q = f p) :
    Apart h arrays (pointers f (Function.update packets x (some q))) :=
  apart_place apart fun i holds => ⟨y, by simpa [pointers, alive, same] using holds⟩

/-- Whatever is left at `x`, if it holds nothing. -/
theorem apart_remove (apart : Apart h arrays (pointers f packets)) (size : h'.size = h.size) :
    Apart h' arrays (pointers f (Function.update packets x none)) :=
  apart.forget size fun y i holds => by
    obtain ⟨p, alive, own⟩ := Option.bind_eq_some_iff.mp holds
    exact ⟨y, Option.bind_eq_some_iff.mpr ⟨p, alive_of_removed alive, own⟩⟩

/-- Putting at `x` a packet that holds a fresh array. -/
theorem apart_place_fresh (apart : Apart h arrays (pointers f packets))
    (size : h'.size = h.size + 1) (fresh : f q = some h.size) :
    Apart h' arrays (pointers f (Function.update packets x (some q))) :=
  apart.take size fun _ _ holds =>
    (pointers_update holds).imp
      (fun own => (Option.some.inj (fresh.symm.trans own)).symm) id

end Place

theorem FrameInv.setPayload {w : World} (inv : FrameInv w) {x : Nat} {p : RtpPacket}
    (alive : w.packets x = some p) (alloc : Bool) (payloadLength : UInt32)
    (payload : Option Nat) :
    FrameInv (w.finish x (p.setPayload alloc w.mem payloadLength payload)) := by
  rcases p.setPayload_cases alloc w.mem payloadLength payload with
    ⟨mem, packet, _⟩ | ⟨src, _, _, _, mem, packet⟩
  · rw [finish, mem, packet]
    exact ⟨apart_replace inv.bytes alive rfl, apart_replace inv.words alive rfl⟩
  · rw [finish, mem, packet]
    exact ⟨apart_place_fresh inv.bytes (by simp) rfl, apart_replace inv.words alive rfl⟩

theorem FrameInv.setHeaderExtension {w : World} (inv : FrameInv w) {x : Nat} {p : RtpPacket}
    (alive : w.packets x = some p) (alloc : Bool) (ext : RtpHeaderExtension) :
    FrameInv (w.finish x (p.setHeaderExtension alloc w.mem ext)) := by
  rcases p.setHeaderExtension_cases alloc w.mem ext with
    ⟨mem, packet, _⟩ | ⟨src, _, _, _, mem, packet⟩
  · rw [finish, mem, packet]
    exact ⟨apart_replace inv.bytes alive rfl, apart_replace inv.words alive rfl⟩
  · rw [finish, mem, packet]
    exact ⟨apart_replace inv.bytes alive rfl, apart_place_fresh inv.words (by simp) rfl⟩

/-- The arrays of `mem'` are those of `mem`; only release counts may differ. -/
structure SameCells (mem mem' : Memory) : Prop where
  bytesSize : mem'.bytes.size = mem.bytes.size
  wordsSize : mem'.words.size = mem.words.size
  bytesRead : ∀ i n, mem'.bytes.read i n = mem.bytes.read i n
  wordsRead : ∀ i n, mem'.words.read i n = mem.words.read i n

theorem SameCells.refl (mem : Memory) : SameCells mem mem :=
  ⟨rfl, rfl, fun _ _ => rfl, fun _ _ => rfl⟩

/-- Destroying a packet changes release counts only. -/
theorem sameCells_destroy (mem : Memory) (p : RtpPacket) : SameCells mem (p.destroy mem) := by
  unfold RtpPacket.destroy
  refine ⟨by simp, ?_, by simp, fun i n => ?_⟩
  · dsimp only
    split <;> simp
  · dsimp only
    split <;> simp

theorem sameCells_destroy_all (mem : Memory) (elems : List RtpPacket) :
    SameCells mem (elems.foldl RtpPacket.destroy mem) := by
  induction elems generalizing mem with
  | nil => exact .refl mem
  | cons p elems ih =>
      have first := sameCells_destroy mem p
      have rest := ih (p.destroy mem)
      exact ⟨rest.bytesSize.trans first.bytesSize, rest.wordsSize.trans first.wordsSize,
        fun i n => (rest.bytesRead i n).trans (first.bytesRead i n),
        fun i n => (rest.wordsRead i n).trans (first.wordsRead i n)⟩

theorem sameCells_pushBack (mem : Memory) (v : PacketVector) (p : RtpPacket) :
    SameCells mem (v.pushBack mem p).1 := by
  unfold PacketVector.pushBack
  split
  · exact .refl mem
  · exact sameCells_destroy_all mem v.elems

/-- Where the cells are the same, what was apart stays apart. -/
theorem FrameInv.sameCells {w : World} (inv : FrameInv w) {mem : Memory}
    (same : SameCells w.mem mem) (session : Option PacketVector) :
    FrameInv { w with mem, session } :=
  ⟨inv.bytes.forget same.bytesSize fun y _ holds => ⟨y, holds⟩,
    inv.words.forget same.wordsSize fun y _ holds => ⟨y, holds⟩⟩

theorem FrameInv.step {w t : World} {op : PacketOp} (inv : FrameInv w)
    (h : w.step op = some t) : FrameInv t := by
  cases Steps.of_step h with
  | construct fresh =>
      exact ⟨apart_place inv.bytes (by simp [RtpPacket.construct]),
        apart_place inv.words (by simp [RtpPacket.construct])⟩
  | copyConstruct fresh alive | copyAssign target alive =>
      exact ⟨apart_replace inv.bytes alive rfl, apart_replace inv.words alive rfl⟩
  | setHeaderExtension alive own => exact inv.setHeaderExtension alive _ _
  | setPayload alive own => exact inv.setPayload alive _ _ _
  | setHeader alive =>
      exact ⟨apart_replace inv.bytes alive (by simp), apart_replace inv.words alive (by simp)⟩
  | insertRtpPacket alive session => exact inv.sameCells (sameCells_pushBack _ _ _) _
  | @destroy _ p alive =>
      have same := sameCells_destroy w.mem p
      exact ⟨apart_remove inv.bytes same.bytesSize, apart_remove inv.words same.wordsSize⟩
  | destroySession session => exact inv.sameCells (sameCells_destroy_all _ _) _
  | newByteArray => exact ⟨inv.bytes.own (by simp), inv.words⟩
  | newWordArray => exact ⟨inv.bytes, inv.words.own (by simp)⟩
  | writeByte own =>
      exact ⟨inv.bytes.forget (by simp) fun y i holds => ⟨y, holds⟩, inv.words⟩
  | writeWord own =>
      exact ⟨inv.bytes, inv.words.forget (by simp) fun y i holds => ⟨y, holds⟩⟩

/-! ## What packets point to -/

/-- What can be read through the packets' pointers is in `mem` what it was in `w`. -/
structure ReadsKept (w : World) (mem : Memory) : Prop where
  bytes : ∀ x i, w.payloadOf x = some i → ∀ n, mem.bytes.read i n = w.mem.bytes.read i n
  words : ∀ x i, w.extensionsOf x = some i → ∀ n, mem.words.read i n = w.mem.words.read i n

theorem readsKept_of_sameCells {w : World} {mem : Memory} (same : SameCells w.mem mem) :
    ReadsKept w mem :=
  ⟨fun _ _ _ n => same.bytesRead _ n, fun _ _ _ n => same.wordsRead _ n⟩

/-- **Frame.** No operation changes what a packet points to. -/
theorem FrameInv.step_read {w t : World} {op : PacketOp} (inv : FrameInv w)
    (h : w.step op = some t) : ReadsKept w t.mem := by
  cases Steps.of_step h with
  | construct | copyConstruct | copyAssign | setHeader => exact readsKept_of_sameCells (.refl _)
  | @setHeaderExtension x ext alloc p alive own =>
      rcases p.setHeaderExtension_cases alloc w.mem ext with
        ⟨mem, _⟩ | ⟨src, _, _, _, mem, _⟩
      · rw [finish, mem]
        exact readsKept_of_sameCells (.refl _)
      · rw [finish, mem]
        refine ⟨fun y i holds n => rfl, fun y i holds n => ?_⟩
        exact Heap.read_new_memcpy_of_lt (inv.words.held_lt y i holds) _ _ n
  | @setPayload x payloadLength payload alloc p alive own =>
      rcases p.setPayload_cases alloc w.mem payloadLength payload with
        ⟨mem, _⟩ | ⟨src, _, _, _, mem, _⟩
      · rw [finish, mem]
        exact readsKept_of_sameCells (.refl _)
      · rw [finish, mem]
        refine ⟨fun y i holds n => ?_, fun y i holds n => rfl⟩
        exact Heap.read_new_memcpy_of_lt (inv.bytes.held_lt y i holds) _ _ n
  | insertRtpPacket => exact readsKept_of_sameCells (sameCells_pushBack _ _ _)
  | destroy => exact readsKept_of_sameCells (sameCells_destroy _ _)
  | destroySession => exact readsKept_of_sameCells (sameCells_destroy_all _ _)
  | newByteArray =>
      refine ⟨fun y i holds n => ?_, fun y i holds n => rfl⟩
      exact Heap.read_new_of_ne (Nat.ne_of_lt (inv.bytes.held_lt y i holds))
  | newWordArray =>
      refine ⟨fun y i holds n => rfl, fun y i holds n => ?_⟩
      exact Heap.read_new_of_ne (Nat.ne_of_lt (inv.words.held_lt y i holds))
  | writeByte own =>
      -- the caller writes to its own array, which no packet holds
      refine ⟨fun y i holds n => Heap.read_store_of_ne ?_, fun y i holds n => rfl⟩
      rintro rfl
      exact inv.bytes.held_not_mem y _ holds own
  | writeWord own =>
      refine ⟨fun y i holds n => rfl, fun y i holds n => Heap.read_store_of_ne ?_⟩
      rintro rfl
      exact inv.words.held_not_mem y _ holds own

end World

end OpenRtp
