import OpenRtp.ReportBlock

/-!
# Report blocks on the wire

`wire` is the layout of a report block in RTCP, each member most significant byte first.  The
first encoder writes bytes through a pointer and never asks for the host; the second one and
the decoder go through the overlay, whose members lie elsewhere on a big-endian host.

On a little-endian host both encoders write the wire layout (`encoders_write_wire`).  On a
big-endian host the second encoder still shifts the count of lost packets, and the decoder
still swaps the three members it swaps by hand (`wire_host_independent_iff`).
-/

namespace OpenRtp

/-! ## The encoder that writes bytes -/

/-- `write_four_bytes_be`, at the position `p` of the buffer. -/
def writeFourBytesBe (data : BitVec 32) (buf : List Byte) (p : Nat) : List Byte :=
  let buf := buf.set p (((data &&& 0xFF000000) >>> 24).setWidth 8)
  let p := p + 1
  let buf := buf.set p (((data &&& 0x00FF0000) >>> 16).setWidth 8)
  let p := p + 1
  let buf := buf.set p (((data &&& 0x0000FF00) >>> 8).setWidth 8)
  let p := p + 1
  buf.set p ((data &&& 0x000000FF).setWidth 8)

/-- `write_three_bytes_be`. -/
def writeThreeBytesBe (data : BitVec 32) (buf : List Byte) (p : Nat) : List Byte :=
  let buf := buf.set p (((data &&& 0x00FF0000) >>> 16).setWidth 8)
  let p := p + 1
  let buf := buf.set p (((data &&& 0x0000FF00) >>> 8).setWidth 8)
  let p := p + 1
  buf.set p ((data &&& 0x000000FF).setWidth 8)

/-- `serializedReportBlock`; the length is printed and not used. -/
def serializedReportBlock (rb : ReportBlock) (buffer : List Byte) (_length : Int) : List Byte :=
  let p := 0
  let buffer := writeFourBytesBe rb.ssrc buffer p
  let p := p + 4
  let buffer := buffer.set p rb.fractionlost
  let p := p + 1
  let buffer := writeThreeBytesBe (rb.totallost.setWidth 32) buffer p
  let p := p + 3
  -- the shift of the promoted 16-bit field, modulo 2^32
  let extendHighestNum := rb.seqnumcycles.setWidth 32 <<< 16 ||| rb.highestseqnum.setWidth 32
  let buffer := writeFourBytesBe extendHighestNum buffer p
  let p := p + 4
  let buffer := writeFourBytesBe rb.jitter buffer p
  let p := p + 4
  let buffer := writeFourBytesBe rb.lastsr buffer p
  let p := p + 4
  writeFourBytesBe rb.delaysincelastsr buffer p

/-! ## The wire layout -/

namespace ReportBlock

/-- A report block in RTCP. -/
def wire (rb : ReportBlock) : List Byte :=
  bytesBe rb.ssrc 4 ++ [rb.fractionlost] ++ bytesBe rb.totallost 3 ++ bytesBe rb.seqnumcycles 2 ++
    bytesBe rb.highestseqnum 2 ++ bytesBe rb.jitter 4 ++ bytesBe rb.lastsr 4 ++
    bytesBe rb.delaysincelastsr 4

@[simp] theorem length_wire (rb : ReportBlock) : rb.wire.length = 24 := rfl

end ReportBlock

/-! ## Writing through the pointer -/

/-- The masks and shifts of the writers pick out bytes. -/
theorem masked_eq_byteOf (data : BitVec 32) :
    ((data &&& 0xFF000000) >>> 24).setWidth 8 = byteOf data 3 ∧
      ((data &&& 0x00FF0000) >>> 16).setWidth 8 = byteOf data 2 ∧
      ((data &&& 0x0000FF00) >>> 8).setWidth 8 = byteOf data 1 ∧
      (data &&& 0x000000FF).setWidth 8 = byteOf data 0 := by
  refine ⟨?_, ?_, ?_, ?_⟩
  all_goals
    apply BitVec.eq_of_getLsbD_eq
    intro i inside
    interval_cases i <;> simp [byteOf]

/-- Writing a byte where the written part ends extends it. -/
theorem set_at_end {written rest : List Byte} {p : Nat} (atEnd : p = written.length)
    (room : 0 < rest.length) (b : Byte) :
    (written ++ rest).set p b = (written ++ [b]) ++ rest.drop 1 := by
  subst atEnd
  cases rest with
  | nil => cases room
  | cons c rest => simp

theorem writeFourBytesBe_at_end (data : BitVec 32) {written rest : List Byte} {p : Nat}
    (atEnd : p = written.length) (room : 4 ≤ rest.length) :
    writeFourBytesBe data (written ++ rest) p = (written ++ bytesBe data 4) ++ rest.drop 4 := by
  obtain ⟨b₃, b₂, b₁, b₀⟩ := masked_eq_byteOf data
  simp only [writeFourBytesBe, b₃, b₂, b₁, b₀]
  rw [set_at_end atEnd (by omega), set_at_end (by simp [atEnd]) (by simp; omega),
    set_at_end (by simp [atEnd]) (by simp; omega), set_at_end (by simp [atEnd]) (by simp; omega)]
  simp [bytesBe, List.range_succ]

theorem writeThreeBytesBe_at_end (data : BitVec 32) {written rest : List Byte} {p : Nat}
    (atEnd : p = written.length) (room : 3 ≤ rest.length) :
    writeThreeBytesBe data (written ++ rest) p = (written ++ bytesBe data 3) ++ rest.drop 3 := by
  obtain ⟨_, b₂, b₁, b₀⟩ := masked_eq_byteOf data
  simp only [writeThreeBytesBe, b₂, b₁, b₀]
  rw [set_at_end atEnd (by omega), set_at_end (by simp [atEnd]) (by simp; omega),
    set_at_end (by simp [atEnd]) (by simp; omega)]
  simp [bytesBe, List.range_succ]

/-- A field of 24 bits is written as its three bytes. -/
theorem bytesBe_setWidth (x : BitVec 24) : bytesBe (x.setWidth 32) 3 = bytesBe x 3 := by
  have same : ∀ k < 3, byteOf (x.setWidth 32) k = byteOf x k := by
    intro k small
    apply BitVec.eq_of_getLsbD_eq
    intro i inside
    simp only [getLsbD_byteOf, BitVec.getLsbD_setWidth]
    grind
  simp [bytesBe, List.range_succ, same 0 (by omega), same 1 (by omega), same 2 (by omega)]

/-- The two fields of 16 bits that are merged into one word are written one after the other. -/
theorem bytesBe_merged (cycles highest : BitVec 16) :
    bytesBe (cycles.setWidth 32 <<< 16 ||| highest.setWidth 32) 4 =
      bytesBe cycles 2 ++ bytesBe highest 2 := by
  have bytes : byteOf (cycles.setWidth 32 <<< 16 ||| highest.setWidth 32) 3 = byteOf cycles 1 ∧
      byteOf (cycles.setWidth 32 <<< 16 ||| highest.setWidth 32) 2 = byteOf cycles 0 ∧
      byteOf (cycles.setWidth 32 <<< 16 ||| highest.setWidth 32) 1 = byteOf highest 1 ∧
      byteOf (cycles.setWidth 32 <<< 16 ||| highest.setWidth 32) 0 = byteOf highest 0 := by
    refine ⟨?_, ?_, ?_, ?_⟩
    all_goals
      apply BitVec.eq_of_getLsbD_eq
      intro i inside
      simp only [getLsbD_byteOf, BitVec.getLsbD_or, BitVec.getLsbD_shiftLeft,
        BitVec.getLsbD_setWidth]
      grind
  obtain ⟨b₃, b₂, b₁, b₀⟩ := bytes
  simp [bytesBe, List.range_succ, b₃, b₂, b₁, b₀]

/-- The first encoder writes the wire layout over the first 24 bytes. -/
theorem serializedReportBlock_eq (rb : ReportBlock) {buffer : List Byte}
    (room : 24 ≤ buffer.length) (length : Int) :
    serializedReportBlock rb buffer length = rb.wire ++ buffer.drop 24 := by
  have start : writeFourBytesBe rb.ssrc buffer 0 = bytesBe rb.ssrc 4 ++ buffer.drop 4 :=
    writeFourBytesBe_at_end rb.ssrc List.length_nil.symm (by omega)
  simp only [serializedReportBlock, start]
  rw [set_at_end (by simp) (by simp; omega), writeThreeBytesBe_at_end _ (by simp) (by simp; omega),
    writeFourBytesBe_at_end _ (by simp) (by simp; omega),
    writeFourBytesBe_at_end _ (by simp) (by simp; omega),
    writeFourBytesBe_at_end _ (by simp) (by simp; omega),
    writeFourBytesBe_at_end _ (by simp) (by simp; omega), bytesBe_setWidth, bytesBe_merged]
  simp [ReportBlock.wire]

/-! ## The overlay on the wire -/

namespace ReportBlock

variable {host : Host} {buffer : List Byte} {rb : ReportBlock}

/-- The two members of the second unit, as a little-endian and as a big-endian host finds
them. -/
theorem extract_lost (f : Byte) (t : BitVec 24) :
    fractionlostField.extract .little (unitOf f (byteOf t 2) (byteOf t 1) (byteOf t 0)) = f ∧
      totallostField.extract .little (unitOf f (byteOf t 2) (byteOf t 1) (byteOf t 0)) =
        byteSwap24 t ∧
      fractionlostField.extract .big (unitOf (byteOf t 0) (byteOf t 1) (byteOf t 2) f) = f ∧
      totallostField.extract .big (unitOf (byteOf t 0) (byteOf t 1) (byteOf t 2) f) = t := by
  refine ⟨?_, ?_, ?_, ?_⟩
  all_goals
    apply BitVec.eq_of_getLsbD_eq
    intro i inside
    simp only [BitField.extract, BitField.shift, fractionlostField, totallostField, unitOf,
      byteSwap24, getLsbD_byteOf, BitVec.getLsbD_ushiftRight, BitVec.getLsbD_or,
      BitVec.getLsbD_shiftLeft, BitVec.getLsbD_setWidth]
    grind

/-- The two members of the third unit. -/
theorem extract_seqnum (c h : BitVec 16) :
    seqnumcyclesField.extract .little
        (unitOf (byteOf c 1) (byteOf c 0) (byteOf h 1) (byteOf h 0)) = byteSwap16 c ∧
      highestseqnumField.extract .little
        (unitOf (byteOf c 1) (byteOf c 0) (byteOf h 1) (byteOf h 0)) = byteSwap16 h ∧
      seqnumcyclesField.extract .big
        (unitOf (byteOf h 0) (byteOf h 1) (byteOf c 0) (byteOf c 1)) = c ∧
      highestseqnumField.extract .big
        (unitOf (byteOf h 0) (byteOf h 1) (byteOf c 0) (byteOf c 1)) = h := by
  refine ⟨?_, ?_, ?_, ?_⟩
  all_goals
    apply BitVec.eq_of_getLsbD_eq
    intro i inside
    simp only [BitField.extract, BitField.shift, seqnumcyclesField, highestseqnumField, unitOf,
      byteSwap16, getLsbD_byteOf, BitVec.getLsbD_ushiftRight, BitVec.getLsbD_or,
      BitVec.getLsbD_shiftLeft, BitVec.getLsbD_setWidth]
    grind

/-- The 24 bytes one by one. -/
theorem wire_eq (rb : ReportBlock) : rb.wire =
    [byteOf rb.ssrc 3, byteOf rb.ssrc 2, byteOf rb.ssrc 1, byteOf rb.ssrc 0,
      rb.fractionlost, byteOf rb.totallost 2, byteOf rb.totallost 1, byteOf rb.totallost 0,
      byteOf rb.seqnumcycles 1, byteOf rb.seqnumcycles 0,
      byteOf rb.highestseqnum 1, byteOf rb.highestseqnum 0,
      byteOf rb.jitter 3, byteOf rb.jitter 2, byteOf rb.jitter 1, byteOf rb.jitter 0,
      byteOf rb.lastsr 3, byteOf rb.lastsr 2, byteOf rb.lastsr 1, byteOf rb.lastsr 0,
      byteOf rb.delaysincelastsr 3, byteOf rb.delaysincelastsr 2,
      byteOf rb.delaysincelastsr 1, byteOf rb.delaysincelastsr 0] := rfl

/-- A little-endian host finds every member reversed. -/
theorem view_wire_little (rb : ReportBlock) : view .little rb.wire = rb.swapped := by
  obtain ⟨fraction, total, _⟩ := extract_lost rb.fractionlost rb.totallost
  obtain ⟨cycles, highest, _⟩ := extract_seqnum rb.seqnumcycles rb.highestseqnum
  rw [wire_eq]
  simp only [view, swapped, mk.injEq]
  exact ⟨BitField.extract_of_fill rfl _, fraction, total, cycles, highest,
    BitField.extract_of_fill rfl _, BitField.extract_of_fill rfl _,
    BitField.extract_of_fill rfl _⟩

/-- A big-endian host finds the block. -/
theorem view_wire_big (rb : ReportBlock) : view .big rb.wire = rb := by
  obtain ⟨_, _, fraction, total⟩ := extract_lost rb.fractionlost rb.totallost
  obtain ⟨_, _, cycles, highest⟩ := extract_seqnum rb.seqnumcycles rb.highestseqnum
  have whole : ∀ {f : BitField 32}, f.start = 0 → ∀ x : BitVec 32,
      f.extract .big (unitOf (byteOf x 0) (byteOf x 1) (byteOf x 2) (byteOf x 3)) = x :=
    fun start x => (BitField.extract_of_fill start _).trans (unitOf_byteOf x)
  cases rb
  rw [wire_eq]
  simp only [view, mk.injEq]
  exact ⟨whole rfl _, fraction, total, cycles, highest, whole rfl _, whole rfl _, whole rfl _⟩

/-- Every 24 bytes are the wire layout of a block. -/
theorem wire_view_big {bytes : List Byte} (whole : bytes.length = 24) :
    (view .big bytes).wire = bytes :=
  view_injective .big (length_wire _) whole (view_wire_big _)

/-- Assigning what a host finds in 24 bytes writes these bytes. -/
theorem put_view {bytes : List Byte} (whole : bytes.length = 24) (room : 24 ≤ buffer.length) :
    put host buffer (view host bytes) = bytes ++ buffer.drop 24 := by
  rw [← List.take_append_drop 24 (put host buffer (view host bytes)), take_put_view whole room,
    drop_put]

end ReportBlock

/-! ## Little-endian hosts -/

theorem serializedReportBlock2_little_eq (rb : ReportBlock) {buffer : List Byte}
    (room : 24 ≤ buffer.length) (length : Int) :
    serializedReportBlock2 .little rb buffer length = rb.wire ++ buffer.drop 24 := by
  rw [serializedReportBlock2_little, ← ReportBlock.view_wire_little,
    ReportBlock.put_view (ReportBlock.length_wire rb) room]

/-- **Two encoders, one layout.** On a little-endian host both encoders write the wire layout
of the block over the first 24 bytes of the buffer and leave the rest as it was. -/
theorem encoders_write_wire (rb : ReportBlock) (buffer : List Byte) (length : Int)
    (room : 24 ≤ buffer.length) :
    serializedReportBlock rb buffer length = rb.wire ++ buffer.drop 24 ∧
      serializedReportBlock2 .little rb buffer length = rb.wire ++ buffer.drop 24 :=
  ⟨serializedReportBlock_eq rb room length, serializedReportBlock2_little_eq rb room length⟩

/-- The client's block. -/
theorem encoders_write_wire_client :
    serializedReportBlock buildReportBlock (List.replicate 100 0) 24 =
        [0x12, 0x34, 0x56, 0x78, 0x12, 0x34, 0x56, 0x78, 0x12, 0x34, 0x56, 0x78, 0x44, 0x44,
          0x44, 0x44, 0x55, 0x55, 0x55, 0x55, 0x12, 0x34, 0x56, 0x78] ++ List.replicate 76 0 ∧
      serializedReportBlock2 .little buildReportBlock (List.replicate 100 0) 24 =
        serializedReportBlock buildReportBlock (List.replicate 100 0) 24 := by
  obtain ⟨first, second⟩ :=
    encoders_write_wire buildReportBlock (List.replicate 100 0) 24 (by decide)
  exact ⟨first.trans (by decide), second.trans first.symm⟩

/-! ## Big-endian hosts -/

namespace ReportBlock

/-- The block with the three members reversed that the decoder swaps by hand. -/
def handSwapped (rb : ReportBlock) : ReportBlock :=
  { rb with
    totallost := byteSwap24 rb.totallost
    seqnumcycles := byteSwap16 rb.seqnumcycles
    highestseqnum := byteSwap16 rb.highestseqnum }

/-- The three members read the same from both ends. -/
def Palindromic (rb : ReportBlock) : Prop :=
  byteOf rb.totallost 2 = byteOf rb.totallost 0 ∧
    byteOf rb.seqnumcycles 1 = byteOf rb.seqnumcycles 0 ∧
    byteOf rb.highestseqnum 1 = byteOf rb.highestseqnum 0

instance (rb : ReportBlock) : Decidable rb.Palindromic :=
  inferInstanceAs (Decidable (_ ∧ _ ∧ _))

/-- The block with the low byte of the count of lost packets shifted out. -/
def lostShifted (rb : ReportBlock) : ReportBlock := { rb with totallost := rb.totallost >>> 8 }

end ReportBlock

/-! ### When a reversal changes nothing -/

/-- The bytes of a reversed value. -/
theorem byteOf_byteSwap24 (x : BitVec 24) :
    byteOf (byteSwap24 x) 0 = byteOf x 2 ∧ byteOf (byteSwap24 x) 1 = byteOf x 1 ∧
      byteOf (byteSwap24 x) 2 = byteOf x 0 := by
  refine ⟨?_, ?_, ?_⟩
  all_goals
    apply BitVec.eq_of_getLsbD_eq
    intro i inside
    simp only [byteSwap24, getLsbD_byteOf, BitVec.getLsbD_or, BitVec.getLsbD_shiftLeft,
      BitVec.getLsbD_setWidth]
    grind

theorem byteOf_byteSwap16 (x : BitVec 16) :
    byteOf (byteSwap16 x) 0 = byteOf x 1 ∧ byteOf (byteSwap16 x) 1 = byteOf x 0 := by
  refine ⟨?_, ?_⟩
  all_goals
    apply BitVec.eq_of_getLsbD_eq
    intro i inside
    simp only [byteSwap16, getLsbD_byteOf, BitVec.getLsbD_or, BitVec.getLsbD_shiftLeft,
      BitVec.getLsbD_setWidth]
    grind

/-- Three bytes determine a value of 24 bits. -/
theorem eq_of_byteOf24 {x y : BitVec 24} (same₀ : byteOf x 0 = byteOf y 0)
    (same₁ : byteOf x 1 = byteOf y 1) (same₂ : byteOf x 2 = byteOf y 2) : x = y := by
  have join : ∀ z : BitVec 24, z = (byteOf z 0).setWidth 24 ||| (byteOf z 1).setWidth 24 <<< 8 |||
      (byteOf z 2).setWidth 24 <<< 16 := by
    intro z
    apply BitVec.eq_of_getLsbD_eq
    intro i inside
    simp only [getLsbD_byteOf, BitVec.getLsbD_or, BitVec.getLsbD_shiftLeft,
      BitVec.getLsbD_setWidth]
    grind
  rw [join x, join y, same₀, same₁, same₂]

theorem eq_of_byteOf16 {x y : BitVec 16} (same₀ : byteOf x 0 = byteOf y 0)
    (same₁ : byteOf x 1 = byteOf y 1) : x = y := by
  have join : ∀ z : BitVec 16,
      z = (byteOf z 0).setWidth 16 ||| (byteOf z 1).setWidth 16 <<< 8 := by
    intro z
    apply BitVec.eq_of_getLsbD_eq
    intro i inside
    simp only [getLsbD_byteOf, BitVec.getLsbD_or, BitVec.getLsbD_shiftLeft,
      BitVec.getLsbD_setWidth]
    grind
  rw [join x, join y, same₀, same₁]

/-- A value of three bytes is its own reversal exactly when the outer two are equal. -/
theorem byteSwap24_eq_self_iff (x : BitVec 24) : byteSwap24 x = x ↔ byteOf x 2 = byteOf x 0 := by
  obtain ⟨low, middle, high⟩ := byteOf_byteSwap24 x
  constructor
  · intro same
    rw [← low, same]
  · intro ends
    exact eq_of_byteOf24 (low.trans ends) middle (high.trans ends.symm)

theorem byteSwap16_eq_self_iff (x : BitVec 16) : byteSwap16 x = x ↔ byteOf x 1 = byteOf x 0 := by
  obtain ⟨low, high⟩ := byteOf_byteSwap16 x
  constructor
  · intro same
    rw [← low, same]
  · intro ends
    exact eq_of_byteOf16 (low.trans ends) (high.trans ends.symm)

/-- Only zero is left as it is by the shift. -/
theorem ushiftRight_eight_eq_self_iff (x : BitVec 24) : x >>> 8 = x ↔ x = 0 := by
  constructor
  · intro same
    have value := congrArg BitVec.toNat same
    rw [BitVec.toNat_ushiftRight, Nat.shiftRight_eq_div_pow] at value
    apply BitVec.eq_of_toNat_eq
    show x.toNat = 0
    omega
  · rintro rfl
    rfl

namespace ReportBlock

theorem handSwapped_eq_self_iff (rb : ReportBlock) : rb.handSwapped = rb ↔ rb.Palindromic := by
  rw [Palindromic, ← byteSwap24_eq_self_iff, ← byteSwap16_eq_self_iff, ← byteSwap16_eq_self_iff]
  cases rb
  simp [handSwapped]

theorem lostShifted_eq_self_iff (rb : ReportBlock) : rb.lostShifted = rb ↔ rb.totallost = 0 := by
  rw [← ushiftRight_eight_eq_self_iff]
  cases rb
  simp [lostShifted]

theorem wire_injective : Function.Injective wire :=
  Function.LeftInverse.injective view_wire_big

/-- On the wire the three members read the same from both ends when these bytes agree. -/
theorem palindromic_view_iff {bytes : List Byte} (whole : bytes.length = 24) :
    (view .big bytes).Palindromic ↔
      byteAt bytes 5 = byteAt bytes 7 ∧ byteAt bytes 8 = byteAt bytes 9 ∧
        byteAt bytes 10 = byteAt bytes 11 := by
  have onWire : ∀ rb : ReportBlock, rb.Palindromic ↔
      byteAt rb.wire 5 = byteAt rb.wire 7 ∧ byteAt rb.wire 8 = byteAt rb.wire 9 ∧
        byteAt rb.wire 10 = byteAt rb.wire 11 := fun rb => Iff.rfl
  rw [onWire, wire_view_big whole]

end ReportBlock

/-! ### The second encoder and the decoder -/

theorem serializedReportBlock2_big_eq (rb : ReportBlock) {buffer : List Byte}
    (room : 24 ≤ buffer.length) (length : Int) :
    serializedReportBlock2 .big rb buffer length = rb.lostShifted.wire ++ buffer.drop 24 := by
  have narrow : (rb.totallost.setWidth 32 >>> 8).setWidth 24 = rb.totallost >>> 8 := by
    apply BitVec.eq_of_toNat_eq
    have small := rb.totallost.isLt
    simp only [BitVec.toNat_setWidth, BitVec.toNat_ushiftRight, Nat.shiftRight_eq_div_pow]
    omega
  have stored : ReportBlock.put .big buffer (.view .big rb.lostShifted.wire) =
      rb.lostShifted.wire ++ buffer.drop 24 :=
    ReportBlock.put_view (ReportBlock.length_wire _) room
  rw [← stored, ReportBlock.view_wire_big]
  simp only [serializedReportBlock2, Host.htonl, Host.htons, narrow, ReportBlock.lostShifted]

theorem parseReportBlock_big (buffer : List Byte) (length : Int) :
    parseReportBlock .big buffer length = (ReportBlock.view .big buffer).handSwapped := by
  simp only [parseReportBlock, Host.ntohl, readBigendianThreeBytes_eq,
    readBigendianTwoBytes_eq, ReportBlock.handSwapped]

theorem parse_wire_little (rb : ReportBlock) (length : Int) :
    parseReportBlock .little rb.wire length = rb := by
  rw [parseReportBlock_little, ReportBlock.view_wire_little, ReportBlock.swapped_swapped]

theorem parse_wire_big (rb : ReportBlock) (length : Int) :
    parseReportBlock .big rb.wire length = rb.handSwapped := by
  rw [parseReportBlock_big, ReportBlock.view_wire_big]

/-- On 24 bytes the decoder returns the same block on both hosts exactly when the three
members that it swaps by hand read the same from both ends. -/
theorem parse_host_independent_iff {bytes : List Byte} (whole : bytes.length = 24)
    (length : Int) :
    parseReportBlock .big bytes length = parseReportBlock .little bytes length ↔
      byteAt bytes 5 = byteAt bytes 7 ∧ byteAt bytes 8 = byteAt bytes 9 ∧
        byteAt bytes 10 = byteAt bytes 11 := by
  rw [← ReportBlock.palindromic_view_iff whole, ← ReportBlock.handSwapped_eq_self_iff,
    parseReportBlock_big, ← parse_wire_little (ReportBlock.view .big bytes) length,
    ReportBlock.wire_view_big whole]

/-- **The host shows on the wire.**  The first encoder writes the wire layout on every host.
The second one writes the same 24 bytes on both exactly when no packet was lost, and the
decoder reads 24 bytes alike on both exactly when the three members that it swaps by hand
are their own reversals.  So a block crosses from a little-endian to a big-endian host
unchanged exactly when these members are, and the other way through the second encoder
exactly when no packet was lost. -/
theorem wire_host_independent_iff (rb : ReportBlock) (bytes buffer : List Byte)
    (length length' : Int) (whole : bytes.length = 24) (room : 24 ≤ buffer.length) :
    (serializedReportBlock rb buffer length).take 24 = rb.wire ∧
      ((serializedReportBlock2 .big rb buffer length).take 24 =
          (serializedReportBlock2 .little rb buffer length).take 24 ↔
        rb.totallost = 0) ∧
      (parseReportBlock .big bytes length' = parseReportBlock .little bytes length' ↔
        byteAt bytes 5 = byteAt bytes 7 ∧ byteAt bytes 8 = byteAt bytes 9 ∧
          byteAt bytes 10 = byteAt bytes 11) ∧
      parseReportBlock .little ((serializedReportBlock rb buffer length).take 24) length' = rb ∧
      (parseReportBlock .big ((serializedReportBlock rb buffer length).take 24) length' = rb ↔
        rb.Palindromic) ∧
      (parseReportBlock .big ((serializedReportBlock2 .little rb buffer length).take 24)
          length' = rb ↔
        rb.Palindromic) ∧
      (parseReportBlock .little ((serializedReportBlock2 .big rb buffer length).take 24)
          length' = rb ↔
        rb.totallost = 0) := by
  have written : ∀ rb' : ReportBlock, (rb'.wire ++ buffer.drop 24).take 24 = rb'.wire :=
    fun rb' => List.take_left' (ReportBlock.length_wire rb')
  rw [serializedReportBlock_eq rb room, serializedReportBlock2_little_eq rb room,
    serializedReportBlock2_big_eq rb room, written, written, parse_wire_little,
    parse_wire_little, parse_wire_big]
  have toBig := ReportBlock.handSwapped_eq_self_iff rb
  have shifted := ReportBlock.lostShifted_eq_self_iff rb
  exact ⟨rfl, ReportBlock.wire_injective.eq_iff.trans shifted,
    parse_host_independent_iff whole length', rfl, toBig, toBig, shifted⟩

/-- A block without losses whose sequence number is a palindrome crosses both ways. -/
theorem wire_host_independent_iff_lossless :
    parseReportBlock .big ((serializedReportBlock2 .little
        { buildReportBlock with totallost := 0, seqnumcycles := 0, highestseqnum := 0x7777 }
        (List.replicate 100 0) 24).take 24) 24 =
      { buildReportBlock with totallost := 0, seqnumcycles := 0, highestseqnum := 0x7777 } ∧
    parseReportBlock .little ((serializedReportBlock2 .big
        { buildReportBlock with totallost := 0, seqnumcycles := 0, highestseqnum := 0x7777 }
        (List.replicate 100 0) 24).take 24) 24 =
      { buildReportBlock with totallost := 0, seqnumcycles := 0, highestseqnum := 0x7777 } := by
  obtain ⟨_, _, _, _, _, toBig, toLittle⟩ := wire_host_independent_iff
    { buildReportBlock with totallost := 0, seqnumcycles := 0, highestseqnum := 0x7777 }
    (List.replicate 24 0) (List.replicate 100 0) 24 24 (by decide) (by decide)
  exact ⟨toBig.mpr (by decide), toLittle.mpr (by decide)⟩

/-- The client's block: a big-endian host writes the count of lost packets shifted, and reads
another block from what a little-endian host wrote. -/
theorem client_block_host_dependent :
    (serializedReportBlock2 .big buildReportBlock (List.replicate 100 0) 24).take 24 ≠
        (serializedReportBlock2 .little buildReportBlock (List.replicate 100 0) 24).take 24 ∧
      parseReportBlock .big ((serializedReportBlock2 .little buildReportBlock
          (List.replicate 100 0) 24).take 24) 24 =
        { buildReportBlock with
          totallost := 0x785634, seqnumcycles := 0x3412, highestseqnum := 0x7856 } ∧
      parseReportBlock .little ((serializedReportBlock2 .big buildReportBlock
          (List.replicate 100 0) 24).take 24) 24 =
        { buildReportBlock with totallost := 0x003456 } := by
  decide

end OpenRtp
