import Mathlib.Data.Set.Function
import OpenRtp.Base.BitFields

/-!
# The report block codec

`struct report_block` laid over a buffer, with the encoder of the client and the decoder
of the server as they run: both go through the fields of the overlay, the encoder with
`htonl`, `htons` and a shift, the decoder with `ntohl` and masks of its own.

The overlay is a lens between buffers and blocks (`view_put`, `view_injective`), and on a
little-endian host the two conversions between a block and the values on the wire undo
each other field by field, so encoder and decoder are inverse (`codec_inverse`).
-/

namespace OpenRtp

/-! ## Byte order -/

def byteSwap32 (x : BitVec 32) : BitVec 32 :=
  unitOf (byteOf x 3) (byteOf x 2) (byteOf x 1) (byteOf x 0)

def byteSwap16 (x : BitVec 16) : BitVec 16 :=
  (byteOf x 1).setWidth 16 ||| (byteOf x 0).setWidth 16 <<< 8

namespace Host

def htonl : Host → BitVec 32 → BitVec 32
  | little, x => byteSwap32 x
  | big, x => x

def ntohl : Host → BitVec 32 → BitVec 32
  | little, x => byteSwap32 x
  | big, x => x

def htons : Host → BitVec 16 → BitVec 16
  | little, x => byteSwap16 x
  | big, x => x

end Host

theorem byteSwap32_byteSwap32 (x : BitVec 32) : byteSwap32 (byteSwap32 x) = x := by
  simp [byteSwap32, unitOf_byteOf]

theorem byteSwap16_byteSwap16 (x : BitVec 16) : byteSwap16 (byteSwap16 x) = x := by
  apply BitVec.eq_of_getLsbD_eq
  intro i inside
  simp only [byteSwap16, getLsbD_byteOf, BitVec.getLsbD_or, BitVec.getLsbD_shiftLeft,
    BitVec.getLsbD_setWidth]
  grind

/-! ## The block and its overlay -/

/-- `struct report_block`. -/
structure ReportBlock where
  ssrc : BitVec 32
  fractionlost : BitVec 8
  totallost : BitVec 24
  seqnumcycles : BitVec 16
  highestseqnum : BitVec 16
  jitter : BitVec 32
  lastsr : BitVec 32
  delaysincelastsr : BitVec 32
deriving DecidableEq, Repr

namespace ReportBlock

/-- Where each member of the structure lies. -/
def ssrcField : BitField 32 := ⟨0, 0⟩
def fractionlostField : BitField 8 := ⟨4, 0⟩
def totallostField : BitField 24 := ⟨4, 8⟩
def seqnumcyclesField : BitField 16 := ⟨8, 0⟩
def highestseqnumField : BitField 16 := ⟨8, 16⟩
def jitterField : BitField 32 := ⟨12, 0⟩
def lastsrField : BitField 32 := ⟨16, 0⟩
def delaysincelastsrField : BitField 32 := ⟨20, 0⟩

/-- The block a buffer holds, read through a `struct report_block *`. -/
def view (host : Host) (buffer : List Byte) : ReportBlock where
  ssrc := ssrcField.get host buffer
  fractionlost := fractionlostField.get host buffer
  totallost := totallostField.get host buffer
  seqnumcycles := seqnumcyclesField.get host buffer
  highestseqnum := highestseqnumField.get host buffer
  jitter := jitterField.get host buffer
  lastsr := lastsrField.get host buffer
  delaysincelastsr := delaysincelastsrField.get host buffer

/-- Assign the members through a `struct report_block *`, in order. -/
def put (host : Host) (buffer : List Byte) (rb : ReportBlock) : List Byte :=
  let buffer := ssrcField.set host buffer rb.ssrc
  let buffer := fractionlostField.set host buffer rb.fractionlost
  let buffer := totallostField.set host buffer rb.totallost
  let buffer := seqnumcyclesField.set host buffer rb.seqnumcycles
  let buffer := highestseqnumField.set host buffer rb.highestseqnum
  let buffer := jitterField.set host buffer rb.jitter
  let buffer := lastsrField.set host buffer rb.lastsr
  delaysincelastsrField.set host buffer rb.delaysincelastsr

variable {host : Host} {buffer : List Byte} {rb : ReportBlock}

@[simp] theorem length_put : (put host buffer rb).length = buffer.length := by
  simp [put]

/-- The members lie in the first 24 bytes. -/
theorem drop_put : (put host buffer rb).drop 24 = buffer.drop 24 := by
  unfold put
  simp only
  repeat rw [BitField.drop_set (by decide)]

/-- Reading the overlay gives back what was assigned. -/
theorem view_put (room : 24 ≤ buffer.length) : view host (put host buffer rb) = rb := by
  have get_set_of_apart : ∀ {w w' : Nat} {f : BitField w} {g : BitField w'} {bytes : List Byte}
      {v : BitVec w}, bytes.length = buffer.length → f.Fits → g.Fits → f.Apart g →
      f.unit + 4 ≤ 24 → BitField.get host (f.set host bytes v) g = g.get host bytes :=
    fun length fitsF fitsG apart inside =>
      BitField.get_set_of_apart fitsF fitsG apart (by omega)
  have get_set : ∀ {w : Nat} {f : BitField w} {bytes : List Byte} {v : BitVec w},
      bytes.length = buffer.length → f.Fits → f.unit + 4 ≤ 24 →
      BitField.get host (f.set host bytes v) f = v :=
    fun length fits inside => BitField.get_set fits (by omega)
  unfold view put
  simp only
  congr 1
  all_goals
    repeat rw [get_set_of_apart (by simp) (by decide) (by decide) (by decide) (by decide)]
    exact get_set (by simp) (by decide) (by decide)

/-- The members fill the first 24 bytes, so they determine them. -/
theorem view_injective (host : Host) {bytes bytes' : List Byte} (length : bytes.length = 24)
    (length' : bytes'.length = 24) (same : view host bytes = view host bytes') :
    bytes = bytes' := by
  simp only [view, mk.injEq] at same
  obtain ⟨ssrc, fraction, total, cycles, highest, jitter, lastsr, delay⟩ := same
  refine Host.eq_of_loads host (n := 6) length length' fun j inside => ?_
  interval_cases j
  · exact BitField.load_eq_of_get (f := ssrcField) rfl ssrc
  · exact BitField.load_eq_of_gets (f := fractionlostField) (g := totallostField) rfl rfl rfl rfl
      fraction total
  · exact BitField.load_eq_of_gets (f := seqnumcyclesField) (g := highestseqnumField)
      rfl rfl rfl rfl
      cycles highest
  · exact BitField.load_eq_of_get (f := jitterField) rfl jitter
  · exact BitField.load_eq_of_get (f := lastsrField) rfl lastsr
  · exact BitField.load_eq_of_get (f := delaysincelastsrField) rfl delay

/-- The members lie in the first 24 bytes. -/
theorem view_take (buffer : List Byte) {n : Nat} (room : 24 ≤ n) :
    view host (buffer.take n) = view host buffer := by
  simp only [view]
  congr 1 <;> exact BitField.get_take (Nat.le_trans (by decide) room)

/-- Two buffers hold one block exactly when their first 24 bytes are the same. -/
theorem view_eq_iff {bytes bytes' : List Byte} (room : 24 ≤ bytes.length)
    (room' : 24 ≤ bytes'.length) :
    view host bytes = view host bytes' ↔ ∀ i < 24, byteAt bytes i = byteAt bytes' i := by
  rw [← take_eq_take_iff room room', ← view_take bytes (Nat.le_refl 24),
    ← view_take bytes' (Nat.le_refl 24)]
  exact ⟨view_injective host (by simp [room]) (by simp [room']), congrArg _⟩

/-- Assigning a buffer's own block to any buffer copies its 24 bytes. -/
theorem take_put_view {bytes : List Byte} (length : bytes.length = 24)
    (room : 24 ≤ buffer.length) : (put host buffer (view host bytes)).take 24 = bytes := by
  refine view_injective host (by simp [room]) length ?_
  rw [view_take _ (Nat.le_refl 24), view_put room]

end ReportBlock

/-! ## Decoder and encoder -/

def readBigendianThreeBytes (data : BitVec 32) : BitVec 32 :=
  (data &&& 0x0000FF) <<< 16 ||| ((data &&& 0x00FF00) >>> 8) <<< 8 ||| (data &&& 0xFF0000) >>> 16

def readBigendianTwoBytes (data : BitVec 32) : BitVec 32 :=
  (data &&& 0x00FF) <<< 8 ||| (data &&& 0xFF00) >>> 8

/-- `parseReportBlock`; the length is printed and not used. -/
def parseReportBlock (host : Host) (buffer : List Byte) (_length : Int) : ReportBlock :=
  let rrbb := ReportBlock.view host buffer
  { ssrc := host.ntohl rrbb.ssrc
    fractionlost := rrbb.fractionlost
    totallost := (readBigendianThreeBytes (rrbb.totallost.setWidth 32)).setWidth 24
    seqnumcycles := (readBigendianTwoBytes (rrbb.seqnumcycles.setWidth 32)).setWidth 16
    highestseqnum := (readBigendianTwoBytes (rrbb.highestseqnum.setWidth 32)).setWidth 16
    jitter := host.ntohl rrbb.jitter
    lastsr := host.ntohl rrbb.lastsr
    delaysincelastsr := host.ntohl rrbb.delaysincelastsr }

/-- `serializedReportBlock2`; the length is printed and not used. -/
def serializedReportBlock2 (host : Host) (rb : ReportBlock) (buffer : List Byte)
    (_length : Int) : List Byte :=
  ReportBlock.put host buffer
    { ssrc := host.htonl rb.ssrc
      fractionlost := rb.fractionlost
      totallost := (host.htonl (rb.totallost.setWidth 32) >>> 8).setWidth 24
      seqnumcycles := host.htons rb.seqnumcycles
      highestseqnum := host.htons rb.highestseqnum
      jitter := host.htonl rb.jitter
      lastsr := host.htonl rb.lastsr
      delaysincelastsr := host.htonl rb.delaysincelastsr }

/-! ## Conversions of one member -/

def byteSwap24 (x : BitVec 24) : BitVec 24 :=
  (byteOf x 2).setWidth 24 ||| (byteOf x 1).setWidth 24 <<< 8 ||| (byteOf x 0).setWidth 24 <<< 16

theorem byteSwap24_byteSwap24 (x : BitVec 24) : byteSwap24 (byteSwap24 x) = x := by
  apply BitVec.eq_of_getLsbD_eq
  intro i inside
  simp only [byteSwap24, getLsbD_byteOf, BitVec.getLsbD_or, BitVec.getLsbD_shiftLeft,
    BitVec.getLsbD_setWidth]
  grind

/-- The encoder's shift of the swapped 32 bits swaps the 24. -/
theorem htonl_shift_eq (x : BitVec 24) :
    (byteSwap32 (x.setWidth 32) >>> 8).setWidth 24 = byteSwap24 x := by
  apply BitVec.eq_of_getLsbD_eq
  intro i inside
  simp only [byteSwap24, byteSwap32, unitOf, getLsbD_byteOf, BitVec.getLsbD_or,
    BitVec.getLsbD_shiftLeft, BitVec.getLsbD_ushiftRight, BitVec.getLsbD_setWidth]
  grind

theorem readBigendianThreeBytes_eq (x : BitVec 24) :
    (readBigendianThreeBytes (x.setWidth 32)).setWidth 24 = byteSwap24 x := by
  apply BitVec.eq_of_getLsbD_eq
  intro i inside
  simp only [readBigendianThreeBytes, byteSwap24, getLsbD_byteOf, BitVec.getLsbD_or,
    BitVec.getLsbD_and, BitVec.getLsbD_shiftLeft, BitVec.getLsbD_ushiftRight,
    BitVec.getLsbD_setWidth]
  interval_cases i <;> simp

theorem readBigendianTwoBytes_eq (x : BitVec 16) :
    (readBigendianTwoBytes (x.setWidth 32)).setWidth 16 = byteSwap16 x := by
  apply BitVec.eq_of_getLsbD_eq
  intro i inside
  simp only [readBigendianTwoBytes, byteSwap16, getLsbD_byteOf, BitVec.getLsbD_or,
    BitVec.getLsbD_and, BitVec.getLsbD_shiftLeft, BitVec.getLsbD_ushiftRight,
    BitVec.getLsbD_setWidth]
  interval_cases i <;> simp

namespace ReportBlock

/-- The block with the bytes of every member reversed, as a little-endian host sees it on
the wire. -/
def swapped (rb : ReportBlock) : ReportBlock where
  ssrc := byteSwap32 rb.ssrc
  fractionlost := rb.fractionlost
  totallost := byteSwap24 rb.totallost
  seqnumcycles := byteSwap16 rb.seqnumcycles
  highestseqnum := byteSwap16 rb.highestseqnum
  jitter := byteSwap32 rb.jitter
  lastsr := byteSwap32 rb.lastsr
  delaysincelastsr := byteSwap32 rb.delaysincelastsr

@[simp] theorem swapped_swapped (rb : ReportBlock) : rb.swapped.swapped = rb := by
  simp only [swapped, byteSwap32_byteSwap32, byteSwap24_byteSwap24, byteSwap16_byteSwap16]

theorem swapped_injective : Function.Injective swapped :=
  Function.LeftInverse.injective swapped_swapped

end ReportBlock

theorem parseReportBlock_little (buffer : List Byte) (length : Int) :
    parseReportBlock .little buffer length = (ReportBlock.view .little buffer).swapped := by
  simp only [parseReportBlock, Host.ntohl, readBigendianThreeBytes_eq,
    readBigendianTwoBytes_eq, ReportBlock.swapped]

theorem serializedReportBlock2_little (rb : ReportBlock) (buffer : List Byte) (length : Int) :
    serializedReportBlock2 .little rb buffer length =
      ReportBlock.put .little buffer rb.swapped := by
  simp only [serializedReportBlock2, Host.htonl, Host.htons, htonl_shift_eq,
    ReportBlock.swapped]

@[simp] theorem length_serializedReportBlock2 (host : Host) (rb : ReportBlock)
    (buffer : List Byte) (length : Int) :
    (serializedReportBlock2 host rb buffer length).length = buffer.length :=
  ReportBlock.length_put

theorem parse_serialized (rb : ReportBlock) {buffer : List Byte} (room : 24 ≤ buffer.length)
    (length length' : Int) :
    parseReportBlock .little (serializedReportBlock2 .little rb buffer length) length' = rb := by
  rw [parseReportBlock_little, serializedReportBlock2_little, ReportBlock.view_put room,
    ReportBlock.swapped_swapped]

/-- The decoder reads the first 24 bytes only. -/
theorem parse_take (buffer : List Byte) {n : Nat} (room : 24 ≤ n) (length length' : Int) :
    parseReportBlock .little (buffer.take n) length =
      parseReportBlock .little buffer length' := by
  rw [parseReportBlock_little, parseReportBlock_little, ReportBlock.view_take _ room]

theorem parse_serialize (rb : ReportBlock) {buffer : List Byte} (room : 24 ≤ buffer.length)
    (length length' : Int) :
    parseReportBlock .little ((serializedReportBlock2 .little rb buffer length).take 24)
      length' = rb := by
  rw [parse_take _ (Nat.le_refl 24) length' length', parse_serialized rb room]

theorem serialize_parse {bytes buffer : List Byte} (whole : bytes.length = 24)
    (room : 24 ≤ buffer.length) (length length' : Int) :
    (serializedReportBlock2 .little (parseReportBlock .little bytes length) buffer
      length').take 24 = bytes := by
  rw [parseReportBlock_little, serializedReportBlock2_little, ReportBlock.swapped_swapped,
    ReportBlock.take_put_view whole room]

/-- **The codec is a bijection.**  On a little-endian host decoding the 24 bytes an
encoding wrote gives back the block, encoding what was decoded from 24 bytes writes them
again, and so the encoder maps blocks one to one onto the strings of 24 bytes. -/
theorem codec_inverse :
    (∀ rb buffer length length', 24 ≤ buffer.length →
      parseReportBlock .little ((serializedReportBlock2 .little rb buffer length).take 24)
        length' = rb) ∧
    (∀ bytes buffer length length', bytes.length = 24 → 24 ≤ buffer.length →
      (serializedReportBlock2 .little (parseReportBlock .little bytes length) buffer
        length').take 24 = bytes) ∧
    ∀ buffer length, 24 ≤ buffer.length →
      Set.BijOn (fun rb => (serializedReportBlock2 .little rb buffer length).take 24)
        Set.univ {bytes | bytes.length = 24} := by
  refine ⟨fun rb buffer length length' room => parse_serialize rb room length length',
    fun bytes buffer length length' whole room => serialize_parse whole room length length',
    fun buffer length room => ⟨fun rb _ => ?_, fun rb _ rb' _ same => ?_, fun bytes whole => ?_⟩⟩
  · show ((serializedReportBlock2 .little rb buffer length).take 24).length = 24
    rw [List.length_take, length_serializedReportBlock2, Nat.min_eq_left room]
  · rw [← parse_serialize rb room length length, ← parse_serialize rb' room length length]
    exact congrArg (parseReportBlock .little · length) same
  · exact ⟨parseReportBlock .little bytes length, trivial,
      serialize_parse whole room length length⟩

/-- The block the client sends. -/
def buildReportBlock : ReportBlock where
  ssrc := 0x12345678
  fractionlost := 0x12
  totallost := 0x345678
  seqnumcycles := 0x1234
  highestseqnum := 0x5678
  jitter := 0x44444444
  lastsr := 0x55555555
  delaysincelastsr := 0x12345678

theorem buildReportBlock_codec :
    parseReportBlock .little ((serializedReportBlock2 .little buildReportBlock
      (List.replicate 100 0) 24).take 24) 24 = buildReportBlock :=
  codec_inverse.1 buildReportBlock (List.replicate 100 0) 24 24 (by decide)

end OpenRtp
