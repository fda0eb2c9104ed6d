import OpenRtp.Base.CArith
import OpenRtp.ReportBlockWire

/-!
# The arithmetic of the report block codec

The functions of the codec once more, each operation with its promotions and each store with
its width, so that `none` is an undefined shift or a store that loses bits.  Everything is
defined for all arguments, and computes what the codec of the other modules computes, but for
one shift: the first encoder shifts the 16-bit count of cycles as an `int`, which overflows
from `2 ^ 15` on (`codec_defined_iff`).
-/

namespace OpenRtp

namespace Host

def ntohs : Host → BitVec 16 → BitVec 16
  | little, x => byteSwap16 x
  | big, x => x

end Host

namespace CodecArith

open CValue

/-! ## The functions -/

/-- `htonl` and its kin on an argument of the call. -/
def htonl (host : Host) (a : CValue) : Option CValue :=
  (a.store 32).map fun x => promote (host.htonl x)

def ntohl (host : Host) (a : CValue) : Option CValue :=
  (a.store 32).map fun x => promote (host.ntohl x)

def htons (host : Host) (a : CValue) : Option CValue :=
  (a.store 16).map fun x => promote (host.htons x)

def ntohs (host : Host) (a : CValue) : Option CValue :=
  (a.store 16).map fun x => promote (host.ntohs x)

/-- `write_four_bytes_be`, at the position `p` of the buffer. -/
def writeFourBytesBe (data : BitVec 32) (buf : List Byte) (p : Nat) : Option (List Byte) := do
  let data := promote data
  let buf := buf.set p (← (← (data.and (unsigned 0xFF000000)).shr 24).store 8)
  let p := p + 1
  let buf := buf.set p (← (← (data.and (int 0x00FF0000)).shr 16).store 8)
  let p := p + 1
  let buf := buf.set p (← (← (data.and (int 0x0000FF00)).shr 8).store 8)
  let p := p + 1
  return buf.set p (← (data.and (int 0x000000FF)).store 8)

/-- `write_three_bytes_be`. -/
def writeThreeBytesBe (data : BitVec 32) (buf : List Byte) (p : Nat) : Option (List Byte) := do
  let data := promote data
  let buf := buf.set p (← (← (data.and (int 0x00FF0000)).shr 16).store 8)
  let p := p + 1
  let buf := buf.set p (← (← (data.and (int 0x0000FF00)).shr 8).store 8)
  let p := p + 1
  return buf.set p (← (data.and (int 0x000000FF)).store 8)

/-- `(rb.seqnumcycles << 16) | (rb.highestseqnum)`. -/
def extendHighestNum (rb : ReportBlock) : Option (BitVec 32) := do
  (((← (promote rb.seqnumcycles).shl 16)).or (promote rb.highestseqnum)).store 32

/-- `serializedReportBlock`. -/
def serializedReportBlock (rb : ReportBlock) (buffer : List Byte) (_length : Int) :
    Option (List Byte) := do
  let p := 0
  let buffer ← writeFourBytesBe (← (promote rb.ssrc).store 32) buffer p
  let p := p + 4
  let buffer := buffer.set p (← (promote rb.fractionlost).store 8)
  let p := p + 1
  let buffer ← writeThreeBytesBe (← (promote rb.totallost).store 32) buffer p
  let p := p + 3
  let buffer ← writeFourBytesBe (← extendHighestNum rb) buffer p
  let p := p + 4
  let buffer ← writeFourBytesBe (← (promote rb.jitter).store 32) buffer p
  let p := p + 4
  let buffer ← writeFourBytesBe (← (promote rb.lastsr).store 32) buffer p
  let p := p + 4
  writeFourBytesBe (← (promote rb.delaysincelastsr).store 32) buffer p

/-- `serializedReportBlock2`; what it assigns to the members of the overlay. -/
def serializedReportBlock2 (host : Host) (rb : ReportBlock) (buffer : List Byte)
    (_length : Int) : Option (List Byte) := do
  let rrbb : ReportBlock :=
    { ssrc := ← (← htonl host (promote rb.ssrc)).store 32
      fractionlost := ← (promote rb.fractionlost).store 8
      totallost := ← (← (← htonl host (promote rb.totallost)).shr 8).store 24
      seqnumcycles := ← (← htons host (promote rb.seqnumcycles)).store 16
      highestseqnum := ← (← htons host (promote rb.highestseqnum)).store 16
      jitter := ← (← htonl host (promote rb.jitter)).store 32
      lastsr := ← (← htonl host (promote rb.lastsr)).store 32
      delaysincelastsr := ← (← htonl host (promote rb.delaysincelastsr)).store 32 }
  return ReportBlock.put host buffer rrbb

/-- `read_bigendian_three_bytes`; the second result is printed only. -/
def readBigendianThreeBytes (host : Host) (data : BitVec 32) : Option (BitVec 32) := do
  let data := promote data
  let first ← (data.and (int 0x0000FF)).shl 16
  let second ← (← (data.and (int 0x00FF00)).shr 8).shl 8
  let third ← (data.and (int 0xFF0000)).shr 16
  let ret ← ((first.or second).or third).store 32
  let _ret2 ← (← (← ntohl host data).shr 8).store 32
  return ret

/-- `read_bigendian_two_bytes`. -/
def readBigendianTwoBytes (host : Host) (data : BitVec 32) : Option (BitVec 32) := do
  let data := promote data
  let first ← (data.and (int 0x00FF)).shl 8
  let second ← (data.and (int 0xFF00)).shr 8
  let ret ← (first.or second).store 32
  let _ret2 ← (← ntohs host data).store 16
  return ret

/-- `parseReportBlock`. -/
def parseReportBlock (host : Host) (buffer : List Byte) (_length : Int) :
    Option ReportBlock := do
  let rrbb := ReportBlock.view host buffer
  let totallost ← readBigendianThreeBytes host (← (promote rrbb.totallost).store 32)
  let seqnumcycles ← readBigendianTwoBytes host (← (promote rrbb.seqnumcycles).store 32)
  let highestseqnum ← readBigendianTwoBytes host (← (promote rrbb.highestseqnum).store 32)
  return {
    ssrc := ← (← ntohl host (promote rrbb.ssrc)).store 32
    fractionlost := ← (promote rrbb.fractionlost).store 8
    totallost := ← (promote totallost).store 24
    seqnumcycles := ← (promote seqnumcycles).store 16
    highestseqnum := ← (promote highestseqnum).store 16
    jitter := ← (← ntohl host (promote rrbb.jitter)).store 32
    lastsr := ← (← ntohl host (promote rrbb.lastsr)).store 32
    delaysincelastsr := ← (← ntohl host (promote rrbb.delaysincelastsr)).store 32 }

/-! ## The writers -/

variable {host : Host} {rb : ReportBlock} {data : BitVec 32} {buf : List Byte} {p : Nat}

theorem writeFourBytesBe_defined (data : BitVec 32) (buf : List Byte) (p : Nat) :
    writeFourBytesBe data buf p = some (OpenRtp.writeFourBytesBe data buf p) := by
  simp (disch := decide) only [writeFourBytesBe, promote_word, unsigned_and, bits, unsigned_shr,
    store_masked, store_mask, Option.bind_eq_bind, Option.bind_some]
  rfl

theorem writeThreeBytesBe_defined (data : BitVec 32) (buf : List Byte) (p : Nat) :
    writeThreeBytesBe data buf p = some (OpenRtp.writeThreeBytesBe data buf p) := by
  simp (disch := decide) only [writeThreeBytesBe, promote_word, unsigned_and, bits, unsigned_shr,
    store_masked, store_mask, Option.bind_eq_bind, Option.bind_some]
  rfl

/-! ## The first encoder -/

/-- The merged word: the shift of the promoted count must stay an `int`. -/
theorem extendHighestNum_eq (rb : ReportBlock) :
    extendHighestNum rb =
      if rb.seqnumcycles.toNat < 2 ^ 15 then
        some (rb.seqnumcycles.setWidth 32 <<< 16 ||| rb.highestseqnum.setWidth 32)
      else none := by
  have cycles : (rb.seqnumcycles.setWidth 32).toNat = rb.seqnumcycles.toNat :=
    BitVec.toNat_setWidth_of_le (by decide)
  have highest : (rb.highestseqnum.setWidth 32).toNat = rb.highestseqnum.toNat :=
    BitVec.toNat_setWidth_of_le (by decide)
  have shifted := int_shl (x := rb.seqnumcycles.setWidth 32) (show 16 < 32 by decide) (by omega)
  rw [extendHighestNum, promote_of_narrow (by decide), promote_of_narrow (by decide), shifted,
    cycles]
  rcases Nat.lt_or_ge rb.seqnumcycles.toNat (2 ^ 15) with small | large
  · have inside : (rb.seqnumcycles.setWidth 32 <<< 16 |||
        rb.highestseqnum.setWidth 32).toNat < 2 ^ 31 := by
      have shifted := toNat_shl_le (Nat.le_of_eq cycles) 16
      rw [Nat.shiftLeft_eq] at shifted
      exact toNat_or_lt (by omega) (by omega)
    rw [if_pos (by omega), if_pos small]
    exact store_int inside (by omega)
  · rw [if_neg (by omega), if_neg (by omega)]
    rfl

theorem serializedReportBlock_eq (rb : ReportBlock) (buffer : List Byte) (length : Int) :
    serializedReportBlock rb buffer length =
      if rb.seqnumcycles.toNat < 2 ^ 15 then
        some (OpenRtp.serializedReportBlock rb buffer length)
      else none := by
  simp (disch := decide) only [serializedReportBlock, store_promote, writeFourBytesBe_defined,
    writeThreeBytesBe_defined, extendHighestNum_eq, Option.bind_eq_bind, Option.bind_some,
    BitVec.setWidth_eq]
  split
  · rfl
  · rfl

/-! ## The second encoder and the decoder -/

theorem htonl_promote {w : Nat} (fits : w ≤ 32) (x : BitVec w) :
    htonl host (promote x) = some (unsigned (host.htonl (x.setWidth 32))) := by
  rw [htonl, store_promote fits fits, Option.map_some, promote_word]

theorem ntohl_unsigned (x : BitVec 32) :
    ntohl host (unsigned x) = some (unsigned (host.ntohl x)) := by
  rw [ntohl, store_word, Option.map_some, promote_word]

theorem htons_promote (x : BitVec 16) :
    htons host (promote x) = some (promote (host.htons x)) := by
  rw [htons, store_promote (by decide) (by decide), Option.map_some, BitVec.setWidth_eq]

theorem ntohs_unsigned {x : BitVec 32} (small : x.toNat < 2 ^ 16) :
    ntohs host (unsigned x) = some (promote (host.ntohs (x.setWidth 16))) := by
  rw [ntohs, store_unsigned small, Option.map_some]

theorem serializedReportBlock2_defined (host : Host) (rb : ReportBlock) (buffer : List Byte)
    (length : Int) :
    serializedReportBlock2 host rb buffer length =
      some (OpenRtp.serializedReportBlock2 host rb buffer length) := by
  simp (disch := decide) only [serializedReportBlock2, htonl_promote, htons_promote, unsigned_shr,
    store_word, store_shifted, store_promote, Option.bind_eq_bind, Option.bind_some,
    BitVec.setWidth_eq]
  rfl

theorem readBigendianThreeBytes_defined (host : Host) (data : BitVec 32) :
    readBigendianThreeBytes host data = some (OpenRtp.readBigendianThreeBytes data) := by
  simp (disch := decide) only [readBigendianThreeBytes, ntohl_unsigned, promote_word,
    unsigned_and, bits, unsigned_shl, unsigned_shr, unsigned_or, store_word, Option.bind_eq_bind,
    Option.bind_some]
  rfl

theorem readBigendianTwoBytes_defined (host : Host) (small : data.toNat < 2 ^ 16) :
    readBigendianTwoBytes host data = some (OpenRtp.readBigendianTwoBytes data) := by
  have narrow : (16 : Nat) ≤ 32 := by decide
  simp (disch := decide) only [readBigendianTwoBytes, promote_word, unsigned_and, bits,
    unsigned_shl, unsigned_shr, unsigned_or, store_word, ntohs_unsigned small,
    store_promote narrow (Nat.le_refl 16), Option.bind_eq_bind, Option.bind_some]
  rfl

/-- The masks leave three bytes. -/
theorem readBigendianThreeBytes_lt (data : BitVec 32) :
    (OpenRtp.readBigendianThreeBytes data).toNat < 2 ^ 24 := by
  have first : ((data &&& 0x0000FF) <<< 16).toNat < 2 ^ 24 :=
    Nat.lt_of_le_of_lt (toNat_shl_le (toNat_mask_le _ _) 16) (by decide)
  have second : ((data &&& 0x00FF00) >>> 8 <<< 8).toNat < 2 ^ 24 :=
    Nat.lt_of_le_of_lt (toNat_shl_le (toNat_shr_le (toNat_mask_le _ _) 8) 8) (by decide)
  have third : ((data &&& 0xFF0000) >>> 16).toNat < 2 ^ 24 :=
    Nat.lt_of_le_of_lt (toNat_shr_le (toNat_mask_le _ _) 16) (by decide)
  exact toNat_or_lt (toNat_or_lt first second) third

/-- And two. -/
theorem readBigendianTwoBytes_lt (data : BitVec 32) :
    (OpenRtp.readBigendianTwoBytes data).toNat < 2 ^ 16 := by
  have first : ((data &&& 0x00FF) <<< 8).toNat < 2 ^ 16 :=
    Nat.lt_of_le_of_lt (toNat_shl_le (toNat_mask_le _ _) 8) (by decide)
  have second : ((data &&& 0xFF00) >>> 8).toNat < 2 ^ 16 :=
    Nat.lt_of_le_of_lt (toNat_shr_le (toNat_mask_le _ _) 8) (by decide)
  exact toNat_or_lt first second

theorem parseReportBlock_defined (host : Host) (buffer : List Byte) (length : Int) :
    parseReportBlock host buffer length = some (OpenRtp.parseReportBlock host buffer length) := by
  have three : ∀ data, (unsigned (OpenRtp.readBigendianThreeBytes data)).store 24 =
      some ((OpenRtp.readBigendianThreeBytes data).setWidth 24) := fun data =>
    store_unsigned (readBigendianThreeBytes_lt data)
  have two : ∀ data, (unsigned (OpenRtp.readBigendianTwoBytes data)).store 16 =
      some ((OpenRtp.readBigendianTwoBytes data).setWidth 16) := fun data =>
    store_unsigned (readBigendianTwoBytes_lt data)
  have small : ∀ x : BitVec 16, (x.setWidth 32).toNat < 2 ^ 16 := fun x => by
    rw [BitVec.toNat_setWidth_of_le (by decide)]
    exact x.isLt
  simp (disch := decide) only [parseReportBlock, store_promote, readBigendianThreeBytes_defined,
    readBigendianTwoBytes_defined host (small _), promote_word, three, two, ntohl_unsigned,
    store_word, Option.bind_eq_bind, Option.bind_some, BitVec.setWidth_eq]
  rfl

/-! ## Where the codec is defined -/

/-- Every operation of the encoders and of the decoder is defined, and every value they store
fits. -/
structure CodecDefined (host : Host) (rb : ReportBlock) (buffer received : List Byte)
    (length : Int) : Prop where
  serialized : (serializedReportBlock rb buffer length).isSome
  serialized2 : (serializedReportBlock2 host rb buffer length).isSome
  parsed : (parseReportBlock host received length).isSome

/-- **Defined arithmetic.** For every block, every buffer and every buffer received, on either
host, the arithmetic of the codec is defined exactly when the count of cycles is below
`2 ^ 15`.  The second encoder, the decoder and the writers are defined always; and whatever is
defined computes what the codec of the other modules does. -/
theorem codec_defined_iff (host : Host) (rb : ReportBlock) (buffer received : List Byte)
    (length : Int) :
    (CodecDefined host rb buffer received length ↔ rb.seqnumcycles.toNat < 2 ^ 15) ∧
    (serializedReportBlock rb buffer length = if rb.seqnumcycles.toNat < 2 ^ 15 then
      some (OpenRtp.serializedReportBlock rb buffer length) else none) ∧
    serializedReportBlock2 host rb buffer length =
      some (OpenRtp.serializedReportBlock2 host rb buffer length) ∧
    parseReportBlock host received length =
      some (OpenRtp.parseReportBlock host received length) ∧
    ∀ data p, writeFourBytesBe data buffer p = some (OpenRtp.writeFourBytesBe data buffer p) ∧
      writeThreeBytesBe data buffer p = some (OpenRtp.writeThreeBytesBe data buffer p) := by
  have first := serializedReportBlock_eq rb buffer length
  have second := serializedReportBlock2_defined host rb buffer length
  have decoder := parseReportBlock_defined host received length
  refine ⟨⟨fun isDefined => ?_, fun small => ?_⟩, first, second, decoder, fun data p =>
    ⟨writeFourBytesBe_defined data buffer p, writeThreeBytesBe_defined data buffer p⟩⟩
  · by_contra large
    have serialized := isDefined.serialized
    rw [first, if_neg large] at serialized
    cases serialized
  · refine ⟨?_, by rw [second]; rfl, by rw [decoder]; rfl⟩
    rw [first, if_pos small]
    rfl

/-- A stream that has wrapped around 32768 times. -/
theorem cycles_overflow :
    (promote (0x8000 : BitVec 16)).shl 16 = none ∧
      serializedReportBlock { buildReportBlock with seqnumcycles := 0x8000 }
        (List.replicate 100 0) 24 = none ∧
      ¬ CodecDefined .little { buildReportBlock with seqnumcycles := 0x8000 }
        (List.replicate 100 0) (List.replicate 24 0) 24 := by
  have overflow : serializedReportBlock { buildReportBlock with seqnumcycles := 0x8000 }
      (List.replicate 100 0) 24 = none := serializedReportBlock_eq _ _ _
  refine ⟨by decide, overflow, fun isDefined => ?_⟩
  have serialized := isDefined.serialized
  rw [overflow] at serialized
  cases serialized

end CodecArith

end OpenRtp
