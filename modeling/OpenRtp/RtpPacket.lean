import OpenRtp.Base.Heap

/-!
# RTP packets

`RtpPacket` and its header records, with the two kinds of array a packet points
to: `uint8_t` payloads and `uint32_t` extension words live in one heap per
element type, and the arrays the caller passes in live in the same heaps.

A call that allocates takes the outcome of `new[]` as an argument, and reports
whether it returned or threw together with the members as they stand at that
point: both setters write the length before they allocate.
-/

namespace OpenRtp

/-- `rtpheader`. -/
structure RtpHeader where
  version : UInt8
  padding : Bool
  extension : Bool
  csrcCount : UInt8
  marker : Bool
  payloadType : UInt8
  sequenceNumber : UInt16
  timestamp : UInt32
  ssrc : UInt32
  csrc : List UInt32
deriving DecidableEq, Repr

/-- `rtpheader_extension`; the pointer is an identity in the heap of words. -/
structure RtpHeaderExtension where
  profileSpecific : UInt16
  length : UInt16
  extensions : Option Nat
deriving DecidableEq, Repr

structure RtpPacket where
  rtphdr : RtpHeader
  rtphdrExt : RtpHeaderExtension
  uPayloadLength : UInt32
  pPayload : Option Nat
deriving DecidableEq, Repr

/-- Everything `new[]` has produced, by element type. -/
structure Memory where
  bytes : Heap UInt8
  words : Heap UInt32
deriving DecidableEq, Repr

/-- How a call ended. -/
inductive Outcome
  | returned
  | badAlloc
deriving DecidableEq, Repr

/-- The outcome of a packet call, with the memory and the packet it leaves. -/
structure CallResult where
  outcome : Outcome
  mem : Memory
  packet : RtpPacket
deriving DecidableEq, Repr

/-- The arguments of the nine-argument constructor. -/
structure RtpPacketArgs where
  hasPadding : Bool
  hasExtension : Bool
  csrcCount : UInt8
  hasMarker : Bool
  payloadType : UInt8
  sequenceNumber : UInt16
  timestamp : UInt32
  ssrc : UInt32
  csrc : List UInt32
deriving DecidableEq, Repr

namespace RtpPacket

/-- `RtpPacket::RtpPacket(bool, ..., const std::list<uint32_t>&)`. -/
def construct (args : RtpPacketArgs) : RtpPacket where
  rtphdr :=
    { version := 2
      padding := args.hasPadding
      extension := args.hasExtension
      csrcCount := args.csrcCount
      marker := args.hasMarker
      payloadType := args.payloadType
      sequenceNumber := args.sequenceNumber
      timestamp := args.timestamp
      ssrc := args.ssrc
      -- the list is copied only under a positive count, whatever its own size
      csrc := if 0 < args.csrcCount then args.csrc else [] }
  rtphdrExt := { profileSpecific := 0, length := 0, extensions := none }
  uPayloadLength := 0
  pPayload := none

/-- The implicit copy constructor: memberwise, so both pointers are shared. -/
def copyConstruct (p : RtpPacket) : RtpPacket where
  rtphdr := p.rtphdr
  rtphdrExt := p.rtphdrExt
  uPayloadLength := p.uPayloadLength
  pPayload := p.pPayload

@[simp] theorem copyConstruct_eq (p : RtpPacket) : p.copyConstruct = p := rfl

/-- `RtpPacket::~RtpPacket`: the payload goes whenever there is one, the
extension words only while the extension flag is set. -/
def destroy (mem : Memory) (p : RtpPacket) : Memory where
  words :=
    if p.rtphdr.extension then mem.words.releasePtr p.rtphdrExt.extensions else mem.words
  bytes := mem.bytes.releasePtr p.pPayload

/-- `RtpPacket::SetHeaderExtension`. -/
def setHeaderExtension (alloc : Bool) (mem : Memory) (p : RtpPacket)
    (ext : RtpHeaderExtension) : CallResult :=
  let p := { p with
    rtphdrExt := { p.rtphdrExt with
      profileSpecific := ext.profileSpecific, length := ext.length } }
  match ext.extensions with
  | none => ⟨.returned, mem, p⟩
  | some src =>
      if 0 < ext.length then
        match mem.words.newCopy alloc ext.length.toNat src with
        | none => ⟨.badAlloc, mem, p⟩
        | some (buffer, words) =>
            ⟨.returned, { mem with words },
              { p with rtphdrExt := { p.rtphdrExt with extensions := some buffer } }⟩
      else ⟨.returned, mem, p⟩

/-- `RtpPacket::SetPayload`. -/
def setPayload (alloc : Bool) (mem : Memory) (p : RtpPacket) (payloadLength : UInt32)
    (payload : Option Nat) : CallResult :=
  let p := { p with uPayloadLength := payloadLength }
  match payload with
  | none => ⟨.returned, mem, p⟩
  | some src =>
      if 0 < payloadLength then
        match mem.bytes.newCopy alloc p.uPayloadLength.toNat src with
        | none => ⟨.badAlloc, mem, p⟩
        | some (buffer, bytes) =>
            ⟨.returned, { mem with bytes }, { p with pPayload := some buffer }⟩
      else ⟨.returned, mem, p⟩

/-! ## The header setters -/

def setPadding (p : RtpPacket) (padding : Bool) : RtpPacket :=
  { p with rtphdr := { p.rtphdr with padding } }

def setExtension (p : RtpPacket) (extension : Bool) : RtpPacket :=
  { p with rtphdr := { p.rtphdr with extension } }

def setCsrcCount (p : RtpPacket) (csrcCount : UInt8) : RtpPacket :=
  { p with rtphdr := { p.rtphdr with csrcCount } }

def setCsrc (p : RtpPacket) (csrc : List UInt32) : RtpPacket :=
  { p with rtphdr := { p.rtphdr with csrc } }

def setMarker (p : RtpPacket) (marker : Bool) : RtpPacket :=
  { p with rtphdr := { p.rtphdr with marker } }

def setPayloadType (p : RtpPacket) (payloadType : UInt8) : RtpPacket :=
  { p with rtphdr := { p.rtphdr with payloadType } }

def setSequenceNumber (p : RtpPacket) (sequenceNumber : UInt16) : RtpPacket :=
  { p with rtphdr := { p.rtphdr with sequenceNumber } }

def setTimestamp (p : RtpPacket) (timestamp : UInt32) : RtpPacket :=
  { p with rtphdr := { p.rtphdr with timestamp } }

def setSsrc (p : RtpPacket) (ssrc : UInt32) : RtpPacket :=
  { p with rtphdr := { p.rtphdr with ssrc } }

end RtpPacket

/-- A call of one of the `Set_*` members with its argument. -/
inductive HeaderSetter
  | padding (v : Bool)
  | extension (v : Bool)
  | csrcCount (v : UInt8)
  | csrc (v : List UInt32)
  | marker (v : Bool)
  | payloadType (v : UInt8)
  | sequenceNumber (v : UInt16)
  | timestamp (v : UInt32)
  | ssrc (v : UInt32)
deriving DecidableEq, Repr

/-- Dispatch to the member. -/
def HeaderSetter.call : HeaderSetter → RtpPacket → RtpPacket
  | .padding v, p => p.setPadding v
  | .extension v, p => p.setExtension v
  | .csrcCount v, p => p.setCsrcCount v
  | .csrc v, p => p.setCsrc v
  | .marker v, p => p.setMarker v
  | .payloadType v, p => p.setPayloadType v
  | .sequenceNumber v, p => p.setSequenceNumber v
  | .timestamp v, p => p.setTimestamp v
  | .ssrc v, p => p.setSsrc v

/-- The header setters touch neither pointer. -/
@[simp] theorem HeaderSetter.call_pPayload (s : HeaderSetter) (p : RtpPacket) :
    (s.call p).pPayload = p.pPayload := by
  cases s <;> rfl

@[simp] theorem HeaderSetter.call_rtphdrExt (s : HeaderSetter) (p : RtpPacket) :
    (s.call p).rtphdrExt = p.rtphdrExt := by
  cases s <;> rfl

@[simp] theorem HeaderSetter.call_uPayloadLength (s : HeaderSetter) (p : RtpPacket) :
    (s.call p).uPayloadLength = p.uPayloadLength := by
  cases s <;> rfl

namespace RtpPacket

variable (alloc : Bool) (mem : Memory) (p : RtpPacket)

/-- What `SetPayload` can do: record the length and keep the buffer, or record the
length and point to a fresh copy of the source. -/
theorem setPayload_cases (payloadLength : UInt32) (payload : Option Nat) :
    (setPayload alloc mem p payloadLength payload).mem = mem ∧
        (setPayload alloc mem p payloadLength payload).packet =
          { p with uPayloadLength := payloadLength } ∧
        (alloc = true → payloadLength = 0 ∨ payload = none) ∨
      ∃ src, payload = some src ∧ 0 < payloadLength ∧ alloc = true ∧
        (setPayload alloc mem p payloadLength payload).mem =
          { mem with
            bytes := (mem.bytes.new payloadLength.toNat).memcpy mem.bytes.size src
              payloadLength.toNat } ∧
        (setPayload alloc mem p payloadLength payload).packet =
          { p with uPayloadLength := payloadLength, pPayload := some mem.bytes.size } := by
  cases payload with
  | none => exact .inl ⟨rfl, rfl, fun _ => .inr rfl⟩
  | some src =>
      by_cases positive : 0 < payloadLength
      · cases alloc with
        | false =>
            refine .inl ⟨?_, ?_, fun ok => by cases ok⟩ <;>
              simp [setPayload, positive, Heap.newCopy]
        | true =>
            refine .inr ⟨src, rfl, positive, rfl, ?_, ?_⟩ <;>
              simp [setPayload, positive, Heap.newCopy]
      · have zero : payloadLength = 0 := by
          simpa only [UInt32.not_lt, UInt32.le_zero_iff] using positive
        refine .inl ⟨?_, ?_, fun _ => .inl zero⟩ <;> simp [setPayload, positive]

/-- What `SetHeaderExtension` can do, in the same two ways. -/
theorem setHeaderExtension_cases (ext : RtpHeaderExtension) :
    (setHeaderExtension alloc mem p ext).mem = mem ∧
        (setHeaderExtension alloc mem p ext).packet =
          { p with
            rtphdrExt := { ext with extensions := p.rtphdrExt.extensions } } ∧
        (alloc = true → ext.length = 0 ∨ ext.extensions = none) ∨
      ∃ src, ext.extensions = some src ∧ 0 < ext.length ∧ alloc = true ∧
        (setHeaderExtension alloc mem p ext).mem =
          { mem with
            words := (mem.words.new ext.length.toNat).memcpy mem.words.size src
              ext.length.toNat } ∧
        (setHeaderExtension alloc mem p ext).packet =
          { p with rtphdrExt := { ext with extensions := some mem.words.size } } := by
  rcases ext with ⟨profileSpecific, length, extensions⟩
  cases extensions with
  | none => exact .inl ⟨rfl, rfl, fun _ => .inr rfl⟩
  | some src =>
      by_cases positive : 0 < length
      · cases alloc with
        | false =>
            refine .inl ⟨?_, ?_, fun ok => by cases ok⟩ <;>
              simp [setHeaderExtension, positive, Heap.newCopy]
        | true =>
            refine .inr ⟨src, rfl, positive, rfl, ?_, ?_⟩ <;>
              simp [setHeaderExtension, positive, Heap.newCopy]
      · have zero : length = 0 := by
          simpa only [UInt16.not_lt, UInt16.le_zero_iff] using positive
        refine .inl ⟨?_, ?_, fun _ => .inl zero⟩ <;>
          simp [setHeaderExtension, positive]

end RtpPacket

end OpenRtp
