import Mathlib.Data.List.Induction
import OpenRtp.RtpPacket

/-!
# Header fields

The constructor stores what it is given, but for a list under a zero count, and each setter
stores its argument; none of them checks a range or looks at another field.  So whether the
header fits the fixed RTP header is decided by the values the caller gave last
(`header_representable_iff`).
-/

namespace OpenRtp

/-- The fields fit the fixed RTP header: two bits of version, four of count, seven of payload
type, and as many list elements as the count says. -/
structure RtpHeader.Representable (rtphdr : RtpHeader) : Prop where
  version : rtphdr.version = 2
  count : rtphdr.csrcCount.toNat = rtphdr.csrc.length
  countFits : rtphdr.csrcCount ≤ 15
  payloadTypeFits : rtphdr.payloadType ≤ 127

/-- A call of a public setter. -/
inductive PublicSetter
  | header (setter : HeaderSetter)
  | headerExtension (ext : RtpHeaderExtension) (alloc : Bool)
  | payload (payloadLength : UInt32) (payload : Option Nat) (alloc : Bool)
deriving DecidableEq, Repr

namespace PublicSetter

/-- The memory and the packet a call leaves, whether it returned or threw. -/
def call (setter : PublicSetter) (s : Memory × RtpPacket) : Memory × RtpPacket :=
  match setter with
  | .header setter => (s.1, setter.call s.2)
  | .headerExtension ext alloc =>
      let r := s.2.setHeaderExtension alloc s.1 ext
      (r.mem, r.packet)
  | .payload payloadLength src alloc =>
      let r := s.2.setPayload alloc s.1 payloadLength src
      (r.mem, r.packet)

def callAll (s : Memory × RtpPacket) (setters : List PublicSetter) : Memory × RtpPacket :=
  setters.foldl (fun s setter => setter.call s) s

/-- The argument of the last call that `given` reads one off, or what there was before. -/
def lastGiven {β : Type*} (given : PublicSetter → Option β) (before : β)
    (setters : List PublicSetter) : β :=
  (setters.filterMap given).getLast?.getD before

def countGiven : PublicSetter → Option UInt8
  | .header (.csrcCount v) => some v
  | _ => none

def csrcGiven : PublicSetter → Option (List UInt32)
  | .header (.csrc v) => some v
  | _ => none

def payloadTypeGiven : PublicSetter → Option UInt8
  | .header (.payloadType v) => some v
  | _ => none

/-! ## One field over a sequence of calls -/

variable {β : Type*} {given : PublicSetter → Option β}

theorem lastGiven_concat (before : β) (setters : List PublicSetter) (setter : PublicSetter) :
    lastGiven given before (setters ++ [setter]) =
      (given setter).getD (lastGiven given before setters) := by
  unfold lastGiven
  rw [List.filterMap_append]
  cases here : given setter with
  | none => simp [here]
  | some v => simp [here]

/-- A field that each call sets to what it is given, or leaves, ends as what was given last. -/
theorem field_callAll (field : RtpHeader → β)
    (sets : ∀ setter s, field (call setter s).2.rtphdr = (given setter).getD (field s.2.rtphdr))
    (s : Memory × RtpPacket) (setters : List PublicSetter) :
    field (callAll s setters).2.rtphdr = lastGiven given (field s.2.rtphdr) setters := by
  induction setters using List.reverseRecOn with
  | nil => rfl
  | append_singleton setters setter ih =>
      rw [lastGiven_concat, ← ih, ← sets]
      unfold callAll
      rw [List.foldl_append, List.foldl_cons, List.foldl_nil]

/-- The setters of payload and extension leave the fixed header alone. -/
theorem setPayload_rtphdr (alloc : Bool) (mem : Memory) (p : RtpPacket) (payloadLength : UInt32)
    (payload : Option Nat) :
    (p.setPayload alloc mem payloadLength payload).packet.rtphdr = p.rtphdr := by
  rcases p.setPayload_cases alloc mem payloadLength payload with
    ⟨_, packet, _⟩ | ⟨_, _, _, _, _, packet⟩ <;> rw [packet]

theorem setHeaderExtension_rtphdr (alloc : Bool) (mem : Memory) (p : RtpPacket)
    (ext : RtpHeaderExtension) :
    (p.setHeaderExtension alloc mem ext).packet.rtphdr = p.rtphdr := by
  rcases p.setHeaderExtension_cases alloc mem ext with
    ⟨_, packet, _⟩ | ⟨_, _, _, _, _, packet⟩ <;> rw [packet]

/-- A field that only its own header setter sets. -/
theorem sets_of_header {field : RtpHeader → β}
    (header : ∀ (setter : HeaderSetter) (p : RtpPacket),
      field (setter.call p).rtphdr = (given (.header setter)).getD (field p.rtphdr))
    (extension : ∀ ext alloc, given (.headerExtension ext alloc) = none)
    (payload : ∀ n src alloc, given (.payload n src alloc) = none)
    (setter : PublicSetter) (s : Memory × RtpPacket) :
    field (call setter s).2.rtphdr = (given setter).getD (field s.2.rtphdr) := by
  cases setter with
  | header setter => exact header setter s.2
  | headerExtension ext alloc =>
      rw [extension]
      exact congrArg field (setHeaderExtension_rtphdr alloc s.1 s.2 ext)
  | payload payloadLength src alloc =>
      rw [payload]
      exact congrArg field (setPayload_rtphdr alloc s.1 s.2 payloadLength src)

/-- **Header fields.** Whatever the constructor and the setters are given, the version is 2 and
count, list and payload type are what the caller gave last, a list under a zero count in the
constructor counting as empty; so the header is representable exactly when these are. -/
theorem header_representable_iff (args : RtpPacketArgs) (mem : Memory)
    (setters : List PublicSetter) :
    let rtphdr := (callAll (mem, .construct args) setters).2.rtphdr
    let count := lastGiven countGiven args.csrcCount setters
    let csrc := lastGiven csrcGiven (if 0 < args.csrcCount then args.csrc else []) setters
    let payloadType := lastGiven payloadTypeGiven args.payloadType setters
    (rtphdr.version = 2 ∧ rtphdr.csrcCount = count ∧ rtphdr.csrc = csrc ∧
      rtphdr.payloadType = payloadType) ∧
    (rtphdr.Representable ↔ count.toNat = csrc.length ∧ count ≤ 15 ∧ payloadType ≤ 127) := by
  intro rtphdr count csrc payloadType
  have version : rtphdr.version = 2 := by
    have last : rtphdr.version = lastGiven (fun _ => none) 2 setters :=
      field_callAll RtpHeader.version
        (sets_of_header (fun setter p => by cases setter <;> rfl) (fun _ _ => rfl)
          fun _ _ _ => rfl) (mem, .construct args) setters
    rw [last]
    simp [lastGiven]
  have atCount : rtphdr.csrcCount = count :=
    field_callAll RtpHeader.csrcCount
      (sets_of_header (fun setter p => by cases setter <;> rfl) (fun _ _ => rfl)
        fun _ _ _ => rfl) (mem, .construct args) setters
  have atCsrc : rtphdr.csrc = csrc :=
    field_callAll RtpHeader.csrc
      (sets_of_header (fun setter p => by cases setter <;> rfl) (fun _ _ => rfl)
        fun _ _ _ => rfl) (mem, .construct args) setters
  have atPayloadType : rtphdr.payloadType = payloadType :=
    field_callAll RtpHeader.payloadType
      (sets_of_header (fun setter p => by cases setter <;> rfl) (fun _ _ => rfl)
        fun _ _ _ => rfl) (mem, .construct args) setters
  refine ⟨⟨version, atCount, atCsrc, atPayloadType⟩, ?_⟩
  rw [← atCount, ← atCsrc, ← atPayloadType]
  constructor
  · intro fits
    exact ⟨fits.count, fits.countFits, fits.payloadTypeFits⟩
  · intro fits
    exact ⟨version, fits.1, fits.2.1, fits.2.2⟩

/-- A payload type of eight bits, a count that is not the list's, and a count of sixteen that
is: all are stored as they come. -/
theorem unchecked_fields_stored :
    let mem : Memory := ⟨Table.empty, Table.empty⟩
    ¬ (callAll (mem, .construct ⟨false, false, 0, false, 200, 1, 0, 0, []⟩)
        []).2.rtphdr.Representable ∧
    ¬ (callAll (mem, .construct ⟨false, false, 1, false, 96, 1, 0, 0, [7, 8]⟩)
        []).2.rtphdr.Representable ∧
    ¬ (callAll (mem, .construct ⟨false, false, 0, false, 96, 1, 0, 0, []⟩)
        [.header (.csrcCount 16),
          .header (.csrc (List.replicate 16 7))]).2.rtphdr.Representable := by
  refine ⟨fun fits => ?_, fun fits => ?_, fun fits => ?_⟩
  · exact absurd fits.payloadTypeFits (by decide)
  · exact absurd fits.count (by decide)
  · exact absurd fits.countFits (by decide)

end PublicSetter

end OpenRtp
