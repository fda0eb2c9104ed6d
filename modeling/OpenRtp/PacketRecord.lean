import OpenRtp.PacketFrame

/-!
# A packet as a record of values

`PacketRecord` is what a packet is for: the header fields, the extension words
and the payload, all values.  `World.record` reads it off a packet and the memory
its pointers lead to, and `record_replays_calls` says that in a run that only
constructs packets and calls their setters each packet's record is the replay of
its own calls, with the arguments' contents at the time of the call.  Calls on
other packets and writes by the caller to its own arrays do not show: no operation
changes what a packet points to (`FrameInv.step_read`).

A call whose allocation fails has already written the length it was given, so the record
survives it only if that length was there before (`failed_call_intact_iff`).
-/

namespace OpenRtp

/-- A packet's values. -/
structure PacketRecord where
  version : UInt8
  padding : Bool
  extension : Bool
  csrcCount : UInt8
  csrc : List UInt32
  marker : Bool
  payloadType : UInt8
  sequenceNumber : UInt16
  timestamp : UInt32
  ssrc : UInt32
  profileSpecific : UInt16
  extensionWords : List (Option UInt32)
  payload : List (Option UInt8)
deriving DecidableEq, Repr

/-- A setter call, with the values its arguments have. -/
inductive RecordCall
  | headerExtension (profileSpecific : UInt16) (words : List (Option UInt32))
  | payload (bytes : List (Option UInt8))
  | header (setter : HeaderSetter)
deriving DecidableEq, Repr

namespace PacketRecord

/-- The record the nine-argument constructor makes. -/
def ofArgs (args : RtpPacketArgs) : PacketRecord where
  version := 2
  padding := args.hasPadding
  extension := args.hasExtension
  csrcCount := args.csrcCount
  csrc := if 0 < args.csrcCount then args.csrc else []
  marker := args.hasMarker
  payloadType := args.payloadType
  sequenceNumber := args.sequenceNumber
  timestamp := args.timestamp
  ssrc := args.ssrc
  profileSpecific := 0
  extensionWords := []
  payload := []

/-- A header setter replaces its own component. -/
def setHeader (r : PacketRecord) : HeaderSetter → PacketRecord
  | .padding v => { r with padding := v }
  | .extension v => { r with extension := v }
  | .csrcCount v => { r with csrcCount := v }
  | .csrc v => { r with csrc := v }
  | .marker v => { r with marker := v }
  | .payloadType v => { r with payloadType := v }
  | .sequenceNumber v => { r with sequenceNumber := v }
  | .timestamp v => { r with timestamp := v }
  | .ssrc v => { r with ssrc := v }

/-- A call replaces its own components. -/
def call (r : PacketRecord) : RecordCall → PacketRecord
  | .headerExtension profileSpecific words =>
      { r with profileSpecific, extensionWords := words }
  | .payload bytes => { r with payload := bytes }
  | .header setter => r.setHeader setter

end PacketRecord

/-- What a program does to one packet. -/
inductive RecordAction
  | construct (args : RtpPacketArgs)
  | call (c : RecordCall)
deriving DecidableEq, Repr

def RecordAction.apply (o : Option PacketRecord) : RecordAction → Option PacketRecord
  | .construct args => some (.ofArgs args)
  | .call c => o.map (·.call c)

/-- The record that a packet's own actions, in order, leave. -/
def replay (actions : List RecordAction) : Option PacketRecord :=
  actions.foldl RecordAction.apply none

/-- The abstract system: one record per packet, changed by actions on that packet. -/
def recordStep (records : Nat → Option PacketRecord) (action : Nat × RecordAction) :
    Option (Nat → Option PacketRecord) :=
  some (Function.update records action.1 (action.2.apply (records action.1)))

/-- The actions made on the packet `x`, in order. -/
def actionsOn (x : Nat) (actions : List (Nat × RecordAction)) : List RecordAction :=
  (actions.filter fun action => action.1 = x).map Prod.snd

/-- In the abstract system every record is the replay of its own actions. -/
theorem run_recordStep {records : Nat → Option PacketRecord}
    {actions : List (Nat × RecordAction)} {final : Nat → Option PacketRecord}
    (reached : run recordStep records actions = some final) (x : Nat) :
    final x = (actionsOn x actions).foldl RecordAction.apply (records x) := by
  induction actions generalizing records with
  | nil => cases reached; rfl
  | cons action actions ih =>
      obtain ⟨next, first, rest⟩ := run_cons_iff.mp reached
      cases first
      rw [ih rest]
      rcases eq_or_ne action.1 x with rfl | other
      · simp [actionsOn]
      · simp [actionsOn, other, Ne.symm other]

namespace World

/-- The record of a packet in a memory. -/
def record (mem : Memory) (p : RtpPacket) : PacketRecord where
  version := p.rtphdr.version
  padding := p.rtphdr.padding
  extension := p.rtphdr.extension
  csrcCount := p.rtphdr.csrcCount
  csrc := p.rtphdr.csrc
  marker := p.rtphdr.marker
  payloadType := p.rtphdr.payloadType
  sequenceNumber := p.rtphdr.sequenceNumber
  timestamp := p.rtphdr.timestamp
  ssrc := p.rtphdr.ssrc
  profileSpecific := p.rtphdrExt.profileSpecific
  extensionWords := mem.words.view p.rtphdrExt.extensions p.rtphdrExt.length.toNat
  payload := mem.bytes.view p.pPayload p.uPayloadLength.toNat

/-- The records of all the caller's packets. -/
def records (w : World) (x : Nat) : Option PacketRecord := (w.packets x).map (record w.mem)

/-- The action an operation performs, its arguments read in the memory before it. -/
def perform (w : World) : PacketOp → List (Nat × RecordAction)
  | .construct x args => [(x, .construct args)]
  | .setHeaderExtension x ext _ =>
      [(x, .call (.headerExtension ext.profileSpecific
        (w.mem.words.view ext.extensions ext.length.toNat)))]
  | .setPayload x payloadLength payload _ =>
      [(x, .call (.payload (w.mem.bytes.view payload payloadLength.toNat)))]
  | .setHeader x setter => [(x, .call (.header setter))]
  | _ => []

/-- A setter call with length 0, or with an array of at least the stated length;
allocation succeeds; and no packet is copied or destroyed. -/
def PlainCall (w : World) : PacketOp → Prop
  | .setHeaderExtension _ ext alloc => alloc = true ∧
      (ext.length = 0 ∨
        ∃ a ∈ ext.extensions, w.mem.words.HasCells a ext.length.toNat)
  | .setPayload _ payloadLength payload alloc => alloc = true ∧
      (payloadLength = 0 ∨
        ∃ a ∈ payload, w.mem.bytes.HasCells a payloadLength.toNat)
  | .copyConstruct _ _ | .copyAssign _ _ | .insertRtpPacket _ => False
  | .destroy _ | .destroySession => False
  | _ => True

instance (w : World) : ∀ op, Decidable (PlainCall w op)
  | .setHeaderExtension _ _ _ | .setPayload _ _ _ _ => inferInstanceAs (Decidable (_ ∧ _))
  | .copyConstruct _ _ | .copyAssign _ _ | .insertRtpPacket _ | .destroy _
  | .destroySession => isFalse id
  | .construct _ _ | .setHeader _ _ | .newByteArray _ | .newWordArray _ | .writeByte _ _ _
  | .writeWord _ _ _ => isTrue trivial

/-! ## Records seen through a change of memory -/

/-- A packet's record depends on the memory only where its pointers lead. -/
theorem record_congr {mem mem' : Memory} {p : RtpPacket}
    (bytes : ∀ i, p.pPayload = some i → ∀ n, mem'.bytes.read i n = mem.bytes.read i n)
    (words : ∀ i, p.rtphdrExt.extensions = some i → ∀ n,
      mem'.words.read i n = mem.words.read i n) :
    record mem' p = record mem p := by
  have payload : ∀ n, mem'.bytes.view p.pPayload n = mem.bytes.view p.pPayload n := by
    intro n
    cases holds : p.pPayload with
    | none => rfl
    | some i => exact bytes i holds n
  have extensions : ∀ n, mem'.words.view p.rtphdrExt.extensions n =
      mem.words.view p.rtphdrExt.extensions n := by
    intro n
    cases holds : p.rtphdrExt.extensions with
    | none => rfl
    | some i => exact words i holds n
  simp only [record, payload, extensions]

/-- If the memory changes only where no packet points, no record changes. -/
theorem records_congr {w : World} {mem : Memory} (kept : ReadsKept w mem) (x : Nat) :
    (w.packets x).map (record mem) = w.records x := by
  unfold records
  cases alive : w.packets x with
  | none => rfl
  | some p =>
      refine congrArg some (record_congr (fun i holds => ?_) (fun i holds => ?_))
      · exact kept.bytes x i (by simp [payloadOf, pointers, alive, holds])
      · exact kept.words x i (by simp [extensionsOf, pointers, alive, holds])

/-- Putting a packet at `x` changes the record of `x`, if no other packet can see
the change of memory. -/
theorem records_place {w : World} {mem : Memory} {x : Nat} {q : RtpPacket}
    (others : ∀ y, (w.packets y).map (record mem) = w.records y) (y : Nat) :
    (Function.update w.packets x (some q) y).map (record mem) =
      Function.update w.records x (some (record mem q)) y := by
  rcases eq_or_ne y x with rfl | other
  · simp
  · rw [Function.update_of_ne other, Function.update_of_ne other]
    exact others y

/-! ## One operation -/

/-- Putting at `x` a packet whose record is what the action makes of the old one is
the abstract step. -/
theorem recordStep_place {w : World} {mem : Memory} {x : Nat} {q : RtpPacket}
    {action : RecordAction} (result : action.apply (w.records x) = some (record mem q))
    (others : ∀ y, (w.packets y).map (record mem) = w.records y) :
    run recordStep w.records [(x, action)] =
      some fun y => (Function.update w.packets x (some q) y).map (record mem) := by
  simp only [run, recordStep, Option.bind_some, result]
  exact congrArg some (funext fun y => (records_place others y).symm)

/-- A change of memory no packet can see performs no action. -/
theorem recordStep_idle {w : World} {mem : Memory}
    (unseen : ∀ y, (w.packets y).map (record mem) = w.records y) :
    run recordStep w.records [] = some fun y => (w.packets y).map (record mem) :=
  congrArg some (funext fun y => (unseen y).symm)

theorem refines_setPayload {w : World} {x : Nat} {p : RtpPacket}
    (alive : w.packets x = some p) {payloadLength : UInt32} {payload : Option Nat}
    (kept : ReadsKept w (p.setPayload true w.mem payloadLength payload).mem)
    (plain : payloadLength = 0 ∨
      ∃ a ∈ payload, w.mem.bytes.HasCells a payloadLength.toNat) :
    run recordStep w.records
        [(x, .call (.payload (w.mem.bytes.view payload payloadLength.toNat)))] =
      some (w.finish x (p.setPayload true w.mem payloadLength payload)).records := by
  have here : w.records x = some (record w.mem p) := by simp [records, alive]
  have others := records_congr kept
  rcases p.setPayload_cases true w.mem payloadLength payload with
    ⟨mem, packet, skipped⟩ | ⟨src, rfl, positive, _, mem, packet⟩
  · -- nothing was copied, so the length is 0 and both sides are empty
    have zero : payloadLength = 0 := by
      rcases plain with zero | ⟨a, source, _⟩
      · exact zero
      · exact (skipped rfl).resolve_right (by simp [Option.mem_def.mp source])
    subst zero
    rw [mem] at others
    rw [finish, mem, packet]
    refine recordStep_place ?_ others
    simp [RecordAction.apply, here, PacketRecord.call, record]
  · have enough : w.mem.bytes.HasCells src payloadLength.toNat := by
      rcases plain with zero | ⟨a, source, enough⟩
      · simp [zero] at positive
      · cases source
        exact enough
    rw [mem] at others
    rw [finish, mem, packet]
    refine recordStep_place ?_ others
    simp [RecordAction.apply, here, PacketRecord.call, record, Heap.view,
      Heap.read_new_memcpy enough]

theorem refines_setHeaderExtension {w : World} {x : Nat} {p : RtpPacket}
    (alive : w.packets x = some p) {ext : RtpHeaderExtension}
    (kept : ReadsKept w (p.setHeaderExtension true w.mem ext).mem)
    (plain : ext.length = 0 ∨
      ∃ a ∈ ext.extensions, w.mem.words.HasCells a ext.length.toNat) :
    run recordStep w.records
        [(x, .call (.headerExtension ext.profileSpecific
          (w.mem.words.view ext.extensions ext.length.toNat)))] =
      some (w.finish x (p.setHeaderExtension true w.mem ext)).records := by
  have here : w.records x = some (record w.mem p) := by simp [records, alive]
  have others := records_congr kept
  rcases p.setHeaderExtension_cases true w.mem ext with
    ⟨mem, packet, skipped⟩ | ⟨src, source, positive, _, mem, packet⟩
  · have zero : ext.length = 0 := by
      rcases plain with zero | ⟨a, source, _⟩
      · exact zero
      · exact (skipped rfl).resolve_right (by simp [Option.mem_def.mp source])
    rw [mem] at others
    rw [finish, mem, packet]
    refine recordStep_place ?_ others
    simp [RecordAction.apply, here, PacketRecord.call, record, zero]
  · have enough : w.mem.words.HasCells src ext.length.toNat := by
      rcases plain with zero | ⟨a, same, enough⟩
      · simp [zero] at positive
      · cases source.symm.trans (Option.mem_def.mp same)
        exact enough
    rw [mem] at others
    rw [finish, mem, packet]
    refine recordStep_place ?_ others
    simp [RecordAction.apply, here, PacketRecord.call, record, Heap.view, source,
      Heap.read_new_memcpy enough]

/-- A header setter changes the record as it changes the header. -/
theorem record_setHeader (mem : Memory) (p : RtpPacket) (setter : HeaderSetter) :
    record mem (setter.call p) = (record mem p).setHeader setter := by
  cases setter <;> rfl

/-- A plain operation is, on the records, the action it performs. -/
theorem refines_step {w t : World} {op : PacketOp} (inv : FrameInv w)
    (plain : PlainCall w op) (h : w.step op = some t) :
    run recordStep w.records (w.perform op) = some t.records := by
  have kept := inv.step_read h
  cases Steps.of_step h with
  | construct fresh => exact recordStep_place rfl fun y => rfl
  | @setHeaderExtension x ext alloc p alive own =>
      obtain ⟨rfl, plain⟩ := plain
      exact refines_setHeaderExtension alive kept plain
  | @setPayload x payloadLength payload alloc p alive own =>
      obtain ⟨rfl, plain⟩ := plain
      exact refines_setPayload alive kept plain
  | @setHeader x setter p alive =>
      refine recordStep_place ?_ fun y => rfl
      simp [RecordAction.apply, records, alive, PacketRecord.call, record_setHeader]
  | newByteArray | newWordArray | writeByte | writeWord =>
      exact recordStep_idle (records_congr kept)
  | copyConstruct | copyAssign | insertRtpPacket | destroy | destroySession =>
      exact plain.elim

end World

/-- **A packet refines its record.** In a run of constructions, setter calls and
writes to the caller's arrays, the record of every packet is the replay of the
actions made on that packet, with the values their arguments had at the time. -/
theorem record_replays_calls {ops : List PacketOp} {w : World}
    (reached : run World.step World.init ops = some w)
    (plain : Along World.step World.PlainCall World.init ops) (x : Nat) :
    (w.packets x).map (World.record w.mem) =
      replay (actionsOn x (trace World.step World.perform World.init ops)) :=
  run_recordStep
    (run_refines (fun _ _ _ inv _ first => inv.step first)
      (fun _ _ _ inv plain first => World.refines_step inv plain first)
      World.frameInv_init plain reached) x

/-- Two packets, one given a payload from an array the caller changes afterwards. -/
def capturedRun : List PacketOp :=
  [.newByteArray 2, .writeByte 0 0 7, .construct 0 ⟨false, false, 0, true, 96, 5, 0, 9, [1]⟩,
    .construct 1 ⟨false, true, 1, false, 97, 6, 0, 9, [1]⟩, .setPayload 0 1 (some 0) true,
    .writeByte 0 0 8, .setPayload 1 0 none true, .setHeader 0 (.timestamp 160)]

/-- The payload keeps the value the array had at the time of the call. -/
theorem capturedRun_record :
    ∃ w, run World.step World.init capturedRun = some w ∧
      (w.packets 0).map (World.record w.mem) =
        some ⟨2, false, false, 0, [], true, 96, 5, 160, 9, 0, [], [some 7]⟩ := by
  have defined : (run World.step World.init capturedRun).isSome := by decide
  obtain ⟨w, reached⟩ := Option.isSome_iff_exists.mp defined
  exact ⟨w, reached, (record_replays_calls reached (by decide) 0).trans (by decide)⟩

/-! ## Calls whose allocation fails -/

namespace RtpPacket

/-- The call threw, and every member and all that can be read through the packet is as
before. -/
structure Intact (mem : Memory) (p : RtpPacket) (r : CallResult) : Prop where
  threw : r.outcome = .badAlloc
  packet : r.packet = p
  memory : r.mem = mem
  record : World.record r.mem r.packet = World.record mem p

/-- Both setters write what they are given before they allocate. -/
theorem setPayload_failing (mem : Memory) (p : RtpPacket) {payloadLength : UInt32}
    (positive : 0 < payloadLength) (src : Nat) :
    p.setPayload false mem payloadLength (some src) =
      ⟨.badAlloc, mem, { p with uPayloadLength := payloadLength }⟩ := by
  simp [setPayload, positive, Heap.newCopy]

theorem setHeaderExtension_failing (mem : Memory) (p : RtpPacket) {ext : RtpHeaderExtension}
    {src : Nat} (source : ext.extensions = some src) (positive : 0 < ext.length) :
    p.setHeaderExtension false mem ext =
      ⟨.badAlloc, mem, { p with
        rtphdrExt := { ext with extensions := p.rtphdrExt.extensions } }⟩ := by
  simp [setHeaderExtension, source, positive, Heap.newCopy]

/-- **Setters under allocation failure.** In every state a call whose allocation fails leaves
the packet as it was exactly when it was given the length, and for an extension the profile
word, that the packet already records. -/
theorem failed_call_intact_iff (mem : Memory) (p : RtpPacket) :
    (∀ (payloadLength : UInt32) (src : Nat), 0 < payloadLength →
      (Intact mem p (p.setPayload false mem payloadLength (some src)) ↔
        payloadLength = p.uPayloadLength)) ∧
    ∀ (ext : RtpHeaderExtension) (src : Nat), ext.extensions = some src → 0 < ext.length →
      (Intact mem p (p.setHeaderExtension false mem ext) ↔
        ext.profileSpecific = p.rtphdrExt.profileSpecific ∧
          ext.length = p.rtphdrExt.length) := by
  constructor
  · intro payloadLength src positive
    rw [setPayload_failing mem p positive src]
    constructor
    · intro intact
      exact congrArg uPayloadLength intact.packet
    · rintro rfl
      exact ⟨rfl, rfl, rfl, rfl⟩
  · intro ext src source positive
    rw [setHeaderExtension_failing mem p source positive]
    constructor
    · intro intact
      have packet := intact.packet
      exact ⟨congrArg (fun p : RtpPacket => p.rtphdrExt.profileSpecific) packet,
        congrArg (fun p : RtpPacket => p.rtphdrExt.length) packet⟩
    · intro same
      have packet :
          { p with rtphdrExt := { ext with extensions := p.rtphdrExt.extensions } } = p := by
        rw [same.1, same.2]
      exact ⟨rfl, packet, rfl, congrArg (World.record mem) packet⟩

/-- With a payload of one byte in place, a failing `SetPayload` of four bytes leaves a
recorded length of four over the old buffer. -/
theorem failed_call_keeps_length :
    ∃ w p, run World.step World.init
        [.newByteArray 4, .construct 0 ⟨false, false, 0, false, 96, 1, 0, 0, []⟩,
          .setPayload 0 1 (some 0) true] = some w ∧ w.packets 0 = some p ∧
      ¬ Intact w.mem p (p.setPayload false w.mem 4 (some 0)) ∧
      (p.setPayload false w.mem 4 (some 0)).packet.uPayloadLength = 4 ∧
      (p.setPayload false w.mem 4 (some 0)).packet.pPayload = some 1 ∧
      ¬ w.mem.bytes.HasCells 1 4 := by
  refine ⟨_, _, rfl, rfl, fun intact => ?_, rfl, rfl, by decide⟩
  cases intact.packet

/-- Failing calls that repeat what is recorded. -/
theorem failed_call_intact_repeated :
    let p := construct ⟨false, false, 0, false, 96, 1, 0, 0, []⟩
    let q := { p with uPayloadLength := 2, pPayload := some 1, rtphdrExt := ⟨7, 1, some 1⟩ }
    let mem : Memory := ⟨(Heap.new (Heap.new .empty 2) 2), (Heap.new (Heap.new .empty 1) 1)⟩
    Intact mem q (q.setPayload false mem 2 (some 0)) ∧
      Intact mem q (q.setHeaderExtension false mem ⟨7, 1, some 0⟩) := by
  intro p q mem
  exact ⟨((failed_call_intact_iff mem q).1 2 0 (by decide)).mpr rfl,
    ((failed_call_intact_iff mem q).2 ⟨7, 1, some 0⟩ 0 rfl (by decide)).mpr ⟨rfl, rfl⟩⟩

end RtpPacket

end OpenRtp
