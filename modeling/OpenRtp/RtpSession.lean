import Mathlib.Logic.Function.Basic
import OpenRtp.Base.Run
import OpenRtp.RtpPacket

/-!
# A session and the packets around it

`PacketVector` is `std::vector<RtpPacket>` as libstdc++ builds it: `push_back`
copy-constructs its argument into spare capacity, and with none left it allocates
twice the size, copy-constructs the new element and every old one there and
destroys the old ones.  `RtpPacket` declares a destructor and no move
constructor, so growth copies.

`World` is a program that uses the library: the memory, the arrays the caller
owns, the caller's packets by name, and one session.  `World.step` performs one
`PacketOp`, and refuses an operation no C++ program can make (using a packet that
is not alive, passing an array the caller does not own).
-/

namespace OpenRtp

/-- `std::vector<RtpPacket>`: its elements and its capacity. -/
structure PacketVector where
  elems : List RtpPacket
  capacity : Nat
deriving DecidableEq, Repr

namespace PacketVector

def empty : PacketVector := ⟨[], 0⟩

/-- `std::vector::push_back`; the capacity grows as `_M_check_len` computes it. -/
def pushBack (mem : Memory) (v : PacketVector) (p : RtpPacket) : Memory × PacketVector :=
  if v.elems.length < v.capacity then
    (mem, { v with elems := v.elems ++ [p.copyConstruct] })
  else
    (v.elems.foldl RtpPacket.destroy mem,
      { elems := v.elems.map RtpPacket.copyConstruct ++ [p.copyConstruct]
        capacity := v.elems.length + max v.elems.length 1 })

/-- `std::vector::clear` destroys the elements in order. -/
def clear (mem : Memory) (v : PacketVector) : Memory × PacketVector :=
  (v.elems.foldl RtpPacket.destroy mem, { v with elems := [] })

/-- Whatever the capacity, `push_back` appends a memberwise copy. -/
@[simp] theorem pushBack_elems (mem : Memory) (v : PacketVector) (p : RtpPacket) :
    (v.pushBack mem p).2.elems = v.elems ++ [p] := by
  unfold pushBack
  split
  · rfl
  · exact congrArg (· ++ [p]) (List.map_id v.elems)

end PacketVector

/-- `RtpSession::InsertRtpPacket` between `Lock` and `Unlock`. -/
def RtpSession.insertRtpPacket (mem : Memory) (vRtpPackets : PacketVector)
    (rtppacket : RtpPacket) : Memory × PacketVector :=
  vRtpPackets.pushBack mem rtppacket

/-- `RtpSession::~RtpSession`: the body clears the vector, whose own destructor then
finds it empty. -/
def RtpSession.destroy (mem : Memory) (vRtpPackets : PacketVector) : Memory :=
  let (mem, cleared) := vRtpPackets.clear mem
  (cleared.clear mem).1

/-- A program using the library.  Packets and arrays the caller has are named; the
session is `none` once destroyed. -/
structure World where
  mem : Memory
  byteArrays : List Nat
  wordArrays : List Nat
  packets : Nat → Option RtpPacket
  session : Option PacketVector

/-- One operation of the program. -/
inductive PacketOp
  /-- `RtpPacket x(...)`, the nine-argument constructor. -/
  | construct (x : Nat) (args : RtpPacketArgs)
  /-- `RtpPacket x(y)`. -/
  | copyConstruct (x y : Nat)
  /-- `x = y`. -/
  | copyAssign (x y : Nat)
  | setHeaderExtension (x : Nat) (ext : RtpHeaderExtension) (alloc : Bool)
  | setPayload (x : Nat) (payloadLength : UInt32) (payload : Option Nat) (alloc : Bool)
  | setHeader (x : Nat) (setter : HeaderSetter)
  | insertRtpPacket (x : Nat)
  | destroy (x : Nat)
  | destroySession
  /-- The caller makes an array of its own. -/
  | newByteArray (n : Nat)
  | newWordArray (n : Nat)
  /-- The caller writes to an array of its own. -/
  | writeByte (a k : Nat) (v : UInt8)
  | writeWord (a k : Nat) (v : UInt32)
deriving DecidableEq, Repr

namespace World

def init : World where
  mem := ⟨Table.empty, Table.empty⟩
  byteArrays := []
  wordArrays := []
  packets := fun _ => none
  session := some PacketVector.empty

/-- Replace the packet `x` and the memory by what a call on `x` left. -/
def finish (w : World) (x : Nat) (r : CallResult) : World :=
  { w with mem := r.mem, packets := Function.update w.packets x (some r.packet) }

def step (w : World) : PacketOp → Option World
  | .construct x args =>
      match w.packets x with
      | some _ => none
      | none =>
          some { w with packets := Function.update w.packets x (some (.construct args)) }
  | .copyConstruct x y =>
      match w.packets x, w.packets y with
      | none, some p =>
          some { w with packets := Function.update w.packets x (some p.copyConstruct) }
      | _, _ => none
  | .copyAssign x y =>
      match w.packets x, w.packets y with
      | some _, some p =>
          some { w with packets := Function.update w.packets x (some p.copyConstruct) }
      | _, _ => none
  | .setHeaderExtension x ext alloc =>
      match w.packets x with
      | none => none
      | some p =>
          if ext.extensions.all (· ∈ w.wordArrays) then
            some (w.finish x (p.setHeaderExtension alloc w.mem ext))
          else none
  | .setPayload x payloadLength payload alloc =>
      match w.packets x with
      | none => none
      | some p =>
          if payload.all (· ∈ w.byteArrays) then
            some (w.finish x (p.setPayload alloc w.mem payloadLength payload))
          else none
  | .setHeader x setter =>
      match w.packets x with
      | none => none
      | some p => some { w with packets := Function.update w.packets x (some (setter.call p)) }
  | .insertRtpPacket x =>
      match w.packets x, w.session with
      | some p, some v =>
          let (mem, v) := RtpSession.insertRtpPacket w.mem v p
          some { w with mem, session := some v }
      | _, _ => none
  | .destroy x =>
      match w.packets x with
      | none => none
      | some p =>
          some { w with
            mem := p.destroy w.mem, packets := Function.update w.packets x none }
  | .destroySession =>
      match w.session with
      | none => none
      | some v => some { w with mem := RtpSession.destroy w.mem v, session := none }
  | .newByteArray n =>
      some { w with
        mem := { w.mem with bytes := w.mem.bytes.new n }
        byteArrays := w.byteArrays ++ [w.mem.bytes.size] }
  | .newWordArray n =>
      some { w with
        mem := { w.mem with words := w.mem.words.new n }
        wordArrays := w.wordArrays ++ [w.mem.words.size] }
  | .writeByte a k v =>
      if a ∈ w.byteArrays then
        some { w with mem := { w.mem with bytes := w.mem.bytes.store a k v } }
      else none
  | .writeWord a k v =>
      if a ∈ w.wordArrays then
        some { w with mem := { w.mem with words := w.mem.words.store a k v } }
      else none

/-- What one operation does, with the guards it was allowed under. -/
inductive Steps (w : World) : PacketOp → World → Prop
  | construct {x args} (fresh : w.packets x = none) :
      Steps w (.construct x args)
        { w with packets := Function.update w.packets x (some (.construct args)) }
  | copyConstruct {x y p} (fresh : w.packets x = none) (alive : w.packets y = some p) :
      Steps w (.copyConstruct x y)
        { w with packets := Function.update w.packets x (some p) }
  | copyAssign {x y q p} (target : w.packets x = some q) (alive : w.packets y = some p) :
      Steps w (.copyAssign x y)
        { w with packets := Function.update w.packets x (some p) }
  | setHeaderExtension {x ext alloc p} (alive : w.packets x = some p)
      (own : ∀ a, ext.extensions = some a → a ∈ w.wordArrays) :
      Steps w (.setHeaderExtension x ext alloc)
        (w.finish x (p.setHeaderExtension alloc w.mem ext))
  | setPayload {x payloadLength payload alloc p} (alive : w.packets x = some p)
      (own : ∀ a, payload = some a → a ∈ w.byteArrays) :
      Steps w (.setPayload x payloadLength payload alloc)
        (w.finish x (p.setPayload alloc w.mem payloadLength payload))
  | setHeader {x setter p} (alive : w.packets x = some p) :
      Steps w (.setHeader x setter)
        { w with packets := Function.update w.packets x (some (setter.call p)) }
  | insertRtpPacket {x p v} (alive : w.packets x = some p) (session : w.session = some v) :
      Steps w (.insertRtpPacket x)
        { w with
          mem := (v.pushBack w.mem p).1, session := some (v.pushBack w.mem p).2 }
  | destroy {x p} (alive : w.packets x = some p) :
      Steps w (.destroy x)
        { w with mem := p.destroy w.mem, packets := Function.update w.packets x none }
  | destroySession {v} (session : w.session = some v) :
      Steps w .destroySession
        { w with mem := v.elems.foldl RtpPacket.destroy w.mem, session := none }
  | newByteArray {n} :
      Steps w (.newByteArray n)
        { w with
          mem := { w.mem with bytes := w.mem.bytes.new n }
          byteArrays := w.byteArrays ++ [w.mem.bytes.size] }
  | newWordArray {n} :
      Steps w (.newWordArray n)
        { w with
          mem := { w.mem with words := w.mem.words.new n }
          wordArrays := w.wordArrays ++ [w.mem.words.size] }
  | writeByte {a k v} (own : a ∈ w.byteArrays) :
      Steps w (.writeByte a k v)
        { w with mem := { w.mem with bytes := w.mem.bytes.store a k v } }
  | writeWord {a k v} (own : a ∈ w.wordArrays) :
      Steps w (.writeWord a k v)
        { w with mem := { w.mem with words := w.mem.words.store a k v } }

/-- Every allowed operation is one of the above. -/
theorem Steps.of_step {w t : World} {op : PacketOp} (h : w.step op = some t) :
    Steps w op t := by
  cases op with
  | construct x args =>
      cases fresh : w.packets x with
      | some p => simp [step, fresh] at h
      | none =>
          simp only [step, fresh, Option.some.injEq] at h
          exact h ▸ .construct fresh
  | copyConstruct x y =>
      cases fresh : w.packets x with
      | some q => simp [step, fresh] at h
      | none =>
          cases alive : w.packets y with
          | none => simp [step, fresh, alive] at h
          | some p =>
              simp only [step, fresh, alive, Option.some.injEq] at h
              exact h ▸ .copyConstruct fresh alive
  | copyAssign x y =>
      cases target : w.packets x with
      | none => simp [step, target] at h
      | some q =>
          cases alive : w.packets y with
          | none => simp [step, target, alive] at h
          | some p =>
              simp only [step, target, alive, Option.some.injEq] at h
              exact h ▸ .copyAssign target alive
  | setHeaderExtension x ext alloc =>
      cases alive : w.packets x with
      | none => simp [step, alive] at h
      | some p =>
          simp only [step, alive, Option.ite_none_right_eq_some, Option.some.injEq] at h
          obtain ⟨own, rfl⟩ := h
          exact .setHeaderExtension alive fun a source => by simpa [source] using own
  | setPayload x payloadLength payload alloc =>
      cases alive : w.packets x with
      | none => simp [step, alive] at h
      | some p =>
          simp only [step, alive, Option.ite_none_right_eq_some, Option.some.injEq] at h
          obtain ⟨own, rfl⟩ := h
          exact .setPayload alive fun a source => by simpa [source] using own
  | setHeader x setter =>
      cases alive : w.packets x with
      | none => simp [step, alive] at h
      | some p =>
          simp only [step, alive, Option.some.injEq] at h
          exact h ▸ .setHeader alive
  | insertRtpPacket x =>
      cases alive : w.packets x with
      | none => simp [step, alive] at h
      | some p =>
          cases session : w.session with
          | none => simp [step, alive, session] at h
          | some v =>
              simp only [step, alive, session, Option.some.injEq] at h
              exact h ▸ .insertRtpPacket alive session
  | destroy x =>
      cases alive : w.packets x with
      | none => simp [step, alive] at h
      | some p =>
          simp only [step, alive, Option.some.injEq] at h
          exact h ▸ .destroy alive
  | destroySession =>
      cases session : w.session with
      | none => simp [step, session] at h
      | some v =>
          simp only [step, session, Option.some.injEq] at h
          exact h ▸ .destroySession session
  | newByteArray n =>
      cases h
      exact .newByteArray
  | newWordArray n =>
      cases h
      exact .newWordArray
  | writeByte a k v =>
      simp only [step, Option.ite_none_right_eq_some, Option.some.injEq] at h
      obtain ⟨own, rfl⟩ := h
      exact .writeByte own
  | writeWord a k v =>
      simp only [step, Option.ite_none_right_eq_some, Option.some.injEq] at h
      obtain ⟨own, rfl⟩ := h
      exact .writeWord own

end World

end OpenRtp
