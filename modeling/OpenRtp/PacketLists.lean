import OpenRtp.CsrcList
import OpenRtp.RtpSession

/-!
# Packets with their lists in memory

`World` holds the CSRC list of a packet as a value, `CsrcLists` has the list objects that the
library makes.  Here every packet of a `World`, the caller's and the elements of the session,
has a list object of its own: `listOps` gives the operations on list objects that an operation
of the program comes down to, with the list a caller builds for an argument and with the copies
that a growing vector makes and the elements it then destroys.

`lists_refine` says that the list operations of every run end, on list objects that hold what the
packets hold; a list is alive exactly as long as its packet.
-/

namespace OpenRtp

open CircularList

/-! ## Operations on the values of living objects -/

namespace CsrcOp

/-- The default constructor leaves an object without a value. -/
def givesValue : CsrcOp → Bool
  | defaultConstruct _ => false
  | _ => true

/-- The operation on what the living objects hold. -/
def step (values : CsrcObject → Option (List UInt32)) (op : CsrcOp) :
    Option (CsrcObject → Option (List UInt32)) :=
  if op.givesValue && op.allowed fun l => (values l).isSome then some (op.after values) else none

variable {values values' : CsrcObject → Option (List UInt32)} {op : CsrcOp} {ops : List CsrcOp}

theorem step_of_allowed (given : op.givesValue = true)
    (allowed : op.allowed (fun l => (values l).isSome) = true) :
    step values op = some (op.after values) := by
  rw [step, given, allowed]
  rfl

theorem run_cons_of_allowed (given : op.givesValue = true)
    (allowed : op.allowed (fun l => (values l).isSome) = true)
    (rest : run step (op.after values) ops = some values') :
    run step values (op :: ops) = some values' :=
  run_cons_iff.mpr ⟨_, step_of_allowed given allowed, rest⟩

end CsrcOp

namespace CsrcLists

variable {s t : CsrcLists} {values values' : CsrcObject → Option (List UInt32)} {op : CsrcOp}
  {ops : List CsrcOp}

/-- The living objects are those with a value, and each is a ring that holds it. -/
structure Holding (s : CsrcLists) (values : CsrcObject → Option (List UInt32)) : Prop where
  live : ∀ l, s.live l = (values l).isSome
  represents : Represents s.mem s.live values

theorem holding_init : Holding init fun _ => none := ⟨fun _ => rfl, represents_init _⟩

theorem Holding.step (holding : Holding s values) (stepped : op.step values = some values') :
    ∃ t, s.step op = some t ∧ Holding t values' := by
  unfold CsrcOp.step at stepped
  split at stepped
  · next able =>
      cases stepped
      obtain ⟨given, allowed⟩ := Bool.and_eq_true_iff.mp able
      have alive : (fun l => (values l).isSome) = s.live := funext fun l => (holding.live l).symm
      rw [alive] at allowed
      have rings : ∀ l, s.live l = true → values l ≠ none := fun l alive =>
        Option.isSome_iff_ne_none.mp ((holding.live l).symm.trans alive)
      cases perform_ends holding.represents allowed with
      | fault l alive cleared fails => exact absurd cleared (rings l alive)
      | ok m' done frame holds stays =>
          have stepped := step_eq_some_iff.mpr ⟨allowed, m', done, rfl⟩
          refine ⟨_, stepped, fun l => ?_, (step_represents holding.represents stepped).1⟩
          dsimp only
          rcases eq_or_ne l op.target with rfl | other
          · rw [Function.update_self, CsrcOp.after, Function.update_self]
            cases leaves : op.leavesAlive with
            | true =>
                refine (Option.isSome_iff_ne_none.mpr ?_).symm
                refine value_ne_none (fun x built => ?_) rings allowed leaves
                rw [built] at given
                cases given
            | false => cases op <;> first | rfl | cases leaves
          · rw [Function.update_of_ne other, CsrcOp.after, Function.update_of_ne other]
            exact holding.live l
  · cases stepped

theorem Holding.run (holding : Holding s values)
    (ended : run CsrcOp.step values ops = some values') :
    ∃ t, run CsrcLists.step s ops = some t ∧ Holding t values' := by
  induction ops generalizing s values with
  | nil => cases ended; exact ⟨s, rfl, holding⟩
  | cons op ops ih =>
      obtain ⟨u, first, rest⟩ := run_cons_iff.mp ended
      obtain ⟨t, stepped, held⟩ := holding.step first
      obtain ⟨t', reached, held⟩ := ih held rest
      exact ⟨t', run_cons_iff.mpr ⟨t, stepped, reached⟩, held⟩

end CsrcLists

/-! ## The objects of a program -/

/-- What the objects hold: those of the caller's packets at even numbers, those of the storage
of the vector at odd ones, and no list of the caller. -/
def layout (names slots : Nat → Option (List UInt32)) : CsrcObject → Option (List UInt32)
  | .caller _ => none
  | .packet n => if n % 2 = 0 then names (n / 2) else slots (n / 2)

section

variable {names slots : Nat → Option (List UInt32)} {x k : Nat} {v : Option (List UInt32)}

@[simp] theorem layout_caller : layout names slots (.caller k) = none := rfl

@[simp] theorem layout_name : layout names slots (.packet (2 * x)) = names x := by
  rw [layout, if_pos (by omega), Nat.mul_div_cancel_left x (by decide)]

@[simp] theorem layout_slot : layout names slots (.packet (2 * k + 1)) = slots k := by
  rw [layout, if_neg (by omega)]
  exact congrArg slots (by omega)

theorem update_layout_name : Function.update (layout names slots) (.packet (2 * x)) v =
    layout (Function.update names x v) slots := by
  funext l
  cases l with
  | caller k => simp
  | packet n =>
      simp only [Function.update_apply, layout, CsrcObject.packet.injEq]
      split
      · next here => rw [if_pos (by omega), if_pos (by omega)]
      · next other =>
          split
          · rw [if_neg (by omega)]
          · rfl

theorem update_layout_slot : Function.update (layout names slots) (.packet (2 * k + 1)) v =
    layout names (Function.update slots k v) := by
  funext l
  cases l with
  | caller k => simp
  | packet n =>
      simp only [Function.update_apply, layout, CsrcObject.packet.injEq]
      split
      · next here => rw [if_neg (by omega), if_pos (by omega)]
      · next other =>
          split
          · rfl
          · rw [if_neg (by omega)]

end

/-- The storage of a vector from slot `base` on. -/
def slots (base : Nat) (elems : List RtpPacket) (k : Nat) : Option (List UInt32) :=
  if base ≤ k then (elems[k - base]?).map fun p => p.rtphdr.csrc else none

namespace World

def names (w : World) (x : Nat) : Option (List UInt32) := (w.packets x).map fun p => p.rtphdr.csrc

def elems (w : World) : List RtpPacket := (w.session.map PacketVector.elems).getD []

/-- What the list objects of the program hold, with the storage of the session at `base`. -/
def lists (w : World) (base : Nat) : CsrcObject → Option (List UInt32) :=
  layout w.names (slots base w.elems)

/-- A list that the caller builds for one call, and the call. -/
def withList (xs : List UInt32) (call : CsrcObject → CsrcOp) : List CsrcOp :=
  .newList 0 :: xs.map (.pushBack (.caller 0)) ++ [call (.caller 0), .destroy (.caller 0)]

/-- `push_back` into storage at `base`: the new storage of a vector that grows follows the
old one. -/
def pushOps (base : Nat) (v : PacketVector) (x : Nat) : List CsrcOp :=
  if v.elems.length < v.capacity then [.copyConstruct (2 * (base + v.elems.length) + 1) (2 * x)]
  else
    .copyConstruct (2 * (base + v.capacity + v.elems.length) + 1) (2 * x) ::
      (List.range v.elems.length).map (fun i =>
        .copyConstruct (2 * (base + v.capacity + i) + 1) (2 * (base + i) + 1)) ++
      (List.range v.elems.length).map fun i => .destroy (.packet (2 * (base + i) + 1))

/-- What an operation of the program does to list objects. -/
def listOps (w : World) (base : Nat) : PacketOp → List CsrcOp
  | .construct x args => withList args.csrc (.construct (2 * x) args.csrcCount)
  | .copyConstruct x y => [.copyConstruct (2 * x) (2 * y)]
  | .copyAssign x y => [.copyAssign (2 * x) (2 * y)]
  | .setHeader x (.csrc v) => withList v (.setCsrc (2 * x))
  | .insertRtpPacket x => (w.session.map fun v => pushOps base v x).getD []
  | .destroy x => [.destroy (.packet (2 * x))]
  | .destroySession =>
      (List.range w.elems.length).map fun i => .destroy (.packet (2 * (base + i) + 1))
  | _ => []

/-- Where the storage is afterwards. -/
def nextBase (w : World) (base : Nat) : PacketOp → Nat
  | .insertRtpPacket _ =>
      match w.session with
      | some v => if v.elems.length < v.capacity then base else base + v.capacity
      | none => base
  | _ => base

end World

/-! ## Building a list for a call -/

section

variable {values values' : CsrcObject → Option (List UInt32)} {k : Nat}
  {names : Nat → Option (List UInt32)} {elems : List RtpPacket} {base : Nat}

theorem run_pushes (xs ys : List UInt32) (here : values (.caller k) = some ys) :
    run CsrcOp.step values (xs.map (.pushBack (.caller k))) =
      some (Function.update values (.caller k) (some (ys ++ xs))) := by
  induction xs generalizing values ys with
  | nil =>
      rw [List.append_nil, ← here, Function.update_eq_self]
      rfl
  | cons v xs ih =>
      refine CsrcOp.run_cons_of_allowed rfl (by simp [CsrcOp.allowed, here]) ?_
      have pushed : CsrcOp.after values (.pushBack (.caller k) v) =
          Function.update values (.caller k) (some (ys ++ [v])) := by
        simp [CsrcOp.after, CsrcOp.target, CsrcOp.value, here]
      rw [pushed, ih (ys ++ [v]) (Function.update_self ..), Function.update_idem, List.append_assoc,
        List.singleton_append]

/-- The list of the caller is there during the call only. -/
theorem run_withList {xs : List UInt32} {call : CsrcObject → CsrcOp}
    (free : values (.caller 0) = none) (given : (call (.caller 0)).givesValue = true)
    (elsewhere : (call (.caller 0)).target ≠ .caller 0)
    (allowed : (call (.caller 0)).allowed (fun l =>
      (Function.update values (.caller 0) (some xs) l).isSome) = true) :
    run CsrcOp.step values (World.withList xs call) =
      some (Function.update values (call (.caller 0)).target
        ((call (.caller 0)).value (Function.update values (.caller 0) (some xs)))) := by
  have built : run CsrcOp.step (Function.update values (.caller 0) (some []))
      (xs.map (.pushBack (.caller 0))) = some (Function.update values (.caller 0) (some xs)) := by
    rw [run_pushes xs [] (Function.update_self ..), Function.update_idem, List.nil_append]
  refine CsrcOp.run_cons_of_allowed rfl (by simp [CsrcOp.allowed, free]) ?_
  refine run_append_iff.mpr ⟨_, built, ?_⟩
  refine CsrcOp.run_cons_of_allowed given allowed (CsrcOp.run_cons_of_allowed rfl ?_ ?_)
  · simp [CsrcOp.allowed, CsrcOp.after, Function.update_of_ne elsewhere.symm]
  · have restored : Function.update values (.caller 0) none = values := by
      rw [← free, Function.update_eq_self]
    refine congrArg some ?_
    change Function.update (Function.update (Function.update values (.caller 0) (some xs)) _ _)
      (.caller 0) none = _
    rw [Function.update_comm elsewhere, Function.update_idem, restored]

/-! ## The storage of the vector -/

theorem slots_of_lt {i : Nat} (inside : i < elems.length) :
    slots base elems (base + i) = some elems[i].rtphdr.csrc := by
  simp [slots, inside]

theorem slots_of_outside (outside : k < base ∨ base + elems.length ≤ k) :
    slots base elems k = none := by
  unfold slots
  split
  · have last : elems.length ≤ k - base := by omega
    rw [List.getElem?_eq_none last]
    rfl
  · rfl

/-- A new element at the end. -/
theorem slots_append (p : RtpPacket) : slots base (elems ++ [p]) =
    Function.update (slots base elems) (base + elems.length) (some p.rtphdr.csrc) := by
  funext k
  rw [Function.update_apply]
  rcases Nat.lt_or_ge k base with below | above
  · rw [slots_of_outside (.inl below), if_neg (by omega), slots_of_outside (.inl below)]
  · obtain ⟨i, rfl⟩ := Nat.exists_eq_add_of_le above
    rcases Nat.lt_trichotomy i elems.length with inside | rfl | outside
    · simp [slots, List.getElem?_append_left inside, Nat.ne_of_lt inside]
    · simp [slots]
    · rw [slots_of_outside (.inr (by rw [List.length_append, List.length_singleton]; omega)),
        if_neg (by omega), slots_of_outside (.inr (by omega))]

/-- The old elements copied to new storage. -/
theorem run_copies {slots : Nat → Option (List UInt32)} {old new n : Nat}
    (apart : old + n ≤ new) (full : ∀ i < n, (slots (old + i)).isSome = true)
    (free : ∀ i < n, slots (new + i) = none) :
    run CsrcOp.step (layout names slots) ((List.range n).map fun i =>
        .copyConstruct (2 * (new + i) + 1) (2 * (old + i) + 1)) =
      some (layout names fun k =>
        if new ≤ k ∧ k < new + n then slots (old + (k - new)) else slots k) := by
  induction n with
  | zero =>
      have same : (fun k => if new ≤ k ∧ k < new + 0 then slots (old + (k - new)) else slots k) =
          slots := funext fun k => if_neg (by omega)
      rw [same]
      rfl
  | succ n ih =>
      rw [List.range_succ, List.map_append, List.map_singleton]
      refine run_concat_iff.mpr ⟨_, ih (by omega) (fun i less => full i (by omega))
        (fun i less => free i (by omega)), ?_⟩
      have source : (slots (old + n)).isSome = true := full n (by omega)
      have target : slots (new + n) = none := free n (by omega)
      refine (CsrcOp.step_of_allowed rfl ?_).trans (congrArg some ?_)
      · simp only [CsrcOp.allowed, layout_slot]
        rw [if_neg (by omega), if_neg (by omega), target, source]
        rfl
      · simp only [CsrcOp.after, CsrcOp.target, CsrcOp.value, layout_slot, update_layout_slot]
        refine congrArg (layout names) (funext fun k => ?_)
        rw [Function.update_apply]
        split
        · next here =>
            rw [if_neg (by omega), if_pos (by omega), here, Nat.add_sub_cancel_left]
        · next other => exact if_congr (by omega) rfl rfl

/-- Elements destroyed in order. -/
theorem run_destroys {slots : Nat → Option (List UInt32)} {old n : Nat}
    (full : ∀ i < n, (slots (old + i)).isSome = true) :
    run CsrcOp.step (layout names slots) ((List.range n).map fun i =>
        .destroy (.packet (2 * (old + i) + 1))) =
      some (layout names fun k => if old ≤ k ∧ k < old + n then none else slots k) := by
  induction n with
  | zero =>
      have same : (fun k => if old ≤ k ∧ k < old + 0 then none else slots k) = slots :=
        funext fun k => if_neg (by omega)
      rw [same]
      rfl
  | succ n ih =>
      rw [List.range_succ, List.map_append, List.map_singleton]
      refine run_concat_iff.mpr ⟨_, ih (fun i less => full i (by omega)), ?_⟩
      have alive : (slots (old + n)).isSome = true := full n (by omega)
      refine (CsrcOp.step_of_allowed rfl ?_).trans (congrArg some ?_)
      · simp only [CsrcOp.allowed, layout_slot]
        rwa [if_neg (by omega)]
      · simp only [CsrcOp.after, CsrcOp.target, CsrcOp.value, update_layout_slot]
        refine congrArg (layout names) (funext fun k => ?_)
        rw [Function.update_apply]
        split
        · next here => rw [if_pos (by omega)]
        · next other => exact if_congr (by omega) rfl rfl

/-- The storage at `base`, and in new storage at `new` the element that is pushed. -/
def growing (base new : Nat) (elems : List RtpPacket) (p : RtpPacket) :
    Nat → Option (List UInt32) :=
  Function.update (slots base elems) (new + elems.length) (some p.rtphdr.csrc)

theorem growing_of_ne {new : Nat} {p : RtpPacket} (other : k ≠ new + elems.length) :
    growing base new elems p k = slots base elems k :=
  Function.update_of_ne other _ _

/-- What is left when the old elements are copied and destroyed. -/
theorem slots_grown {new : Nat} (p : RtpPacket) (apart : base + elems.length ≤ new) :
    (fun k => if base ≤ k ∧ k < base + elems.length then none
      else if new ≤ k ∧ k < new + elems.length then growing base new elems p (base + (k - new))
      else growing base new elems p k) = slots new (elems ++ [p]) := by
  funext k
  rcases Nat.lt_or_ge k new with below | above
  · rw [slots_of_outside (.inl below)]
    split
    · rfl
    · next outside =>
        rw [if_neg (by omega), growing_of_ne (by omega), slots_of_outside (by omega)]
  · obtain ⟨i, rfl⟩ := Nat.exists_eq_add_of_le above
    rw [if_neg (by omega), slots_append]
    split
    · next inside =>
        rw [growing_of_ne (by omega), Function.update_of_ne (by omega), Nat.add_sub_cancel_left,
          slots_of_lt (by omega), slots_of_lt (by omega)]
    · next last =>
        rw [growing, Function.update_apply, Function.update_apply]
        split
        · rfl
        · rw [slots_of_outside (.inr (by omega)), slots_of_outside (.inr (by omega))]

/-- `push_back`, in place or by growing. -/
theorem run_pushOps {v : PacketVector} {x : Nat} {p : RtpPacket}
    (source : names x = some p.rtphdr.csrc) (fits : v.elems.length ≤ v.capacity) :
    run CsrcOp.step (layout names (slots base v.elems)) (World.pushOps base v x) =
      some (layout names (slots (if v.elems.length < v.capacity then base else base + v.capacity)
        (v.elems ++ [p]))) := by
  unfold World.pushOps
  split
  · have free : slots base v.elems (base + v.elems.length) = none :=
      slots_of_outside (.inr (Nat.le_refl _))
    refine CsrcOp.run_cons_of_allowed rfl ?_ (congrArg some ?_)
    · simp [CsrcOp.allowed, source, free]
    · simp only [CsrcOp.after, CsrcOp.target, CsrcOp.value, layout_name, source]
      rw [update_layout_slot, slots_append]
  · have free : ∀ i ≤ v.elems.length, slots base v.elems (base + v.capacity + i) = none :=
      fun i less => slots_of_outside (.inr (by omega))
    have full : ∀ i < v.elems.length,
        (growing base (base + v.capacity) v.elems p (base + i)).isSome = true := fun i less => by
      rw [growing_of_ne (by omega), slots_of_lt less]
      rfl
    have copied : run CsrcOp.step (layout names (growing base (base + v.capacity) v.elems p))
        ((List.range v.elems.length).map fun i =>
          .copyConstruct (2 * (base + v.capacity + i) + 1) (2 * (base + i) + 1)) = some _ :=
      run_copies (by omega) full fun i less => by
        rw [growing_of_ne (by omega), free i (Nat.le_of_lt less)]
    have destroyed : run CsrcOp.step (layout names fun k =>
        if base + v.capacity ≤ k ∧ k < base + v.capacity + v.elems.length then
          growing base (base + v.capacity) v.elems p (base + (k - (base + v.capacity)))
        else growing base (base + v.capacity) v.elems p k)
        ((List.range v.elems.length).map fun i => .destroy (.packet (2 * (base + i) + 1))) =
          some _ :=
      run_destroys fun i less => by
        rw [if_neg (by omega)]
        exact full i less
    rw [slots_grown p (by omega)] at destroyed
    refine run_append_iff.mpr ⟨_, CsrcOp.run_cons_of_allowed rfl ?_ ?_, destroyed⟩
    · simp [CsrcOp.allowed, source, free]
    · simp only [CsrcOp.after, CsrcOp.target, CsrcOp.value, layout_name, source]
      rw [update_layout_slot]
      exact copied

end

namespace World

variable {w t : World} {op : PacketOp} {base x k : Nat} {p : RtpPacket}

/-! ## One operation of the program -/

/-- The storage of the session has room for its elements. -/
def Fits (w : World) : Prop := ∀ v, w.session = some v → v.elems.length ≤ v.capacity

theorem Steps.fits (h : Steps w op t) (fits : w.Fits) : t.Fits := by
  cases h with
  | @insertRtpPacket x p v alive session =>
      rintro _ ⟨⟩
      have before := fits v session
      rw [PacketVector.pushBack_elems, List.length_append, List.length_singleton]
      unfold PacketVector.pushBack
      split
      · next room => exact room
      · exact Nat.add_le_add_left (Nat.le_max_right _ _) _
  | destroySession => exact nofun
  | construct | copyConstruct | copyAssign | setHeaderExtension | setPayload | setHeader | destroy
  | newByteArray | newWordArray | writeByte | writeWord => exact fits

theorem names_update (packet : Option RtpPacket) :
    names { w with packets := Function.update w.packets x packet } =
      Function.update w.names x (packet.map fun p => p.rtphdr.csrc) := by
  funext y
  simp only [names, Function.update_apply]
  split <;> rfl

/-- Replacing the packet `x` replaces the list at its place. -/
theorem lists_update (packet : Option RtpPacket) :
    lists { w with packets := Function.update w.packets x packet } base =
      Function.update (w.lists base) (.packet (2 * x)) (packet.map fun p => p.rtphdr.csrc) := by
  rw [lists, lists, update_layout_name, names_update]
  rfl

theorem lists_name (x base : Nat) :
    w.lists base (.packet (2 * x)) = (w.packets x).map fun p => p.rtphdr.csrc :=
  layout_name

/-- An operation on a packet that leaves its list alone. -/
theorem lists_of_csrc {packet : RtpPacket} (alive : w.packets x = some p)
    (same : packet.rtphdr.csrc = p.rtphdr.csrc) :
    lists { w with packets := Function.update w.packets x (some packet) } base = w.lists base := by
  rw [lists_update, Option.map_some, same]
  refine Function.update_eq_self_iff.mpr ?_
  rw [lists_name, alive]
  rfl

theorem run_construct (args : RtpPacketArgs) (fresh : w.packets x = none) :
    run CsrcOp.step (w.lists base) (withList args.csrc (.construct (2 * x) args.csrcCount)) =
      some (lists { w with packets := Function.update w.packets x (some (.construct args)) }
        base) := by
  rw [run_withList rfl rfl (by simp [CsrcOp.target]), lists_update]
  · refine congrArg some (congrArg (Function.update _ _) ?_)
    simp only [CsrcOp.value, Function.update_self, RtpPacket.construct, Option.map_some]
    split <;> rfl
  · simp [CsrcOp.allowed, lists_name, fresh]

theorem run_setCsrc (v : List UInt32) (alive : w.packets x = some p) :
    run CsrcOp.step (w.lists base) (withList v (.setCsrc (2 * x))) =
      some (lists { w with packets := Function.update w.packets x (some (p.setCsrc v)) } base) := by
  rw [run_withList rfl rfl (by simp [CsrcOp.target]), lists_update]
  · refine congrArg some (congrArg (Function.update _ _) ?_)
    simp [CsrcOp.value, RtpPacket.setCsrc]
  · simp [CsrcOp.allowed, lists_name, alive]

theorem setPayload_csrc (alloc : Bool) (mem : Memory) (p : RtpPacket) (payloadLength : UInt32)
    (payload : Option Nat) :
    (p.setPayload alloc mem payloadLength payload).packet.rtphdr.csrc = p.rtphdr.csrc := by
  rcases RtpPacket.setPayload_cases alloc mem p payloadLength payload with
    ⟨_, packet, _⟩ | ⟨_, _, _, _, _, packet⟩ <;> rw [packet]

theorem setHeaderExtension_csrc (alloc : Bool) (mem : Memory) (p : RtpPacket)
    (ext : RtpHeaderExtension) :
    (p.setHeaderExtension alloc mem ext).packet.rtphdr.csrc = p.rtphdr.csrc := by
  rcases RtpPacket.setHeaderExtension_cases alloc mem p ext with
    ⟨_, packet, _⟩ | ⟨_, _, _, _, _, packet⟩ <;> rw [packet]

/-- The list operations of a step take what the list objects hold to what they hold after it. -/
theorem Steps.lists (h : Steps w op t) (fits : w.Fits) (base : Nat) :
    run CsrcOp.step (w.lists base) (w.listOps base op) = some (t.lists (w.nextBase base op)) := by
  cases h with
  | construct fresh => exact run_construct _ fresh
  | copyConstruct fresh alive =>
      refine CsrcOp.run_cons_of_allowed rfl ?_ (congrArg some ?_)
      · simp [CsrcOp.allowed, lists_name, fresh, alive]
      · rw [CsrcOp.after, CsrcOp.value, lists_name, alive]
        exact (lists_update _).symm
  | copyAssign target alive =>
      refine CsrcOp.run_cons_of_allowed rfl ?_ (congrArg some ?_)
      · simp [CsrcOp.allowed, lists_name, target, alive]
      · rw [CsrcOp.after, CsrcOp.value, lists_name, alive]
        exact (lists_update _).symm
  | setHeaderExtension alive own =>
      exact congrArg some (lists_of_csrc alive (setHeaderExtension_csrc _ _ _ _)).symm
  | setPayload alive own =>
      exact congrArg some (lists_of_csrc alive (setPayload_csrc _ _ _ _ _)).symm
  | @setHeader x setter p alive =>
      cases setter with
      | csrc v => exact run_setCsrc v alive
      | padding | extension | csrcCount | marker | payloadType | sequenceNumber | timestamp
      | ssrc =>
          refine congrArg some (lists_of_csrc alive ?_).symm
          rfl
  | @insertRtpPacket x p v alive session =>
      have source : w.names x = some p.rtphdr.csrc := by rw [names, alive]; rfl
      have ops : w.listOps base (.insertRtpPacket x) = pushOps base v x := by
        rw [listOps, session]
        rfl
      have here : w.lists base = layout w.names (slots base v.elems) := by
        rw [World.lists, elems, session]
        rfl
      rw [ops, here, run_pushOps source (fits v session), nextBase, session, World.lists]
      refine congrArg some (congrArg (layout w.names) (congrArg (slots _) ?_))
      exact (PacketVector.pushBack_elems _ _ _).symm
  | @destroy x p alive =>
      refine CsrcOp.run_cons_of_allowed rfl ?_ (congrArg some ?_)
      · simp [CsrcOp.allowed, lists_name, alive]
      · exact (lists_update none).symm
  | destroySession session =>
      have full : ∀ i < w.elems.length, (slots base w.elems (base + i)).isSome = true :=
        fun i less => by rw [slots_of_lt less]; rfl
      rw [listOps, World.lists, run_destroys full]
      refine congrArg some (congrArg (layout w.names) (funext fun k => ?_))
      have empty : slots base [] k = none := by simp [slots]
      refine Eq.trans ?_ empty.symm
      split
      · rfl
      · exact slots_of_outside (by omega)
  | newByteArray | newWordArray | writeByte | writeWord => rfl

/-! ## Whole runs -/

/-- The program with the place of the storage of its session. -/
def placedStep (s : World × Nat) (op : PacketOp) : Option (World × Nat) :=
  (s.1.step op).map fun t => (t, s.1.nextBase s.2 op)

theorem run_placedStep {ops : List PacketOp} (base : Nat) (reached : run step w ops = some t) :
    ∃ base', run placedStep (w, base) ops = some (t, base') := by
  induction ops generalizing w base with
  | nil => cases reached; exact ⟨base, rfl⟩
  | cons op ops ih =>
      obtain ⟨u, first, rest⟩ := run_cons_iff.mp reached
      obtain ⟨base', onward⟩ := ih (w.nextBase base op) rest
      exact ⟨base', run_cons_iff.mpr ⟨_, by rw [placedStep, first]; rfl, onward⟩⟩

/-- The list operations of a run. -/
def listTrace (ops : List PacketOp) : List CsrcOp :=
  trace placedStep (fun s op => s.1.listOps s.2 op) (init, 0) ops

/-- **Lists in memory.**  In every run of the program the operations on its list objects end,
without a null link.  A list object is alive then exactly where a packet is, the caller's
or an element of the session, and it is a ring that holds the list of that packet. -/
theorem lists_refine {ops : List PacketOp} (reached : run step init ops = some w) :
    ∃ base s, run CsrcLists.step .init (listTrace ops) = some s ∧
      (∀ x p, w.packets x = some p → s.live (.packet (2 * x)) = true ∧
        ∃ ns, Ring s.mem (.packet (2 * x)) ns p.rtphdr.csrc) ∧
      (∀ i p, w.elems[i]? = some p → s.live (.packet (2 * (base + i) + 1)) = true ∧
        ∃ ns, Ring s.mem (.packet (2 * (base + i) + 1)) ns p.rtphdr.csrc) ∧
      ∀ l, s.live l = true → (∃ x p, w.packets x = some p ∧ l = .packet (2 * x)) ∨
        ∃ i p, w.elems[i]? = some p ∧ l = .packet (2 * (base + i) + 1) := by
  obtain ⟨base, placed⟩ := run_placedStep 0 reached
  have start : init.lists 0 = fun _ => none := by
    funext l
    cases l with
    | caller k => rfl
    | packet n =>
        rw [lists, layout]
        split
        · rfl
        · exact slots_of_outside (by simp [elems, init, PacketVector.empty])
  have related : init.Fits ∧ CsrcLists.init.Holding (init.lists 0) := by
    refine ⟨?_, start ▸ CsrcLists.holding_init⟩
    rintro v ⟨⟩
    exact Nat.le_refl 0
  have simulated : ∃ s, run CsrcLists.step .init (listTrace ops) = some s ∧
      w.Fits ∧ CsrcLists.Holding s (w.lists base) := by
    refine run_simulates (R := fun (p : World × Nat) s =>
      p.1.Fits ∧ CsrcLists.Holding s (p.1.lists p.2)) ?_ related placed
    intro p op q s related stepped
    obtain ⟨u, taken, rfl⟩ := Option.map_eq_some_iff.mp stepped
    have steps := Steps.of_step taken
    obtain ⟨s', ended, holding⟩ := related.2.run (steps.lists related.1 p.2)
    exact ⟨s', ended, steps.fits related.1, holding⟩
  obtain ⟨s, ended, _, holding⟩ := simulated
  have held : ∀ l xs, w.lists base l = some xs → s.live l = true ∧ ∃ ns, Ring s.mem l ns xs := by
    intro l xs here
    have alive : s.live l = true := by rw [holding.live, here]; rfl
    have ring := holding.represents l alive
    rw [here] at ring
    exact ⟨alive, ring⟩
  refine ⟨base, s, ended, fun x p alive => held _ _ ?_, fun i p member => held _ _ ?_,
    fun l alive => ?_⟩
  · rw [lists_name, alive]
    rfl
  · rw [lists, layout_slot, slots, if_pos (Nat.le_add_right _ _), Nat.add_sub_cancel_left, member]
    rfl
  · rw [holding.live] at alive
    obtain ⟨xs, here⟩ := Option.isSome_iff_exists.mp alive
    cases l with
    | caller k => cases here
    | packet n =>
        rw [lists, layout] at here
        split at here
        · obtain ⟨p, packet, _⟩ := Option.map_eq_some_iff.mp here
          exact .inl ⟨n / 2, p, packet, congrArg CsrcObject.packet (by omega)⟩
        · unfold slots at here
          split at here
          · obtain ⟨p, member, _⟩ := Option.map_eq_some_iff.mp here
            exact .inr ⟨n / 2 - base, p, member, congrArg CsrcObject.packet (by omega)⟩
          · cases here

/-- A packet, a copy of it and three insertions, for which the vector grows twice; then the
list of the copy is replaced and the first packet destroyed. -/
def grownOps : List PacketOp :=
  [.construct 0 ⟨false, false, 2, false, 96, 1, 0, 5, [7, 9]⟩, .copyConstruct 1 0,
    .insertRtpPacket 0, .insertRtpPacket 1, .insertRtpPacket 1, .setHeader 1 (.csrc [4]),
    .destroy 0]

theorem grownOps_lists :
    ∃ w base s, run step init grownOps = some w ∧
      run CsrcLists.step .init (listTrace grownOps) = some s ∧
      (∃ ns, Ring s.mem (.packet 2) ns [4]) ∧
      ∀ i < 3, ∃ ns, Ring s.mem (.packet (2 * (base + i) + 1)) ns [7, 9] := by
  obtain ⟨w, reached, packet, elems⟩ : ∃ w, run step init grownOps = some w ∧
      (∃ p, w.packets 1 = some p ∧ p.rtphdr.csrc = [4]) ∧
      ∀ i < 3, ∃ p, w.elems[i]? = some p ∧ p.rtphdr.csrc = [7, 9] := by
    refine ⟨_, rfl, ⟨_, rfl, rfl⟩, fun i less => ?_⟩
    rcases (show i = 0 ∨ i = 1 ∨ i = 2 by omega) with rfl | rfl | rfl <;> exact ⟨_, rfl, rfl⟩
  obtain ⟨base, s, ended, packets, slots, _⟩ := lists_refine reached
  obtain ⟨p, alive, csrc⟩ := packet
  refine ⟨w, base, s, reached, ended, csrc ▸ (packets 1 p alive).2, fun i less => ?_⟩
  obtain ⟨q, member, csrc⟩ := elems i less
  exact csrc ▸ (slots i q member).2

end World

end OpenRtp
