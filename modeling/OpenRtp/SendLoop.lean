import Mathlib.Algebra.BigOperators.Group.Finset.Basic
import Mathlib.Algebra.Order.BigOperators.Group.Finset
import Mathlib.Algebra.Order.Group.Nat
import OpenRtp.Base.Run
import OpenRtp.ReportBlock

/-!
# The send loops

The client sends its report block and the server its greeting in one loop each, the same in
both programs: `while (leftlen)` around a call of `send`, with a pointer and a remaining count
moved by what the call accepted.  The length requested is `sendlen` in every call.

`sendLoop_eq_some_iff` is the loop invariant in closed form: what a pass finds is a function
of the sum of the counts accepted before it.  From it, `sendLoop_reliable_iff` says for which
answers of the socket the loop does what it is for.
-/

namespace OpenRtp

/-! ## One pass -/

/-- What `send` leaves in `errno`. -/
inductive Errno
  | eintr
  | other
deriving DecidableEq, Repr

/-- What a call of `send` returns. -/
structure SendResult where
  retlen : Int
  errno : Errno
deriving DecidableEq, Repr

namespace SendResult

/-- The call was interrupted before it sent anything. -/
def interrupted : SendResult := ⟨-1, .eintr⟩

/-- The call accepted `k` bytes. -/
def accepted (k : Nat) : SendResult := ⟨k, .other⟩

/-- A call that requests `requested` bytes is interrupted or accepts some of them. -/
def Allowed (requested : Nat) (result : SendResult) : Prop :=
  (result.retlen = -1 ∧ result.errno = .eintr) ∨
    (1 ≤ result.retlen ∧ result.retlen ≤ requested)

end SendResult

/-- The variables of the loop, with the bytes that the socket has accepted so far and the
calls made so far, a pointer and a length each. -/
structure SendLoop where
  leftlen : Int
  ptr : Nat
  received : List Byte
  calls : List (Nat × Nat)
deriving DecidableEq, Repr

namespace SendLoop

/-- Before the loop. -/
def start (sendlen : Nat) : SendLoop where
  leftlen := sendlen
  ptr := 0
  received := []
  calls := []

/-- One pass of `while (leftlen)`, the memory counted from the start of the buffer.  There is
none after the loop, and none goes on after `exit(1)`. -/
def pass (sendlen : Nat) (sendbuf : Nat → Byte) (loop : SendLoop) (result : SendResult) :
    Option SendLoop := do
  guard (loop.leftlen ≠ 0)
  let retlen ←
    if result.retlen < 0 then
      if result.errno = .eintr then some 0 else none
    else some result.retlen
  return {
    leftlen := loop.leftlen - retlen
    ptr := loop.ptr + retlen.toNat
    received := loop.received ++ (List.range retlen.toNat).map fun i => sendbuf (loop.ptr + i)
    calls := loop.calls ++ [(loop.ptr, sendlen)] }

end SendLoop

/-- What the loop finds when it tests its condition after `i` passes, the calls answered by
`results` in turn. -/
def sendLoop (sendlen : Nat) (sendbuf : Nat → Byte) (results : Nat → SendResult) (i : Nat) :
    Option SendLoop :=
  run (SendLoop.pass sendlen sendbuf) (SendLoop.start sendlen) ((List.range i).map results)

/-! ## The two programs -/

/-- `SEND_BUF_SIZE`. -/
def sendBufSize : Nat := 100

/-- `sizeof(struct report_block)`. -/
def sizeofReportBlock : Nat := 24

/-- `strlen` on a buffer that holds a null byte. -/
def strlen (sendbuf : Nat → Byte) : Nat :=
  (((List.range sendBufSize).map sendbuf).takeWhile (· ≠ 0)).length

/-- The client's buffer of zeros with its block written into it. -/
def clientSendbuf (host : Host) : Nat → Byte :=
  byteAt (serializedReportBlock2 host buildReportBlock (List.replicate sendBufSize 0)
    sizeofReportBlock)

/-- The greeting for a port as it stands in the address. -/
def greeting (port : BitVec 16) : List Byte :=
  (s!"welcome {port.toNat} here!\n").toList.map fun c => BitVec.ofNat 8 c.toNat

/-- The server's buffer with the greeting and its null byte printed into it.  What the greetings
of earlier connections left behind them stays. -/
def serverSendbuf (before : Nat → Byte) (port : BitVec 16) : Nat → Byte := fun i =>
  if i ≤ (greeting port).length then byteAt (greeting port) i else before i

/-- The loop of the client: the block and one byte more. -/
def clientSend (sendbuf : Nat → Byte) (results : Nat → SendResult) (i : Nat) :
    Option SendLoop :=
  sendLoop (sizeofReportBlock + 1) sendbuf results i

/-- The loop of the server: a text and its null byte. -/
def serverSend (sendbuf : Nat → Byte) (results : Nat → SendResult) (i : Nat) :
    Option SendLoop :=
  sendLoop (strlen sendbuf + 1) sendbuf results i

/-- Only the bytes up to a null byte count. -/
theorem strlen_eq {sendbuf : Nat → Byte} {n : Nat} (inside : n < sendBufSize)
    (ends : sendbuf n = 0) :
    strlen sendbuf = (((List.range (n + 1)).map sendbuf).takeWhile (· ≠ 0)).length ∧
      strlen sendbuf ≤ n := by
  obtain ⟨k, size⟩ := Nat.exists_eq_add_of_le (Nat.succ_le_of_lt inside)
  have stops : (((List.range (n + 1)).map sendbuf).takeWhile (· ≠ 0)).length ≠
      ((List.range (n + 1)).map sendbuf).length := by
    intro whole
    have all := (List.takeWhile_prefix _).eq_of_length whole
    have null : sendbuf n ∈ ((List.range (n + 1)).map sendbuf).takeWhile (· ≠ 0) := by
      rw [all]
      exact List.mem_map_of_mem List.self_mem_range_succ
    simpa [ends] using List.all_eq_true.mp List.all_takeWhile _ null
  have cut : strlen sendbuf =
      (((List.range (n + 1)).map sendbuf).takeWhile (· ≠ 0)).length := by
    rw [strlen, size, List.range_add, List.map_append, List.takeWhile_append, if_neg stops]
  have shorter := (List.takeWhile_prefix (p := (· ≠ 0))
    (l := (List.range (n + 1)).map sendbuf)).length_le
  rw [List.length_map, List.length_range] at stops shorter
  exact ⟨cut, by omega⟩

theorem length_greeting_le (port : BitVec 16) : (greeting port).length ≤ 20 := by
  have digits : (Nat.toDigits 10 port.toNat).length ≤ 5 :=
    (Nat.length_toDigits_le_iff (by decide) (by decide)).mpr
      (Nat.lt_of_lt_of_le port.isLt (by decide))
  have length : (greeting port).length = 8 + ((Nat.toDigits 10 port.toNat).length + 7) := by
    simp [greeting]
    rfl
  omega

/-- `sendlen` depends on the port alone. -/
theorem strlen_serverSendbuf (before : Nat → Byte) (port : BitVec 16) :
    strlen (serverSendbuf before port) = strlen (serverSendbuf (fun _ => 0) port) ∧
      strlen (serverSendbuf before port) ≤ 20 := by
  have small := length_greeting_le port
  have inside : (greeting port).length < sendBufSize := by rw [sendBufSize]; omega
  have ends : ∀ before, serverSendbuf before port (greeting port).length = 0 := fun before => by
    simp [serverSendbuf, byteAt]
  have printed : (List.range ((greeting port).length + 1)).map (serverSendbuf before port) =
      (List.range ((greeting port).length + 1)).map (serverSendbuf (fun _ => 0) port) :=
    List.map_congr_left fun i member => by
      have covered : i ≤ (greeting port).length := Nat.le_of_lt_succ (List.mem_range.mp member)
      rw [serverSendbuf, serverSendbuf, if_pos covered, if_pos covered]
  obtain ⟨cut, least⟩ := strlen_eq inside (ends before)
  rw [cut, printed, ← (strlen_eq inside (ends _)).1] at *
  exact ⟨rfl, least.trans small⟩

/-! ## What the loop is for -/

/-- The message: `n` bytes at the start of the buffer. -/
def message (n : Nat) (sendbuf : Nat → Byte) : List Byte := (List.range n).map sendbuf

/-- The loop ends, the socket has then received the message, and the remaining count is never
negative. -/
structure Delivers (n : Nat) (sendbuf : Nat → Byte) (loop : Nat → Option SendLoop) : Prop where
  ends : ∃ i s, loop i = some s ∧ s.leftlen = 0 ∧ s.received = message n sendbuf
  nonneg : ∀ i s, loop i = some s → 0 ≤ s.leftlen

/-- And no call requests bytes beyond the message. -/
structure Reliable (n : Nat) (sendbuf : Nat → Byte) (loop : Nat → Option SendLoop) : Prop
    extends Delivers n sendbuf loop where
  within : ∀ i s, loop i = some s → ∀ call ∈ s.calls, call.1 + call.2 ≤ n

/-- The bytes that the first `i` calls accepted; an interrupted one accepts none. -/
def acceptedBy (results : Nat → SendResult) (i : Nat) : Nat :=
  ∑ j ∈ Finset.range i, (results j).retlen.toNat

/-- The first call that is not interrupted accepts all `n` bytes. -/
def WholeAtOnce (n : Nat) (results : Nat → SendResult) : Prop :=
  ∃ i, (∀ j < i, (results j).retlen < 0) ∧ (results i).retlen = n

/-! ## The loop invariant -/

section

variable {n : Nat} {sendbuf : Nat → Byte} {results : Nat → SendResult}

@[simp] theorem acceptedBy_zero : acceptedBy results 0 = 0 := rfl

theorem acceptedBy_succ (i : Nat) :
    acceptedBy results (i + 1) = acceptedBy results i + (results i).retlen.toNat :=
  Finset.sum_range_succ _ i

theorem acceptedBy_mono (results : Nat → SendResult) : Monotone (acceptedBy results) :=
  monotone_nat_of_le_succ fun i => by simp [acceptedBy_succ]

namespace SendLoop

/-- The loop after `i` passes. -/
def after (n : Nat) (sendbuf : Nat → Byte) (results : Nat → SendResult) (i : Nat) :
    SendLoop where
  leftlen := n - acceptedBy results i
  ptr := acceptedBy results i
  received := message (acceptedBy results i) sendbuf
  calls := (List.range i).map fun j => (acceptedBy results j, n)

/-- A pass moves the loop on by the bytes accepted. -/
theorem pass_of_allowed {s : SendLoop} {result : SendResult} (more : s.leftlen ≠ 0)
    (allowed : result.Allowed n) :
    s.pass n sendbuf result = some {
      leftlen := s.leftlen - result.retlen.toNat
      ptr := s.ptr + result.retlen.toNat
      received := s.received ++
        (List.range result.retlen.toNat).map fun i => sendbuf (s.ptr + i)
      calls := s.calls ++ [(s.ptr, n)] } := by
  rcases allowed with ⟨failed, interrupted⟩ | ⟨some, _⟩
  · simp [pass, more, failed, interrupted]
  · have taken : ¬ result.retlen < 0 := by omega
    have exact : (result.retlen.toNat : Int) = result.retlen := Int.toNat_of_nonneg (by omega)
    simp [pass, more, taken, exact]

theorem pass_none {s : SendLoop} (ended : s.leftlen = 0) (result : SendResult) :
    s.pass n sendbuf result = none := by
  simp [pass, ended]

theorem leftlen_ne_of_pass {s t : SendLoop} {result : SendResult}
    (pass : s.pass n sendbuf result = some t) : s.leftlen ≠ 0 := by
  intro ended
  rw [pass_none ended] at pass
  cases pass

theorem pass_after {i : Nat} (allowed : (results i).Allowed n)
    (more : acceptedBy results i ≠ n) :
    (after n sendbuf results i).pass n sendbuf (results i) =
      some (after n sendbuf results (i + 1)) := by
  rw [pass_of_allowed (by simp only [after]; omega) allowed]
  simp only [after, acceptedBy_succ, message, List.range_succ, List.range_add, List.map_append,
    List.map_map, List.map_cons, List.map_nil, Option.some.injEq, mk.injEq]
  exact ⟨by push_cast; omega, trivial, rfl, trivial⟩

end SendLoop

/-- **The loop invariant.** The loop makes `i` passes exactly when no sum of fewer counts is
the length of the message, and where it then stands depends on the sum alone. -/
theorem sendLoop_eq_some_iff (allowed : ∀ i, (results i).Allowed n) {i : Nat} {s : SendLoop} :
    sendLoop n sendbuf results i = some s ↔
      (∀ j < i, acceptedBy results j ≠ n) ∧ s = SendLoop.after n sendbuf results i := by
  induction i generalizing s with
  | zero =>
      have first : sendLoop n sendbuf results 0 = some (SendLoop.after n sendbuf results 0) := by
        simp [sendLoop, SendLoop.start, SendLoop.after, message]
      rw [first, Option.some.injEq, eq_comm]
      simp
  | succ i ih =>
      rw [sendLoop, List.range_succ, List.map_append, List.map_singleton, run_concat_iff]
      constructor
      · intro reached
        obtain ⟨u, before, last⟩ := reached
        obtain ⟨earlier, rfl⟩ := ih.mp before
        have more : acceptedBy results i ≠ n := by
          intro ended
          rw [SendLoop.pass_none (by simp [SendLoop.after, ended])] at last
          cases last
        rw [SendLoop.pass_after (allowed i) more] at last
        refine ⟨fun j inside => ?_, (Option.some.inj last).symm⟩
        rcases Nat.lt_succ_iff_lt_or_eq.mp inside with lower | rfl
        · exact earlier j lower
        · exact more
      · intro stand
        obtain ⟨earlier, rfl⟩ := stand
        exact ⟨SendLoop.after n sendbuf results i,
          ih.mpr ⟨fun j inside => earlier j (Nat.lt_succ_of_lt inside), rfl⟩,
          SendLoop.pass_after (allowed i) (earlier i (Nat.lt_succ_self i))⟩

/-! ## When the loop is reliable -/

/-- A loop that has reached the length of the message stops there. -/
theorem passes_le {i m : Nat} (reached : ∀ j < i, acceptedBy results j ≠ n)
    (total : acceptedBy results m = n) : i ≤ m := by
  by_contra later
  exact reached m (by omega) total

/-- The loop delivers the message exactly when the counts, summed up, come to its length. -/
theorem sendLoop_delivers_iff (allowed : ∀ i, (results i).Allowed n) :
    Delivers n sendbuf (sendLoop n sendbuf results) ↔ ∃ i, acceptedBy results i = n := by
  constructor
  · intro delivers
    obtain ⟨i, s, reached, ended, _⟩ := delivers.ends
    obtain ⟨_, rfl⟩ := (sendLoop_eq_some_iff allowed).mp reached
    simp only [SendLoop.after] at ended
    exact ⟨i, by omega⟩
  · intro comes
    have total : acceptedBy results (Nat.find comes) = n := Nat.find_spec comes
    refine ⟨⟨Nat.find comes, SendLoop.after n sendbuf results (Nat.find comes),
      (sendLoop_eq_some_iff allowed).mpr ⟨fun j earlier => Nat.find_min comes earlier, rfl⟩,
      by simp [SendLoop.after, total], by simp [SendLoop.after, total]⟩, ?_⟩
    intro i s reached
    obtain ⟨earlier, rfl⟩ := (sendLoop_eq_some_iff allowed).mp reached
    have bound := acceptedBy_mono results (passes_le earlier total)
    simp only [SendLoop.after]
    omega

/-- Interrupted calls accept nothing. -/
theorem acceptedBy_eq_zero_iff (allowed : ∀ i, (results i).Allowed n) {i : Nat} :
    acceptedBy results i = 0 ↔ ∀ j < i, (results j).retlen < 0 := by
  rw [acceptedBy, Finset.sum_eq_zero_iff]
  refine forall_congr' fun j => ?_
  rw [Finset.mem_range]
  refine imp_congr_right fun _ => ?_
  rcases allowed j with ⟨failed, _⟩ | ⟨some, _⟩
  · omega
  · omega

/-- A whole message accepted at once comes to its length, and nothing is accepted before. -/
theorem wholeAtOnce_iff (positive : 0 < n) (allowed : ∀ i, (results i).Allowed n) :
    WholeAtOnce n results ↔
      ∃ i, acceptedBy results i = 0 ∧ acceptedBy results (i + 1) = n := by
  refine exists_congr fun i => ?_
  rw [acceptedBy_succ, acceptedBy_eq_zero_iff allowed]
  refine and_congr_right fun before => ?_
  rw [(acceptedBy_eq_zero_iff allowed).mpr before]
  omega

/-- **Reliable sends.** For every message and all answers that the calls allow, the loop is
reliable exactly when the first call that is not interrupted accepts the whole message: a
call after a part was accepted requests more than is left.  Apart from these requests it
delivers the message exactly when the counts come to its length on the way. -/
theorem sendLoop_reliable_iff (sendbuf : Nat → Byte) (positive : 0 < n)
    (allowed : ∀ i, (results i).Allowed n) :
    (Reliable n sendbuf (sendLoop n sendbuf results) ↔ WholeAtOnce n results) ∧
      (Delivers n sendbuf (sendLoop n sendbuf results) ↔ ∃ i, acceptedBy results i = n) := by
  refine ⟨?_, sendLoop_delivers_iff allowed⟩
  rw [wholeAtOnce_iff positive allowed]
  constructor
  · intro reliable
    obtain ⟨i, s, reached, ended, _⟩ := reliable.ends
    have within := reliable.within i s reached
    obtain ⟨_, rfl⟩ := (sendLoop_eq_some_iff allowed).mp reached
    have total : acceptedBy results i = n := by
      simp only [SendLoop.after] at ended
      omega
    cases i with
    | zero => rw [acceptedBy_zero] at total; omega
    | succ m =>
        have last : acceptedBy results m + n ≤ n :=
          within (acceptedBy results m, n) (List.mem_map.mpr ⟨m, by simp, rfl⟩)
        exact ⟨m, by omega, total⟩
  · intro whole
    obtain ⟨m, nothing, total⟩ := whole
    refine ⟨(sendLoop_delivers_iff allowed).mpr ⟨m + 1, total⟩, ?_⟩
    intro i s reached call made
    obtain ⟨earlier, rfl⟩ := (sendLoop_eq_some_iff allowed).mp reached
    obtain ⟨j, inside, rfl⟩ := List.mem_map.mp made
    have fewer := passes_le earlier total
    have least := acceptedBy_mono results
      (show j ≤ m by have := List.mem_range.mp inside; omega)
    simp only
    omega

/-- A client that is interrupted once and then sends all at once. -/
theorem sendLoop_reliable_iff_interrupted :
    Reliable 25 (clientSendbuf .little)
      (clientSend (clientSendbuf .little)
        fun i => if i = 0 then .interrupted else .accepted 25) := by
  have allowed : ∀ i, SendResult.Allowed 25
      (if i = 0 then .interrupted else .accepted 25) := by
    intro i
    split
    · exact .inl ⟨rfl, rfl⟩
    · exact .inr ⟨by decide, by decide⟩
  refine (sendLoop_reliable_iff _ (by decide) allowed).1.mpr ⟨1, ?_, rfl⟩
  intro j earlier
  obtain rfl : j = 0 := by omega
  decide

/-- The first call accepts one byte and every later one all it requests. -/
def oneByteFirst (n i : Nat) : SendResult := if i = 0 then .accepted 1 else .accepted n

theorem oneByteFirst_allowed (positive : 0 < n) (i : Nat) : (oneByteFirst n i).Allowed n := by
  right
  unfold oneByteFirst SendResult.accepted
  split
  · simp only
    omega
  · simp only
    omega

/-- Against such a socket the loop sends more than the message. -/
theorem oneByteFirst_overruns (long : 2 ≤ n) :
    ¬ Delivers n sendbuf (sendLoop n sendbuf (oneByteFirst n)) := by
  intro delivers
  have first : acceptedBy (oneByteFirst n) 1 = 1 := rfl
  have second : acceptedBy (oneByteFirst n) 2 = 1 + n := by
    rw [acceptedBy_succ, first]
    rfl
  have earlier : ∀ j < 2, acceptedBy (oneByteFirst n) j ≠ n := by
    intro j inside
    interval_cases j
    · rw [acceptedBy_zero]
      omega
    · rw [first]
      omega
  have allowed := oneByteFirst_allowed (show 0 < n by omega)
  have nonneg := delivers.nonneg 2 _ ((sendLoop_eq_some_iff allowed).mpr ⟨earlier, rfl⟩)
  simp only [SendLoop.after, second] at nonneg
  omega

/-- The block of the client, and the greeting of the server for port 8000: the socket takes one
byte and then what is requested, and neither loop delivers its message. -/
theorem both_loops_overrun :
    (∀ i, (oneByteFirst 25 i).Allowed 25) ∧ (∀ i, (oneByteFirst 20 i).Allowed 20) ∧
      ¬ Delivers 25 (clientSendbuf .little)
        (clientSend (clientSendbuf .little) (oneByteFirst 25)) ∧
      ¬ Delivers 20 (serverSendbuf (fun _ => 0) 8000)
        (serverSend (serverSendbuf (fun _ => 0) 8000) (oneByteFirst 20)) := by
  have greeting : strlen (serverSendbuf (fun _ => 0) 8000) + 1 = 20 := by decide
  refine ⟨oneByteFirst_allowed (by decide), oneByteFirst_allowed (by decide),
    oneByteFirst_overruns (by decide), ?_⟩
  show ¬ Delivers 20 _ (sendLoop (strlen (serverSendbuf (fun _ => 0) 8000) + 1) _ _)
  rw [greeting]
  exact oneByteFirst_overruns (by decide)

end

end OpenRtp
