import OpenRtp.ReportBlockServer
import OpenRtp.SendLoop

/-!
# The exchange of report blocks

The two programs together: clients that connect, wait for the greeting and send their block,
and the server that serves them one after another.  The bytes that a socket has accepted are
in flight until the other side has received them, and each call may be interrupted, may take
or give a part only, or may fail, which ends the program.  The programs take their steps in
any order.

`finished_or_proceeds` says that with room for all bytes nobody waits forever for the other
side, `exchange_ends` that everybody is served where nothing goes wrong.
-/

namespace OpenRtp

/-- A client: its block, its port as it stands in the address, and the memory from its
`sendbuf` on, which starts with the message for the block. -/
structure Client where
  rb : ReportBlock
  sinPort : BitVec 16
  sendbuf : Nat → Byte
  serialized : message (sizeofReportBlock + 1) sendbuf = clientMessage rb

inductive ClientPhase
  /-- Before `connect`. -/
  | idle
  /-- In `recv`. -/
  | connected
  | sending (loop : SendLoop)
  | closed
  /-- After `exit(1)`. -/
  | exited
deriving DecidableEq, Repr

inductive ServerPhase (ι : Type*)
  /-- In `accept`. -/
  | accepting
  | greeting (i : ι) (loop : SendLoop)
  /-- In `recv`. -/
  | receiving (i : ι)
  /-- After `exit(1)`. -/
  | exited
deriving DecidableEq, Repr

/-- The client whose socket the server has. -/
def ServerPhase.current {ι : Type*} : ServerPhase ι → Option ι
  | .greeting i _ | .receiving i => some i
  | .accepting | .exited => none

def ClientPhase.ended : ClientPhase → Bool
  | .closed | .exited => true
  | .idle | .connected | .sending _ => false

/-- How a call of `recv` ends that does not fail: with bytes, with the end of the stream, or
interrupted. -/
inductive RecvCall
  | bytes (n : Nat)
  | shutdown
  | interrupted
deriving DecidableEq, Repr

/-- `recv` into a buffer of `recvBufSize`, on the bytes in flight: what it gives, and what is
left.  It waits where there is nothing and the other side has not closed. -/
def RecvCall.receive (stream : List Byte) (peerClosed : Bool) :
    RecvCall → Option (RecvResult × List Byte)
  | .bytes n =>
      if 1 ≤ n ∧ n ≤ recvBufSize - 1 ∧ n ≤ stream.length then
        some (.data (stream.take n), stream.drop n)
      else none
  | .shutdown => if peerClosed ∧ stream = [] then some (.data [], []) else none
  | .interrupted => some (.interrupted, stream)

/-- The programs, the memory of the server from its `sendbuf` on, the connections not yet
accepted, the bytes in flight, and what each `recv` of the server gave. -/
structure ExchangeState (ι : Type*) where
  server : ServerPhase ι
  sendbuf : Nat → Byte
  parsed : ServerState
  client : ι → ClientPhase
  backlog : List ι
  toClient : ι → List Byte
  toServer : ι → List Byte
  received : List (ι × RecvResult)

inductive ExchangeOp (ι : Type*)
  | connect (i : ι)
  | accept
  | serverSend (result : SendResult)
  | serverRecv (call : RecvCall)
  | clientRecv (i : ι) (call : RecvCall)
  | clientSend (i : ι) (result : SendResult)
  | serverExit
  | clientExit (i : ι)
deriving DecidableEq, Repr

instance (requested : Nat) (result : SendResult) : Decidable (result.Allowed requested) :=
  inferInstanceAs (Decidable (_ ∨ _))

/-- The bytes that a call of `send` has put on their way. -/
def SendLoop.taken (sendbuf : Nat → Byte) (loop : SendLoop) (result : SendResult) : List Byte :=
  (List.range result.retlen.toNat).map fun i => sendbuf (loop.ptr + i)

/-- `sendlen` of the server, which does not depend on what its buffer held before
(`strlen_serverSendbuf`). -/
def Client.greetingLength (c : Client) : Nat :=
  strlen (serverSendbuf (fun _ => 0) c.sinPort) + 1

theorem Client.greetingLength_pos (c : Client) : 0 < c.greetingLength := Nat.succ_pos _

theorem Client.greetingLength_le (c : Client) : c.greetingLength ≤ sizeofReportBlock := by
  have text := (strlen_serverSendbuf (fun _ => 0) c.sinPort).2
  simp only [Client.greetingLength, sizeofReportBlock]
  omega

namespace ExchangeState

variable {ι : Type*} [DecidableEq ι]

def init : ExchangeState ι where
  server := .accepting
  sendbuf := fun _ => 0
  parsed := .init
  client := fun _ => .idle
  backlog := []
  toClient := fun _ => []
  toServer := fun _ => []
  received := []

/-- The server has closed its socket to `i`, or is gone. -/
def serverClosed (s : ExchangeState ι) (i : ι) : Bool :=
  s.server = .exited ∨ i ∈ s.received.map Prod.fst

/-- A step of one of the programs; none where the program waits. -/
def step (clients : ι → Client) (s : ExchangeState ι) :
    ExchangeOp ι → Option (ExchangeState ι)
  | .connect i =>
      match s.client i with
      | .idle =>
          some { s with
            client := Function.update s.client i .connected
            backlog := s.backlog ++ [i] }
      | _ => none
  | .accept =>
      match s.server, s.backlog with
      | .accepting, i :: rest =>
          some { s with
            server := .greeting i (.start (clients i).greetingLength)
            sendbuf := serverSendbuf s.sendbuf (clients i).sinPort
            backlog := rest }
      | _, _ => none
  | .serverSend result =>
      match s.server with
      | .greeting i loop =>
          if result.Allowed (clients i).greetingLength then
            (loop.pass (clients i).greetingLength s.sendbuf result).map fun next => { s with
              server := if next.leftlen = 0 then .receiving i else .greeting i next
              toClient := Function.update s.toClient i
                (s.toClient i ++ loop.taken s.sendbuf result) }
          else none
      | _ => none
  | .serverRecv call =>
      match s.server with
      | .receiving i =>
          match call.receive (s.toServer i) (s.client i).ended with
          | some (result, left) =>
              (s.parsed.serve [result]).map fun parsed => { s with
                server := .accepting
                parsed
                toServer := Function.update s.toServer i left
                received := s.received ++ [(i, result)] }
          | none => none
      | _ => none
  | .clientRecv i call =>
      match s.client i with
      | .connected =>
          (call.receive (s.toClient i) (s.serverClosed i)).map fun got => { s with
            client := Function.update s.client i (.sending (.start (sizeofReportBlock + 1)))
            toClient := Function.update s.toClient i got.2 }
      | _ => none
  | .clientSend i result =>
      match s.client i with
      | .sending loop =>
          let sendbuf := (clients i).sendbuf
          if result.Allowed (sizeofReportBlock + 1) then
            (loop.pass (sizeofReportBlock + 1) sendbuf result).map fun next => { s with
              client := Function.update s.client i
                (if next.leftlen = 0 then .closed else .sending next)
              toServer := Function.update s.toServer i
                (s.toServer i ++ loop.taken sendbuf result) }
          else none
      | _ => none
  | .serverExit =>
      match s.server with
      | .exited => none
      | _ => some { s with server := .exited }
  | .clientExit i =>
      match s.client i with
      | .closed | .exited => none
      | _ => some { s with client := Function.update s.client i .exited }

/-! ## What a step does -/

/-- The steps, with what each finds. -/
inductive Steps (clients : ι → Client) (s : ExchangeState ι) :
    ExchangeOp ι → ExchangeState ι → Prop
  | connect {i : ι} (phase : s.client i = .idle) :
      Steps clients s (.connect i) { s with
        client := Function.update s.client i .connected
        backlog := s.backlog ++ [i] }
  | accept {i : ι} {rest : List ι} (server : s.server = .accepting)
      (backlog : s.backlog = i :: rest) :
      Steps clients s .accept { s with
        server := .greeting i (.start (clients i).greetingLength)
        sendbuf := serverSendbuf s.sendbuf (clients i).sinPort
        backlog := rest }
  | serverSend {i : ι} {loop next : SendLoop} {result : SendResult}
      (server : s.server = .greeting i loop)
      (allowed : result.Allowed (clients i).greetingLength)
      (pass : loop.pass (clients i).greetingLength s.sendbuf result = some next) :
      Steps clients s (.serverSend result) { s with
        server := if next.leftlen = 0 then .receiving i else .greeting i next
        toClient := Function.update s.toClient i
          (s.toClient i ++ loop.taken s.sendbuf result) }
  | serverRecv {i : ι} {call : RecvCall} {result : RecvResult} {left : List Byte}
      {parsed : ServerState} (server : s.server = .receiving i)
      (got : call.receive (s.toServer i) (s.client i).ended = some (result, left))
      (served : s.parsed.serve [result] = some parsed) :
      Steps clients s (.serverRecv call) { s with
        server := .accepting
        parsed
        toServer := Function.update s.toServer i left
        received := s.received ++ [(i, result)] }
  | clientRecv {i : ι} {call : RecvCall} {result : RecvResult} {left : List Byte}
      (phase : s.client i = .connected)
      (got : call.receive (s.toClient i) (s.serverClosed i) = some (result, left)) :
      Steps clients s (.clientRecv i call) { s with
        client := Function.update s.client i (.sending (.start (sizeofReportBlock + 1)))
        toClient := Function.update s.toClient i left }
  | clientSend {i : ι} {loop next : SendLoop} {result : SendResult}
      (phase : s.client i = .sending loop) (allowed : result.Allowed (sizeofReportBlock + 1))
      (pass : loop.pass (sizeofReportBlock + 1) (clients i).sendbuf result = some next) :
      Steps clients s (.clientSend i result) { s with
        client := Function.update s.client i
          (if next.leftlen = 0 then .closed else .sending next)
        toServer := Function.update s.toServer i
          (s.toServer i ++ loop.taken (clients i).sendbuf result) }
  | serverExit (server : s.server ≠ .exited) :
      Steps clients s .serverExit { s with server := .exited }
  | clientExit {i : ι} (phase : (s.client i).ended = false) :
      Steps clients s (.clientExit i) { s with client := Function.update s.client i .exited }

variable {clients : ι → Client} {s s' : ExchangeState ι} {op : ExchangeOp ι} {i j : ι}

theorem Steps.of_step (h : step clients s op = some s') : Steps clients s op s' := by
  cases op with
  | connect i =>
      cases phase : s.client i with
      | idle =>
          simp only [step, phase, Option.some.injEq] at h
          exact h ▸ .connect phase
      | connected | sending loop | closed | exited => simp [step, phase] at h
  | accept =>
      cases server : s.server with
      | accepting =>
          cases backlog : s.backlog with
          | nil => simp [step, server, backlog] at h
          | cons i rest =>
              simp only [step, server, backlog, Option.some.injEq] at h
              exact h ▸ .accept server backlog
      | greeting i loop | receiving i | exited => simp [step, server] at h
  | serverSend result =>
      cases server : s.server with
      | greeting i loop =>
          simp only [step, server, Option.ite_none_right_eq_some, Option.map_eq_some_iff] at h
          obtain ⟨allowed, next, pass, rfl⟩ := h
          exact .serverSend server allowed pass
      | accepting | receiving i | exited => simp [step, server] at h
  | serverRecv call =>
      cases server : s.server with
      | receiving i =>
          cases got : call.receive (s.toServer i) (s.client i).ended with
          | none => simp [step, server, got] at h
          | some answer =>
              simp only [step, server, got, Option.map_eq_some_iff] at h
              obtain ⟨parsed, served, rfl⟩ := h
              exact .serverRecv server got served
      | accepting | greeting i loop | exited => simp [step, server] at h
  | clientRecv i call =>
      cases phase : s.client i with
      | connected =>
          simp only [step, phase, Option.map_eq_some_iff] at h
          obtain ⟨answer, got, rfl⟩ := h
          exact .clientRecv phase got
      | idle | sending loop | closed | exited => simp [step, phase] at h
  | clientSend i result =>
      cases phase : s.client i with
      | sending loop =>
          simp only [step, phase, Option.ite_none_right_eq_some, Option.map_eq_some_iff] at h
          obtain ⟨allowed, next, pass, rfl⟩ := h
          exact .clientSend phase allowed pass
      | idle | connected | closed | exited => simp [step, phase] at h
  | serverExit =>
      cases server : s.server with
      | exited => simp [step, server] at h
      | accepting | greeting i loop | receiving i =>
          simp only [step, server, Option.some.injEq] at h
          exact h ▸ .serverExit (by simp [server])
  | clientExit i =>
      cases phase : s.client i with
      | closed | exited => simp [step, phase] at h
      | idle | connected | sending loop =>
          simp only [step, phase, Option.some.injEq] at h
          exact h ▸ .clientExit (by rw [phase]; rfl)

/-! ## The order of the connections -/

/-- The clients served, the one being served, and those that wait. -/
def order (s : ExchangeState ι) : List ι :=
  s.received.map Prod.fst ++ (s.server.current.toList ++ s.backlog)

/-- Nobody is in the order twice, or before connecting. -/
structure Ordered (s : ExchangeState ι) : Prop where
  once : s.order.Nodup
  connected : ∀ i ∈ s.order, s.client i ≠ .idle

omit [DecidableEq ι] in
theorem ordered_init : Ordered (init : ExchangeState ι) := ⟨List.nodup_nil, nofun⟩

omit [DecidableEq ι] in
theorem Ordered.of_sublist (ordered : Ordered s) (fewer : s'.order.Sublist s.order)
    (kept : ∀ j, s.client j ≠ .idle → s'.client j ≠ .idle) : Ordered s' where
  once := ordered.once.sublist fewer
  connected j member := kept j (ordered.connected j (fewer.subset member))

omit [DecidableEq ι] in
theorem Ordered.of_eq (ordered : Ordered s) (same : s'.order = s.order)
    (kept : ∀ j, s.client j ≠ .idle → s'.client j ≠ .idle) : Ordered s' :=
  ordered.of_sublist (same ▸ List.Sublist.refl _) kept

/-- A client that moves to a later phase. -/
theorem update_ne_idle {phase : ClientPhase} (later : phase ≠ .idle) (i j : ι)
    (before : s.client j ≠ .idle) : Function.update s.client i phase j ≠ .idle := by
  rcases eq_or_ne j i with rfl | other
  · rwa [Function.update_self]
  · rwa [Function.update_of_ne other]

theorem Steps.ordered (h : Steps clients s op s') (ordered : Ordered s) : Ordered s' := by
  cases h with
  | @connect i phase =>
      have absent : i ∉ s.order := fun member => ordered.connected i member phase
      have added : (s.order ++ [i]).Nodup :=
        List.nodup_append_comm.mp (List.nodup_cons.mpr ⟨absent, ordered.once⟩)
      refine ⟨by simpa only [order, List.append_assoc] using added, fun j member => ?_⟩
      rcases eq_or_ne j i with rfl | other
      · simp
      · have before : j ∈ s.order := by
          simp only [order, List.mem_append, List.mem_singleton] at member ⊢
          tauto
        exact update_ne_idle (by simp) i j (ordered.connected j before)
  | accept server backlog =>
      exact ordered.of_eq (by simp [order, server, backlog, ServerPhase.current]) fun _ => id
  | @serverSend i loop next result server allowed pass =>
      refine ordered.of_eq ?_ fun _ => id
      simp only [order, server]
      split <;> rfl
  | serverRecv server got served =>
      exact ordered.of_eq (by simp [order, server, ServerPhase.current]) fun _ => id
  | clientRecv phase got => exact ordered.of_eq rfl (update_ne_idle (by simp) _)
  | clientSend phase allowed pass =>
      exact ordered.of_eq rfl (update_ne_idle (by split <;> simp) _)
  | serverExit server =>
      refine ordered.of_sublist ?_ fun _ => id
      exact List.Sublist.append_left (List.Sublist.append_right (List.nil_sublist _) _) _
  | clientExit phase => exact ordered.of_eq rfl (update_ne_idle (by simp) _)

/-! ## Nobody waits forever -/

/-- The greeting of `i` is on its way, or was. -/
def Greeted (clients : ι → Client) (s : ExchangeState ι) (i : ι) : Prop :=
  s.server = .receiving i ∨
    (∃ loop, s.server = .greeting i loop ∧ loop.leftlen ≠ (clients i).greetingLength) ∨
      i ∈ s.received.map Prod.fst

/-- A client that waits for its greeting is in the order, and has bytes to receive once the
greeting is on its way; and no loop stands at its end. -/
structure Waiting (clients : ι → Client) (s : ExchangeState ι) : Prop where
  arrived : s.server ≠ .exited → ∀ i, s.client i = .connected → i ∈ s.order
  greeted : ∀ i, s.client i = .connected → Greeted clients s i → s.toClient i ≠ []
  serverLoop : ∀ i loop, s.server = .greeting i loop → loop.leftlen ≠ 0
  clientLoop : ∀ i loop, s.client i = .sending loop → loop.leftlen ≠ 0

omit [DecidableEq ι] in
theorem waiting_init (clients : ι → Client) : Waiting clients init where
  arrived _ _ := nofun
  greeted _ := nofun
  serverLoop _ _ := nofun
  clientLoop _ _ := nofun

omit [DecidableEq ι] in
theorem Greeted.mem_order (greeted : Greeted clients s i) : i ∈ s.order := by
  simp only [order, List.mem_append]
  rcases greeted with server | ⟨loop, server, _⟩ | member
  · simp [server, ServerPhase.current]
  · simp [server, ServerPhase.current]
  · exact .inl member

/-- A call takes bytes, or it is interrupted and the loop stays as it is. -/
theorem pass_cases {requested : Nat} {sendbuf : Nat → Byte} {loop next : SendLoop}
    {result : SendResult} (allowed : result.Allowed requested)
    (pass : loop.pass requested sendbuf result = some next) :
    next.ptr = loop.ptr + (loop.taken sendbuf result).length ∧
      (loop.taken sendbuf result ≠ [] ∨ next.leftlen = loop.leftlen) := by
  rw [SendLoop.pass_of_allowed (SendLoop.leftlen_ne_of_pass pass) allowed] at pass
  cases pass
  refine ⟨by simp [SendLoop.taken], ?_⟩
  rcases allowed with ⟨failed, _⟩ | ⟨some, _⟩
  · simp [failed]
  · left
    simp [SendLoop.taken]
    omega

/-- A client that moves to a phase other than `connected` waits for nothing; the others wait
as before. -/
theorem connected_of_update {phase : ClientPhase} (moved : phase ≠ .connected)
    (waits : Function.update s.client i phase j = .connected) :
    j ≠ i ∧ s.client j = .connected := by
  rcases eq_or_ne j i with rfl | other
  · rw [Function.update_self] at waits
    exact absurd waits moved
  · rw [Function.update_of_ne other] at waits
    exact ⟨other, waits⟩

/-- What holds of every client's loop holds after `i` moves, if it holds of the loop that `i`
moves to. -/
theorem sending_of_update {P : ι → SendLoop → Prop} {phase : ClientPhase}
    (own : ∀ loop, phase = .sending loop → P i loop)
    (others : ∀ j loop, s.client j = .sending loop → P j loop) (j : ι) (loop : SendLoop)
    (sends : Function.update s.client i phase j = .sending loop) : P j loop := by
  rcases eq_or_ne j i with rfl | other
  · rw [Function.update_self] at sends
    exact own loop sends
  · rw [Function.update_of_ne other] at sends
    exact others j loop sends

/-- Only `i` moves, and it moves to a phase in which it waits for nothing. -/
theorem Waiting.move (waiting : Waiting clients s) {phase : ClientPhase}
    (moved : phase ≠ .connected) (loop : ∀ l, phase = .sending l → l.leftlen ≠ 0)
    {toClient : ι → List Byte} (others : ∀ j, j ≠ i → toClient j = s.toClient j)
    (toServer : ι → List Byte) :
    Waiting clients { s with
      client := Function.update s.client i phase
      toClient
      toServer } where
  arrived running j waits := waiting.arrived running j (connected_of_update moved waits).2
  greeted j waits greeted := by
    obtain ⟨other, waits⟩ := connected_of_update moved waits
    have same : toClient j = s.toClient j := others j other
    dsimp only
    rw [same]
    exact waiting.greeted j waits greeted
  serverLoop := waiting.serverLoop
  clientLoop := sending_of_update loop waiting.clientLoop

theorem Steps.waiting (h : Steps clients s op s') (ordered : Ordered s)
    (waiting : Waiting clients s) : Waiting clients s' := by
  cases h with
  | @connect i phase =>
      have kept : ∀ j, j ≠ i → Function.update s.client i .connected j = s.client j :=
        fun j other => Function.update_of_ne other _ _
      refine ⟨fun running j waits => ?_, fun j waits greeted => ?_, waiting.serverLoop,
        sending_of_update (by simp) waiting.clientLoop⟩
      · rcases eq_or_ne j i with rfl | other
        · simp [order]
        · have member := waiting.arrived running j (by rwa [← kept j other])
          simp only [order, List.mem_append, List.mem_singleton] at member ⊢
          tauto
      · have before : Greeted clients s j := greeted
        have member := before.mem_order
        rcases eq_or_ne j i with rfl | other
        · exact absurd phase (ordered.connected j member)
        · exact waiting.greeted j (by rwa [← kept j other]) before
  | @accept i rest server backlog =>
      have same : s.order = s.received.map Prod.fst ++ ([i] ++ rest) := by
        simp [order, server, backlog, ServerPhase.current]
      refine ⟨fun _ j waits => ?_, fun j waits greeted => ?_, ?_, waiting.clientLoop⟩
      · have member := waiting.arrived (by simp [server]) j waits
        rwa [same] at member
      · refine waiting.greeted j waits ?_
        rcases greeted with receives | ⟨loop, greets, started⟩ | member
        · cases receives
        · cases greets
          exact absurd rfl started
        · exact .inr (.inr member)
      · rintro j loop ⟨⟩
        have positive := (clients i).greetingLength_pos
        simp only [SendLoop.start]
        omega
  | @serverSend i loop next result server allowed pass =>
      obtain ⟨_, progress⟩ := pass_cases allowed pass
      have more := waiting.serverLoop i loop server
      refine ⟨fun _ j waits => ?_, fun j waits greeted => ?_, ?_, waiting.clientLoop⟩
      · have member := waiting.arrived (by simp [server]) j waits
        simp only [order, server] at member ⊢
        split <;> exact member
      · dsimp only
        rcases eq_or_ne j i with rfl | other
        · rw [Function.update_self]
          rcases progress with bytes | same
          · exact List.append_ne_nil_of_right_ne_nil _ bytes
          · refine List.append_ne_nil_of_left_ne_nil (waiting.greeted j waits ?_) _
            rcases greeted with receives | ⟨l, greets, partly⟩ | member
            · simp only [same, if_neg more] at receives
              cases receives
            · simp only [same, if_neg more] at greets
              cases greets
              exact .inr (.inl ⟨loop, server, same ▸ partly⟩)
            · exact .inr (.inr member)
        · rw [Function.update_of_ne other]
          refine waiting.greeted j waits ?_
          rcases greeted with receives | ⟨l, greets, _⟩ | member
          · simp only at receives
            split at receives <;> cases receives
            exact absurd rfl other
          · simp only at greets
            split at greets <;> cases greets
            exact absurd rfl other
          · exact .inr (.inr member)
      · intro j l greets
        simp only at greets
        split at greets
        · cases greets
        · next going =>
            cases greets
            exact going
  | @serverRecv i call result left parsed server got served =>
      refine ⟨fun _ j waits => ?_, fun j waits greeted => ?_, by simp, waiting.clientLoop⟩
      · have member := waiting.arrived (by simp [server]) j waits
        simpa [order, server, ServerPhase.current] using member
      · refine waiting.greeted j waits ?_
        rcases greeted with receives | ⟨l, greets, _⟩ | member
        · cases receives
        · cases greets
        · rw [List.map_append, List.mem_append] at member
          rcases member with before | last
          · exact .inr (.inr before)
          · obtain rfl : j = i := by simpa using last
            exact .inl server
  | @clientRecv i call result left phase got =>
      refine waiting.move (by simp) ?_ (fun j other => Function.update_of_ne other _ _) _
      rintro l ⟨⟩
      decide
  | @clientSend i loop next result phase allowed pass =>
      refine waiting.move (by split <;> simp) ?_ (fun _ _ => rfl) _
      intro l sends
      split at sends
      · cases sends
      · next going =>
          cases sends
          exact going
  | serverExit server =>
      refine ⟨fun running => absurd rfl running, fun j waits greeted => ?_, by simp,
        waiting.clientLoop⟩
      refine waiting.greeted j waits ?_
      rcases greeted with receives | ⟨l, greets, _⟩ | member
      · cases receives
      · cases greets
      · exact .inr (.inr member)
  | clientExit phase => exact waiting.move (by simp) (by simp) (fun _ _ => rfl) _

/-- Nothing is left to do. -/
def Finished (s : ExchangeState ι) : Prop :=
  (s.server = .exited ∨ (s.server = .accepting ∧ s.backlog = [])) ∧
    ∀ i, (s.client i).ended = true

/-- A step that neither fails nor is interrupted, and takes all that it is given to send. -/
def Proceeds (clients : ι → Client) (s : ExchangeState ι) : ExchangeOp ι → Prop
  | .connect _ | .accept => True
  | .serverSend result =>
      ∀ i ∈ s.server.current, result = .accepted (clients i).greetingLength
  | .clientSend _ result => result = .accepted (sizeofReportBlock + 1)
  | .serverRecv call | .clientRecv _ call => call ≠ .interrupted
  | .serverExit | .clientExit _ => False

instance (clients : ι → Client) (s : ExchangeState ι) : ∀ op, Decidable (Proceeds clients s op)
  | .connect _ | .accept => isTrue trivial
  | .serverSend _ => inferInstanceAs (Decidable (∀ i ∈ s.server.current, _))
  | .clientSend _ _ => inferInstanceAs (Decidable (_ = _))
  | .serverRecv _ | .clientRecv _ _ => inferInstanceAs (Decidable (_ ≠ _))
  | .serverExit | .clientExit _ => isFalse id

/-- Where there are bytes, a call can take one. -/
theorem receive_one {stream : List Byte} {peerClosed : Bool} (bytes : stream ≠ []) :
    (RecvCall.bytes 1).receive stream peerClosed =
      some (.data (stream.take 1), stream.drop 1) := by
  have some := List.length_pos_iff.mpr bytes
  simp [RecvCall.receive, recvBufSize, Nat.succ_le_of_lt some]

/-- A loop that goes on can hand over any part of what it requests. -/
theorem pass_accepted {requested n : Nat} {loop : SendLoop} (more : loop.leftlen ≠ 0)
    (positive : 0 < n) (inside : n ≤ requested) (sendbuf : Nat → Byte) :
    (SendResult.accepted n).Allowed requested ∧
      (loop.pass requested sendbuf (.accepted n)).isSome := by
  have allowed : (SendResult.accepted n).Allowed requested := by
    right
    simp only [SendResult.accepted]
    omega
  exact ⟨allowed, by rw [SendLoop.pass_of_allowed more allowed]; rfl⟩

/-- A client that has not ended can go on, unless it waits for a greeting that is not on its
way. -/
theorem client_proceeds (waiting : Waiting clients s) (running : (s.client i).ended = false)
    (served : s.client i = .connected → s.toClient i ≠ [] ∨ s.serverClosed i) :
    ∃ op, Proceeds clients s op ∧ (step clients s op).isSome := by
  cases phase : s.client i with
  | idle => exact ⟨.connect i, trivial, by simp [step, phase]⟩
  | connected =>
      by_cases bytes : s.toClient i = []
      · have closed := (served phase).resolve_left (not_not_intro bytes)
        exact ⟨.clientRecv i .shutdown, by simp [Proceeds],
          by simp [step, phase, RecvCall.receive, bytes, closed]⟩
      · refine ⟨.clientRecv i (.bytes 1), by simp [Proceeds], ?_⟩
        simp [step, phase, receive_one bytes]
  | sending loop =>
      obtain ⟨allowed, sends⟩ := pass_accepted (waiting.clientLoop i loop phase)
        (Nat.succ_pos sizeofReportBlock) (Nat.le_refl _) (clients i).sendbuf
      refine ⟨.clientSend i (.accepted (sizeofReportBlock + 1)), rfl, ?_⟩
      simp [step, phase, allowed, sends]
  | closed | exited =>
      rw [phase] at running
      cases running

theorem finished_or_proceeds (waiting : Waiting clients s) :
    s.Finished ∨ ∃ op, Proceeds clients s op ∧ (step clients s op).isSome := by
  -- Where the server waits for nobody, it is the clients' turn.
  have clientsTurn : (s.server = .exited ∨ (s.server = .accepting ∧ s.backlog = [])) →
      s.Finished ∨ ∃ op, Proceeds clients s op ∧ (step clients s op).isSome := by
    intro idle
    by_cases ended : ∀ i, (s.client i).ended = true
    · exact .inl ⟨idle, ended⟩
    · obtain ⟨i, running⟩ := not_forall.mp ended
      refine .inr (client_proceeds waiting (Bool.eq_false_iff.mpr running) fun waits => ?_)
      rcases idle with gone | ⟨accepting, nobody⟩
      · exact .inr (by simp [serverClosed, gone])
      · have member := waiting.arrived (by simp [accepting]) i waits
        simp only [order, accepting, nobody, ServerPhase.current, Option.toList_none,
          List.append_nil] at member
        exact .inl (waiting.greeted i waits (.inr (.inr member)))
  cases server : s.server with
  | exited => exact clientsTurn (.inl server)
  | accepting =>
      cases backlog : s.backlog with
      | nil => exact clientsTurn (.inr ⟨server, backlog⟩)
      | cons i rest => exact .inr ⟨.accept, trivial, by simp [step, server, backlog]⟩
  | greeting i loop =>
      obtain ⟨allowed, sends⟩ := pass_accepted (waiting.serverLoop i loop server)
        (clients i).greetingLength_pos (Nat.le_refl _) s.sendbuf
      refine .inr ⟨.serverSend (.accepted (clients i).greetingLength), ?_, ?_⟩
      · rw [Proceeds, server]
        rintro j ⟨⟩
        rfl
      · simp [step, server, allowed, sends]
  | receiving i =>
      by_cases bytes : s.toServer i = []
      · cases ended : (s.client i).ended with
        | true =>
            refine .inr ⟨.serverRecv .shutdown, by simp [Proceeds], ?_⟩
            simp [step, server, RecvCall.receive, bytes, ended, ServerState.serve,
              ServerState.recv]
        | false =>
            exact .inr (client_proceeds waiting ended fun waits =>
              .inl (waiting.greeted i waits (.inl server)))
      · refine .inr ⟨.serverRecv (.bytes 1), by simp [Proceeds], ?_⟩
        simp [step, server, receive_one bytes, ServerState.serve, ServerState.recv]

variable {ops : List (ExchangeOp ι)}

/-! ## Everybody is served -/

/-- Nothing has been interrupted, cut short or has failed. -/
structure Smooth (clients : ι → Client) (s : ExchangeState ι) : Prop where
  ordered : Ordered s
  waiting : Waiting clients s
  serverRuns : s.server ≠ .exited
  clientRuns : ∀ i, s.client i ≠ .exited
  arrived : ∀ i, s.client i ≠ .idle → i ∈ s.order
  serverLoop : ∀ i loop, s.server = .greeting i loop → loop.leftlen = (clients i).greetingLength
  clientLoop : ∀ i loop, s.client i = .sending loop → loop.leftlen = (sizeofReportBlock + 1 : Nat)

omit [DecidableEq ι] in
theorem smooth_init (clients : ι → Client) : Smooth clients init where
  ordered := ordered_init
  waiting := waiting_init clients
  serverRuns := nofun
  clientRuns _ := nofun
  arrived _ moved := absurd rfl moved
  serverLoop _ _ := nofun
  clientLoop _ _ := nofun

theorem leftlen_whole {requested : Nat} {sendbuf : Nat → Byte} {loop next : SendLoop}
    (start : loop.leftlen = requested) (positive : 0 < requested)
    (pass : loop.pass requested sendbuf (.accepted requested) = some next) : next.leftlen = 0 := by
  have more : loop.leftlen ≠ 0 := by omega
  have allowed : (SendResult.accepted requested).Allowed requested :=
    .inr ⟨by simp only [SendResult.accepted]; omega, Int.le_refl _⟩
  rw [SendLoop.pass_of_allowed more allowed] at pass
  cases pass
  simp [SendResult.accepted, start]

/-- Only `i` moves, which has connected. -/
theorem Smooth.move (smooth : Smooth clients s) {phase : ClientPhase} (before : s.client i ≠ .idle)
    (running : phase ≠ .exited)
    (loop : ∀ l, phase = .sending l → l.leftlen = (sizeofReportBlock + 1 : Nat))
    {toClient toServer : ι → List Byte}
    (ordered : Ordered { s with
      client := Function.update s.client i phase, toClient, toServer })
    (waiting : Waiting clients { s with
      client := Function.update s.client i phase, toClient, toServer }) :
    Smooth clients { s with client := Function.update s.client i phase, toClient, toServer } where
  ordered := ordered
  waiting := waiting
  serverRuns := smooth.serverRuns
  clientRuns j := by
    dsimp only
    rcases eq_or_ne j i with rfl | other
    · rwa [Function.update_self]
    · rw [Function.update_of_ne other]
      exact smooth.clientRuns j
  arrived j moved := by
    dsimp only at moved
    rcases eq_or_ne j i with rfl | other
    · exact smooth.arrived j before
    · rw [Function.update_of_ne other] at moved
      exact smooth.arrived j moved
  serverLoop := smooth.serverLoop
  clientLoop := sending_of_update loop smooth.clientLoop

theorem Steps.smooth (h : Steps clients s op s') (proceeds : Proceeds clients s op)
    (smooth : Smooth clients s) : Smooth clients s' := by
  have ordered := h.ordered smooth.ordered
  have waiting := h.waiting smooth.ordered smooth.waiting
  cases h with
  | @connect i phase =>
      refine ⟨ordered, waiting, smooth.serverRuns, fun j => ?_, fun j moved => ?_,
        smooth.serverLoop, sending_of_update (by simp) smooth.clientLoop⟩
      · dsimp only
        rcases eq_or_ne j i with rfl | other
        · simp
        · rw [Function.update_of_ne other]
          exact smooth.clientRuns j
      · dsimp only at moved
        rcases eq_or_ne j i with rfl | other
        · simp [order]
        · rw [Function.update_of_ne other] at moved
          have member := smooth.arrived j moved
          simp only [order, List.mem_append, List.mem_singleton] at member ⊢
          tauto
  | @accept i rest server backlog =>
      have same : s.order = s.received.map Prod.fst ++ ([i] ++ rest) := by
        simp [order, server, backlog, ServerPhase.current]
      refine ⟨ordered, waiting, by simp, smooth.clientRuns, fun j moved => ?_, ?_,
        smooth.clientLoop⟩
      · have member := smooth.arrived j moved
        rwa [same] at member
      · rintro j loop ⟨⟩
        rfl
  | @serverSend i loop next result server allowed pass =>
      obtain rfl := proceeds i (by simp [server, ServerPhase.current])
      have ended := leftlen_whole (smooth.serverLoop i loop server)
        (clients i).greetingLength_pos pass
      rw [if_pos ended] at ordered waiting ⊢
      refine ⟨ordered, waiting, by simp, smooth.clientRuns, fun j moved => ?_, nofun,
        smooth.clientLoop⟩
      have member := smooth.arrived j moved
      rwa [order, server] at member
  | @serverRecv i call result left parsed server got served =>
      refine ⟨ordered, waiting, by simp, smooth.clientRuns, fun j moved => ?_, nofun,
        smooth.clientLoop⟩
      have member := smooth.arrived j moved
      simpa [order, server, ServerPhase.current] using member
  | @clientRecv i call result left phase got =>
      exact smooth.move (by simp [phase]) (by simp) (by rintro l ⟨⟩; rfl) ordered waiting
  | @clientSend i loop next result phase allowed pass =>
      obtain rfl : result = .accepted (sizeofReportBlock + 1) := proceeds
      have ended := leftlen_whole (smooth.clientLoop i loop phase) (Nat.succ_pos _) pass
      rw [if_pos ended] at ordered waiting ⊢
      exact smooth.move (by simp [phase]) (by simp) (by simp) ordered waiting
  | serverExit server => cases proceeds
  | clientExit phase => cases proceeds

/-- The steps that a client has still to take, and until it has connected those that the server
has to take for it. -/
def clientRemaining : ClientPhase → Nat
  | .idle => 6
  | .connected => 2
  | .sending _ => 1
  | .closed | .exited => 0

/-- The steps that the server has still to take for its client. -/
def serverRemaining : ServerPhase ι → Nat
  | .greeting _ _ => 2
  | .receiving _ => 1
  | .accepting | .exited => 0

def remaining [Fintype ι] (s : ExchangeState ι) : Nat :=
  (∑ i, clientRemaining (s.client i)) + 3 * s.backlog.length + serverRemaining s.server

theorem sum_update [Fintype ι] (client : ι → ClientPhase) (i : ι) (phase : ClientPhase) :
    (∑ j, clientRemaining (Function.update client i phase j)) + clientRemaining (client i) =
      (∑ j, clientRemaining (client j)) + clientRemaining phase := by
  have others : ∑ j ∈ Finset.univ.erase i, clientRemaining (Function.update client i phase j) =
      ∑ j ∈ Finset.univ.erase i, clientRemaining (client j) :=
    Finset.sum_congr rfl fun j member => by
      rw [Function.update_of_ne (Finset.ne_of_mem_erase member)]
  have after := Finset.add_sum_erase Finset.univ
    (fun j => clientRemaining (Function.update client i phase j)) (Finset.mem_univ i)
  have before := Finset.add_sum_erase Finset.univ (fun j => clientRemaining (client j))
    (Finset.mem_univ i)
  simp only [Function.update_self] at after
  omega

theorem Steps.remaining_lt [Fintype ι] (h : Steps clients s op s')
    (proceeds : Proceeds clients s op) (smooth : Smooth clients s) :
    s'.remaining < s.remaining := by
  cases h with
  | @connect i phase =>
      have moved := sum_update s.client i .connected
      rw [phase] at moved
      change _ + 6 = _ + 2 at moved
      simp only [remaining, List.length_append, List.length_singleton]
      omega
  | accept server backlog =>
      simp only [remaining, server, backlog, serverRemaining, List.length_cons]
      omega
  | @serverSend i loop next result server allowed pass =>
      obtain rfl := proceeds i (by simp [server, ServerPhase.current])
      have ended := leftlen_whole (smooth.serverLoop i loop server)
        (clients i).greetingLength_pos pass
      simp only [remaining, if_pos ended, server, serverRemaining]
      omega
  | serverRecv server got served =>
      simp only [remaining, server, serverRemaining]
      omega
  | @clientRecv i call result left phase got =>
      have moved := sum_update s.client i (.sending (.start (sizeofReportBlock + 1)))
      rw [phase] at moved
      change _ + 2 = _ + 1 at moved
      simp only [remaining]
      omega
  | @clientSend i loop next result phase allowed pass =>
      obtain rfl : result = .accepted (sizeofReportBlock + 1) := proceeds
      have ended := leftlen_whole (smooth.clientLoop i loop phase) (Nat.succ_pos _) pass
      have moved := sum_update s.client i .closed
      rw [phase] at moved
      change _ + 1 = _ + 0 at moved
      simp only [remaining, if_pos ended]
      omega
  | serverExit server => cases proceeds
  | clientExit phase => cases proceeds

omit [DecidableEq ι] in
/-- Where nothing is left to do after steps of this kind, everybody has been served. -/
theorem Smooth.served (smooth : Smooth clients s) (finished : s.Finished) (i : ι) :
    s.client i = .closed ∧ i ∈ s.received.map Prod.fst := by
  obtain ⟨idle, ended⟩ := finished
  obtain ⟨accepting, nobody⟩ := idle.resolve_left smooth.serverRuns
  have closed : s.client i = .closed := by
    have last := ended i
    have running := smooth.clientRuns i
    cases phase : s.client i <;> simp_all [ClientPhase.ended]
  have member := smooth.arrived i (by simp [closed])
  simp only [order, accepting, nobody, ServerPhase.current, Option.toList_none,
    List.append_nil] at member
  exact ⟨closed, member⟩

/-- **Everybody is served.**  While nothing is interrupted, cut short or fails, the programs
take no more than six steps a client, and can always go on to the end, where every client has
sent its message and has been served. -/
theorem exchange_ends [Fintype ι] (reached : run (step clients) init ops = some s)
    (met : Along (step clients) (Proceeds clients) init ops) :
    ops.length ≤ 6 * Fintype.card ι ∧
      ∃ more t, Along (step clients) (Proceeds clients) s more ∧
        run (step clients) s more = some t ∧
        ∀ i, t.client i = .closed ∧ i ∈ t.received.map Prod.fst := by
  have preserved : ∀ s op t, Smooth clients s → Proceeds clients s op → step clients s op = some t →
      Smooth clients t := fun _ _ _ smooth proceeds next =>
    (Steps.of_step next).smooth proceeds smooth
  have smaller : ∀ s op t, Smooth clients s → Proceeds clients s op → step clients s op = some t →
      remaining t < remaining s := fun _ _ _ smooth proceeds next =>
    (Steps.of_step next).remaining_lt proceeds smooth
  have goes : ∀ s, Smooth clients s →
      s.Finished ∨ ∃ op t, Proceeds clients s op ∧ step clients s op = some t := by
    intro s smooth
    refine (finished_or_proceeds smooth.waiting).imp_right fun ⟨op, proceeds, possible⟩ => ?_
    obtain ⟨t, next⟩ := Option.isSome_iff_exists.mp possible
    exact ⟨op, t, proceeds, next⟩
  have start : remaining (init : ExchangeState ι) = 6 * Fintype.card ι := by
    simp [remaining, init, clientRemaining, serverRemaining, Nat.mul_comm]
  refine ⟨?_, ?_⟩
  · have fewer := length_add_le preserved smaller (smooth_init clients) met reached
    omega
  · have smooth : Smooth clients s := (always_of_along preserved (fun _ => id)
      (smooth_init clients) met).last reached
    obtain ⟨more, t, onward, ends, kept, finished⟩ := exists_run_done preserved smaller goes smooth
    exact ⟨more, t, onward, ends, kept.served finished⟩

/-- Two clients with the block of the program. -/
def twoClients (_ : Bool) : Client where
  rb := buildReportBlock
  sinPort := 8000
  sendbuf := byteAt (clientMessage buildReportBlock)
  serialized := by decide

/-- Two clients that connect, the second one first. -/
theorem bothConnected_served :
    ∃ s, run (step twoClients) init [.connect true, .connect false, .accept] = some s ∧
      ∃ more t, run (step twoClients) s more = some t ∧
        ∀ i, t.client i = .closed ∧ i ∈ t.received.map Prod.fst := by
  have met : Along (step twoClients) (Proceeds twoClients) init
      [.connect true, .connect false, .accept] := by decide
  obtain ⟨s, reached⟩ : ∃ s, run (step twoClients) init
      [.connect true, .connect false, .accept] = some s := ⟨_, rfl⟩
  obtain ⟨_, more, t, _, ends, served⟩ := exchange_ends reached met
  exact ⟨s, reached, more, t, ends, served⟩

end ExchangeState

end OpenRtp
