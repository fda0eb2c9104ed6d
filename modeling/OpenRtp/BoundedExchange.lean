import OpenRtp.ExchangeBlocks

/-!
# The exchange over bounded sockets

The exchange on a system with limits: the bytes in flight need room in a buffer, the
connections not yet accepted in a queue, and a connection a server that listens.  A call of
`send` that finds no room waits, and so does `connect`; neither waits for a side that is gone.

`exchange_stuck_iff` says when nobody can go on: where everything is done, or where the server
and the client that it serves both send into full buffers, past the ends of their messages.
-/

namespace OpenRtp

/-- The bytes of one direction that the system holds, at least those of a block, and the
connections. -/
structure SocketLimits where
  buffer : Nat
  queue : Nat
  block_le : sizeofReportBlock + 1 ≤ buffer
  queue_pos : 0 < queue

namespace ExchangeState

variable {ι : Type*} [DecidableEq ι] {clients : ι → Client} {limits : SocketLimits}
  {s s' : ExchangeState ι} {op : ExchangeOp ι} {ops : List (ExchangeOp ι)} {i j : ι}

/-- The system lets the call return. -/
def Admits (limits : SocketLimits) (s : ExchangeState ι) : ExchangeOp ι → Prop
  | .connect _ => s.server ≠ .exited ∧ s.backlog.length < limits.queue
  | .serverSend result => ∀ i ∈ s.server.current,
      (s.toClient i).length + result.retlen.toNat ≤ limits.buffer
  | .clientSend i result => (s.toServer i).length + result.retlen.toNat ≤ limits.buffer
  | .accept | .serverRecv _ | .clientRecv _ _ | .serverExit | .clientExit _ => True

instance (limits : SocketLimits) (s : ExchangeState ι) : ∀ op, Decidable (Admits limits s op)
  | .connect _ => inferInstanceAs (Decidable (_ ∧ _))
  | .serverSend _ => inferInstanceAs (Decidable (∀ i ∈ s.server.current, _))
  | .clientSend _ _ => inferInstanceAs (Decidable (_ ≤ _))
  | .accept | .serverRecv _ | .clientRecv _ _ | .serverExit | .clientExit _ => isTrue trivial

def boundedStep (limits : SocketLimits) (clients : ι → Client) (s : ExchangeState ι)
    (op : ExchangeOp ι) : Option (ExchangeState ι) :=
  if Admits limits s op then step clients s op else none

theorem boundedStep_eq_some_iff :
    boundedStep limits clients s op = some s' ↔
      Admits limits s op ∧ step clients s op = some s' := by
  simp [boundedStep]

/-! ## Who waits -/

/-- A step in which no call is interrupted, and none fails but a `send` to a side that has
closed and a `connect` to a server that is gone. -/
def Advances (s : ExchangeState ι) : ExchangeOp ι → Prop
  | .connect _ | .accept => True
  | .serverSend result | .clientSend _ result => 0 < result.retlen
  | .serverRecv call | .clientRecv _ call => call ≠ .interrupted
  | .serverExit => ∃ i loop, s.server = .greeting i loop ∧ (s.client i).ended = true
  | .clientExit i => (s.client i = .idle ∧ s.server = .exited) ∨
      ∃ loop, s.client i = .sending loop ∧ s.serverClosed i = true

/-- A client that has ended, or cannot go on before the server does. -/
def ClientWaits (limits : SocketLimits) (s : ExchangeState ι) (i : ι) : Prop :=
  match s.client i with
  | .idle => s.server ≠ .exited ∧ limits.queue ≤ s.backlog.length
  | .connected => s.toClient i = [] ∧ s.serverClosed i = false
  | .sending _ => limits.buffer ≤ (s.toServer i).length ∧ s.serverClosed i = false
  | .closed | .exited => True

/-- The server and the client that it serves both send, past the ends of their messages, and
find no room; and the other clients wait. -/
def Deadlocked (limits : SocketLimits) (s : ExchangeState ι) : Prop :=
  ∃ i loop loop', s.server = .greeting i loop ∧ s.client i = .sending loop' ∧
    loop.leftlen < 0 ∧ loop'.leftlen < 0 ∧ limits.buffer ≤ (s.toClient i).length ∧
      ∀ j, ClientWaits limits s j

/-- No client, or not the server, sends past the end of its message. -/
def ClientsWithin (s : ExchangeState ι) : ExchangeOp ι → Prop
  | .clientSend i result => ∀ loop, s.client i = .sending loop → result.retlen ≤ loop.leftlen
  | _ => True

def ServerWithin (s : ExchangeState ι) : ExchangeOp ι → Prop
  | .serverSend result => ∀ i loop, s.server = .greeting i loop → result.retlen ≤ loop.leftlen
  | _ => True

/-! ## What is in flight -/

/-- A loop has still to send what it has not sent, and no more is in flight than was sent. -/
structure InFlight (clients : ι → Client) (s : ExchangeState ι) : Prop where
  arrived : s.server ≠ .exited → ∀ i loop, s.client i = .sending loop → i ∈ s.order
  block : ∀ i loop, s.client i = .sending loop →
    loop.leftlen + loop.ptr = (sizeofReportBlock + 1 : Nat)
  greeting : ∀ i loop, s.server = .greeting i loop →
    loop.leftlen + loop.ptr = (clients i).greetingLength ∧ (s.toClient i).length ≤ loop.ptr
  ungreeted : s.server ≠ .exited → ∀ i, i ∉ s.received.map Prod.fst →
    s.server.current ≠ some i → s.toClient i = []

omit [DecidableEq ι] in
theorem inFlight_init (clients : ι → Client) : InFlight clients init where
  arrived _ _ _ := nofun
  block _ _ := nofun
  greeting _ _ := nofun
  ungreeted _ _ _ _ := rfl

/-- A pass leaves the sum. -/
theorem pass_balanced {requested : Nat} {sendbuf : Nat → Byte} {loop next : SendLoop}
    {result : SendResult} (allowed : result.Allowed requested)
    (pass : loop.pass requested sendbuf result = some next) :
    next.leftlen + next.ptr = loop.leftlen + loop.ptr := by
  rw [SendLoop.pass_of_allowed (SendLoop.leftlen_ne_of_pass pass) allowed] at pass
  cases pass
  push_cast
  omega

theorem length_receive_le {stream left : List Byte} {peerClosed : Bool} {call : RecvCall}
    {result : RecvResult} (got : call.receive stream peerClosed = some (result, left)) :
    left.length ≤ stream.length := by
  cases call with
  | bytes n =>
      simp only [RecvCall.receive, Option.ite_none_right_eq_some, Option.some.injEq,
        Prod.mk.injEq] at got
      obtain ⟨_, _, rfl⟩ := got
      simp
  | shutdown =>
      simp only [RecvCall.receive, Option.ite_none_right_eq_some, Option.some.injEq,
        Prod.mk.injEq] at got
      obtain ⟨_, _, rfl⟩ := got
      simp
  | interrupted =>
      cases got
      exact Nat.le_refl _

/-- Only `i` moves, and puts nothing in flight to itself. -/
theorem InFlight.move (inFlight : InFlight clients s) {phase : ClientPhase}
    (sends : ∀ loop, phase = .sending loop →
      loop.leftlen + loop.ptr = (sizeofReportBlock + 1 : Nat) ∧
        (s.server ≠ .exited → i ∈ s.order))
    {backlog : List ι} {toClient : ι → List Byte} (kept : s.backlog ⊆ backlog)
    (fewer : ∀ j, (toClient j).length ≤ (s.toClient j).length) (toServer : ι → List Byte) :
    InFlight clients { s with
      client := Function.update s.client i phase
      backlog
      toClient
      toServer } where
  arrived running j loop sending := by
    have member : j ∈ s.order := sending_of_update (P := fun j _ => j ∈ s.order)
      (fun loop own => (sends loop own).2 running) (inFlight.arrived running) j loop sending
    simp only [order, List.mem_append] at member ⊢
    exact member.imp_right (Or.imp_right fun waits => kept waits)
  block := sending_of_update (fun loop own => (sends loop own).1) inFlight.block
  greeting j loop server :=
    ⟨(inFlight.greeting j loop server).1, (fewer j).trans (inFlight.greeting j loop server).2⟩
  ungreeted running j absent apart := by
    have none := fewer j
    rw [inFlight.ungreeted running j absent apart] at none
    exact List.eq_nil_of_length_eq_zero (Nat.le_zero.mp none)

theorem Steps.inFlight (h : Steps clients s op s') (ordered : Ordered s)
    (waiting : Waiting clients s) (inFlight : InFlight clients s) : InFlight clients s' := by
  cases h with
  | @connect i phase =>
      exact inFlight.move (by simp) (List.subset_append_left _ _) (fun _ => Nat.le_refl _) _
  | @accept i rest server backlog =>
      have same : s.order = s.received.map Prod.fst ++ ([i] ++ rest) := by
        simp [order, server, backlog, ServerPhase.current]
      have absent : i ∉ s.received.map Prod.fst := by
        have once := ordered.once
        rw [same] at once
        exact fun member => List.disjoint_of_nodup_append once member (by simp)
      refine ⟨fun _ j loop sending => ?_, inFlight.block, ?_, fun _ j outside apart => ?_⟩
      · have member := inFlight.arrived (by simp [server]) j loop sending
        rwa [same] at member
      · rintro j loop ⟨⟩
        have empty := inFlight.ungreeted (by simp [server]) i absent
          (by simp [server, ServerPhase.current])
        exact ⟨by simp [SendLoop.start], by simp [empty]⟩
      · exact inFlight.ungreeted (by simp [server]) j outside
          (by simp [server, ServerPhase.current])
  | @serverSend i loop next result server allowed pass =>
      obtain ⟨balanced, fewer⟩ := inFlight.greeting i loop server
      refine ⟨fun _ j l sending => ?_, inFlight.block, fun j l greets => ?_,
        fun _ j outside apart => ?_⟩
      · have member := inFlight.arrived (by simp [server]) j l sending
        simp only [order, server] at member ⊢
        split <;> exact member
      · simp only at greets
        split at greets
        · cases greets
        · cases greets
          have advanced := (pass_cases allowed pass).1
          refine ⟨(pass_balanced allowed pass).trans balanced, ?_⟩
          dsimp only
          rw [Function.update_self, List.length_append, advanced]
          omega
      · have other : j ≠ i := by
          rintro rfl
          simp only at apart
          split at apart <;> exact apart rfl
        dsimp only
        rw [Function.update_of_ne other]
        refine inFlight.ungreeted (by simp [server]) j outside ?_
        simp [server, ServerPhase.current, other.symm]
  | @serverRecv i call result left parsed server got served =>
      refine ⟨fun _ j loop sending => ?_, inFlight.block, by simp, fun _ j outside _ => ?_⟩
      · have member := inFlight.arrived (by simp [server]) j loop sending
        simpa [order, server, ServerPhase.current] using member
      · simp only [List.map_append, List.mem_append, not_or, List.map_cons, List.map_nil,
          List.mem_singleton] at outside
        refine inFlight.ungreeted (by simp [server]) j outside.1 ?_
        simp [server, ServerPhase.current, Ne.symm outside.2]
  | @clientRecv i call result left phase got =>
      refine inFlight.move ?_ (List.Subset.refl _) (fun j => ?_) _
      · rintro loop ⟨⟩
        exact ⟨by simp [SendLoop.start], fun running => waiting.arrived running i phase⟩
      · rcases eq_or_ne j i with rfl | other
        · rw [Function.update_self]
          exact length_receive_le got
        · rw [Function.update_of_ne other]
  | @clientSend i loop next result phase allowed pass =>
      refine inFlight.move (fun l sends => ?_) (List.Subset.refl _) (fun _ => Nat.le_refl _) _
      split at sends
      · cases sends
      · cases sends
        exact ⟨(pass_balanced allowed pass).trans (inFlight.block i loop phase),
          fun running => inFlight.arrived running i loop phase⟩
  | serverExit server =>
      exact ⟨fun running => absurd rfl running, inFlight.block, by simp,
        fun running => absurd rfl running⟩
  | clientExit phase =>
      exact inFlight.move (by simp) (List.Subset.refl _) (fun _ => Nat.le_refl _) _

/-- The invariants of a bounded run. -/
theorem run_bounded (reached : run (boundedStep limits clients) init ops = some s) :
    Ordered s ∧ Waiting clients s ∧ Streams clients s ∧ InFlight clients s :=
  run_invariant (P := fun s => Ordered s ∧ Waiting clients s ∧ Streams clients s ∧
      InFlight clients s)
    (fun s op t kept next => by
      obtain ⟨ordered, waiting, streams, inFlight⟩ := kept
      have step := Steps.of_step (boundedStep_eq_some_iff.mp next).2
      exact ⟨step.ordered ordered, step.waiting ordered waiting, step.streams ordered streams,
        step.inFlight ordered waiting inFlight⟩)
    ⟨ordered_init, waiting_init clients, streams_init clients, inFlight_init clients⟩ reached

/-! ## Nobody can go on -/

/-- No step advances. -/
def Stuck (limits : SocketLimits) (clients : ι → Client) (s : ExchangeState ι) : Prop :=
  ∀ op, Advances s op → boundedStep limits clients s op = none

theorem Stuck.not_isSome (stuck : Stuck limits clients s) (op : ExchangeOp ι)
    (advances : Advances s op) (admits : Admits limits s op) : ¬ (step clients s op).isSome := by
  have none := stuck op advances
  rw [boundedStep, if_pos admits] at none
  simp [none]

theorem serverClosed_of_exited (gone : s.server = .exited) (i : ι) :
    s.serverClosed i = true := by
  simp [serverClosed, gone]

theorem serverClosed_of_received (served : i ∈ s.received.map Prod.fst) :
    s.serverClosed i = true := by
  simp only [serverClosed, decide_eq_true_eq]
  exact .inr served

theorem Stuck.clientWaits (stuck : Stuck limits clients s) (waiting : Waiting clients s) (i : ι) :
    ClientWaits limits s i := by
  unfold ClientWaits
  cases phase : s.client i with
  | idle =>
      have listens : s.server ≠ .exited := fun gone =>
        stuck.not_isSome (.clientExit i) (.inl ⟨phase, gone⟩) trivial
          (by simp [step, phase])
      refine ⟨listens, Nat.le_of_not_lt fun room => ?_⟩
      exact stuck.not_isSome (.connect i) trivial ⟨listens, room⟩ (by simp [step, phase])
  | connected =>
      have empty : s.toClient i = [] := by
        by_contra bytes
        exact stuck.not_isSome (.clientRecv i (.bytes 1)) (by simp [Advances]) trivial
          (by simp [step, phase, receive_one bytes])
      refine ⟨empty, Bool.eq_false_iff.mpr fun closed => ?_⟩
      exact stuck.not_isSome (.clientRecv i .shutdown) (by simp [Advances]) trivial
        (by simp [step, phase, RecvCall.receive, empty, closed])
  | sending loop =>
      obtain ⟨allowed, sends⟩ := pass_accepted (waiting.clientLoop i loop phase)
        (Nat.one_pos) (Nat.succ_le_succ (Nat.zero_le sizeofReportBlock)) (clients i).sendbuf
      refine ⟨Nat.le_of_not_lt fun room => ?_, Bool.eq_false_iff.mpr fun closed => ?_⟩
      · have admits : Admits limits s (.clientSend i (.accepted 1)) := Nat.succ_le_of_lt room
        exact stuck.not_isSome _ (by simp [Advances, SendResult.accepted]) admits
          (by simp [step, phase, allowed, sends])
      · exact stuck.not_isSome (.clientExit i) (.inr ⟨loop, phase, closed⟩) trivial
          (by simp [step, phase])
  | closed | exited => trivial

/-- A client that waits has ended, unless it waits for room to connect or for a server that
has not closed. -/
theorem ClientWaits.ended (waits : ClientWaits limits s i)
    (idle : s.client i = .idle → s.server = .exited ∨ s.backlog.length < limits.queue)
    (closed : s.client i ≠ .idle → (s.client i).ended = false → s.serverClosed i = true) :
    (s.client i).ended = true := by
  unfold ClientWaits at waits
  cases phase : s.client i with
  | idle =>
      rw [phase] at waits
      rcases idle phase with gone | room
      · exact absurd gone waits.1
      · exact absurd room (Nat.not_lt.mpr waits.2)
  | connected | sending loop =>
      rw [phase] at waits closed
      have gone := closed (by simp) rfl
      rw [waits.2] at gone
      cases gone
  | closed | exited => rfl

omit [DecidableEq ι] in
/-- A client that has connected and not ended is in the order, while there is a server. -/
theorem InFlight.mem_order (inFlight : InFlight clients s) (waiting : Waiting clients s)
    (running : s.server ≠ .exited) (moved : s.client i ≠ .idle)
    (goes : (s.client i).ended = false) : i ∈ s.order := by
  cases phase : s.client i with
  | idle => exact absurd phase moved
  | connected => exact waiting.arrived running i phase
  | sending loop => exact inFlight.arrived running i loop phase
  | closed | exited =>
      rw [phase] at goes
      cases goes

/-- Where the server greets and nobody can go on, its client sends, and both have passed the
ends of their messages. -/
theorem Stuck.deadlocked_of_greeting {loop : SendLoop} (stuck : Stuck limits clients s)
    (server : s.server = .greeting i loop) (ordered : Ordered s) (waiting : Waiting clients s)
    (streams : Streams clients s) (inFlight : InFlight clients s) : Deadlocked limits s := by
  have waits := stuck.clientWaits waiting
  have room := limits.block_le
  have short := (clients i).greetingLength_le
  obtain ⟨allowed, sends⟩ := pass_accepted (waiting.serverLoop i loop server)
    Nat.one_pos (clients i).greetingLength_pos s.sendbuf
  have full : limits.buffer ≤ (s.toClient i).length := by
    refine Nat.le_of_not_lt fun space => ?_
    have admits : Admits limits s (.serverSend (.accepted 1)) := by
      rw [Admits, server]
      rintro j ⟨⟩
      exact Nat.succ_le_of_lt space
    exact stuck.not_isSome _ (by simp [Advances, SendResult.accepted]) admits
      (by simp [step, server, allowed, sends])
  have wait := waits i
  unfold ClientWaits at wait
  cases phase : s.client i with
  | idle =>
      exact absurd phase (ordered.connected i (by simp [order, server, ServerPhase.current]))
  | connected =>
      rw [phase] at wait
      rw [wait.1, List.length_nil] at full
      omega
  | sending loop' =>
      rw [phase] at wait
      have absent : i ∉ s.received.map Prod.fst := fun served => by
        rw [serverClosed_of_received served] at wait
        cases wait.2
      obtain ⟨balanced, sent⟩ := inFlight.greeting i loop server
      have balanced' := inFlight.block i loop' phase
      have sent' := streams.sending i loop' phase absent
      have more := waiting.clientLoop i loop' phase
      refine ⟨i, loop, loop', server, phase, ?_, ?_, full, waits⟩ <;> omega
  | closed | exited =>
      exact absurd (by simp [step, server]) (stuck.not_isSome .serverExit
        ⟨i, loop, server, by rw [phase]; rfl⟩ trivial)

/-- Where the server receives, somebody can go on. -/
theorem Stuck.not_receiving (stuck : Stuck limits clients s) (ordered : Ordered s)
    (waiting : Waiting clients s) : s.server ≠ .receiving i := by
  intro server
  have room := limits.block_le
  have wait := stuck.clientWaits waiting i
  have empty : s.toServer i = [] := by
    by_contra bytes
    exact stuck.not_isSome (.serverRecv (.bytes 1)) (by simp [Advances]) trivial
      (by simp [step, server, receive_one bytes, ServerState.serve, ServerState.recv])
  unfold ClientWaits at wait
  cases phase : s.client i with
  | idle =>
      exact ordered.connected i (by simp [order, server, ServerPhase.current]) phase
  | connected =>
      rw [phase] at wait
      exact waiting.greeted i phase (.inl server) wait.1
  | sending loop =>
      rw [phase, empty, List.length_nil] at wait
      omega
  | closed | exited =>
      refine stuck.not_isSome (.serverRecv .shutdown) (by simp [Advances]) trivial ?_
      simp [step, server, RecvCall.receive, empty, phase, ClientPhase.ended, ServerState.serve,
        ServerState.recv]

/-- Where nobody can go on, everything is done or the two that talk are deadlocked. -/
theorem Stuck.finished_or_deadlocked (stuck : Stuck limits clients s) (ordered : Ordered s)
    (waiting : Waiting clients s) (streams : Streams clients s) (inFlight : InFlight clients s) :
    s.Finished ∨ Deadlocked limits s := by
  have waits := stuck.clientWaits waiting
  cases server : s.server with
  | exited =>
      exact .inl ⟨.inl server, fun i => (waits i).ended (fun _ => .inl server)
        fun _ _ => serverClosed_of_exited server i⟩
  | accepting =>
      cases backlog : s.backlog with
      | cons i rest =>
          exact absurd (by simp [step, server, backlog]) (stuck.not_isSome .accept trivial trivial)
      | nil =>
          have running : s.server ≠ .exited := by simp [server]
          refine .inl ⟨.inr ⟨server, backlog⟩, fun i => (waits i).ended (fun _ => .inr ?_)
            fun moved goes => serverClosed_of_received ?_⟩
          · rw [backlog]
            exact limits.queue_pos
          · simpa [order, server, backlog, ServerPhase.current] using
              inFlight.mem_order waiting running moved goes
  | greeting i loop =>
      exact .inr (stuck.deadlocked_of_greeting server ordered waiting streams inFlight)
  | receiving i => exact absurd server (stuck.not_receiving ordered waiting)

theorem stuck_of_finished (finished : s.Finished) : Stuck limits clients s := by
  obtain ⟨idle, ended⟩ := finished
  intro op advances
  rw [← Option.not_isSome_iff_eq_none, Option.isSome_iff_exists]
  rintro ⟨t, next⟩
  cases Steps.of_step (boundedStep_eq_some_iff.mp next).2 with
  | @connect i phase | @clientRecv i _ _ _ phase _ | @clientSend i _ _ _ phase _ _ =>
      have done := ended i
      rw [phase] at done
      cases done
  | accept server backlog =>
      rcases idle with gone | ⟨_, nobody⟩
      · cases gone.symm.trans server
      · cases nobody.symm.trans backlog
  | serverSend server allowed pass | serverRecv server got served =>
      rcases idle with other | ⟨other, _⟩ <;> cases other.symm.trans server
  | serverExit server =>
      obtain ⟨i, loop, greets, _⟩ := advances
      rcases idle with other | ⟨other, _⟩ <;> cases other.symm.trans greets
  | clientExit phase =>
      rw [ended _] at phase
      cases phase

theorem stuck_of_deadlocked (deadlocked : Deadlocked limits s) : Stuck limits clients s := by
  obtain ⟨i, loop, loop', server, client, _, _, full, waits⟩ := deadlocked
  intro op advances
  rw [← Option.not_isSome_iff_eq_none, Option.isSome_iff_exists]
  rintro ⟨t, next⟩
  obtain ⟨admits, moved⟩ := boundedStep_eq_some_iff.mp next
  cases Steps.of_step moved with
  | @connect j phase =>
      have wait := waits j
      simp only [ClientWaits, phase] at wait
      exact absurd admits.2 (Nat.not_lt.mpr wait.2)
  | accept other backlog => cases server.symm.trans other
  | @serverSend j l l' result greets allowed pass =>
      cases server.symm.trans greets
      have room := admits i (by rw [server]; rfl)
      have some : 0 < result.retlen := advances
      omega
  | serverRecv other got served => cases server.symm.trans other
  | @clientRecv j call result left phase got =>
      have wait := waits j
      simp only [ClientWaits, phase] at wait
      rw [wait.1, wait.2] at got
      cases call with
      | bytes n =>
          simp [RecvCall.receive] at got
          omega
      | shutdown => simp [RecvCall.receive] at got
      | interrupted => exact advances rfl
  | @clientSend j l l' result phase allowed pass =>
      have wait := waits j
      simp only [ClientWaits, phase] at wait
      have room : (s.toServer j).length + result.retlen.toNat ≤ limits.buffer := admits
      have some : 0 < result.retlen := advances
      omega
  | serverExit other =>
      obtain ⟨j, l, greets, ended⟩ := advances
      cases server.symm.trans greets
      rw [client] at ended
      cases ended
  | @clientExit j phase =>
      have wait := waits j
      rcases advances with ⟨idle, gone⟩ | ⟨l, sends, closed⟩
      · cases server.symm.trans gone
      · simp only [ClientWaits, sends] at wait
        rw [closed] at wait
        cases wait.2

/-! ## Loops that stay within their messages -/

/-- A call within the message leaves nothing negative. -/
theorem pass_nonneg {requested : Nat} {sendbuf : Nat → Byte} {loop next : SendLoop}
    {result : SendResult} (allowed : result.Allowed requested) (nonneg : 0 ≤ loop.leftlen)
    (within : result.retlen ≤ loop.leftlen)
    (pass : loop.pass requested sendbuf result = some next) : 0 ≤ next.leftlen := by
  rw [SendLoop.pass_of_allowed (SendLoop.leftlen_ne_of_pass pass) allowed] at pass
  cases pass
  dsimp only
  omega

/-- What a client's loop has left after a step within the messages. -/
theorem Steps.clientsWithin (h : Steps clients s op s') (within : ClientsWithin s op)
    (nonneg : ∀ i loop, s.client i = .sending loop → 0 ≤ loop.leftlen) :
    ∀ i loop, s'.client i = .sending loop → 0 ≤ loop.leftlen := by
  cases h with
  | connect phase | clientExit phase => exact sending_of_update (by simp) nonneg
  | clientRecv phase got => exact sending_of_update (by rintro loop ⟨⟩; decide) nonneg
  | @clientSend i loop next result phase allowed pass =>
      refine sending_of_update (fun l sends => ?_) nonneg
      split at sends
      · cases sends
      · cases sends
        exact pass_nonneg allowed (nonneg i loop phase) (within loop phase) pass
  | accept server backlog | serverSend server allowed pass | serverRecv server got served
  | serverExit server => exact nonneg

theorem Steps.serverWithin (h : Steps clients s op s') (within : ServerWithin s op)
    (nonneg : ∀ i loop, s.server = .greeting i loop → 0 ≤ loop.leftlen) :
    ∀ i loop, s'.server = .greeting i loop → 0 ≤ loop.leftlen := by
  cases h with
  | accept server backlog =>
      rintro j loop ⟨⟩
      simp [SendLoop.start]
  | @serverSend i loop next result server allowed pass =>
      intro j l greets
      simp only at greets
      split at greets
      · cases greets
      · cases greets
        exact pass_nonneg allowed (nonneg i loop server) (within i loop server) pass
  | serverRecv server got served | serverExit server => simp
  | connect phase | clientRecv phase got | clientSend phase allowed pass | clientExit phase =>
      exact nonneg

theorem nonneg_of_clientsWithin (met : Along (boundedStep limits clients) ClientsWithin init ops)
    (reached : run (boundedStep limits clients) init ops = some s) :
    ∀ i loop, s.client i = .sending loop → 0 ≤ loop.leftlen :=
  (always_of_along (fun _ _ _ nonneg within next =>
    (Steps.of_step (boundedStep_eq_some_iff.mp next).2).clientsWithin within nonneg)
    (fun _ => id) (fun _ _ start => by cases start) met).last reached

theorem nonneg_of_serverWithin (met : Along (boundedStep limits clients) ServerWithin init ops)
    (reached : run (boundedStep limits clients) init ops = some s) :
    ∀ i loop, s.server = .greeting i loop → 0 ≤ loop.leftlen :=
  (always_of_along (fun _ _ _ nonneg within next =>
    (Steps.of_step (boundedStep_eq_some_iff.mp next).2).serverWithin within nonneg)
    (fun _ => id) (fun _ _ start => by cases start) met).last reached

/-- **Who waits forever.**  Whatever has been interrupted, cut short or has failed, nobody can
go on exactly when both sides are done, or when the server and the client that it serves both
send into full buffers, past the ends of their messages.  It comes to that in no run in which
the clients, or the server, send no byte past the end. -/
theorem exchange_stuck_iff (reached : run (boundedStep limits clients) init ops = some s) :
    ((∀ op, Advances s op → boundedStep limits clients s op = none) ↔
      s.Finished ∨ Deadlocked limits s) ∧
    (Along (boundedStep limits clients) ClientsWithin init ops ∨
        Along (boundedStep limits clients) ServerWithin init ops → ¬ Deadlocked limits s) := by
  obtain ⟨ordered, waiting, streams, inFlight⟩ := run_bounded reached
  refine ⟨⟨fun stuck => ?_, fun ended => ?_⟩, fun within deadlocked => ?_⟩
  · exact Stuck.finished_or_deadlocked stuck ordered waiting streams inFlight
  · exact ended.elim stuck_of_finished stuck_of_deadlocked
  · obtain ⟨i, loop, loop', server, client, past, past', _⟩ := deadlocked
    rcases within with clientsMet | serverMet
    · have nonneg := nonneg_of_clientsWithin clientsMet reached i loop' client
      omega
    · have nonneg := nonneg_of_serverWithin serverMet reached i loop server
      omega

/-- Room for forty bytes and one connection. -/
def narrow : SocketLimits := ⟨40, 1, by decide, by decide⟩

/-- The server sends its greeting of 20 bytes in parts of 19, 20 and 20, and the client its
block of 25 in parts of 24 and 16. -/
def overrunsBoth : List (ExchangeOp Unit) :=
  [.connect (), .accept, .serverSend (.accepted 19), .clientRecv () (.bytes 19),
    .serverSend (.accepted 20), .serverSend (.accepted 20), .clientSend () (.accepted 24),
    .clientSend () (.accepted 16)]

/-- Neither goes on. -/
theorem overrunsBoth_stuck :
    ∃ s, run (boundedStep narrow fun _ : Unit => twoClients false) init overrunsBoth = some s ∧
      ∀ op, Advances s op → boundedStep narrow (fun _ => twoClients false) s op = none := by
  obtain ⟨s, reached, ⟨loop, server, past⟩, ⟨loop', client, past'⟩, toClient, toServer, closed⟩ :
      ∃ s, run (boundedStep narrow fun _ : Unit => twoClients false) init overrunsBoth = some s ∧
        (∃ loop, s.server = .greeting () loop ∧ loop.leftlen = -39) ∧
        (∃ loop, s.client () = .sending loop ∧ loop.leftlen = -15) ∧
        (s.toClient ()).length = 40 ∧ (s.toServer ()).length = 40 ∧
        s.serverClosed () = false :=
    ⟨_, rfl, ⟨_, rfl, rfl⟩, ⟨_, rfl, rfl⟩, rfl, rfl, rfl⟩
  have waits : ∀ j, ClientWaits narrow s j := by
    rintro ⟨⟩
    rw [ClientWaits, client]
    exact ⟨Nat.le_of_eq toServer.symm, closed⟩
  exact ⟨s, reached, (exchange_stuck_iff reached).1.mpr (.inr ⟨(), loop, loop', server, client,
    by omega, by omega, Nat.le_of_eq toClient.symm, waits⟩)⟩

end ExchangeState

end OpenRtp
