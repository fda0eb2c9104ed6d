import OpenRtp.Exchange

/-!
# The blocks of the exchange

What the server parses, in any order of the steps of the programs: the bytes in flight to it are
the start of the client's memory, whatever the calls of `send` took.  `exchange_blocks` says
which blocks are those of the clients.
-/

namespace OpenRtp

namespace ExchangeState

variable {ι : Type*} [DecidableEq ι] {clients : ι → Client} {s s' : ExchangeState ι}
  {op : ExchangeOp ι} {ops : List (ExchangeOp ι)} {i : ι}

/-! ## The bytes in flight -/

/-- One `recv` of the server with the parsing after it. -/
def serveOne (t : ServerState) (result : RecvResult) : Option ServerState := t.serve [result]

/-- Up to its `recv` of a client, the server has in flight from it what its loop has sent, which
is the start of its memory; and each `recv` gave such a start. -/
structure Streams (clients : ι → Client) (s : ExchangeState ι) : Prop where
  parsed : run serveOne .init (s.received.map Prod.snd) = some s.parsed
  unsent : ∀ i, s.client i = .idle ∨ s.client i = .connected → s.toServer i = []
  sending : ∀ i loop, s.client i = .sending loop → i ∉ s.received.map Prod.fst →
    loop.ptr = (s.toServer i).length
  stream : ∀ i, i ∉ s.received.map Prod.fst →
    s.toServer i = message (s.toServer i).length (clients i).sendbuf
  delivered : ∀ i result, (i, result) ∈ s.received →
    result = .interrupted ∨
      ∃ n < recvBufSize, result = .data (message n (clients i).sendbuf)

omit [DecidableEq ι] in
theorem streams_init (clients : ι → Client) : Streams clients init where
  parsed := rfl
  unsent _ _ := rfl
  sending _ _ := nofun
  stream _ _ := rfl
  delivered _ _ := nofun

theorem message_append (n k : Nat) (sendbuf : Nat → Byte) :
    message (n + k) sendbuf = message n sendbuf ++ (List.range k).map fun i => sendbuf (n + i) := by
  simp [message, List.range_add]

theorem take_message {n m : Nat} (shorter : n ≤ m) (sendbuf : Nat → Byte) :
    (message m sendbuf).take n = message n sendbuf := by
  obtain ⟨k, rfl⟩ := Nat.exists_eq_add_of_le shorter
  rw [message_append, List.take_append_of_le_length (by simp [message])]
  exact List.take_of_length_le (by simp [message])

/-- What a call gives that does not fail. -/
theorem receive_cases {stream left : List Byte} {peerClosed : Bool} {call : RecvCall}
    {result : RecvResult} (got : call.receive stream peerClosed = some (result, left)) :
    (result = .interrupted ∨
        ∃ n < recvBufSize, n ≤ stream.length ∧ result = .data (stream.take n)) ∧
      (stream = [] → left = []) := by
  cases call with
  | bytes n =>
      simp only [RecvCall.receive, Option.ite_none_right_eq_some, Option.some.injEq,
        Prod.mk.injEq] at got
      obtain ⟨⟨least, room, inside⟩, rfl, rfl⟩ := got
      have fits : n < recvBufSize := by
        simp only [recvBufSize] at room ⊢
        omega
      exact ⟨.inr ⟨n, fits, inside, rfl⟩, fun empty => by simp [empty]⟩
  | shutdown =>
      simp only [RecvCall.receive, Option.ite_none_right_eq_some, Option.some.injEq,
        Prod.mk.injEq] at got
      obtain ⟨_, rfl, rfl⟩ := got
      exact ⟨.inr ⟨0, by decide, Nat.zero_le _, rfl⟩, fun _ => rfl⟩
  | interrupted =>
      cases got
      exact ⟨.inl rfl, id⟩

/-- Only `i` moves, and sends nothing. -/
theorem Streams.move (streams : Streams clients s) {phase : ClientPhase}
    (quiet : phase = .idle ∨ phase = .connected → s.toServer i = [])
    (sends : ∀ loop, phase = .sending loop → loop.ptr = 0 ∧ s.toServer i = [])
    (backlog : List ι) (toClient : ι → List Byte) :
    Streams clients { s with
      client := Function.update s.client i phase
      backlog
      toClient } where
  parsed := streams.parsed
  unsent j before := by
    dsimp only at before ⊢
    rcases eq_or_ne j i with rfl | other
    · rw [Function.update_self] at before
      exact quiet before
    · rw [Function.update_of_ne other] at before
      exact streams.unsent j before
  sending := by
    refine sending_of_update (fun loop phase _ => ?_) streams.sending
    obtain ⟨start, empty⟩ := sends loop phase
    rw [start, empty]
    rfl
  stream := streams.stream
  delivered := streams.delivered

/-- The client sends the bytes after those it has sent. -/
theorem Streams.sent (streams : Streams clients s) {loop next : SendLoop} {result : SendResult}
    {phase : ClientPhase} (sends : s.client i = .sending loop)
    (advanced : next.ptr = loop.ptr + (loop.taken (clients i).sendbuf result).length)
    (moved : phase = .closed ∨ phase = .sending next) :
    Streams clients { s with
      client := Function.update s.client i phase
      toServer := Function.update s.toServer i
        (s.toServer i ++ loop.taken (clients i).sendbuf result) } where
  parsed := streams.parsed
  unsent j before := by
    dsimp only at before ⊢
    rcases eq_or_ne j i with rfl | other
    · rw [Function.update_self] at before
      rcases moved with rfl | rfl <;> simp at before
    · rw [Function.update_of_ne other] at before ⊢
      exact streams.unsent j before
  sending j l phase absent := by
    dsimp only at phase ⊢
    rcases eq_or_ne j i with rfl | other
    · rw [Function.update_self] at phase ⊢
      rcases moved with rfl | rfl
      · cases phase
      · cases phase
        rw [List.length_append, advanced, streams.sending j loop sends absent]
    · rw [Function.update_of_ne other] at phase ⊢
      exact streams.sending j l phase absent
  stream j absent := by
    dsimp only
    rcases eq_or_ne j i with rfl | other
    · have start := streams.sending j loop sends absent
      rw [Function.update_self, List.length_append, message_append, ← streams.stream j absent,
        SendLoop.taken, start]
      simp
    · rw [Function.update_of_ne other]
      exact streams.stream j absent
  delivered := streams.delivered

theorem Steps.streams (h : Steps clients s op s') (ordered : Ordered s)
    (streams : Streams clients s) : Streams clients s' := by
  cases h with
  | @connect i phase =>
      exact streams.move (fun _ => streams.unsent i (.inl phase)) (by simp) _ _
  | accept server backlog | serverSend server allowed pass | serverExit server =>
      exact ⟨streams.parsed, streams.unsent, streams.sending, streams.stream, streams.delivered⟩
  | @serverRecv i call result left parsed server got served =>
      obtain ⟨given, emptied⟩ := receive_cases got
      have absent : i ∉ s.received.map Prod.fst := by
        have once := ordered.once
        rw [order, server] at once
        exact fun member =>
          List.disjoint_of_nodup_append once member (by simp [ServerPhase.current])
      have apart : ∀ j, j ∉ (s.received ++ [(i, result)]).map Prod.fst →
          j ≠ i ∧ j ∉ s.received.map Prod.fst := by
        intro j outside
        simp only [List.map_append, List.mem_append, not_or, List.map_cons, List.map_nil,
          List.mem_singleton] at outside
        exact ⟨outside.2, outside.1⟩
      refine ⟨?_, fun j before => ?_, fun j loop phase outside => ?_, fun j outside => ?_,
        fun j r member => ?_⟩
      · rw [List.map_append, List.map_singleton]
        exact run_concat_iff.mpr ⟨_, streams.parsed, served⟩
      · dsimp only
        rcases eq_or_ne j i with rfl | other
        · rw [Function.update_self]
          exact emptied (streams.unsent j before)
        · rw [Function.update_of_ne other]
          exact streams.unsent j before
      · obtain ⟨other, outside⟩ := apart j outside
        dsimp only
        rw [Function.update_of_ne other]
        exact streams.sending j loop phase outside
      · obtain ⟨other, outside⟩ := apart j outside
        dsimp only
        rw [Function.update_of_ne other]
        exact streams.stream j outside
      · rcases List.mem_append.mp member with before | last
        · exact streams.delivered j r before
        · cases List.mem_singleton.mp last
          rcases given with interrupted | ⟨n, small, inside, taken⟩
          · exact .inl interrupted
          · refine .inr ⟨n, small, ?_⟩
            rw [taken, streams.stream i absent, take_message inside]
  | @clientRecv i call result left phase got =>
      have empty := streams.unsent i (.inr phase)
      exact streams.move (by simp) (by rintro loop ⟨⟩; exact ⟨rfl, empty⟩) _ _
  | @clientSend i loop next result phase allowed pass =>
      exact streams.sent phase (pass_cases allowed pass).1 (by split <;> simp)
  | clientExit phase => exact streams.move (by simp) (by simp) _ _

theorem run_streams (reached : run (step clients) init ops = some s) :
    Ordered s ∧ Streams clients s :=
  run_invariant (P := fun s => Ordered s ∧ Streams clients s)
    (fun _ _ _ kept next => ⟨(Steps.of_step next).ordered kept.1,
      (Steps.of_step next).streams kept.1 kept.2⟩)
    ⟨ordered_init, streams_init clients⟩ reached

/-- What a call wrote to the start of the buffer. -/
def given : RecvResult → List Byte
  | .data bytes => bytes.take (recvBufSize - 1)
  | .interrupted | .failed => []

/-- The buffer after one `recv`, and the block parsed from it. -/
theorem serveOne_eq {t u : ServerState} {result : RecvResult}
    (served : serveOne t result = some u) :
    u = ⟨given result ++ t.recvbuf.drop (given result).length,
      t.blocks ++ [parseReportBlock .little
        (given result ++ t.recvbuf.drop (given result).length) (given result).length]⟩ := by
  cases result <;> simp_all [serveOne, ServerState.serve, ServerState.recv, given]

/-- Blocks are added one for each `recv`, and the buffer keeps its size. -/
theorem run_serveOne {results : List RecvResult} {t u : ServerState}
    (reached : run serveOne t results = some u) :
    t.blocks <+: u.blocks ∧ u.blocks.length = t.blocks.length + results.length ∧
      (t.recvbuf.length = recvBufSize → u.recvbuf.length = recvBufSize) := by
  induction results generalizing t with
  | nil => cases reached; exact ⟨List.prefix_rfl, rfl, id⟩
  | cons result results ih =>
      obtain ⟨v, first, rest⟩ := run_cons_iff.mp reached
      obtain ⟨kept, counted, size⟩ := ih rest
      have small : (given result).length ≤ recvBufSize := by
        cases result <;> simp [given, recvBufSize]
      rw [serveOne_eq first] at kept counted size
      refine ⟨(List.prefix_append _ _).trans kept, by simp at counted ⊢; omega, fun before => ?_⟩
      exact size (by simp [before]; omega)

theorem byteAt_overwritten (bytes buffer : List Byte) (j : Nat) :
    byteAt (bytes ++ buffer.drop bytes.length) j =
      if j < bytes.length then byteAt bytes j else byteAt buffer j := by
  unfold byteAt
  simp only [List.getD_eq_getElem?_getD]
  split
  · next inside => rw [List.getElem?_append_left inside]
  · next outside =>
      rw [List.getElem?_append_right (Nat.le_of_not_lt outside), List.getElem?_drop,
        Nat.add_sub_cancel' (Nat.le_of_not_lt outside)]

theorem byteAt_message {n : Nat} (inside : j' < n) (sendbuf : Nat → Byte) :
    byteAt (message n sendbuf) j' = sendbuf j' := by
  simp [byteAt, message, inside]

/-- The start of a client's memory in the buffer makes its block exactly where the buffer held
the rest of the message. -/
theorem parse_overwritten_iff (c : Client) (n : Nat) {buffer : List Byte}
    (size : buffer.length = recvBufSize) (length : Int) :
    parseReportBlock .little (message n c.sendbuf ++ buffer.drop n) length = c.rb ↔
      ∀ j, n ≤ j → j < 24 → byteAt buffer j = byteAt (clientMessage c.rb) j := by
  have enough : 24 ≤ (message n c.sendbuf ++ buffer.drop n).length := by
    simp [message, size, recvBufSize]
    omega
  have enough' : 24 ≤ (clientMessage c.rb).length := by rw [length_clientMessage]; omega
  have sent : ∀ j < 24, c.sendbuf j = byteAt (clientMessage c.rb) j := fun j inside => by
    rw [← c.serialized, byteAt_message (by simp [sizeofReportBlock]; omega)]
  have bytes : ∀ j, byteAt (message n c.sendbuf ++ buffer.drop n) j =
      if j < n then c.sendbuf j else byteAt buffer j := by
    intro j
    have overwritten := byteAt_overwritten (message n c.sendbuf) buffer j
    simp only [message, List.length_map, List.length_range] at overwritten
    rw [message, overwritten]
    split
    · next inside => exact byteAt_message inside _
    · rfl
  conv_lhs => rw [← parse_clientMessage c.rb length, ServerState.parse_eq_iff enough enough']
  refine ⟨fun same j past below => ?_, fun stale j below => ?_⟩
  · have byte := same j below
    rwa [bytes, if_neg (Nat.not_lt_of_le past)] at byte
  · rw [bytes]
    split
    · exact sent j below
    · next past => exact stale j (Nat.le_of_not_lt past) below

/-- **The blocks of the exchange.**  Whatever the order of the steps and whatever is interrupted
or cut short, the server serves no client twice, parses one block for each client served, and
the block is the client's exactly where the bytes that its one `recv` left out were in the
buffer already. -/
theorem exchange_blocks (reached : run (step clients) init ops = some s) :
    (s.received.map Prod.fst).Nodup ∧ s.parsed.blocks.length = s.received.length ∧
      ∀ before i result after, s.received = before ++ (i, result) :: after →
        ∃ t, run serveOne .init (before.map Prod.snd) = some t ∧
          (s.parsed.blocks[before.length]? = some (clients i).rb ↔
            ∀ j, (given result).length ≤ j → j < 24 →
              byteAt t.recvbuf j = byteAt (clientMessage (clients i).rb) j) := by
  obtain ⟨ordered, streams⟩ := run_streams reached
  refine ⟨(List.nodup_append.mp ordered.once).1, ?_, fun before i result after split => ?_⟩
  · have counted := (run_serveOne streams.parsed).2.1
    simpa [ServerState.init] using counted
  · have parsed := streams.parsed
    rw [split, List.map_append, List.map_cons] at parsed
    obtain ⟨t, start, rest⟩ := run_append_iff.mp parsed
    obtain ⟨u, served, rest⟩ := run_cons_iff.mp rest
    refine ⟨t, start, ?_⟩
    obtain ⟨_, counted, sized⟩ := run_serveOne start
    have size : t.recvbuf.length = recvBufSize := sized (by simp [ServerState.init])
    have last := serveOne_eq served
    obtain ⟨later, same⟩ := (run_serveOne rest).1
    have place : t.blocks.length = before.length := by simpa [ServerState.init] using counted
    have block : s.parsed.blocks[before.length]? = some (parseReportBlock .little
        (given result ++ t.recvbuf.drop (given result).length) (given result).length) := by
      rw [← same, last, ← place]
      simp
    obtain ⟨n, bytes⟩ : ∃ n, given result = message n (clients i).sendbuf := by
      rcases streams.delivered i result (by simp [split]) with rfl | ⟨n, small, rfl⟩
      · exact ⟨0, rfl⟩
      · exact ⟨n, List.take_of_length_le (by simp [message]; omega)⟩
    have length : (message n (clients i).sendbuf).length = n := by simp [message]
    rw [block, bytes, length, Option.some.injEq, parse_overwritten_iff (clients i) n size]

/-- The first client is received whole, and of the second one ten bytes. -/
def servesBoth : List (ExchangeOp Bool) :=
  [.connect false, .connect true, .accept, .serverSend .interrupted, .serverSend (.accepted 20),
    .clientRecv false (.bytes 20), .clientSend false (.accepted 25), .serverRecv (.bytes 24),
    .accept, .serverSend (.accepted 20), .clientRecv true (.bytes 7),
    .clientSend true (.accepted 25), .serverRecv (.bytes 10)]

/-- The bytes that its `recv` left out are those of the first client, which sent the same. -/
theorem servesBoth_blocks :
    ∃ s, run (step twoClients) init servesBoth = some s ∧
      s.parsed.blocks[1]? = some buildReportBlock := by
  obtain ⟨s, reached, received⟩ : ∃ s, run (step twoClients) init servesBoth = some s ∧
      s.received = [(false, .data (message 24 (twoClients false).sendbuf)),
        (true, .data (message 10 (twoClients true).sendbuf))] := ⟨_, rfl, rfl⟩
  obtain ⟨t, served, block⟩ := (exchange_blocks reached).2.2 [_] true _ [] received
  refine ⟨s, reached, block.mpr fun j _ below => ?_⟩
  cases served
  interval_cases j <;> decide

end ExchangeState

end OpenRtp
