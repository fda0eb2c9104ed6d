import OpenRtp.Base.Run
import OpenRtp.ReportBlock

/-!
# The report block server

The accept loop of the server.  Each connection gets one `recv` into `recvbuf`, which no
iteration clears, and the parser reads 24 bytes of it whatever `recv` returned.  So the
block of a connection is the client's exactly when the bytes `recv` did not deliver were
in the buffer already (`blocks_match_iff`).
-/

namespace OpenRtp

/-- What a call of `recv` gives: bytes, or a failure with or without `EINTR`. -/
inductive RecvResult
  | data (bytes : List Byte)
  | interrupted
  | failed
deriving DecidableEq, Repr

/-- `RECV_BUF_SIZE`. -/
def recvBufSize : Nat := 100

/-- What the client sends for a block: `sizeof(rb) + 1` bytes of its zeroed buffer. -/
def clientMessage (rb : ReportBlock) : List Byte :=
  (serializedReportBlock2 .little rb (List.replicate 100 0) 24).take 25

/-- A connection: the block sent, and the chunks its stream arrives in. -/
structure Connection where
  rb : ReportBlock
  chunks : List (List Byte)
  delivered : chunks.flatten = clientMessage rb
  nonempty : ∀ chunk ∈ chunks, chunk ≠ []

namespace Connection

/-- What the first `recv` of the connection delivers. -/
def first (conn : Connection) : List Byte := conn.chunks.headD []

/-- The results of successive `recv` calls. -/
def results (conn : Connection) : List RecvResult := conn.chunks.map .data

end Connection

/-- The receive buffer, and the blocks parsed so far. -/
structure ServerState where
  recvbuf : List Byte
  blocks : List ReportBlock
deriving DecidableEq, Repr

namespace ServerState

def init : ServerState := ⟨List.replicate recvBufSize 0, []⟩

/-- The `recv` of one iteration: the buffer and `recvlen` it leaves.  The loop around it
is commented out, so a connection gets one call; a failure ends the server. -/
def recv (recvbuf : List Byte) : List RecvResult → Option (List Byte × Int)
  | [] => some (recvbuf, 0)
  | .data bytes :: _ =>
      let bytes := bytes.take (recvBufSize - 1)
      some (bytes ++ recvbuf.drop bytes.length, bytes.length)
  | .interrupted :: _ => some (recvbuf, 0)
  | .failed :: _ => none

/-- One iteration of the accept loop, on the results of `recv` on the accepted socket. -/
def serve (s : ServerState) (results : List RecvResult) : Option ServerState :=
  (recv s.recvbuf results).map fun (recvbuf, recvlen) =>
    ⟨recvbuf, s.blocks ++ [parseReportBlock .little recvbuf recvlen]⟩

def step (s : ServerState) (conn : Connection) : Option ServerState := s.serve conn.results

/-- The block the iteration obtains from the parser. -/
def obtained (s : ServerState) (conn : Connection) : Option ReportBlock :=
  (step s conn).bind fun s' => s'.blocks.getLast?

/-- It is the one the client sent. -/
def BlockMatches (s : ServerState) (conn : Connection) : Prop := obtained s conn = some conn.rb

/-- From the end of the first chunk on, the buffer holds the message already. -/
def StaleAgrees (s : ServerState) (conn : Connection) : Prop :=
  ∀ i, conn.first.length ≤ i → i < 24 → byteAt s.recvbuf i = byteAt (clientMessage conn.rb) i

end ServerState

/-! ## The message -/

theorem length_clientMessage (rb : ReportBlock) : (clientMessage rb).length = 25 := by
  simp [clientMessage]

/-- The message starts with the encoding of the block. -/
theorem parse_clientMessage (rb : ReportBlock) (length : Int) :
    parseReportBlock .little (clientMessage rb) length = rb := by
  rw [clientMessage, parse_take _ (by decide) length length, parse_serialized rb (by simp)]

namespace Connection

variable {conn : Connection}

theorem first_prefix (conn : Connection) : conn.first <+: clientMessage conn.rb := by
  rw [← conn.delivered, first]
  cases conn.chunks with
  | nil => exact List.nil_prefix
  | cons chunk chunks => exact List.prefix_append chunk _

theorem length_first_le (conn : Connection) : conn.first.length ≤ 25 :=
  (length_clientMessage conn.rb) ▸ conn.first_prefix.length_le

theorem results_eq (conn : Connection) :
    ∃ rest, conn.results = .data conn.first :: rest := by
  cases chunks : conn.chunks with
  | nil =>
      have empty := conn.delivered
      rw [chunks] at empty
      have length := length_clientMessage conn.rb
      rw [← empty] at length
      cases length
  | cons chunk rest => exact ⟨rest.map .data, by simp [results, first, chunks]⟩

end Connection

namespace ServerState

variable {s s' : ServerState} {conn : Connection}

/-- The buffer after the `recv` of a connection. -/
def received (s : ServerState) (conn : Connection) : List Byte :=
  conn.first ++ s.recvbuf.drop conn.first.length

theorem step_eq (s : ServerState) (conn : Connection) :
    step s conn = some ⟨s.received conn,
      s.blocks ++ [parseReportBlock .little (s.received conn) conn.first.length]⟩ := by
  obtain ⟨rest, results⟩ := conn.results_eq
  have small := conn.length_first_le
  have whole : conn.first.take (recvBufSize - 1) = conn.first :=
    List.take_of_length_le (by rw [recvBufSize]; omega)
  simp [step, serve, results, recv, whole, received]

/-- The buffer never changes its size. -/
theorem length_step (size : s.recvbuf.length = recvBufSize) (h : step s conn = some s') :
    s'.recvbuf.length = recvBufSize := by
  have small := conn.length_first_le
  rw [step_eq] at h
  cases h
  rw [recvBufSize] at *
  simp [received, size]
  omega

theorem byteAt_received (s : ServerState) (conn : Connection) (i : Nat) :
    byteAt (s.received conn) i =
      if i < conn.first.length then byteAt (clientMessage conn.rb) i else byteAt s.recvbuf i := by
  obtain ⟨rest, message⟩ := conn.first_prefix
  unfold byteAt received
  rw [← message]
  simp only [List.getD_eq_getElem?_getD]
  split
  · next inside => rw [List.getElem?_append_left inside, List.getElem?_append_left inside]
  · next outside =>
      have past : conn.first.length ≤ i := Nat.le_of_not_lt outside
      rw [List.getElem?_append_right past, List.getElem?_drop, Nat.add_sub_cancel' past]

/-- Two blocks parsed from buffers are one exactly when the first 24 bytes are. -/
theorem parse_eq_iff {bytes bytes' : List Byte} (room : 24 ≤ bytes.length)
    (room' : 24 ≤ bytes'.length) (length length' : Int) :
    parseReportBlock .little bytes length = parseReportBlock .little bytes' length' ↔
      ∀ i < 24, byteAt bytes i = byteAt bytes' i := by
  rw [parseReportBlock_little, parseReportBlock_little, ← ReportBlock.view_eq_iff room room',
    ReportBlock.swapped_injective.eq_iff]

theorem length_received (size : s.recvbuf.length = recvBufSize) (conn : Connection) :
    24 ≤ (s.received conn).length := by
  have same := length_step size (step_eq s conn)
  rw [recvBufSize] at same
  simp only at same
  omega

theorem obtained_eq (s : ServerState) (conn : Connection) :
    obtained s conn =
      some (parseReportBlock .little (s.received conn) conn.first.length) := by
  rw [obtained, step_eq]
  simp

/-- Two histories give a connection one block exactly when they left the same bytes past
its first chunk. -/
theorem obtained_eq_iff (size : s.recvbuf.length = recvBufSize)
    (size' : s'.recvbuf.length = recvBufSize) :
    obtained s conn = obtained s' conn ↔
      ∀ i, conn.first.length ≤ i → i < 24 → byteAt s.recvbuf i = byteAt s'.recvbuf i := by
  rw [obtained_eq, obtained_eq, Option.some.injEq,
    parse_eq_iff (length_received size conn) (length_received size' conn)]
  refine ⟨fun same i past below => ?_, fun stale i below => ?_⟩
  · have byte := same i below
    rwa [byteAt_received, byteAt_received, if_neg (Nat.not_lt_of_le past),
      if_neg (Nat.not_lt_of_le past)] at byte
  · rw [byteAt_received, byteAt_received]
    split
    · rfl
    · next past => exact stale i (Nat.le_of_not_lt past) below

/-- One connection's block is right exactly when the stale bytes are. -/
theorem blockMatches_iff (size : s.recvbuf.length = recvBufSize) :
    BlockMatches s conn ↔ StaleAgrees s conn := by
  have room' : 24 ≤ (clientMessage conn.rb).length := by rw [length_clientMessage]; omega
  have sent : BlockMatches s conn ↔
      parseReportBlock .little (s.received conn) conn.first.length =
        parseReportBlock .little (clientMessage conn.rb) 25 := by
    rw [BlockMatches, obtained_eq, parse_clientMessage, Option.some.injEq]
  rw [sent, parse_eq_iff (length_received size conn) room']
  refine ⟨fun same i past below => ?_, fun stale i below => ?_⟩
  · have byte := same i below
    rwa [byteAt_received, if_neg (Nat.not_lt_of_le past)] at byte
  · rw [byteAt_received]
    split
    · rfl
    · next past => exact stale i (Nat.le_of_not_lt past) below

theorem sized_step (s : ServerState) (conn : Connection) (s' : ServerState)
    (size : s.recvbuf.length = recvBufSize) (h : step s conn = some s') :
    s'.recvbuf.length = recvBufSize :=
  length_step size h

theorem sized_init : init.recvbuf.length = recvBufSize := List.length_replicate

theorem along_matches_iff (conns : List Connection) :
    Along step BlockMatches init conns ↔ Along step StaleAgrees init conns :=
  along_congr sized_step (fun _ _ => blockMatches_iff) sized_init

/-- **The exchange over server runs.**  Along a run every connection obtains the client's
block exactly when on every connection the bytes its first `recv` left out were in the
buffer already.  And two runs give the same block on one more connection exactly when
they left the same bytes there. -/
theorem blocks_match_iff (conns : List Connection) :
    (Along step BlockMatches init conns ↔ Along step StaleAgrees init conns) ∧
    ∀ conns' s s' conn, run step init conns = some s → run step init conns' = some s' →
      (obtained s conn = obtained s' conn ↔
        ∀ i, conn.first.length ≤ i → i < 24 → byteAt s.recvbuf i = byteAt s'.recvbuf i) := by
  refine ⟨along_matches_iff conns, fun conns' s s' conn reached reached' => ?_⟩
  exact obtained_eq_iff (run_invariant sized_step sized_init reached)
    (run_invariant sized_step sized_init reached')

theorem blocks_of_matches {s₀ : ServerState} {conns : List Connection}
    (met : Along step BlockMatches s₀ conns) (reached : run step s₀ conns = some s) :
    s.blocks = s₀.blocks ++ conns.map Connection.rb := by
  induction conns generalizing s₀ with
  | nil => cases reached; simp
  | cons conn conns ih =>
      obtain ⟨t, first, rest⟩ := run_cons_iff.mp reached
      obtain ⟨matching, met⟩ := (along_cons_iff first).mp met
      rw [BlockMatches, obtained_eq, Option.some.injEq] at matching
      rw [step_eq, matching] at first
      cases first
      rw [ih met rest, List.map_cons, List.append_assoc, List.singleton_append]

/-- Where the bytes left out agree, the server has parsed the blocks that the clients sent,
whatever chunks they came in. -/
theorem blocks_of_staleAgrees {conns : List Connection} (met : Along step StaleAgrees init conns)
    (reached : run step init conns = some s) : s.blocks = conns.map Connection.rb :=
  blocks_of_matches ((along_matches_iff conns).mpr met) reached

/-- So two runs of clients that send the same blocks give the same blocks. -/
theorem blocks_eq_of_staleAgrees {conns conns' : List Connection}
    (met : Along step StaleAgrees init conns) (reached : run step init conns = some s)
    (met' : Along step StaleAgrees init conns') (reached' : run step init conns' = some s')
    (same : conns.map Connection.rb = conns'.map Connection.rb) : s.blocks = s'.blocks := by
  rw [blocks_of_staleAgrees met reached, blocks_of_staleAgrees met' reached', same]

/-- The client's block arriving whole. -/
def wholeMessage : Connection where
  rb := buildReportBlock
  chunks := [clientMessage buildReportBlock]
  delivered := by simp only [List.flatten_cons, List.flatten_nil, List.append_nil]
  nonempty := by decide

/-- The client's block arriving as one byte and then the rest. -/
def splitAfterOne : Connection where
  rb := buildReportBlock
  chunks := [(clientMessage buildReportBlock).take 1, (clientMessage buildReportBlock).drop 1]
  delivered := by simp only [List.flatten_cons, List.flatten_nil, List.append_nil,
    List.take_append_drop]
  nonempty := by decide

/-- A block that arrives whole, and then the same one in parts, of which one byte is received. -/
theorem splitAfterWhole_blocks_match :
    Along step BlockMatches init [wholeMessage, splitAfterOne] ∧
      (obtained init wholeMessage = obtained ((step init wholeMessage).getD init) wholeMessage ↔
        ∀ i, wholeMessage.first.length ≤ i → i < 24 →
          byteAt init.recvbuf i = byteAt ((step init wholeMessage).getD init).recvbuf i) := by
  have whole : StaleAgrees init wholeMessage := fun i past below => by
    have length : wholeMessage.first.length = 25 := length_clientMessage buildReportBlock
    omega
  have left : ∀ t, step init wholeMessage = some t → StaleAgrees t splitAfterOne := by
    intro t next i _ below
    have length : wholeMessage.first.length = 25 := length_clientMessage buildReportBlock
    rw [step_eq] at next
    cases next
    exact (byteAt_received init wholeMessage i).trans (if_pos (by omega))
  exact ⟨(blocks_match_iff _).1.mpr ⟨whole, fun t next => ⟨left t next, fun _ _ => trivial⟩⟩,
    (blocks_match_iff []).2 [wholeMessage] _ _ wholeMessage rfl rfl⟩

/-- The server parses the first byte and 23 bytes of its empty buffer. -/
theorem splitAfterOne_block :
    obtained init splitAfterOne = some ⟨0x12000000, 0, 0, 0, 0, 0, 0, 0⟩ ∧
      ¬ Along step BlockMatches init [splitAfterOne] := by
  have block : obtained init splitAfterOne = some ⟨0x12000000, 0, 0, 0, 0, 0, 0, 0⟩ := by
    decide
  refine ⟨block, fun met => ?_⟩
  have matching := met.1
  rw [BlockMatches, block] at matching
  exact absurd matching (by decide)

end ServerState

end OpenRtp
