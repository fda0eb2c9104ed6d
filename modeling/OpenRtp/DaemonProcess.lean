import OpenRtp.Base.Descriptors
import OpenRtp.Daemonize

/-!
# The processes that daemonizing leaves

`CmdlineParameter::daemonize` as it changes the processes of the system: the process that
calls it, the child and the grandchild, each with its session, its mask, its directory and
its open files.  `daemonizeTree` lists them with the end of the call in each; an end is
missing where the loop that closes the descriptors goes on.

`daemon_iff` says when there is a daemon, and what it is.
-/

namespace OpenRtp

inductive SignalAction
  | default
  | ignored
  | handled (handler : Nat)
deriving DecidableEq, Repr

inductive OpenFile
  | devNull
  | inherited (file : Nat)
deriving DecidableEq, Repr

/-- `RLIMIT_NOFILE`; the system keeps the soft limit within the hard one. -/
structure FileLimits where
  cur : Nat
  max : BitVec 64
  cur_le_max : cur ≤ max.toNat

structure Process where
  pid : Nat
  pgid : Nat
  sid : Nat
  /-- The controlling terminal. -/
  tty : Option Nat
  umask : Nat
  cwd : String
  sighup : SignalAction
  limits : FileLimits
  file : Nat → Option OpenFile

namespace Process

/-- The child that `fork` makes. -/
def fork (p : Process) (pid : Nat) : Process := { p with pid }

/-- `setsid`, which fails in the leader of a process group. -/
def setsid (p : Process) : Option Process :=
  if p.pid = p.pgid then none else some { p with pgid := p.pid, sid := p.pid, tty := none }

def descriptors (p : Process) : Descriptors OpenFile := ⟨p.file, p.limits.cur⟩

end Process

/-- Which calls succeed, and the process identities that `fork` gives out at its first call and
its second. -/
structure ProcessEnv where
  getrlimit : Bool
  fork : Nat → Option Nat
  sigaction : Bool
  chdir : Bool
  openDevNull : Bool

/-- The loop over `close`. -/
def closeFiles (rlimMax : BitVec 64) (fuel : Nat) (d : Descriptors OpenFile) :
    Option (Descriptors OpenFile) :=
  forBelow (closingLimit rlimMax) (fun (i : BitVec 32) d => d.close i.toInt) fuel 0 d

/-- `open` and the two calls of `dup`, with the check of what they returned. -/
def attachDevNull (env : ProcessEnv) (d : Descriptors OpenFile) :
    Descriptors OpenFile × DaemonEnd :=
  let (fd0, d) := if env.openDevNull then d.openFile .devNull else (none, d)
  let (fd1, d) := d.dup 0
  let (fd2, d) := d.dup 0
  if fd0 ≠ some 0 ∨ fd1 ≠ some 1 ∨ fd2 ≠ some 2 then (d, .exited .failure) else (d, .returned)

/-- The grandchild, from the second `fork` on. -/
def grandchild (env : ProcessEnv) (fuel : Nat) (p : Process) : Process × Option DaemonEnd :=
  if !env.chdir then (p, some (.exited .failure))
  else
    let p := { p with cwd := "/" }
    match closeFiles p.limits.max fuel p.descriptors with
    | none => (p, none)
    | some d =>
        let (d, ended) := attachDevNull env d
        ({ p with file := d.file }, some ended)

/-- The child, from the first `fork` on, and the grandchild. -/
def childTree (env : ProcessEnv) (fuel : Nat) (p : Process) :
    List (Process × Option DaemonEnd) :=
  match p.setsid with
  | none => [(p, some (.exited .failure))]
  | some p =>
      if !env.sigaction then [(p, some (.exited .failure))]
      else
        let p := { p with sighup := .ignored }
        match env.fork 1 with
        | none => [(p, some (.exited .failure))]
        | some pid => [(p, some (.exited .success)), grandchild env fuel (p.fork pid)]

/-- `CmdlineParameter::daemonize`, called in the process `p`. -/
def daemonizeTree (env : ProcessEnv) (fuel : Nat) (p : Process) :
    List (Process × Option DaemonEnd) :=
  let p := { p with umask := 0 }
  if !env.getrlimit then [(p, some (.exited .failure))]
  else
    match env.fork 0 with
    | none => [(p, some (.exited .failure))]
    | some pid => (p, some (.exited .success)) :: childTree env fuel (p.fork pid)

/-! ## What a daemon is -/

/-- The identities that `fork` gives out are in use by nobody. -/
structure ProcessEnv.Fresh (env : ProcessEnv) (p : Process) : Prop where
  first : ∀ pid, env.fork 0 = some pid → pid ≠ p.pid ∧ pid ≠ p.pgid ∧ pid ≠ p.sid
  second : ∀ pid, env.fork 1 = some pid → env.fork 0 ≠ some pid

/-- Every call that may fail succeeds. -/
structure ProcessEnv.Succeeds (env : ProcessEnv) : Prop where
  getrlimit : env.getrlimit = true
  child : (env.fork 0).isSome
  grandchild : (env.fork 1).isSome
  sigaction : env.sigaction = true
  chdir : env.chdir = true
  openDevNull : env.openDevNull = true

/-- The files of a daemon that `p` has made: none of those that the loop could close. -/
def daemonFile (p : Process) (fd : Nat) : Option OpenFile :=
  if fd < 3 then some .devNull
  else if fd < (closingLimit p.limits.max).toNat ∧ fd < 2 ^ 31 then none
  else p.file fd

/-- `q` is a daemon that `p` has made: no leader of its session, which is a new one without
a terminal. -/
structure IsDaemon (env : ProcessEnv) (p q : Process) : Prop where
  pid : env.fork 1 = some q.pid
  session : env.fork 0 = some q.sid ∧ q.pgid = q.sid ∧ q.sid ≠ p.sid ∧ q.pid ≠ q.sid
  tty : q.tty = none
  umask : q.umask = 0
  cwd : q.cwd = "/"
  sighup : q.sighup = .ignored
  limits : q.limits = p.limits
  file : ∀ fd, q.file fd = daemonFile p fd

/-! ## The files of the grandchild -/

section

variable {env : ProcessEnv} {p q : Process} {fuel fd : Nat} {rlimMax : BitVec 64}
  {d d' : Descriptors OpenFile}

theorem toInt_ofNat_eq_iff {i : Nat} (counter : i < 2 ^ 32) :
    (BitVec.ofNat 32 i).toInt = fd ↔ i = fd ∧ fd < 2 ^ 31 := by
  rw [BitVec.toInt_eq_toNat_cond, BitVec.toNat_ofNat, Nat.mod_eq_of_lt counter]
  split <;> omega

/-- The loop ends exactly when its limit is an `unsigned int`, with the descriptors closed
that are below the limit and are an `int`. -/
theorem closeFiles_eq_some (closed : closeFiles rlimMax fuel d = some d') :
    (closingLimit rlimMax).toNat < 2 ^ 32 ∧ d'.limit = d.limit ∧ ∀ fd, d'.file fd =
      if fd < (closingLimit rlimMax).toNat ∧ fd < 2 ^ 31 then none else d.file fd := by
  obtain ⟨value, _, rfl⟩ := (forBelow_eq_some_iff (by decide)).mp closed
  have members : ∀ fd : Nat, (fd : Int) ∈ (countersFrom (closingLimit rlimMax) (0 : BitVec 32)).map
      BitVec.toInt ↔ fd < (closingLimit rlimMax).toNat ∧ fd < 2 ^ 31 := by
    intro fd
    simp only [countersFrom, List.map_map, List.mem_map, Function.comp_apply]
    constructor
    · intro made
      obtain ⟨i, inside, same⟩ := made
      have below : i < (closingLimit rlimMax).toNat := by
        simpa using (List.mem_range'_1.mp inside).2
      obtain ⟨rfl, int⟩ := (toInt_ofNat_eq_iff (by omega)).mp same
      exact ⟨below, int⟩
    · intro inside
      rcases inside with ⟨below, int⟩
      exact ⟨fd, List.mem_range'_1.mpr (by simpa using below),
        (toInt_ofNat_eq_iff (by omega)).mpr ⟨rfl, int⟩⟩
  have folded : ∀ d : Descriptors OpenFile,
      (countersFrom (closingLimit rlimMax) (0 : BitVec 32)).foldl (fun d i => d.close i.toInt) d =
        ((countersFrom (closingLimit rlimMax) (0 : BitVec 32)).map BitVec.toInt).foldl
          Descriptors.close d := fun d => by rw [List.foldl_map]
  rw [folded]
  refine ⟨value, Descriptors.limit_foldl_close _ d, fun fd => ?_⟩
  rw [Descriptors.file_foldl_close]
  exact if_congr (members fd) rfl rfl

/-- With enough fuel. -/
theorem closeFiles_ends (value : (closingLimit rlimMax).toNat < 2 ^ 32)
    (d : Descriptors OpenFile) :
    ∃ fuel d', closeFiles rlimMax fuel d = some d' :=
  ⟨(closingLimit rlimMax).toNat + 1, _, (forBelow_eq_some_iff (by decide)).mpr
    ⟨value, by simp, rfl⟩⟩

/-- The check passes only if `open` succeeded and three descriptors are allowed. -/
theorem attachDevNull_returned (returned : (attachDevNull env d).2 = .returned) :
    env.openDevNull = true ∧ 3 ≤ d.limit := by
  unfold attachDevNull at returned
  cases opens : env.openDevNull with
  | false => simp [opens] at returned
  | true =>
      simp only [opens, if_true] at returned
      split at returned
      · cases returned
      · next passed =>
          simp only [not_or, not_not] at passed
          have third := Descriptors.lt_limit_of_dup passed.2.2
          rw [Descriptors.limit_dup, Descriptors.limit_openFile] at third
          exact ⟨rfl, third⟩

/-- Then, with the first three descriptors free, it does. -/
theorem attachDevNull_of_free (opens : env.openDevNull = true) (room : 3 ≤ d.limit)
    (free : ∀ fd < 3, d.file fd = none) :
    ∃ d', attachDevNull env d = (d', .returned) ∧
      ∀ fd, d'.file fd = if fd < 3 then some .devNull else d.file fd := by
  obtain ⟨d₁, d₂, d₃, first, second, third, files⟩ :=
    Descriptors.open_three OpenFile.devNull free room
  exact ⟨d₃, by simp [attachDevNull, opens, first, second, third], files⟩

/-- Three descriptors that are allowed are below the limit of the loop. -/
theorem three_le_closingLimit (limits : FileLimits) (room : 3 ≤ limits.cur) :
    3 ≤ (closingLimit limits.max).toNat := by
  unfold closingLimit
  split
  · decide
  · exact room.trans limits.cur_le_max

/-- After the loop, `open` and `dup` leave the files of a daemon. -/
theorem attachDevNull_of_closed (closed : closeFiles p.limits.max fuel p.descriptors = some d)
    (opens : env.openDevNull = true) (room : 3 ≤ p.limits.cur) :
    ∃ d', attachDevNull env d = (d', .returned) ∧ d'.file = daemonFile p := by
  obtain ⟨_, limit, files⟩ := closeFiles_eq_some closed
  have least := three_le_closingLimit p.limits room
  have free : ∀ fd < 3, d.file fd = none := fun fd less => by
    rw [files, if_pos ⟨Nat.lt_of_lt_of_le less least, by omega⟩]
  obtain ⟨d', attached, files'⟩ := attachDevNull_of_free opens (by rwa [limit]) free
  refine ⟨d', attached, funext fun fd => ?_⟩
  rw [files', files]
  rfl

/-- What the grandchild becomes when it returns. -/
def asDaemon (p : Process) : Process := { p with cwd := "/", file := daemonFile p }

/-- The grandchild returns from the call as a daemon or not at all. -/
theorem grandchild_returned (returned : grandchild env fuel p = (q, some .returned)) :
    (env.chdir = true ∧ env.openDevNull = true ∧
      (closingLimit p.limits.max).toNat < 2 ^ 32 ∧ 3 ≤ p.limits.cur) ∧ q = asDaemon p := by
  unfold grandchild at returned
  split at returned
  · cases returned
  · next moved =>
      dsimp only at returned
      split at returned
      · cases returned
      · next d closed =>
          obtain ⟨value, limit, _⟩ := closeFiles_eq_some closed
          have ended : (attachDevNull env d).2 = .returned :=
            Option.some.inj (Prod.mk.inj returned).2
          obtain ⟨opens, room⟩ := attachDevNull_returned ended
          rw [limit] at room
          obtain ⟨d', attached, files⟩ :=
            attachDevNull_of_closed (p := { p with cwd := "/" }) closed opens room
          rw [attached] at returned
          refine ⟨⟨by simpa using moved, opens, value, room⟩, ?_⟩
          rw [← (Prod.mk.inj returned).1, files]
          rfl

/-- And where it can, it does. -/
theorem grandchild_returns (moves : env.chdir = true) (opens : env.openDevNull = true)
    (value : (closingLimit p.limits.max).toNat < 2 ^ 32) (room : 3 ≤ p.limits.cur) :
    ∃ fuel, grandchild env fuel p = (asDaemon p, some .returned) := by
  obtain ⟨fuel, d, closed⟩ := closeFiles_ends value p.descriptors
  obtain ⟨d', attached, files⟩ := attachDevNull_of_closed closed opens room
  have closing : closeFiles p.limits.max fuel
      (Process.descriptors { p with cwd := "/" }) = some d := closed
  refine ⟨fuel, ?_⟩
  simp only [grandchild, moves, Bool.not_true, Bool.false_eq_true, if_false, closing, attached,
    files]
  rfl

/-! ## The tree -/

/-- What the child has become when it forks, and the grandchild with it. -/
def sessionOf (p : Process) (first : Nat) : Process :=
  { p with
    pid := first
    pgid := first
    sid := first
    tty := none
    umask := 0
    sighup := .ignored }

/-- Where every call up to the second `fork` succeeds, both parents exit. -/
theorem daemonizeTree_of_forked {first second : Nat} (fresh : env.Fresh p)
    (limited : env.getrlimit = true) (child : env.fork 0 = some first)
    (ignoring : env.sigaction = true) (forked : env.fork 1 = some second) (fuel : Nat) :
    daemonizeTree env fuel p =
      [({ p with umask := 0 }, some (.exited .success)),
        (sessionOf p first, some (.exited .success)),
        grandchild env fuel ((sessionOf p first).fork second)] := by
  have follower : first ≠ p.pgid := (fresh.first first child).2.1
  simp [daemonizeTree, limited, child, childTree, Process.setsid, Process.fork, follower,
    ignoring, forked, sessionOf]

/-- A process that returns comes from two forks. -/
theorem forked_of_returned (fresh : env.Fresh p)
    (returned : (q, some .returned) ∈ daemonizeTree env fuel p) :
    ∃ first second, env.getrlimit = true ∧ env.fork 0 = some first ∧ env.sigaction = true ∧
      env.fork 1 = some second ∧
      (q, some .returned) = grandchild env fuel ((sessionOf p first).fork second) := by
  cases limited : env.getrlimit with
  | false => simp [daemonizeTree, limited] at returned
  | true =>
      cases child : env.fork 0 with
      | none => simp [daemonizeTree, limited, child] at returned
      | some first =>
          have follower : first ≠ p.pgid := (fresh.first first child).2.1
          cases ignoring : env.sigaction with
          | false =>
              simp [daemonizeTree, limited, child, childTree, Process.setsid, Process.fork,
                follower, ignoring] at returned
          | true =>
              cases forked : env.fork 1 with
              | none =>
                  simp [daemonizeTree, limited, child, childTree, Process.setsid, Process.fork,
                    follower, ignoring, forked] at returned
              | some second =>
                  rw [daemonizeTree_of_forked fresh limited child ignoring forked] at returned
                  exact ⟨first, second, rfl, rfl, rfl, rfl, by simpa using returned⟩

/-- The daemon of two forks. -/
theorem isDaemon {first second : Nat} (fresh : env.Fresh p) (child : env.fork 0 = some first)
    (forked : env.fork 1 = some second) :
    IsDaemon env p (asDaemon ((sessionOf p first).fork second)) where
  pid := forked
  session := by
    refine ⟨child, rfl, (fresh.first first child).2.2, fun same => ?_⟩
    exact fresh.second second forked (child.trans (congrArg some same.symm))
  tty := rfl
  umask := rfl
  cwd := rfl
  sighup := rfl
  limits := rfl
  file _ := rfl

/-- **Daemons.**  Some process returns from `daemonize` exactly when every call succeeds, the
limit of the loop is an `unsigned int` and three descriptors are allowed.  It is a daemon,
and every other process has exited with success.  The process that called `daemonize`
exits with success as soon as it has a child, whether or not a daemon comes of it. -/
theorem daemon_iff (fresh : env.Fresh p) :
    ((∃ fuel q, (q, some .returned) ∈ daemonizeTree env fuel p) ↔
      env.Succeeds ∧ (closingLimit p.limits.max).toNat < 2 ^ 32 ∧ 3 ≤ p.limits.cur) ∧
    (∀ fuel q, (q, some .returned) ∈ daemonizeTree env fuel p →
      IsDaemon env p q ∧ ∃ p' c, daemonizeTree env fuel p =
        [(p', some (.exited .success)), (c, some (.exited .success)), (q, some .returned)]) ∧
    ∀ fuel, (daemonizeTree env fuel p).head?.map Prod.snd = some (some (.exited
      (if env.getrlimit = true ∧ (env.fork 0).isSome then .success else .failure))) := by
  refine ⟨⟨fun ended => ?_, fun possible => ?_⟩, fun fuel q returned => ?_, fun fuel => ?_⟩
  · obtain ⟨fuel, q, returned⟩ := ended
    obtain ⟨first, second, limited, child, ignoring, forked, last⟩ :=
      forked_of_returned fresh returned
    obtain ⟨⟨moves, opens, value, room⟩, _⟩ := grandchild_returned last.symm
    exact ⟨⟨limited, Option.isSome_of_eq_some child, Option.isSome_of_eq_some forked, ignoring,
      moves, opens⟩, value, room⟩
  · rcases possible with ⟨succeeds, value, room⟩
    obtain ⟨first, child⟩ := Option.isSome_iff_exists.mp succeeds.child
    obtain ⟨second, forked⟩ := Option.isSome_iff_exists.mp succeeds.grandchild
    obtain ⟨fuel, returns⟩ := grandchild_returns (p := (sessionOf p first).fork second)
      succeeds.chdir succeeds.openDevNull value room
    have tree := daemonizeTree_of_forked fresh succeeds.getrlimit child succeeds.sigaction
      forked fuel
    rw [returns] at tree
    exact ⟨fuel, _, by rw [tree]; exact List.mem_of_getLast? rfl⟩
  · obtain ⟨first, second, limited, child, ignoring, forked, last⟩ :=
      forked_of_returned fresh returned
    obtain ⟨_, rfl⟩ := grandchild_returned last.symm
    have tree := daemonizeTree_of_forked fresh limited child ignoring forked fuel
    rw [← last] at tree
    exact ⟨isDaemon fresh child forked, _, _, tree⟩
  · cases limited : env.getrlimit with
    | false => simp [daemonizeTree, limited]
    | true => cases child : env.fork 0 <;> simp [daemonizeTree, limited, child]

/-- What the system has answered to the grandchild of `p`, which finds the first descriptors
that it is allowed free after its loop. -/
def ProcessEnv.answers (env : ProcessEnv) (p : Process) : DaemonEnv where
  getrlimit := if env.getrlimit then 0 else -1
  rlimMax := p.limits.max
  fork := fun _ => 0
  setsid := (env.fork 0).getD 0
  sigaction := if env.sigaction then 0 else -1
  chdir := if env.chdir then 0 else -1
  openDevNull := if env.openDevNull ∧ 0 < p.limits.cur then 0 else -1
  dup := fun i => if env.openDevNull ∧ i + 1 < p.limits.cur then (i.val + 1 : Nat) else -1

theorem ProcessEnv.answers_expected_iff :
    (env.answers p).Expected ↔ env.openDevNull = true ∧ 3 ≤ p.limits.cur := by
  cases opens : env.openDevNull with
  | false => simp [DaemonEnv.Expected, answers, opens]
  | true =>
      simp only [DaemonEnv.Expected, answers, opens, true_and]
      constructor
      · intro expected
        by_contra few
        have third : ¬ (1 : Fin 2).val + 1 < p.limits.cur := few
        rw [if_neg third] at expected
        omega
      · intro room
        have second : (0 : Fin 2).val + 1 < p.limits.cur := Nat.lt_of_succ_lt room
        have third : (1 : Fin 2).val + 1 < p.limits.cur := room
        rw [if_pos (by omega), if_pos second, if_pos third]
        decide

theorem attachDevNull_end_cases (d : Descriptors OpenFile) :
    (attachDevNull env d).2 = .exited .failure ∨ (attachDevNull env d).2 = .returned := by
  simp only [attachDevNull]
  generalize (if env.openDevNull = true then d.openFile .devNull else (none, d)) = opened
  split
  · exact .inl rfl
  · exact .inr rfl

/-- The check comes out in the process as it does in the calls. -/
theorem attachDevNull_end (closed : closeFiles p.limits.max fuel p.descriptors = some d) :
    (attachDevNull env d).2 = checkAttached (env.answers p) := by
  obtain ⟨_, limit, _⟩ := closeFiles_eq_some closed
  unfold checkAttached
  split
  · next expected =>
      obtain ⟨opens, room⟩ := ProcessEnv.answers_expected_iff.mp expected
      obtain ⟨d', attached, _⟩ := attachDevNull_of_closed closed opens room
      rw [attached]
  · next unexpected =>
      refine (attachDevNull_end_cases d).resolve_right fun returned => unexpected ?_
      obtain ⟨opens, room⟩ := attachDevNull_returned returned
      rw [limit] at room
      exact ProcessEnv.answers_expected_iff.mpr ⟨opens, room⟩

/-- The loop over the files ends where the loop over the calls does. -/
theorem isSome_loopCalls (env : ProcessEnv) (p : Process) (fuel : Nat)
    (d : Descriptors OpenFile) :
    (loopCalls (env.answers p) fuel).isSome = (closeFiles p.limits.max fuel d).isSome := by
  rw [Bool.eq_iff_iff, Option.isSome_iff_exists, Option.isSome_iff_exists]
  simp [closeFiles, forBelow_eq_some_iff, loopCalls_eq_some_iff, ProcessEnv.answers]

theorem grandchild_end (moves : env.chdir = true) (p : Process) (fuel : Nat) :
    (grandchild env fuel p).2 =
      (closeFiles p.limits.max fuel p.descriptors).map fun d => (attachDevNull env d).2 := by
  have same : closeFiles p.limits.max fuel (Process.descriptors { p with cwd := "/" }) =
      closeFiles p.limits.max fuel p.descriptors := rfl
  simp only [grandchild, moves, Bool.not_true, Bool.false_eq_true, if_false, same]
  cases closeFiles p.limits.max fuel p.descriptors <;> rfl

/-- The grandchild ends as `daemonize` does on what the system has answered. -/
theorem daemonize_of_forked {first second : Nat} (limited : env.getrlimit = true)
    (child : env.fork 0 = some first) (ignoring : env.sigaction = true) :
    (daemonize (env.answers p) fuel).map Prod.snd =
      (grandchild env fuel ((sessionOf p first).fork second)).2 := by
  have session : ((first : Nat) : Int) ≠ -1 := by omega
  cases moves : env.chdir with
  | false =>
      simp [daemonize, makeCalls, beforeLoop, ProcessEnv.answers, checked, OpenRtp.forked, limited,
        child, ignoring, moves, session, grandchild]
  | true =>
      have reaches : (env.answers p).ReachesLoop := by
        simp [DaemonEnv.ReachesLoop, beforeLoop, ProcessEnv.answers, checked, OpenRtp.forked,
          limited, child, ignoring, moves, session]
      have inherited : (grandchild env fuel ((sessionOf p first).fork second)).2 =
          (closeFiles p.limits.max fuel p.descriptors).map fun d => (attachDevNull env d).2 :=
        grandchild_end moves _ fuel
      have loops := isSome_loopCalls env p fuel p.descriptors
      rw [daemonize_of_reachesLoop reaches, inherited]
      cases closed : closeFiles p.limits.max fuel p.descriptors with
      | none =>
          have endless : loopCalls (env.answers p) fuel = none := by simpa [closed] using loops
          rw [endless]
          rfl
      | some d =>
          obtain ⟨calls, ended⟩ := Option.isSome_iff_exists.mp
            (loops.trans (Option.isSome_of_eq_some closed))
          rw [ended, Option.map_some, Option.map_some, Option.map_some, attachDevNull_end closed]

/-- A process with a terminal and six open files. -/
def loginProcess : Process where
  pid := 70
  pgid := 70
  sid := 40
  tty := some 1
  umask := 18
  cwd := "/home"
  sighup := .default
  limits := ⟨5, 6, by decide⟩
  file := fun fd => if fd < 6 then some (.inherited fd) else none

def plainEnv : ProcessEnv := ⟨true, fun i => some (71 + i), true, true, true⟩

/-- It leaves a daemon, process 72 in session 71. -/
theorem loginProcess_daemon :
    ∃ fuel q, (q, some .returned) ∈ daemonizeTree plainEnv fuel loginProcess ∧
      IsDaemon plainEnv loginProcess q := by
  have fresh : plainEnv.Fresh loginProcess := by
    constructor
    · rintro pid ⟨⟩
      decide
    · rintro pid ⟨⟩
      decide
  obtain ⟨possible, daemons, _⟩ := daemon_iff fresh
  obtain ⟨fuel, q, returned⟩ := possible.mpr
    ⟨⟨rfl, rfl, rfl, rfl, rfl, rfl⟩, by decide, by decide⟩
  exact ⟨fuel, q, returned, (daemons fuel q returned).1⟩

end

end OpenRtp
