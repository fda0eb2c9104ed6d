import Mathlib.Data.BitVec
import Mathlib.Data.List.Count
import OpenRtp.Base.CounterLoop

/-!
# Daemonizing

`CmdlineParameter::daemonize` as seen by one process: every system call it makes, with the
answers of the system as an argument.  The loop that closes the descriptors counts an
`unsigned int` up to a 64-bit limit, so it ends only below `2 ^ 32`, and `close` takes an
`int`, so that it closes its range only up to `2 ^ 31` (`daemonize_closes_range_iff`).
-/

namespace OpenRtp

/-- A system call with its arguments; `sigaction` ignores `SIGHUP`, `chdir` goes to `/` and
`open` opens `/dev/null`. -/
inductive Syscall
  | umask (mask : Nat)
  | getrlimit
  | fork
  | setsid
  | sigaction
  | chdir
  | close (fd : Int)
  | openDevNull
  | dup (fd : Int)
deriving DecidableEq, Repr

inductive ExitStatus
  | success
  | failure
deriving DecidableEq, Repr

/-- How the call of `daemonize` ends: with `exit` or by its return. -/
inductive DaemonEnd
  | exited (status : ExitStatus)
  | returned
deriving DecidableEq, Repr

/-- What the system answers: `rlimMax` is what `getrlimit` stores, the two calls of `fork` and
of `dup` are numbered. -/
structure DaemonEnv where
  getrlimit : Int
  rlimMax : BitVec 64
  fork : Fin 2 → Int
  setsid : Int
  sigaction : Int
  chdir : Int
  openDevNull : Int
  dup : Fin 2 → Int

/-- `RLIM_INFINITY`. -/
def rlimInfinity : BitVec 64 := BitVec.allOnes 64

/-- `r1.rlim_max` with `RLIM_INFINITY` replaced. -/
def closingLimit (rlimMax : BitVec 64) : BitVec 64 :=
  if rlimMax = rlimInfinity then 1024 else rlimMax

/-- `for (unsigned int i = 0; i < r1.rlim_max; i++) close(i);`, after the calls made before.
The argument of `close` is converted to `int`. -/
def closeDescriptors (rlimMax : BitVec 64) (fuel : Nat) (calls : List Syscall) :
    Option (List Syscall) :=
  forBelow rlimMax (fun (i : BitVec 32) calls => calls ++ [.close i.toInt]) fuel 0 calls

/-- A call whose answer is -1 when it fails. -/
def checked (val : Int) : Option ExitStatus := if val = -1 then some .failure else none

/-- A call of `fork`, which the parent does not go on from. -/
def forked (pid : Int) : Option ExitStatus :=
  if pid = -1 then some .failure else if pid > 0 then some .success else none

/-- The calls up to the loop in order, each with the `exit` that its answer leads to. -/
def beforeLoop (env : DaemonEnv) : List (Syscall × Option ExitStatus) :=
  [(.umask 0, none), (.getrlimit, checked env.getrlimit), (.fork, forked (env.fork 0)),
    (.setsid, checked env.setsid), (.sigaction, checked env.sigaction),
    (.fork, forked (env.fork 1)), (.chdir, checked env.chdir)]

/-- Calls made one after another until one leads to an `exit`. -/
def makeCalls (calls : List Syscall) :
    List (Syscall × Option ExitStatus) → List Syscall × Option ExitStatus
  | [] => (calls, none)
  | (call, some status) :: _ => (calls ++ [call], some status)
  | (call, none) :: rest => makeCalls (calls ++ [call]) rest

/-- The calls after the loop. -/
def afterLoop : List Syscall := [.openDevNull, .dup 0, .dup 0]

/-- `fd0`, `fd1` and `fd2` are what they should be. -/
def DaemonEnv.Expected (env : DaemonEnv) : Prop :=
  env.openDevNull = 0 ∧ env.dup 0 = 1 ∧ env.dup 1 = 2

instance (env : DaemonEnv) : Decidable env.Expected := inferInstanceAs (Decidable (_ ∧ _))

/-- The check of the three descriptors. -/
def checkAttached (env : DaemonEnv) : DaemonEnd :=
  if env.Expected then .returned else .exited .failure

/-- `CmdlineParameter::daemonize`: the calls made and how it ends, if its loop ends within
`fuel` tests of the condition. -/
def daemonize (env : DaemonEnv) (fuel : Nat) : Option (List Syscall × DaemonEnd) :=
  match makeCalls [] (beforeLoop env) with
  | (calls, some status) => some (calls, .exited status)
  | (calls, none) => (closeDescriptors (closingLimit env.rlimMax) fuel calls).map
      fun calls => (calls ++ afterLoop, checkAttached env)

/-! ## What the loop is for -/

/-- No call fails, and the process is the child of both forks. -/
def DaemonEnv.ReachesLoop (env : DaemonEnv) : Prop := ∀ call ∈ beforeLoop env, call.2 = none

instance (env : DaemonEnv) : Decidable env.ReachesLoop :=
  inferInstanceAs (Decidable (∀ call ∈ beforeLoop env, call.2 = none))

/-- The calls made when the loop has ended, in a process that reaches it. -/
def loopCalls (env : DaemonEnv) (fuel : Nat) : Option (List Syscall) :=
  closeDescriptors (closingLimit env.rlimMax) fuel ((beforeLoop env).map Prod.fst)

/-- The loop ends, with one call of `close` on each descriptor below the limit and none on any
other number. -/
def ClosesRange (env : DaemonEnv) : Prop :=
  ∃ fuel calls, loopCalls env fuel = some calls ∧
    ∀ fd : Int, calls.count (.close fd) =
      if 0 ≤ fd ∧ fd < (closingLimit env.rlimMax).toNat then 1 else 0

/-! ## The loop -/

section

variable {rlimMax : BitVec 64} {env : DaemonEnv} {fuel n : Nat} {calls calls' : List Syscall}
  {fd : Int}

/-- The calls of the loop up to a limit. -/
def closings (n : Nat) : List Syscall :=
  (List.range n).map fun i => .close (BitVec.ofNat 32 i).toInt

/-- The loop ends exactly when its limit is an `unsigned int`. -/
theorem closeDescriptors_eq_some_iff :
    closeDescriptors rlimMax fuel calls = some calls' ↔
      rlimMax.toNat < 2 ^ 32 ∧ rlimMax.toNat < fuel ∧ calls' = calls ++ closings rlimMax.toNat := by
  rw [closeDescriptors, forBelow_eq_some_iff (by decide), List.foldl_append_eq_append,
    ← List.flatMap_def, ← List.map_eq_flatMap, countersFrom, closings, List.map_map,
    List.range_eq_range']
  rfl

/-- Up to `2 ^ 31` the calls are one for each descriptor. -/
theorem count_closings (small : n ≤ 2 ^ 31) :
    (closings n).count (.close fd) = if 0 ≤ fd ∧ fd < n then 1 else 0 := by
  have plain : closings n = (List.range n).map fun i : Nat => .close i := by
    refine List.map_congr_left fun i inside => ?_
    have below : i < n := List.mem_range.mp inside
    have value : (BitVec.ofNat 32 i).toNat = i := by
      rw [BitVec.toNat_ofNat, Nat.mod_eq_of_lt (by omega)]
    rw [BitVec.toInt_eq_toNat_of_lt (by omega), value]
  have injective : Function.Injective fun i : Nat => Syscall.close i := by
    intro i j same
    injection same with same
    exact Int.ofNat.inj same
  rw [plain]
  cases fd with
  | ofNat k =>
      have counted := List.count_map_of_injective (List.range n) _ injective k
      rw [List.count_range] at counted
      simpa using counted
  | negSucc k =>
      have absent : Syscall.close (Int.negSucc k) ∉
          (List.range n).map fun i : Nat => Syscall.close i := by simp
      rw [List.count_eq_zero.mpr absent, if_neg (by omega)]

/-- No call closes the descriptor `2 ^ 31`. -/
theorem count_closings_top : (closings n).count (.close (2 ^ 31)) = 0 := by
  refine List.count_eq_zero.mpr fun member => ?_
  obtain ⟨i, _, same⟩ := List.mem_map.mp member
  injection same with same
  have below := BitVec.toInt_lt (x := BitVec.ofNat 32 i)
  omega

/-! ## The whole function -/

variable {checks : List (Syscall × Option ExitStatus)}

theorem makeCalls_of_passed (passed : ∀ call ∈ checks, call.2 = none) :
    makeCalls calls checks = (calls ++ checks.map Prod.fst, none) := by
  induction checks generalizing calls with
  | nil => simp [makeCalls]
  | cons check checks ih =>
      obtain ⟨call, exit⟩ := check
      obtain ⟨rfl, rest⟩ := List.forall_mem_cons.mp passed
      rw [makeCalls, ih rest, List.map_cons, List.append_assoc, List.singleton_append]

theorem makeCalls_of_stopped (calls : List Syscall)
    (stopped : ¬ ∀ call ∈ checks, call.2 = none) :
    ∃ front status, front <+: checks ∧
      makeCalls calls checks = (calls ++ front.map Prod.fst, some status) := by
  induction checks generalizing calls with
  | nil => exact absurd (List.forall_mem_nil _) stopped
  | cons check checks ih =>
      obtain ⟨call, exit⟩ := check
      cases exit with
      | some status => exact ⟨[(call, some status)], status, ⟨checks, rfl⟩, rfl⟩
      | none =>
          have later : ¬ ∀ call ∈ checks, call.2 = none := fun passed =>
            stopped (List.forall_mem_cons.mpr ⟨rfl, passed⟩)
          obtain ⟨front, status, initial, made⟩ := ih (calls ++ [call]) later
          refine ⟨(call, none) :: front, status, (List.prefix_cons_inj _).mpr initial, ?_⟩
          rw [makeCalls, made, List.map_cons, List.append_assoc, List.singleton_append]

/-- A process that reaches the loop. -/
theorem daemonize_of_reachesLoop (reaches : env.ReachesLoop) :
    daemonize env fuel =
      (loopCalls env fuel).map fun calls => (calls ++ afterLoop, checkAttached env) := by
  rw [daemonize, makeCalls_of_passed reaches, List.nil_append, loopCalls]

/-- Every other process exits before the loop. -/
theorem daemonize_exits (stops : ¬ env.ReachesLoop) :
    ∃ front status, front <+: beforeLoop env ∧
      ∀ fuel, daemonize env fuel = some (front.map Prod.fst, .exited status) := by
  obtain ⟨front, status, initial, made⟩ := makeCalls_of_stopped [] stops
  exact ⟨front, status, initial, fun fuel => by rw [daemonize, made, List.nil_append]⟩

/-- What has been done when the loop ends. -/
theorem loopCalls_eq_some_iff :
    loopCalls env fuel = some calls ↔
      (closingLimit env.rlimMax).toNat < 2 ^ 32 ∧ (closingLimit env.rlimMax).toNat < fuel ∧
        calls = (beforeLoop env).map Prod.fst ++ closings (closingLimit env.rlimMax).toNat :=
  closeDescriptors_eq_some_iff

theorem exists_loopCalls_iff :
    (∃ fuel calls, loopCalls env fuel = some calls) ↔
      (closingLimit env.rlimMax).toNat < 2 ^ 32 := by
  constructor
  · intro ends
    obtain ⟨fuel, calls, ended⟩ := ends
    exact (loopCalls_eq_some_iff.mp ended).1
  · intro value
    exact ⟨_, _, loopCalls_eq_some_iff.mpr ⟨value, Nat.lt_succ_self _, rfl⟩⟩

/-- A process that leaves the loop returns if the descriptors are as expected, and exits with
failure if not. -/
theorem daemonize_returns_iff (reaches : env.ReachesLoop) :
    (∃ fuel calls, daemonize env fuel = some (calls, .returned)) ↔
      (∃ fuel calls, loopCalls env fuel = some calls) ∧ env.Expected := by
  simp only [daemonize_of_reachesLoop reaches, Option.map_eq_some_iff, Prod.mk.injEq]
  constructor
  · intro returns
    obtain ⟨fuel, _, calls, ended, _, checked⟩ := returns
    refine ⟨⟨fuel, calls, ended⟩, ?_⟩
    by_contra unexpected
    simp [checkAttached, unexpected] at checked
  · intro passes
    obtain ⟨⟨fuel, calls, ended⟩, expected⟩ := passes
    exact ⟨fuel, _, calls, ended, rfl, if_pos expected⟩

/-- The loop makes all calls of `close`. -/
theorem count_close (env : DaemonEnv) (n : Nat) (fd : Int) :
    ((beforeLoop env).map Prod.fst ++ closings n).count (.close fd) =
      (closings n).count (.close fd) := by
  have before : Syscall.close fd ∉ (beforeLoop env).map Prod.fst := by simp [beforeLoop]
  rw [List.count_append, List.count_eq_zero.mpr before, Nat.zero_add]

theorem closesRange_iff : ClosesRange env ↔ (closingLimit env.rlimMax).toNat ≤ 2 ^ 31 := by
  simp only [ClosesRange, loopCalls_eq_some_iff]
  generalize (closingLimit env.rlimMax).toNat = limit
  constructor
  · intro closes
    obtain ⟨fuel, calls, ⟨value, _, rfl⟩, counts⟩ := closes
    by_contra large
    have once := counts (2 ^ 31)
    rw [count_close, count_closings_top, if_pos (by omega)] at once
    cases once
  · intro small
    refine ⟨limit + 1, _, ⟨by omega, Nat.lt_succ_self limit, rfl⟩, fun fd => ?_⟩
    rw [count_close, count_closings small]

/-- **Daemonizing.** For every limit, in a process that reaches the loop, the loop closes each
descriptor below the limit exactly once, and no other, exactly when the limit is at most
`2 ^ 31`; it ends at all exactly when the limit is below `2 ^ 32`; and then the process returns
exactly when `/dev/null` has become the descriptors 0, 1 and 2. -/
theorem daemonize_closes_range_iff (reaches : env.ReachesLoop) :
    (ClosesRange env ↔ (closingLimit env.rlimMax).toNat ≤ 2 ^ 31) ∧
      ((∃ fuel calls, loopCalls env fuel = some calls) ↔
        (closingLimit env.rlimMax).toNat < 2 ^ 32) ∧
      ((∃ fuel calls, daemonize env fuel = some (calls, .returned)) ↔
        (closingLimit env.rlimMax).toNat < 2 ^ 32 ∧ env.Expected) := by
  refine ⟨closesRange_iff, exists_loopCalls_iff, ?_⟩
  rw [daemonize_returns_iff reaches, exists_loopCalls_iff]

/-- Every call succeeds in the grandchild. -/
def DaemonEnv.grandchild (rlimMax : BitVec 64) : DaemonEnv where
  getrlimit := 0
  rlimMax := rlimMax
  fork := fun _ => 0
  setsid := 1
  sigaction := 0
  chdir := 0
  openDevNull := 0
  dup := fun i => i.val + 1

theorem DaemonEnv.grandchild_reachesLoop (rlimMax : BitVec 64) :
    (grandchild rlimMax).ReachesLoop := by
  simp [ReachesLoop, beforeLoop, grandchild, checked, forked]

/-- An unlimited process closes the descriptors up to 1023, and returns. -/
theorem daemonize_closes_range_unlimited :
    ClosesRange (.grandchild rlimInfinity) ∧
      ∃ fuel calls, daemonize (.grandchild rlimInfinity) fuel = some (calls, .returned) := by
  obtain ⟨closes, _, returns⟩ :=
    daemonize_closes_range_iff (DaemonEnv.grandchild_reachesLoop rlimInfinity)
  exact ⟨closes.mpr (by decide), returns.mpr ⟨by decide, by decide⟩⟩

/-- With a limit of `2 ^ 32` the loop never ends. -/
theorem daemonize_never_returns :
    (DaemonEnv.grandchild (2 ^ 32)).ReachesLoop ∧
      (∀ fuel, loopCalls (.grandchild (2 ^ 32)) fuel = none ∧
        daemonize (.grandchild (2 ^ 32)) fuel = none) ∧
      ¬ ClosesRange (.grandchild (2 ^ 32)) := by
  have endless : ∀ fuel, loopCalls (.grandchild (2 ^ 32)) fuel = none := fun fuel =>
    forBelow_endless (by decide) (by decide)
  refine ⟨DaemonEnv.grandchild_reachesLoop _, fun fuel => ⟨endless fuel, ?_⟩, fun closes => ?_⟩
  · rw [daemonize_of_reachesLoop (DaemonEnv.grandchild_reachesLoop _), endless]
    rfl
  · obtain ⟨fuel, calls, ended, _⟩ := closes
    rw [endless fuel] at ended
    cases ended

end

end OpenRtp
