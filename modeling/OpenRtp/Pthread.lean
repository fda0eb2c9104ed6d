import OpenRtp.Base.Table

/-!
# The threads of the operating system

A table of created threads with the calls made on it.  Whether a call succeeds is
the system's choice: `PthreadEnv` gives the result of the `n`-th call, for every
`n`, so a statement over all environments is a statement over all outcomes.

Handles are positive, so that the initial handle 0 of an `RtpThread` names no
thread, and no handle is given out twice.  A real system may give out the one of a
detached thread that has ended again; what is said of handles leaves that aside.
-/

namespace OpenRtp

/-- `pthread_t`. -/
abbrev RtpThreadHandler := Nat

/-- A function pointer, null when `none`. -/
abbrev RtpThreadRoutine := Option Nat

inductive DetachState
  | joinable
  | detached
deriving DecidableEq, Repr

structure PthreadAttr where
  detachstate : DetachState
deriving DecidableEq, Repr

/-- `pthread_attr_init`. -/
def PthreadAttr.init : PthreadAttr := ⟨.joinable⟩

/-- `pthread_attr_setdetachstate`. -/
def PthreadAttr.setdetachstate (_ : PthreadAttr) (detachstate : DetachState) : PthreadAttr :=
  ⟨detachstate⟩

/-- A created thread: the object whose handle `pthread_create` filled in, and what
has happened to the thread since. -/
structure Pthread where
  creator : Nat
  routine : RtpThreadRoutine
  detachstate : DetachState
  /-- `SIGUSR1` was delivered, which ends the thread. -/
  signalled : Bool
  joined : Bool
deriving DecidableEq, Repr

/-- A call with the object it was made for, and its result. -/
inductive PthreadCall
  | create (creator : Nat) (attr : PthreadAttr) (val : Nat)
  | kill (caller : Nat) (handler : RtpThreadHandler) (val : Nat)
  | join (caller : Nat) (handler : RtpThreadHandler) (val : Nat)
deriving DecidableEq, Repr

/-- The result of each call by its number; 0 is success. -/
structure PthreadEnv where
  create : Nat → Nat
  /-- What a failed `pthread_create` leaves in the handle it was to fill in. -/
  scribble : Nat → RtpThreadHandler
  kill : Nat → Nat
  join : Nat → Nat

/-- Every call succeeds. -/
def PthreadEnv.succeeding : PthreadEnv := ⟨fun _ => 0, fun _ => 0, fun _ => 0, fun _ => 0⟩

/-- The threads created so far, and the calls made so far. -/
structure ThreadSystem where
  threads : Table Pthread
  calls : List PthreadCall
deriving DecidableEq, Repr

namespace ThreadSystem

def init : ThreadSystem := ⟨Table.empty, []⟩

/-- The thread a handle denotes. -/
def thread? (sys : ThreadSystem) : RtpThreadHandler → Option Pthread
  | 0 => none
  | h + 1 => sys.threads.get? h

/-- The object a thread was created for. -/
def creator? (sys : ThreadSystem) (h : RtpThreadHandler) : Option Nat :=
  (sys.thread? h).map Pthread.creator

def modifyThread (sys : ThreadSystem) (f : Pthread → Pthread) :
    RtpThreadHandler → Table Pthread
  | 0 => sys.threads
  | h + 1 => sys.threads.modify h f

/-- `pthread_create`: the result, the handle left behind, and the new system. -/
def pthreadCreate (env : PthreadEnv) (sys : ThreadSystem) (creator : Nat)
    (attr : PthreadAttr) (routine : RtpThreadRoutine) :
    Nat × RtpThreadHandler × ThreadSystem :=
  let n := sys.calls.length
  let calls := sys.calls ++ [.create creator attr (env.create n)]
  if env.create n = 0 then
    (0, sys.threads.size + 1,
      ⟨sys.threads.add ⟨creator, routine, attr.detachstate, false, false⟩, calls⟩)
  else (env.create n, env.scribble n, ⟨sys.threads, calls⟩)

/-- `pthread_kill(handler, SIGUSR1)`. -/
def pthreadKill (env : PthreadEnv) (sys : ThreadSystem) (caller : Nat)
    (handler : RtpThreadHandler) : Nat × ThreadSystem :=
  let val := env.kill sys.calls.length
  let calls := sys.calls ++ [.kill caller handler val]
  if val = 0 then
    (val, ⟨sys.modifyThread (fun t => { t with signalled := true }) handler, calls⟩)
  else (val, ⟨sys.threads, calls⟩)

/-- `pthread_join(handler, NULL)`. -/
def pthreadJoin (env : PthreadEnv) (sys : ThreadSystem) (caller : Nat)
    (handler : RtpThreadHandler) : Nat × ThreadSystem :=
  let val := env.join sys.calls.length
  let calls := sys.calls ++ [.join caller handler val]
  if val = 0 then
    (val, ⟨sys.modifyThread (fun t => { t with joined := true }) handler, calls⟩)
  else (val, ⟨sys.threads, calls⟩)

/-! ## Looking a handle up -/

variable {sys : ThreadSystem} {g h : RtpThreadHandler}

@[simp] theorem thread?_init : init.thread? h = none := by
  cases h <;> rfl

/-- The handle `pthread_create` gives out is new. -/
@[simp] theorem thread?_fresh : sys.thread? (sys.threads.size + 1) = none :=
  Table.get?_eq_none_iff.mpr (Nat.le_refl _)

theorem thread?_add (t : Pthread) (calls : List PthreadCall) (h : RtpThreadHandler) :
    thread? ⟨sys.threads.add t, calls⟩ h =
      if h = sys.threads.size + 1 then some t else sys.thread? h := by
  cases h with
  | zero => simp [thread?]
  | succ i => simp [thread?, Table.get?_add]

/-- Only the table of threads decides what a handle denotes. -/
theorem thread?_congr {sys' : ThreadSystem} (same : sys'.threads = sys.threads) :
    sys'.thread? h = sys.thread? h := by
  cases h with
  | zero => rfl
  | succ i => exact congrArg (Table.get? · i) same

theorem thread?_modifyThread (f : Pthread → Pthread) (calls : List PthreadCall)
    (h g : RtpThreadHandler) :
    thread? ⟨sys.modifyThread f h, calls⟩ g =
      if g = h then (sys.thread? g).map f else sys.thread? g := by
  cases h with
  | zero => cases g <;> simp [thread?, modifyThread]
  | succ i =>
      cases g with
      | zero => simp [thread?]
      | succ j => simp [thread?, modifyThread, Table.get?_modify, eq_comm]

theorem modifyThread_modifyThread (f f' : Pthread → Pthread) (calls : List PthreadCall)
    (h : RtpThreadHandler) :
    modifyThread ⟨sys.modifyThread f h, calls⟩ f' h = sys.modifyThread (f' ∘ f) h := by
  cases h with
  | zero => rfl
  | succ i => exact Table.modify_modify _ _ _ _

end ThreadSystem

end OpenRtp
