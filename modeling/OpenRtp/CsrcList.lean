import OpenRtp.RtpPacket
import OpenRtp.Base.CircularList
import OpenRtp.Base.Run

/-!
# The CSRC lists in memory

`RtpPacket` holds its CSRC list as a value.  Here the list is what the library makes of it: the
member `m_rtphdr.csrc` of each packet is a circular list object, and so are the lists a caller
passes to the nine-argument constructor and to `Set_CSRC`.  `CsrcOp.value` is the list an object
then stands for, and `value_agrees` says that it is the one of the packet.

The nine-argument constructor builds the member and may assign to it.  The default constructor
builds the member and then clears the whole header with `memset`, the sentinel included.

`csrcLists_wellFormed_iff`: the lists of a run stay well formed, and no operation that is allowed
on them follows a null link, exactly when the run builds no packet by the default constructor.
-/

namespace OpenRtp

open CircularList

/-- A list object: the member of a packet, or a list of the caller. -/
inductive CsrcObject
  | packet (x : Nat)
  | caller (k : Nat)
deriving DecidableEq, Repr

/-- What can be done to a list object through the public interface. -/
inductive CsrcOp
  /-- `std::list<uint32_t> k;`. -/
  | newList (k : Nat)
  /-- `RtpPacket x;`. -/
  | defaultConstruct (x : Nat)
  /-- `RtpPacket x(..., csrc_count, ..., src)`. -/
  | construct (x : Nat) (csrcCount : UInt8) (src : CsrcObject)
  /-- `x.Set_CSRC(src)`; the argument can be the member of a packet. -/
  | setCsrc (x : Nat) (src : CsrcObject)
  /-- `x.CSRC().push_back(v)`, or on a list of the caller. -/
  | pushBack (l : CsrcObject) (v : UInt32)
  /-- `RtpPacket x(y)`. -/
  | copyConstruct (x y : Nat)
  /-- `x = y`. -/
  | copyAssign (x y : Nat)
  /-- The end of the object, as a member or on its own. -/
  | destroy (l : CsrcObject)
deriving DecidableEq, Repr

/-- The memory of the list objects, and which of them are alive. -/
structure CsrcLists where
  mem : Mem CsrcObject UInt32
  live : CsrcObject → Bool

namespace CsrcOp

/-- The only object the operation changes. -/
def target : CsrcOp → CsrcObject
  | newList k => .caller k
  | defaultConstruct x | construct x _ _ | setCsrc x _ | copyConstruct x _ | copyAssign x _ =>
      .packet x
  | pushBack l _ | destroy l => l

/-- Whether that object is alive afterwards. -/
def leavesAlive : CsrcOp → Bool
  | destroy _ => false
  | _ => true

/-- Objects are built where there is none and used while they are alive. -/
def allowed (live : CsrcObject → Bool) : CsrcOp → Bool
  | newList k => !live (.caller k)
  | defaultConstruct x => !live (.packet x)
  | construct x _ src => !live (.packet x) && live src
  | setCsrc x src => live (.packet x) && live src
  | pushBack l _ => live l
  | copyConstruct x y => !live (.packet x) && live (.packet y)
  | copyAssign x y => live (.packet x) && live (.packet y)
  | destroy l => live l

def perform (m : Mem CsrcObject UInt32) : CsrcOp → Except Fault (Mem CsrcObject UInt32)
  | newList k => .ok (m.init (.caller k))
  | defaultConstruct x =>
      -- the member is built before the body, and `memset(&m_rtphdr, 0, ...)` goes over it
      .ok ((m.init (.packet x)).zero (.packet x))
  | construct x csrcCount src =>
      if 0 < csrcCount then (m.init (.packet x)).assign (.packet x) src
      else .ok (m.init (.packet x))
  | setCsrc x src => m.assign (.packet x) src
  | pushBack l v => m.pushBack l v
  | copyConstruct x y => m.copyConstruct (.packet x) (.packet y)
  | copyAssign x y => m.assign (.packet x) (.packet y)
  | destroy l => m.clear l

/-- The list the target holds afterwards, where `values` gives what each object holds; `none`
is a cleared object. -/
def value (values : CsrcObject → Option (List UInt32)) : CsrcOp → Option (List UInt32)
  | newList _ => some []
  | defaultConstruct _ => none
  | construct _ csrcCount src => if 0 < csrcCount then values src else some []
  | setCsrc _ src => values src
  | pushBack l v => (values l).map (· ++ [v])
  | copyConstruct _ y | copyAssign _ y => values (.packet y)
  | destroy _ => none

def after (values : CsrcObject → Option (List UInt32)) (op : CsrcOp) :
    CsrcObject → Option (List UInt32) :=
  Function.update values op.target (op.value values)

end CsrcOp

namespace CsrcLists

/-- Before the first list is built. -/
def init : CsrcLists := ⟨Mem.empty, fun _ => false⟩

def exec (s : CsrcLists) (op : CsrcOp) : Except Fault CsrcLists := do
  let mem ← op.perform s.mem
  return ⟨mem, Function.update s.live op.target op.leavesAlive⟩

def step (s : CsrcLists) (op : CsrcOp) : Option CsrcLists :=
  if op.allowed s.live then (s.exec op).toOption else none

/-- From the sentinel of every list one is back after as many steps as it has elements, and no
operation that is allowed follows a null link or goes round for ever. -/
structure WellFormed (s : CsrcLists) : Prop where
  returns : ∀ l, s.live l = true → s.mem.Returns l
  proceeds : ∀ op : CsrcOp, op.allowed s.live = true → ∃ t, s.exec op = .ok t

end CsrcLists

/-- The list of an object is the one `RtpPacket` has there. -/
theorem CsrcOp.value_agrees (values : CsrcObject → Option (List UInt32)) (x y : Nat)
    (src : CsrcObject) (args : RtpPacketArgs) (p : RtpPacket) (csrc : List UInt32) :
    (values src = some args.csrc → (construct x args.csrcCount src).value values =
        some (RtpPacket.construct args).rtphdr.csrc) ∧
      (values src = some csrc → (setCsrc x src).value values =
        some (p.setCsrc csrc).rtphdr.csrc) ∧
      (values (.packet y) = some p.rtphdr.csrc → (copyConstruct x y).value values =
        some p.copyConstruct.rtphdr.csrc) := by
  refine ⟨fun given => ?_, id, id⟩
  rw [value, given, RtpPacket.construct]
  split
  · rfl
  · rfl

/-! ## What the memory holds -/

/-- The object holds the list, or is cleared. -/
def Holds (m : Mem CsrcObject UInt32) (l : CsrcObject) : Option (List UInt32) → Prop
  | some xs => ∃ ns, Ring m l ns xs
  | none => Cleared m l

variable {m m' : Mem CsrcObject UInt32} {l src : CsrcObject} {o : Option (List UInt32)}
  {values : CsrcObject → Option (List UInt32)} {live : CsrcObject → Bool} {op : CsrcOp}

theorem Holds.frame {k : CsrcObject} (holds : Holds m l o) (frame : Frame k m m')
    (other : l ≠ k) : Holds m' l o := by
  cases o with
  | none => exact Cleared.frame holds frame other
  | some xs =>
      obtain ⟨ns, ring⟩ := holds
      exact ⟨ns, ring.frame frame other⟩

/-- Each living object holds its value. -/
def Represents (m : Mem CsrcObject UInt32) (live : CsrcObject → Bool)
    (values : CsrcObject → Option (List UInt32)) : Prop :=
  ∀ l, live l = true → Holds m l (values l)

theorem Represents.cleared_or_ring (represents : Represents m live values)
    (alive : live l = true) :
    (values l = none ∧ Cleared m l) ∨ ∃ ns xs, values l = some xs ∧ Ring m l ns xs := by
  have holds := represents l alive
  cases known : values l with
  | none =>
      rw [known] at holds
      exact .inl ⟨rfl, holds⟩
  | some xs =>
      rw [known] at holds
      obtain ⟨ns, ring⟩ := holds
      exact .inr ⟨ns, xs, rfl, ring⟩

/-- How an operation on represented objects ends: its target holds the new value, and is cleared
if it was; or the operation follows the null link of a cleared object. -/
inductive Ends (m : Mem CsrcObject UInt32) (live : CsrcObject → Bool)
    (values : CsrcObject → Option (List UInt32)) (op : CsrcOp) : Prop
  | ok (m' : Mem CsrcObject UInt32) (done : op.perform m = .ok m') (frame : Frame op.target m m')
      (holds : op.leavesAlive = true → Holds m' op.target (op.value values))
      (stays : live op.target = true → values op.target = none →
        op.leavesAlive = true ∧ op.value values = none)
  | fault (l : CsrcObject) (alive : live l = true) (cleared : values l = none)
      (fails : op.perform m = .error .nullLink)

/-- `operator=` of list objects. -/
theorem assign_ends {given : Option (List UInt32)} (target : Holds m l o)
    (source : Holds m src given) (same : src = l → given = o) :
    (∃ m', m.assign l src = .ok m' ∧ Frame l m m' ∧ Holds m' l given ∧
        (o = none → given = none)) ∨
      m.assign l src = .error .nullLink ∧ (o = none ∨ given = none) := by
  rcases eq_or_ne src l with rfl | other
  · obtain rfl := same rfl
    exact .inl ⟨m, assign_self src m, .refl src m, target, id⟩
  · cases o with
    | none => exact .inr ⟨Cleared.assign_to target other, .inl rfl⟩
    | some xs =>
        obtain ⟨ns, ring⟩ := target
        cases given with
        | none => exact .inr ⟨Cleared.assign_from source ring other, .inr rfl⟩
        | some ys =>
            obtain ⟨rs, source⟩ := source
            obtain ⟨m', ns', done, ring', frame⟩ := assign_ring ring source other
            exact .inl ⟨m', done, frame, ⟨ns', ring'⟩, fun nothing => nomatch nothing⟩

/-- Assignment between living objects. -/
theorem assign_ends_of_live (represents : Represents m live values) (alive : live l = true)
    (source : live src = true) (target : op.target = l)
    (perform : op.perform m = m.assign l src) (leaves : op.leavesAlive = true)
    (value : op.value values = values src) : Ends m live values op := by
  subst target
  rcases assign_ends (represents _ alive) (represents src source) (fun same => by rw [same]) with
    ⟨m', done, frame, holds, stays⟩ | ⟨fails, cleared | cleared⟩
  · exact .ok m' (perform.trans done) frame (fun _ => value ▸ holds) fun _ nothing =>
      ⟨leaves, value.trans (stays nothing)⟩
  · exact .fault _ alive cleared (perform.trans fails)
  · exact .fault src source cleared (perform.trans fails)

/-- An operation that builds its target. -/
theorem Ends.of_fresh (fresh : live op.target = false) (done : op.perform m = .ok m')
    (frame : Frame op.target m m') (holds : Holds m' op.target (op.value values)) :
    Ends m live values op :=
  .ok m' done frame (fun _ => holds) fun alive => by
    rw [fresh] at alive
    cases alive

/-- What is alive is not the object to be built. -/
theorem ne_of_fresh {k : CsrcObject} (alive : live l = true) (fresh : live k = false) : l ≠ k := by
  rintro rfl
  rw [alive] at fresh
  cases fresh

theorem construct_ends {x : Nat} {csrcCount : UInt8} (represents : Represents m live values)
    (fresh : live (.packet x) = false) (source : live src = true) :
    Ends m live values (.construct x csrcCount src) := by
  have other := ne_of_fresh source fresh
  have built : Holds (m.init (.packet x)) (.packet x) (some []) := ⟨[], ring_init _ m⟩
  by_cases positive : 0 < csrcCount
  · have given : Holds (m.init (.packet x)) src (values src) :=
      (represents src source).frame Frame.init other
    have perform : (CsrcOp.construct x csrcCount src).perform m =
        (m.init (.packet x)).assign (.packet x) src := if_pos positive
    rcases assign_ends built given (fun same => absurd same other) with
      ⟨m', done, frame, holds, _⟩ | ⟨fails, nothing | cleared⟩
    · refine .of_fresh fresh (perform.trans done) (Frame.init.trans frame) ?_
      rwa [CsrcOp.value, if_pos positive]
    · cases nothing
    · exact .fault src source cleared (perform.trans fails)
  · refine .of_fresh fresh (if_neg positive) Frame.init ?_
    rwa [CsrcOp.value, if_neg positive]

theorem copyConstruct_ends {x y : Nat} (represents : Represents m live values)
    (fresh : live (.packet x) = false) (source : live (.packet y) = true) :
    Ends m live values (.copyConstruct x y) := by
  have other := ne_of_fresh source fresh
  rcases represents.cleared_or_ring source with ⟨known, cleared⟩ | ⟨rs, ys, known, ring⟩
  · exact .fault _ source known (cleared.copyConstruct other)
  · obtain ⟨m', ns', done, ring', frame⟩ := copyConstruct_ring ring other
    refine .of_fresh fresh done frame ?_
    rw [CsrcOp.value, known]
    exact ⟨ns', ring'⟩

/-- An operation on a list that is a ring. -/
theorem Ends.of_ring {xs : List UInt32} (known : values op.target = some xs)
    (done : op.perform m = .ok m') (frame : Frame op.target m m')
    (holds : op.leavesAlive = true → Holds m' op.target (op.value values)) :
    Ends m live values op :=
  .ok m' done frame holds fun _ nothing => by
    rw [known] at nothing
    cases nothing

theorem pushBack_ends (represents : Represents m live values) (alive : live l = true)
    (v : UInt32) : Ends m live values (.pushBack l v) := by
  rcases represents.cleared_or_ring alive with ⟨known, cleared⟩ | ⟨ns, xs, known, ring⟩
  · exact .fault l alive known (cleared.pushBack v)
  · obtain ⟨m', done, ring', frame⟩ := pushBack_ring ring v
    refine .of_ring known done frame fun _ => ?_
    rw [CsrcOp.value, known]
    exact ⟨_, ring'⟩

theorem destroy_ends (represents : Represents m live values) (alive : live l = true) :
    Ends m live values (.destroy l) := by
  rcases represents.cleared_or_ring alive with ⟨known, cleared⟩ | ⟨ns, xs, known, ring⟩
  · exact .fault l alive known cleared.clear
  · obtain ⟨m', done, frame⟩ := clear_ring ring
    exact .of_ring known done frame fun leaves => by cases leaves

theorem perform_ends (represents : Represents m live values)
    (allowed : op.allowed live = true) : Ends m live values op := by
  cases op with
  | newList k =>
      have fresh : live (.caller k) = false := by simpa [CsrcOp.allowed] using allowed
      exact .of_fresh fresh rfl Frame.init ⟨[], ring_init _ m⟩
  | defaultConstruct x =>
      have fresh : live (.packet x) = false := by simpa [CsrcOp.allowed] using allowed
      exact .of_fresh fresh rfl (Frame.init.trans Frame.zero) (cleared_zero _ _)
  | construct x csrcCount src =>
      obtain ⟨fresh, source⟩ : live (.packet x) = false ∧ live src = true := by
        simpa [CsrcOp.allowed] using allowed
      exact construct_ends represents fresh source
  | setCsrc x src =>
      obtain ⟨alive, source⟩ := Bool.and_eq_true_iff.mp allowed
      exact assign_ends_of_live represents alive source rfl rfl rfl rfl
  | pushBack l v => exact pushBack_ends represents allowed v
  | copyConstruct x y =>
      obtain ⟨fresh, source⟩ : live (.packet x) = false ∧ live (.packet y) = true := by
        simpa [CsrcOp.allowed] using allowed
      exact copyConstruct_ends represents fresh source
  | copyAssign x y =>
      obtain ⟨alive, source⟩ := Bool.and_eq_true_iff.mp allowed
      exact assign_ends_of_live represents alive source rfl rfl rfl rfl
  | destroy l => exact destroy_ends represents allowed

namespace CsrcLists

variable {s t : CsrcLists} {ops : List CsrcOp}

/-- A step is an operation that is allowed and ends. -/
theorem step_eq_some_iff :
    s.step op = some t ↔ op.allowed s.live = true ∧ ∃ mem, op.perform s.mem = .ok mem ∧
      t = ⟨mem, Function.update s.live op.target op.leavesAlive⟩ := by
  unfold step exec
  cases op.allowed s.live with
  | false => simp
  | true =>
      cases op.perform s.mem with
      | error fault => simp [bind, Except.bind, Except.toOption]
      | ok mem => simp [bind, Except.bind, Except.toOption, pure, Except.pure, eq_comm]

/-- A step on represented objects leaves represented objects. -/
theorem step_represents (represents : Represents s.mem s.live values)
    (stepped : s.step op = some t) :
    Represents t.mem t.live (op.after values) ∧
      ∀ l, s.live l = true → values l = none → t.live l = true ∧ op.after values l = none := by
  obtain ⟨allowed, mem, performed, rfl⟩ := step_eq_some_iff.mp stepped
  cases perform_ends represents allowed with
  | fault l alive cleared fails =>
      rw [fails] at performed
      cases performed
  | ok m' done frame holds stays =>
      obtain rfl := Except.ok.inj (performed.symm.trans done)
      refine ⟨fun l alive => ?_, fun l alive nothing => ?_⟩
      · dsimp only at alive ⊢
        rcases eq_or_ne l op.target with rfl | other
        · rw [Function.update_self] at alive
          rw [CsrcOp.after, Function.update_self]
          exact holds alive
        · rw [Function.update_of_ne other] at alive
          rw [CsrcOp.after, Function.update_of_ne other]
          exact (represents l alive).frame frame other
      · dsimp only
        rcases eq_or_ne l op.target with rfl | other
        · rw [CsrcOp.after, Function.update_self, Function.update_self]
          exact stays alive nothing
        · rw [CsrcOp.after, Function.update_of_ne other, Function.update_of_ne other]
          exact ⟨alive, nothing⟩

theorem represents_init (values : CsrcObject → Option (List UInt32)) :
    Represents init.mem init.live values := by
  intro l alive
  cases alive

/-- What the objects hold after these operations. -/
def valuesAfter (ops : List CsrcOp) : CsrcObject → Option (List UInt32) :=
  ops.foldl CsrcOp.after fun _ => none

theorem valuesAfter_concat (ops : List CsrcOp) (op : CsrcOp) :
    valuesAfter (ops ++ [op]) = op.after (valuesAfter ops) := by
  rw [valuesAfter, List.foldl_concat, valuesAfter]

/-- **Refinement.** The living list objects of a run are rings that hold the lists of the
value-level operations, except those cleared by a default constructor, which are still alive. -/
theorem run_represents (reached : run step init ops = some s) :
    Represents s.mem s.live (valuesAfter ops) ∧
      ∀ x, .defaultConstruct x ∈ ops →
        s.live (.packet x) = true ∧ valuesAfter ops (.packet x) = none := by
  refine run_history (R := fun ops s => Represents s.mem s.live (valuesAfter ops) ∧
    ∀ x, .defaultConstruct x ∈ ops →
      s.live (.packet x) = true ∧ valuesAfter ops (.packet x) = none)
    ⟨represents_init _, fun x member => absurd member List.not_mem_nil⟩ ?_ reached
  intro ops u op t _ invariant stepped
  obtain ⟨represents, cleared⟩ := invariant
  obtain ⟨represents', persists⟩ := step_represents represents stepped
  rw [valuesAfter_concat]
  refine ⟨represents', fun x member => ?_⟩
  rcases List.mem_append.mp member with earlier | last
  · exact persists _ (cleared x earlier).1 (cleared x earlier).2
  · obtain rfl := List.mem_singleton.mp last
    obtain ⟨_, mem, _, rfl⟩ := step_eq_some_iff.mp stepped
    exact ⟨Function.update_self _ _ _, Function.update_self _ _ _⟩

/-- Where no living object is cleared, all is well. -/
theorem wellFormed_of_represents (represents : Represents s.mem s.live values)
    (rings : ∀ l, s.live l = true → values l ≠ none) : s.WellFormed where
  returns l alive := by
    rcases represents.cleared_or_ring alive with ⟨cleared, _⟩ | ⟨ns, xs, _, ring⟩
    · exact absurd cleared (rings l alive)
    · exact ring.returns
  proceeds op allowed := by
    cases perform_ends represents allowed with
    | fault l alive cleared fails => exact absurd cleared (rings l alive)
    | ok m' done frame holds stays =>
        exact ⟨⟨m', _⟩, by rw [exec, done]; rfl⟩

/-- A cleared list is not well formed. -/
theorem not_returns_of_represents (represents : Represents s.mem s.live values)
    (alive : s.live l = true) (cleared : values l = none) : ¬ s.mem.Returns l := by
  have holds := represents l alive
  rw [cleared] at holds
  exact Cleared.not_returns holds

/-- No operation but the default constructor clears a list. -/
theorem value_ne_none (given : ∀ x, op ≠ .defaultConstruct x)
    (rings : ∀ l, live l = true → values l ≠ none) (allowed : op.allowed live = true)
    (leaves : op.leavesAlive = true) : op.value values ≠ none := by
  cases op with
  | newList k => simp [CsrcOp.value]
  | defaultConstruct x => exact absurd rfl (given x)
  | construct x csrcCount src =>
      rw [CsrcOp.value]
      split
      · exact rings src (Bool.and_eq_true_iff.mp allowed).2
      · simp
  | setCsrc x src =>
      obtain ⟨_, source⟩ := Bool.and_eq_true_iff.mp allowed
      exact rings _ source
  | pushBack l v => simpa [CsrcOp.value] using rings l allowed
  | copyConstruct x y =>
      obtain ⟨_, source⟩ := Bool.and_eq_true_iff.mp allowed
      exact rings _ source
  | copyAssign x y =>
      obtain ⟨_, source⟩ := Bool.and_eq_true_iff.mp allowed
      exact rings _ source
  | destroy l => cases leaves

/-- The living objects are rings, one value each. -/
def AllRings (s : CsrcLists) : Prop :=
  ∃ values, Represents s.mem s.live values ∧ ∀ l, s.live l = true → values l ≠ none

theorem allRings_init : init.AllRings := by
  refine ⟨fun _ => none, represents_init _, fun l alive => ?_⟩
  cases alive

theorem step_allRings (rings : s.AllRings) (given : ∀ x, op ≠ .defaultConstruct x)
    (stepped : s.step op = some t) : t.AllRings := by
  obtain ⟨values, represents, rings⟩ := rings
  refine ⟨op.after values, (step_represents represents stepped).1, fun l alive => ?_⟩
  obtain ⟨allowed, mem, _, rfl⟩ := step_eq_some_iff.mp stepped
  dsimp only at alive
  rcases eq_or_ne l op.target with rfl | other
  · rw [Function.update_self] at alive
    rw [CsrcOp.after, Function.update_self]
    exact value_ne_none given rings allowed alive
  · rw [Function.update_of_ne other] at alive
    rw [CsrcOp.after, Function.update_of_ne other]
    exact rings l alive

/-- **Well-formed CSRC lists.** Every state of a run is well formed exactly when the run builds no
packet by the default constructor.  A packet it does build so is alive ever after, its list does
not return to the sentinel, and to destroy it is to follow a null link. -/
theorem csrcLists_wellFormed_iff (reached : run step init ops = some s) :
    (Always step WellFormed init ops ↔ ∀ x, .defaultConstruct x ∉ ops) ∧
    ∀ x, .defaultConstruct x ∈ ops →
      s.live (.packet x) = true ∧ ¬ s.mem.Returns (.packet x) ∧
        s.exec (.destroy (.packet x)) = .error .nullLink := by
  obtain ⟨represents, cleared⟩ := run_represents reached
  have broken : ∀ x, .defaultConstruct x ∈ ops →
      s.live (.packet x) = true ∧ ¬ s.mem.Returns (.packet x) ∧
        s.exec (.destroy (.packet x)) = .error .nullLink := by
    intro x member
    obtain ⟨alive, nothing⟩ := cleared x member
    refine ⟨alive, not_returns_of_represents represents alive nothing, ?_⟩
    have holds := represents _ alive
    rw [nothing] at holds
    rw [exec, CsrcOp.perform, Cleared.clear holds]
    rfl
  refine ⟨⟨fun kept x member => ?_, fun given => ?_⟩, broken⟩
  · obtain ⟨alive, lost, _⟩ := broken x member
    exact lost ((kept.last reached).returns _ alive)
  · have others : ∀ op ∈ ops, ∀ x, op ≠ .defaultConstruct x := by
      rintro op member x rfl
      exact given x member
    refine always_of_along (Q := AllRings)
      (fun s op t rings others stepped => step_allRings rings others stepped) ?_
      allRings_init (along_of_forall others init)
    intro s rings
    obtain ⟨values, represents, rings⟩ := rings
    exact wellFormed_of_represents represents rings

/-- Packets built from a list of the caller, copied, appended to, assigned and destroyed. -/
theorem csrcLists_wellFormed_iff_copies :
    Always step WellFormed init
      [.newList 0, .pushBack (.caller 0) 7, .pushBack (.caller 0) 9,
        .construct 1 2 (.caller 0), .copyConstruct 2 1, .pushBack (.packet 2) 5,
        .setCsrc 1 (.packet 2), .setCsrc 1 (.packet 1), .copyAssign 2 1,
        .destroy (.packet 1), .destroy (.packet 2), .destroy (.caller 0)] := by
  have reached : run step init
      [.newList 0, .pushBack (.caller 0) 7, .pushBack (.caller 0) 9,
        .construct 1 2 (.caller 0), .copyConstruct 2 1, .pushBack (.packet 2) 5,
        .setCsrc 1 (.packet 2), .setCsrc 1 (.packet 1), .copyAssign 2 1,
        .destroy (.packet 1), .destroy (.packet 2), .destroy (.caller 0)] = some _ := rfl
  exact (csrcLists_wellFormed_iff reached).1.mpr (by simp)

/-- The default constructor leaves a sentinel without links: the list is not one, and the
packet can be neither destroyed nor copied. -/
theorem default_packet_follows_null :
    ∃ s, run step init [.defaultConstruct 0] = some s ∧
      s.mem.next (.sentinel (.packet 0)) = none ∧ s.mem.size (.packet 0) = 0 ∧
      ¬ s.mem.Returns (.packet 0) ∧ ¬ s.WellFormed ∧
      s.exec (.destroy (.packet 0)) = .error .nullLink ∧
      s.exec (.copyConstruct 1 0) = .error .nullLink ∧
      s.exec (.pushBack (.packet 0) 7) = .error .nullLink := by
  have lost : ∀ s, run step init [.defaultConstruct 0] = some s → ¬ s.mem.Returns (.packet 0) := by
    intro s reached returns
    obtain rfl := Option.some.inj reached
    cases returns.2
  refine ⟨_, rfl, rfl, rfl, lost _ rfl, fun wellFormed => ?_, rfl, rfl, rfl⟩
  exact lost _ rfl (wellFormed.returns _ rfl)

end CsrcLists

end OpenRtp
