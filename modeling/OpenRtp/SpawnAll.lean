import OpenRtp.RtpThreadManager

/-!
# `spawnAllThreads` as single spawns

`spawnAllThreads` walks the list, `spawnThread` looks a type up from its head.  On a
well-formed list the two agree: spawning all is spawning, one type after another, the entries
that were not spawned on entry, up to the first failure (`spawnFrom_eq_spawnEach`).
What it leaves follows from one statement about its loop (`spawnFrom_cases`).
-/

namespace OpenRtp.RtpThreadManager

variable {env : PthreadEnv} {m m' m'' : RtpThreadManager} {p q : Nat} {ps qs front : List Nat}

/-- `spawnThread` of one type after another, up to the first failure. -/
def spawnEach (env : PthreadEnv) (m : RtpThreadManager) :
    List RtpThreadType → RtpResult × RtpThreadManager
  | [] => (.sOk, m)
  | eType :: eTypes =>
      match m.spawnThread env eType with
      | (.sOk, m) => spawnEach env m eTypes
      | (.sFail, m) => (.sFail, m)

/-- Not marked spawned. -/
def unspawned (m : RtpThreadManager) (p : Nat) : Bool := !(m.deref p).bThreadSpawned

/-- The calls between `m` and `m'` are one `pthread_create` for each of these entries. -/
def Creates (env : PthreadEnv) (m : RtpThreadManager) (ps : List Nat) (m' : RtpThreadManager) :
    Prop :=
  m'.system.calls = m.system.calls ++ ps.mapIdx fun i p =>
    .create p ⟨.detached⟩ (env.create (m.system.calls.length + i))

/-- After `n` more calls of `pthread_create` that succeed comes one that fails. -/
structure FailsAfter (env : PthreadEnv) (m : RtpThreadManager) (n : Nat) : Prop where
  earlier : ∀ i < n, env.create (m.system.calls.length + i) = 0
  last : env.create (m.system.calls.length + n) ≠ 0

theorem unspawned_iff : m.unspawned p = true ↔ (m.deref p).bThreadSpawned = false := by
  simp [unspawned]

@[simp] theorem creates_nil (env : PthreadEnv) (m : RtpThreadManager) : Creates env m [] m := by
  simp [Creates]

theorem Creates.cons (first : Creates env m [p] m') (rest : Creates env m' ps m'') :
    Creates env m (p :: ps) m'' := by
  unfold Creates at first rest ⊢
  have length : m'.system.calls.length = m.system.calls.length + 1 := by
    rw [first]
    simp
  rw [rest, length, first, List.append_assoc, List.mapIdx_cons]
  simp [Nat.add_assoc, Nat.add_comm 1]

/-! ## The loop -/

/-- The entries `front` are spawned, `attempted` of them by a `pthread_create` of its own;
every other entry kept its flag. -/
structure SpawnedUpTo (env : PthreadEnv) (m : RtpThreadManager) (front attempted : List Nat)
    (m' : RtpThreadManager) : Prop where
  list : m'.listThreadList = m.listThreadList
  flags : ∀ q, (m'.deref q).bThreadSpawned = true ↔ (m.deref q).bThreadSpawned = true ∨ q ∈ front
  calls : Creates env m attempted m'

theorem Spawned.creates (spawned : Spawned m p m')
    (created : env.create m.system.calls.length = 0) : Creates env m [p] m' := by
  rw [Creates, spawned.calls]
  simp [created]

theorem SpawnFailed.creates (failed : SpawnFailed env m p m') : Creates env m [p] m' := by
  rw [Creates, failed.calls]
  simp

theorem failsAfter_zero (failed : env.create m.system.calls.length ≠ 0) :
    FailsAfter env m 0 :=
  ⟨fun i inside => absurd inside (Nat.not_lt_zero i), failed⟩

/-- A call that succeeds comes before. -/
theorem Spawned.failsAfter {n : Nat} (spawned : Spawned m p m')
    (created : env.create m.system.calls.length = 0) (fails : FailsAfter env m' n) :
    FailsAfter env m (n + 1) := by
  obtain ⟨earlier, last⟩ := fails
  simp only [spawned.calls, List.length_append, List.length_singleton] at earlier last
  refine ⟨fun i inside => ?_, by rwa [Nat.add_comm n, ← Nat.add_assoc]⟩
  cases i with
  | zero => exact created
  | succ i =>
      rw [Nat.add_comm i, ← Nat.add_assoc]
      exact earlier i (Nat.lt_of_succ_lt_succ inside)

theorem Spawned.flag_iff (spawned : Spawned m p m') (q : Nat) :
    (m'.deref q).bThreadSpawned = true ↔ (m.deref q).bThreadSpawned = true ∨ q = p := by
  rw [spawned.deref q]
  split
  · next same => simp [same]
  · next other => simp [other]

theorem SpawnFailed.flag_iff (failed : SpawnFailed env m p m') (q : Nat) :
    (m'.deref q).bThreadSpawned = true ↔ (m.deref q).bThreadSpawned = true := by
  rw [failed.deref q]
  split
  · next same => simp [same]
  · rfl

/-- Spawning `p` leaves the entries after it as they were. -/
theorem Spawned.unspawned_eq (spawned : Spawned m p m') (fresh : p ∉ ps) :
    ps.filter m'.unspawned = ps.filter m.unspawned := by
  refine List.filter_congr fun q member => ?_
  have other : q ≠ p := fun same => fresh (same ▸ member)
  rw [RtpThreadManager.unspawned, RtpThreadManager.unspawned, spawned.deref q, if_neg other]

/-- The loop skips an entry that is spawned. -/
theorem SpawnedUpTo.skip {attempted : List Nat} (upTo : SpawnedUpTo env m front attempted m')
    (flag : (m.deref p).bThreadSpawned = true) : SpawnedUpTo env m (p :: front) attempted m' where
  list := upTo.list
  flags q := by
    rw [upTo.flags q, List.mem_cons]
    grind
  calls := upTo.calls

/-- The loop goes on after an entry it has spawned. -/
theorem SpawnedUpTo.cons {attempted : List Nat} (spawned : Spawned m p m')
    (created : env.create m.system.calls.length = 0)
    (upTo : SpawnedUpTo env m' front attempted m'') :
    SpawnedUpTo env m (p :: front) (p :: attempted) m'' where
  list := upTo.list.trans spawned.list
  flags q := by rw [upTo.flags q, spawned.flag_iff q, List.mem_cons, or_assoc]
  calls := (spawned.creates created).cons upTo.calls

/-- The loop spawns what is not spawned, until a `pthread_create` fails. -/
theorem spawnFrom_cases (env : PthreadEnv) (valid : ∀ p ∈ ps, p < m.objects.size)
    (nodup : ps.Nodup) :
    ((m.spawnFrom env ps).1 = .sOk ∧
      SpawnedUpTo env m ps (ps.filter m.unspawned) (m.spawnFrom env ps).2) ∨
    ((m.spawnFrom env ps).1 = .sFail ∧ ∃ front p back, ps = front ++ p :: back ∧
      (m.deref p).bThreadSpawned = false ∧ FailsAfter env m (front.filter m.unspawned).length ∧
      SpawnedUpTo env m front (front.filter m.unspawned ++ [p]) (m.spawnFrom env ps).2) := by
  induction ps generalizing m with
  | nil => exact .inl ⟨rfl, rfl, by simp [spawnFrom], creates_nil env m⟩
  | cons p ps ih =>
      obtain ⟨fresh, nodup⟩ := List.nodup_cons.mp nodup
      have rest : ∀ q ∈ ps, q < m.objects.size := fun q member =>
        valid q (List.mem_cons_of_mem p member)
      rw [spawnFrom]
      rcases spawnThread_cases env (valid p List.mem_cons_self) with
        ⟨flag, _⟩ | ⟨uncreated, failed, result⟩ | ⟨created, ok, result⟩
      · have skipped : ∀ front, (p :: front).filter m.unspawned = front.filter m.unspawned :=
          fun front => List.filter_cons_of_neg (by simp [unspawned, flag])
        rw [if_pos flag]
        rcases ih rest nodup with ⟨ok, upTo⟩ | ⟨failed, front, q, back, rfl, unset, fails, upTo⟩
        · rw [skipped ps]
          exact .inl ⟨ok, upTo.skip flag⟩
        · rw [← skipped front] at upTo fails
          exact .inr ⟨failed, p :: front, q, back, rfl, unset, fails, upTo.skip flag⟩
      · rw [if_neg (by simp [result.unspawned])]
        rcases called : RtpThread.spawnThread env m p with ⟨ret, m'⟩
        rw [called] at failed result
        cases failed
        have none : SpawnedUpTo env m [] [p] m' :=
          ⟨result.list, fun r => by simpa using result.flag_iff r, result.creates⟩
        exact .inr ⟨rfl, [], p, ps, rfl, result.unspawned, failsAfter_zero uncreated, none⟩
      · rw [if_neg (by simp [result.unspawned])]
        rcases called : RtpThread.spawnThread env m p with ⟨ret, m'⟩
        rw [called] at ok result
        cases ok
        have attempts : ∀ front, p ∉ front →
            (p :: front).filter m.unspawned = p :: front.filter m'.unspawned := by
          intro front fresh
          rw [List.filter_cons_of_pos (unspawned_iff.mpr result.unspawned),
            result.unspawned_eq fresh]
        rcases ih (fun q member => result.size ▸ rest q member) nodup with
          ⟨ok, upTo⟩ | ⟨failed, front, q, back, rfl, unset, fails, upTo⟩
        · rw [attempts ps fresh]
          exact .inl ⟨ok, upTo.cons result created⟩
        · rw [List.mem_append, not_or] at fresh
          have other : q ≠ p := fun same => fresh.2 (same ▸ List.mem_cons_self)
          rw [result.deref, if_neg other] at unset
          have whole := upTo.cons result created
          rw [← List.cons_append, ← attempts front fresh.1] at whole
          have later := result.failsAfter created fails
          rw [← List.length_cons (a := p), ← attempts front fresh.1] at later
          exact .inr ⟨failed, p :: front, q, back, rfl, unset, later, whole⟩

/-! ## Spawning by type -/

/-- `spawnThread` finds the entry of a listed type and spawns it. -/
theorem spawnThread_typeOf (wf : m.Wf) (listed : p ∈ m.listThreadList)
    (unset : (m.deref p).bThreadSpawned = false) :
    m.spawnThread env (m.typeOf p) = RtpThread.spawnThread env m p := by
  have found : m.getThread (m.typeOf p) = some p := wf.getThread_eq_some_iff.mpr ⟨listed, rfl⟩
  simp [spawnThread, found, unset]

theorem spawnFrom_eq_spawnEach (wf : m.Wf) (listed : ∀ p ∈ ps, p ∈ m.listThreadList)
    (nodup : ps.Nodup) :
    m.spawnFrom env ps = m.spawnEach env ((ps.filter m.unspawned).map m.typeOf) := by
  induction ps generalizing m with
  | nil => rfl
  | cons p ps ih =>
      obtain ⟨fresh, nodup⟩ := List.nodup_cons.mp nodup
      have here : p ∈ m.listThreadList := listed p List.mem_cons_self
      have rest : ∀ q ∈ ps, q ∈ m.listThreadList := fun q member =>
        listed q (List.mem_cons_of_mem p member)
      rw [spawnFrom]
      cases flag : (m.deref p).bThreadSpawned with
      | true =>
          rw [if_pos rfl, List.filter_cons_of_neg (by simp [unspawned, flag])]
          exact ih wf rest nodup
      | false =>
          rw [if_neg Bool.false_ne_true, List.filter_cons_of_pos (unspawned_iff.mpr flag),
            List.map_cons, spawnEach, spawnThread_typeOf wf here flag]
          rcases spawnThread_cases env (wf.valid p here) with
            ⟨set, _⟩ | ⟨_, failed, _⟩ | ⟨_, ok, result⟩
          · rw [set] at flag
            cases flag
          · rcases called : RtpThread.spawnThread env m p with ⟨ret, m'⟩
            rw [called] at failed
            cases failed
            rfl
          · rcases called : RtpThread.spawnThread env m p with ⟨ret, m'⟩
            rw [called] at ok result
            cases ok
            dsimp only
            rw [ih (result.wf wf) (fun q member => result.list ▸ rest q member) nodup,
              result.unspawned_eq fresh, funext result.typeOf]

/-! ## `spawnAllThreads` -/

/-- What a failure at the entry `p` leaves: the entries before it are spawned, each by a call
that succeeded, and the call for `p` failed; the flags from it on are as they were, and a second
call attempts only what is still not spawned. -/
structure FailedAt (env : PthreadEnv) (m : RtpThreadManager) (front : List Nat) (p : Nat)
    (back : List Nat) (m' : RtpThreadManager) : Prop where
  list : m.listThreadList = front ++ p :: back
  unset : (m.deref p).bThreadSpawned = false
  before : ∀ q ∈ front, (m'.deref q).bThreadSpawned = true
  after : ∀ q ∈ p :: back, (m'.deref q).bThreadSpawned = (m.deref q).bThreadSpawned
  creates : Creates env m (front.filter m.unspawned ++ [p]) m'
  fails : FailsAfter env m (front.filter m.unspawned).length
  again : ∀ env', ∃ attempted, attempted <+: (p :: back).filter m.unspawned ∧
    Creates env' m' attempted (m'.spawnAllThreads env').2

theorem Wf.nodup (wf : m.Wf) : m.listThreadList.Nodup := List.Nodup.of_map _ wf.unique

theorem spawnAllThreads_cases (wf : m.Wf) (env : PthreadEnv) :
    ((m.spawnAllThreads env).1 = .sOk ∧ SpawnedUpTo env m m.listThreadList
      (m.listThreadList.filter m.unspawned) (m.spawnAllThreads env).2) ∨
    ((m.spawnAllThreads env).1 = .sFail ∧ ∃ front p back,
      m.listThreadList = front ++ p :: back ∧ (m.deref p).bThreadSpawned = false ∧
      FailsAfter env m (front.filter m.unspawned).length ∧
      SpawnedUpTo env m front (front.filter m.unspawned ++ [p]) (m.spawnAllThreads env).2) :=
  spawnFrom_cases env wf.valid wf.nodup

/-- Only entries not spawned on entry are created, in list order. -/
theorem spawnAllThreads_creates (wf : m.Wf) (env : PthreadEnv) :
    ∃ attempted, attempted <+: m.listThreadList.filter m.unspawned ∧
      Creates env m attempted (m.spawnAllThreads env).2 := by
  rcases spawnAllThreads_cases wf env with
    ⟨_, upTo⟩ | ⟨_, front, p, back, list, unset, _, upTo⟩
  · exact ⟨_, List.prefix_refl _, upTo.calls⟩
  · refine ⟨_, ⟨back.filter m.unspawned, ?_⟩, upTo.calls⟩
    rw [list, List.filter_append, List.filter_cons_of_pos (unspawned_iff.mpr unset),
      List.append_assoc, List.singleton_append]

theorem failedAt_of_upTo (wf : m.Wf) (wf' : m'.Wf) {back : List Nat}
    (list : m.listThreadList = front ++ p :: back) (unset : (m.deref p).bThreadSpawned = false)
    (fails : FailsAfter env m (front.filter m.unspawned).length)
    (upTo : SpawnedUpTo env m front (front.filter m.unspawned ++ [p]) m') :
    FailedAt env m front p back m' := by
  have before : ∀ q ∈ front, (m'.deref q).bThreadSpawned = true := fun q member =>
    (upTo.flags q).mpr (.inr member)
  have after : ∀ q ∈ p :: back, (m'.deref q).bThreadSpawned = (m.deref q).bThreadSpawned := by
    intro q member
    have apart : q ∉ front := fun first =>
      (List.nodup_append.mp (list ▸ wf.nodup)).2.2 q first q member rfl
    rw [Bool.eq_iff_iff, upTo.flags q, or_iff_left apart]
  refine ⟨list, unset, before, after, upTo.calls, fails, fun env' => ?_⟩
  have still : m'.listThreadList.filter m'.unspawned = (p :: back).filter m.unspawned := by
    rw [upTo.list, list, List.filter_append, List.filter_eq_nil_iff.mpr, List.nil_append]
    · refine List.filter_congr fun q member => ?_
      rw [unspawned, unspawned, after q member]
    · intro q member
      simp [unspawned, before q member]
  exact still ▸ spawnAllThreads_creates wf' env'

/-- **Spawning all.** On every manager a run from the empty one reaches, `spawnAllThreads` is
`spawnThread` of the type of each entry not spawned on entry, in list order, up to the first
failure.  It returns `RTP_S_OK` exactly when it leaves every entry spawned, after one
`pthread_create` for each entry that was not; otherwise it failed at some entry. -/
theorem spawnAllThreads_as_single_spawns {env₀ : PthreadEnv} {ops : List ManagerOp}
    (reached : run (step env₀) init ops = some m) (env : PthreadEnv) :
    m.spawnAllThreads env =
      m.spawnEach env ((m.listThreadList.filter m.unspawned).map m.typeOf) ∧
    ((m.spawnAllThreads env).1 = .sOk ↔ ∀ p ∈ (m.spawnAllThreads env).2.listThreadList,
      ((m.spawnAllThreads env).2.deref p).bThreadSpawned = true) ∧
    ((m.spawnAllThreads env).1 = .sOk →
      Creates env m (m.listThreadList.filter m.unspawned) (m.spawnAllThreads env).2) ∧
    ((m.spawnAllThreads env).1 = .sFail →
      ∃ front p back, FailedAt env m front p back (m.spawnAllThreads env).2) := by
  have wf := run_wf reached
  have wf' : (m.spawnAllThreads env).2.Wf :=
    step_wf wf (show step env m .spawnAllThreads = some _ from rfl)
  refine ⟨spawnFrom_eq_spawnEach wf (fun p member => member) wf.nodup, ?_⟩
  rcases spawnAllThreads_cases wf env with
    ⟨ok, upTo⟩ | ⟨failed, front, p, back, list, unset, fails, upTo⟩
  · refine ⟨⟨fun _ p member => ?_, fun _ => ok⟩, fun _ => upTo.calls, fun failed => ?_⟩
    · exact (upTo.flags p).mpr (.inr (upTo.list ▸ member))
    · rw [ok] at failed
      cases failed
  · have at_p := failedAt_of_upTo wf wf' list unset fails upTo
    refine ⟨⟨fun ok => ?_, fun all => ?_⟩, fun ok => ?_, fun _ => ⟨front, p, back, at_p⟩⟩
    · rw [ok] at failed
      cases failed
    · have set := all p (by rw [upTo.list, list]; simp)
      rw [at_p.after p List.mem_cons_self, unset] at set
      cases set
    · rw [ok] at failed
      cases failed

/-- The second of two `pthread_create`s fails. -/
theorem spawnAllThreads_as_single_spawns_failing :
    ∃ m, run (step .succeeding) init
        [.addThread .main (some 1), .addThread .capture (some 2), .addThread .encode none] =
          some m ∧
      let env := { PthreadEnv.succeeding with create := fun n => if n = 1 then 11 else 0 }
      m.spawnAllThreads env = m.spawnEach env [.main, .capture, .encode] ∧
      (m.spawnAllThreads env).1 = .sFail ∧
      ∃ front p back, FailedAt env m front p back (m.spawnAllThreads env).2 := by
  refine ⟨_, rfl, ?_⟩
  have reached : run (step .succeeding) init
      [.addThread .main (some 1), .addThread .capture (some 2), .addThread .encode none] =
        some _ := rfl
  obtain ⟨same, _, _, failed⟩ := spawnAllThreads_as_single_spawns reached
    { PthreadEnv.succeeding with create := fun n => if n = 1 then 11 else 0 }
  exact ⟨same, rfl, failed rfl⟩

end OpenRtp.RtpThreadManager
