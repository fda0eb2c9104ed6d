import Mathlib.Data.List.Induction
import Mathlib.Tactic.TypeStar

/-!
# Runs of a guarded step function

A system is a step function `step : σ → α → Option σ`; `none` marks an action
the state does not allow.  `run` folds it over a list of actions, so a finite
run, a schedule of callers and a program's operation list are all one thing,
and a concrete run can be evaluated.

* `run_invariant` and `run_history` are the two induction rules: an invariant of
  the state, and a relation between the state and the actions that led to it.
* `Along C` says that a condition on the state before each action, and on that
  action, is met all along a run; `Always P` says that every state a run visits
  has `P`.  `always_of_along` and `along_of_always` lift step lemmas to the exact
  condition under which a run keeps `P`.
* `trace` collects the abstract actions a run performs, and `run_refines` lifts a
  refinement mapping from one step to a whole run.
-/

namespace OpenRtp

variable {σ α τ β : Type*} {step : σ → α → Option σ}

/-- The state a list of actions leads to, provided each one is allowed. -/
def run (step : σ → α → Option σ) : σ → List α → Option σ
  | s, [] => some s
  | s, a :: as => (step s a).bind fun t => run step t as

@[simp] theorem run_nil {s : σ} : run step s [] = some s := rfl

theorem run_cons_iff {s t : σ} {a : α} {as : List α} :
    run step s (a :: as) = some t ↔
      ∃ u, step s a = some u ∧ run step u as = some t := by
  simp only [run, Option.bind_eq_some_iff]

theorem run_append_iff {s t : σ} {as bs : List α} :
    run step s (as ++ bs) = some t ↔
      ∃ u, run step s as = some u ∧ run step u bs = some t := by
  induction as generalizing s with
  | nil => simp
  | cons a as ih =>
      simp only [List.cons_append, run_cons_iff, ih]
      constructor
      · intro reached
        rcases reached with ⟨u, first, v, rest, last⟩
        exact ⟨v, ⟨u, first, rest⟩, last⟩
      · intro reached
        rcases reached with ⟨v, ⟨u, first, rest⟩, last⟩
        exact ⟨u, first, v, rest, last⟩

theorem run_concat_iff {s t : σ} {a : α} {as : List α} :
    run step s (as ++ [a]) = some t ↔
      ∃ u, run step s as = some u ∧ step u a = some t := by
  simp [run_append_iff, run_cons_iff]

/-- Where every action is always allowed, every list of actions is a run. -/
theorem exists_run (allowed : ∀ s a, ∃ t, step s a = some t) (s : σ) (as : List α) :
    ∃ t, run step s as = some t := by
  induction as generalizing s with
  | nil => exact ⟨s, rfl⟩
  | cons a as ih =>
      obtain ⟨u, first⟩ := allowed s a
      obtain ⟨t, rest⟩ := ih u
      exact ⟨t, run_cons_iff.mpr ⟨u, first, rest⟩⟩

/-- An invariant of the step function holds in every state a run reaches. -/
theorem run_invariant {P : σ → Prop}
    (preserved : ∀ s a t, P s → step s a = some t → P t)
    {s t : σ} {as : List α} (initial : P s) (h : run step s as = some t) : P t := by
  induction as generalizing s with
  | nil => cases h; exact initial
  | cons a as ih =>
      obtain ⟨u, first, rest⟩ := run_cons_iff.mp h
      exact ih (preserved s a u initial first) rest

/-- Induction on a run from its end: relate the state reached to the actions
performed since the start. -/
theorem run_history {s : σ} {R : List α → σ → Prop} (initial : R [] s)
    (extended : ∀ as u a t, run step s as = some u → R as u → step u a = some t →
      R (as ++ [a]) t)
    {as : List α} {t : σ} (h : run step s as = some t) : R as t := by
  induction as using List.reverseRecOn generalizing t with
  | nil => cases h; exact initial
  | append_singleton as a ih =>
      obtain ⟨u, before, last⟩ := run_concat_iff.mp h
      exact extended as u a t before (ih before) last

/-! ## Conditions met along a run -/

/-- `C` holds of every action of the run and the state it is taken in. -/
def Along (step : σ → α → Option σ) (C : σ → α → Prop) : σ → List α → Prop
  | _, [] => True
  | s, a :: as => C s a ∧ ∀ t, step s a = some t → Along step C t as

/-- Every state the run visits, first and last included, has `P`. -/
def Always (step : σ → α → Option σ) (P : σ → Prop) : σ → List α → Prop
  | s, [] => P s
  | s, a :: as => P s ∧ ∀ t, step s a = some t → Always step P t as

theorem along_cons_iff {C : σ → α → Prop} {s t : σ} {a : α} {as : List α}
    (first : step s a = some t) :
    Along step C s (a :: as) ↔ C s a ∧ Along step C t as := by
  simp [Along, first]

/-- The condition is met where a part of the run leads. -/
theorem Along.at_append {C : σ → α → Prop} {s t : σ} (as : List α) {bs : List α} {a : α}
    (met : Along step C s (as ++ a :: bs)) (reached : run step s as = some t) : C t a := by
  induction as generalizing s with
  | nil => cases reached; exact met.1
  | cons b as ih =>
      obtain ⟨u, first, rest⟩ := run_cons_iff.mp reached
      exact ih (met.2 u first) rest

theorem along_trivial (s : σ) (as : List α) : Along step (fun _ _ => True) s as := by
  induction as generalizing s with
  | nil => trivial
  | cons a as ih => exact ⟨trivial, fun t _ => ih t⟩

/-- A condition on the actions alone, met by each of them. -/
theorem along_of_forall {D : α → Prop} {as : List α} (all : ∀ a ∈ as, D a) (s : σ) :
    Along step (fun _ a => D a) s as := by
  induction as generalizing s with
  | nil => trivial
  | cons a as ih =>
      obtain ⟨here, rest⟩ := List.forall_mem_cons.mp all
      exact ⟨here, fun t _ => ih rest t⟩

instance Along.decidable {C : σ → α → Prop} [∀ s a, Decidable (C s a)] :
    ∀ (s : σ) (as : List α), Decidable (Along step C s as)
  | _, [] => isTrue trivial
  | s, a :: as =>
      match first : step s a with
      | none => decidable_of_iff (C s a) (by simp [Along, first])
      | some t =>
          have := Along.decidable (C := C) t as
          decidable_of_iff (C s a ∧ Along step C t as) (along_cons_iff first).symm

theorem Always.head {P : σ → Prop} {s : σ} {as : List α}
    (h : Always step P s as) : P s := by
  cases as with
  | nil => exact h
  | cons a as => exact h.1

theorem Always.last {P : σ → Prop} {s t : σ} {as : List α}
    (h : Always step P s as) (reached : run step s as = some t) : P t := by
  induction as generalizing s with
  | nil => cases reached; exact h
  | cons a as ih =>
      obtain ⟨u, first, rest⟩ := run_cons_iff.mp reached
      exact ih (h.2 u first) rest

/-- Two conditions that agree wherever an invariant holds are met along the same
runs. -/
theorem along_congr {C D : σ → α → Prop} {I : σ → Prop}
    (preserved : ∀ s a t, I s → step s a = some t → I t)
    (same : ∀ s a, I s → (C s a ↔ D s a))
    {s : σ} {as : List α} (initial : I s) :
    Along step C s as ↔ Along step D s as := by
  induction as generalizing s with
  | nil => exact Iff.rfl
  | cons a as ih =>
      refine and_congr (same s a initial) (forall_congr' fun t => ?_)
      exact forall_congr' fun first => ih (preserved s a t initial first)

/-- If steps that meet `C` keep an invariant `Q` stronger than `P`, then every
state of a run that meets `C` has `P`. -/
theorem always_of_along {C : σ → α → Prop} {P Q : σ → Prop}
    (preserved : ∀ s a t, Q s → C s a → step s a = some t → Q t)
    (stronger : ∀ s, Q s → P s)
    {s : σ} {as : List α} (initial : Q s) (met : Along step C s as) :
    Always step P s as := by
  induction as generalizing s with
  | nil => exact stronger s initial
  | cons a as ih =>
      exact ⟨stronger s initial, fun u first =>
        ih (preserved s a u initial met.1 first) (met.2 u first)⟩

/-- If a step within `D` between states with `P` must meet `C`, then a run within `D` that
keeps `P` throughout meets `C` all along. -/
theorem along_of_always_within {C D : σ → α → Prop} {P I : σ → Prop}
    (preserved : ∀ s a t, I s → D s a → step s a = some t → I t)
    (needed : ∀ s a t, I s → D s a → P s → step s a = some t → P t → C s a)
    {s t : σ} {as : List α} (invariant : I s) (reached : run step s as = some t)
    (within : Along step D s as) (kept : Always step P s as) : Along step C s as := by
  induction as generalizing s with
  | nil => trivial
  | cons a as ih =>
      obtain ⟨u, first, rest⟩ := run_cons_iff.mp reached
      obtain ⟨here, within⟩ := (along_cons_iff first).mp within
      refine (along_cons_iff first).mpr
        ⟨needed s a u invariant here kept.1 first (kept.2 u first).head, ?_⟩
      exact ih (preserved s a u invariant here first) rest within (kept.2 u first)

/-- If a step between states with `P` must meet `C`, then a run that keeps `P`
throughout meets `C` all along. -/
theorem along_of_always {C : σ → α → Prop} {P I : σ → Prop}
    (preserved : ∀ s a t, I s → step s a = some t → I t)
    (needed : ∀ s a t, I s → P s → step s a = some t → P t → C s a)
    {s t : σ} {as : List α} (invariant : I s) (reached : run step s as = some t)
    (kept : Always step P s as) : Along step C s as :=
  along_of_always_within (fun s a t inv _ => preserved s a t inv)
    (fun s a t inv _ => needed s a t inv) invariant reached (along_trivial s as) kept

/-- If a step from a state with `P` leads to another one exactly when it meets `C`, then a
run from such a state keeps `P` throughout exactly when it meets `C` all along. -/
theorem always_iff_along {C : σ → α → Prop} {P I : σ → Prop}
    (preserved : ∀ s a t, I s → step s a = some t → I t)
    (exactly : ∀ s a t, I s → P s → step s a = some t → (P t ↔ C s a))
    {s t : σ} {as : List α} (invariant : I s) (initial : P s)
    (reached : run step s as = some t) : Always step P s as ↔ Along step C s as := by
  constructor
  · exact along_of_always preserved
      (fun s a t inv before next after => (exactly s a t inv before next).mp after)
      invariant reached
  · exact always_of_along (Q := fun s => I s ∧ P s)
      (fun s a t kept met next => ⟨preserved s a t kept.1 next,
        (exactly s a t kept.1 kept.2 next).mpr met⟩)
      (fun _ kept => kept.2) ⟨invariant, initial⟩

/-- If a step that does not meet `C` leads to `K`, and `K` stays once it is there, then a
run that ends without `K` meets `C` all along. -/
theorem along_of_persistent {C : σ → α → Prop} {K I : σ → Prop}
    (preserved : ∀ s a t, I s → step s a = some t → I t)
    (leads : ∀ s a t, I s → ¬ C s a → step s a = some t → K t)
    (persists : ∀ s a t, I s → K s → step s a = some t → K t)
    {s t : σ} {as : List α} (invariant : I s) (reached : run step s as = some t)
    (clear : ¬ K t) : Along step C s as := by
  induction as generalizing s with
  | nil => trivial
  | cons a as ih =>
      obtain ⟨u, first, rest⟩ := run_cons_iff.mp reached
      have invariantU : I u := preserved s a u invariant first
      refine (along_cons_iff first).mpr ⟨?_, ih invariantU rest⟩
      by_contra broken
      have stays := run_invariant (P := fun s => I s ∧ K s)
        (fun s a t here next => ⟨preserved s a t here.1 next, persists s a t here.1 here.2 next⟩)
        ⟨invariantU, leads s a u invariant broken first⟩ rest
      exact clear stays.2

/-- If each step keeps `P` exactly when it meets `C`, and never restores it, then `P`
holds at the end of a run exactly when it held at the start and `C` was met all along. -/
theorem iff_along {C : σ → α → Prop} {P I : σ → Prop}
    (preserved : ∀ s a t, I s → step s a = some t → I t)
    (exactly : ∀ s a t, I s → step s a = some t → (P t ↔ P s ∧ C s a))
    {s t : σ} {as : List α} (invariant : I s) (reached : run step s as = some t) :
    P t ↔ P s ∧ Along step C s as := by
  induction as generalizing s with
  | nil => cases reached; simp [Along]
  | cons a as ih =>
      obtain ⟨u, first, rest⟩ := run_cons_iff.mp reached
      rw [ih (preserved s a u invariant first) rest, exactly s a u invariant first,
        along_cons_iff first, and_assoc]

theorem Always.imp {P Q : σ → Prop} (weaker : ∀ s, P s → Q s) {s : σ} {as : List α}
    (kept : Always step P s as) : Always step Q s as := by
  induction as generalizing s with
  | nil => exact weaker s kept
  | cons a as ih => exact ⟨weaker s kept.1, fun t next => ih (kept.2 t next)⟩

theorem Along.and {C D : σ → α → Prop} {s : σ} {as : List α} (first : Along step C s as)
    (second : Along step D s as) : Along step (fun s a => C s a ∧ D s a) s as := by
  induction as generalizing s with
  | nil => trivial
  | cons a as ih =>
      exact ⟨⟨first.1, second.1⟩, fun t next => ih (first.2 t next) (second.2 t next)⟩

theorem Along.imp {C D : σ → α → Prop} (weaker : ∀ s a, C s a → D s a) {s : σ} {as : List α}
    (met : Along step C s as) : Along step D s as := by
  induction as generalizing s with
  | nil => trivial
  | cons a as ih => exact ⟨weaker s a met.1, fun t next => ih (met.2 t next)⟩

/-! ## Refinement -/

/-- The abstract actions performed along a run, where the action `a` taken in
state `s` performs `perform s a`. -/
def trace (step : σ → α → Option σ) (perform : σ → α → List β) : σ → List α → List β
  | _, [] => []
  | s, a :: as =>
      perform s a ++ ((step s a).map fun t => trace step perform t as).getD []

theorem trace_cons {perform : σ → α → List β} {s t : σ} {a : α} {as : List α}
    (first : step s a = some t) :
    trace step perform s (a :: as) = perform s a ++ trace step perform t as := by
  simp [trace, first]

theorem trace_concat {perform : σ → α → List β} {s u t : σ} {a : α} {as : List α}
    (reached : run step s as = some u) (last : step u a = some t) :
    trace step perform s (as ++ [a]) = trace step perform s as ++ perform u a := by
  induction as generalizing s with
  | nil => cases reached; simp [trace, last]
  | cons b as ih =>
      obtain ⟨v, first, rest⟩ := run_cons_iff.mp reached
      rw [List.cons_append, trace_cons first, trace_cons first, ih rest,
        List.append_assoc]

/-- **Refinement.** If under an invariant every concrete step that meets `C` is,
through `abs`, the abstract run of the actions it performs, then so is every
concrete run that meets `C` all along. -/
theorem run_refines {astep : τ → β → Option τ} {perform : σ → α → List β}
    {abs : σ → τ} {I : σ → Prop} {C : σ → α → Prop}
    (preserved : ∀ s a t, I s → C s a → step s a = some t → I t)
    (refines : ∀ s a t, I s → C s a → step s a = some t →
      run astep (abs s) (perform s a) = some (abs t))
    {s t : σ} {as : List α} (invariant : I s) (met : Along step C s as)
    (reached : run step s as = some t) :
    run astep (abs s) (trace step perform s as) = some (abs t) := by
  induction as generalizing s with
  | nil => cases reached; rfl
  | cons a as ih =>
      obtain ⟨u, first, rest⟩ := run_cons_iff.mp reached
      rw [trace_cons first]
      exact run_append_iff.mpr ⟨abs u, refines s a u invariant met.1 first,
        ih (preserved s a u invariant met.1 first) (met.2 u first) rest⟩

/-- Steps that each make `measure` smaller are no more than it was. -/
theorem length_add_le {measure : σ → Nat} {I : σ → Prop} {C : σ → α → Prop}
    (preserved : ∀ s a t, I s → C s a → step s a = some t → I t)
    (smaller : ∀ s a t, I s → C s a → step s a = some t → measure t < measure s)
    {s t : σ} {as : List α} (invariant : I s) (met : Along step C s as)
    (reached : run step s as = some t) : as.length + measure t ≤ measure s := by
  induction as generalizing s with
  | nil => cases reached; simp
  | cons a as ih =>
      obtain ⟨u, first, rest⟩ := run_cons_iff.mp reached
      obtain ⟨here, onward⟩ := (along_cons_iff first).mp met
      have less := smaller s a u invariant here first
      have fewer := ih (preserved s a u invariant here first) onward rest
      rw [List.length_cons]
      omega

/-- Where some such step is possible until `Done`, a run of them gets there. -/
theorem exists_run_done {measure : σ → Nat} {I Done : σ → Prop} {C : σ → α → Prop}
    (preserved : ∀ s a t, I s → C s a → step s a = some t → I t)
    (smaller : ∀ s a t, I s → C s a → step s a = some t → measure t < measure s)
    (goes : ∀ s, I s → Done s ∨ ∃ a t, C s a ∧ step s a = some t) {s : σ} (invariant : I s) :
    ∃ as t, Along step C s as ∧ run step s as = some t ∧ I t ∧ Done t := by
  induction bound : measure s using Nat.strongRecOn generalizing s with
  | ind n ih =>
      rcases goes s invariant with done | ⟨a, u, here, first⟩
      · exact ⟨[], s, trivial, rfl, invariant, done⟩
      · obtain ⟨as, t, onward, rest, kept, done⟩ :=
          ih (measure u) (bound ▸ smaller s a u invariant here first)
            (preserved s a u invariant here first) rfl
        exact ⟨a :: as, t, (along_cons_iff first).mpr ⟨here, onward⟩,
          run_cons_iff.mpr ⟨u, first, rest⟩, kept, done⟩

/-- **Simulation.** If every concrete step from related states is matched by the abstract
run of the actions it performs, then so is every concrete run. -/
theorem run_simulates {astep : τ → β → Option τ} {perform : σ → α → List β} {R : σ → τ → Prop}
    (simulates : ∀ s a t b, R s b → step s a = some t →
      ∃ c, run astep b (perform s a) = some c ∧ R t c)
    {s t : σ} {b : τ} {as : List α} (related : R s b) (reached : run step s as = some t) :
    ∃ c, run astep b (trace step perform s as) = some c ∧ R t c := by
  induction as generalizing s b with
  | nil => cases reached; exact ⟨b, rfl, related⟩
  | cons a as ih =>
      obtain ⟨u, first, rest⟩ := run_cons_iff.mp reached
      obtain ⟨c, performed, related⟩ := simulates s a u b related first
      obtain ⟨d, onward, related⟩ := ih related rest
      rw [trace_cons first]
      exact ⟨d, run_append_iff.mpr ⟨c, performed, onward⟩, related⟩

/-- If a step that does not meet `C` sends the abstract run where it can no longer come
back to what the concrete run reaches, a concrete run that is the abstract run of its
trace meets `C` all along. -/
theorem along_of_refined {astep : τ → β → Option τ} {perform : σ → α → List β}
    {I : σ → Prop} {C : σ → α → Prop} (abs : σ → τ)
    (preserved : ∀ s a t, I s → step s a = some t → I t)
    (refines : ∀ s a t, I s → C s a → step s a = some t →
      run astep (abs s) (perform s a) = some (abs t))
    (diverges : ∀ s a t as u b bs, I s → ¬ C s a → step s a = some t →
      run step t as = some u → run astep (abs s) (perform s a) = some b →
      run astep b bs ≠ some (abs u))
    {s t : σ} {as : List α} (invariant : I s) (reached : run step s as = some t)
    (refined : run astep (abs s) (trace step perform s as) = some (abs t)) :
    Along step C s as := by
  induction as generalizing s with
  | nil => trivial
  | cons a as ih =>
      obtain ⟨u, first, rest⟩ := run_cons_iff.mp reached
      rw [trace_cons first] at refined
      obtain ⟨b, performed, onward⟩ := run_append_iff.mp refined
      have met : C s a := by
        by_contra broken
        exact diverges s a u as t b _ invariant broken first rest performed onward
      rw [refines s a u invariant met first] at performed
      cases performed
      exact (along_cons_iff first).mpr
        ⟨met, ih (preserved s a u invariant first) rest onward⟩

end OpenRtp
