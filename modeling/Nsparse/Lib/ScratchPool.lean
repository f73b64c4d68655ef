/-
Nsparse/Lib/ScratchPool.lean

Workers that reuse their scratch from one job to the next.

A job reads and leaves the scratch of the worker it runs on, and its result goes into
a slot of its own.  `Resets` says what makes this safe: from any clean scratch a job
has the result it has from a fresh one, and leaves the scratch clean.  When all jobs
do, no order of the jobs and no assignment of them to workers can be told from running
each job alone (`Resets.independent`).
-/
import Mathlib.Logic.Function.Basic
import Mathlib.Tactic

namespace ScratchPool

variable {S Q R E : Type*}

/-- The scratch of every worker and the results so far. -/
structure Pool (S R : Type*) where
  scratch : ℕ → S
  slots : ℕ → Option R

def start (fresh : S) : Pool S R := ⟨fun _ => fresh, fun _ => none⟩

/-- A worker runs a job. -/
def step (run : Q → S → Except E (R × S)) (jobs : ℕ → Q) (pool : Pool S R) (event : ℕ × ℕ) :
    Except E (Pool S R) :=
  (run (jobs event.2) (pool.scratch event.1)).map fun result =>
    ⟨Function.update pool.scratch event.1 result.2,
      Function.update pool.slots event.2 (some result.1)⟩

/-- Workers run jobs in the order of the events, until one fails. -/
def runAll (run : Q → S → Except E (R × S)) (jobs : ℕ → Q) :
    List (ℕ × ℕ) → Pool S R → Except E (Pool S R)
  | [], pool => .ok pool
  | event :: events, pool => (step run jobs pool event).bind (runAll run jobs events)

/-- A job on fresh scratch. -/
def alone (run : Q → S → Except E (R × S)) (fresh : S) (job : Q) : Except E R :=
  (run job fresh).map Prod.fst

/-- From any clean scratch the result is the same, and the scratch is clean again. -/
def Resets (run : Q → S → Except E (R × S)) (fresh : S) (Clean : S → Prop) (job : Q) : Prop :=
  ∀ s, Clean s → (run job s).map Prod.fst = alone run fresh job ∧
    ∀ result, run job s = .ok result → Clean result.2

/-- Every result is that of the job alone, and the scratch of every worker is clean; or a job that
ran fails alone, too. -/
def Independent (run : Q → S → Except E (R × S)) (fresh : S) (Clean : S → Prop) (jobs : ℕ → Q)
    (events : List (ℕ × ℕ)) : Prop :=
  match runAll run jobs events (start fresh) with
  | .ok pool => (∀ worker, Clean (pool.scratch worker)) ∧
      ∀ event ∈ events, ∃ result, alone run fresh (jobs event.2) = .ok result ∧
        pool.slots event.2 = some result
  | .error e => ∃ event ∈ events, alone run fresh (jobs event.2) = .error e

variable {run : Q → S → Except E (R × S)} {fresh : S} {Clean : S → Prop} {jobs : ℕ → Q}

/-- One job: its slot gets the result it has alone, and every scratch stays clean. -/
theorem Resets.step {event : ℕ × ℕ} (h : Resets run fresh Clean (jobs event.2)) {pool : Pool S R}
    (hpool : ∀ worker, Clean (pool.scratch worker)) :
    (∃ result s, alone run fresh (jobs event.2) = .ok result ∧ Clean s ∧
      step run jobs pool event = .ok ⟨Function.update pool.scratch event.1 s,
        Function.update pool.slots event.2 (some result)⟩) ∨
    ∃ e, alone run fresh (jobs event.2) = .error e ∧ step run jobs pool event = .error e := by
  obtain ⟨hsame, hclean⟩ := h _ (hpool event.1)
  unfold ScratchPool.step
  rcases hrun : run (jobs event.2) (pool.scratch event.1) with e | ⟨result, s⟩
  · rw [hrun] at hsame
    exact .inr ⟨e, hsame.symm, rfl⟩
  · rw [hrun] at hsame
    exact .inl ⟨result, s, hsame.symm, hclean _ hrun, rfl⟩

/-- A slot that holds the result of its job alone keeps it. -/
theorem runAll_spec (events : List (ℕ × ℕ))
    (h : ∀ event ∈ events, Resets run fresh Clean (jobs event.2)) {pool : Pool S R}
    (hpool : ∀ worker, Clean (pool.scratch worker)) :
    (∃ pool', runAll run jobs events pool = .ok pool' ∧ (∀ worker, Clean (pool'.scratch worker)) ∧
      (∀ event ∈ events, ∃ result, alone run fresh (jobs event.2) = .ok result ∧
        pool'.slots event.2 = some result) ∧
      ∀ job result, alone run fresh (jobs job) = .ok result → pool.slots job = some result →
        pool'.slots job = some result) ∨
    ∃ e, runAll run jobs events pool = .error e ∧
      ∃ event ∈ events, alone run fresh (jobs event.2) = .error e := by
  induction events generalizing pool with
  | nil => exact .inl ⟨pool, rfl, hpool, nofun, fun _ _ _ hslot => hslot⟩
  | cons event events ih =>
      obtain ⟨hevent, hevents⟩ := List.forall_mem_cons.mp h
      rw [runAll]
      rcases hevent.step hpool with ⟨result, s, halone, hs, hstep⟩ | ⟨e, halone, hstep⟩
      · rw [hstep]
        have hclean : ∀ worker, Clean (Function.update pool.scratch event.1 s worker) := by
          intro worker
          by_cases hworker : worker = event.1
          · rw [hworker, Function.update_self]
            exact hs
          · rw [Function.update_of_ne hworker]
            exact hpool worker
        rcases @ih hevents ⟨_, Function.update pool.slots event.2 (some result)⟩ hclean with
          ⟨pool', hrun, hpool', hslots, hkeeps⟩ | ⟨e, hrun, other, hother, herror⟩
        · refine .inl ⟨pool', hrun, hpool', List.forall_mem_cons.mpr ⟨⟨result, halone, ?_⟩, hslots⟩, ?_⟩
          · exact hkeeps event.2 result halone (Function.update_self ..)
          · intro job kept hjob hslot
            apply hkeeps job kept hjob
            by_cases heq : job = event.2
            · -- the job ran twice, with the same result
              subst heq
              rw [halone] at hjob
              obtain rfl := Except.ok.inj hjob
              exact Function.update_self ..
            · show Function.update pool.slots event.2 (some result) job = _
              rw [Function.update_of_ne heq]
              exact hslot
        · exact .inr ⟨e, hrun, other, List.mem_cons_of_mem _ hother, herror⟩
      · rw [hstep]
        exact .inr ⟨e, rfl, event, List.mem_cons_self .., halone⟩

/-- **Jobs that reset their scratch are independent** of one another, in any order and on any
workers. -/
theorem Resets.independent (hfresh : Clean fresh) {events : List (ℕ × ℕ)}
    (h : ∀ event ∈ events, Resets run fresh Clean (jobs event.2)) :
    Independent run fresh Clean jobs events := by
  unfold Independent
  rcases @runAll_spec S Q R E run fresh Clean jobs events h (start fresh) (fun _ => hfresh) with
    ⟨pool, hrun, hclean, hslots, -⟩ | ⟨e, hrun, herror⟩
  · rw [hrun]
    exact ⟨hclean, hslots⟩
  · rw [hrun]
    exact herror

end ScratchPool
