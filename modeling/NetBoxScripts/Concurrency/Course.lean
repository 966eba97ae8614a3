import NetBoxScripts.Concurrency.Pool
import Mathlib.Tactic.SplitIfs

/-!
# Runs step by step

A run with the pool before and after each of its events, for statements about which of them came
first.

## Main definitions

* `Course`: a run, event by event
* `Course.By`: an event is an action of a thread

## Main results

* `Course.of_run`: every run is a course
* `Course.invariant`: what the start has and every event keeps, the whole course has
-/

namespace NetBoxScripts

variable {σ χ ε Op : Type}

/-- A run whose events all meet a condition on the pool they happen in, event by event. -/
structure Course (S : System σ χ ε Op) (ok : Pool σ χ ε Op → Event χ Op → Prop) where
  pool : ℕ → Pool σ χ ε Op
  event : ℕ → Event χ Op
  length : ℕ
  allowed : ∀ i < length, ok (pool i) (event i)
  step : ∀ i < length, (pool i).step S (event i) = some (pool (i + 1))

section Actions

variable {S : System σ χ ε Op} {pool pool' : Pool σ χ ε Op} {t : ThreadId} {choice : χ}

/-- The action of a thread that is not at its end. -/
theorem Pool.step_act {β : Type} {op : Op} {step : ThreadId → χ → σ → Option (β × σ)}
    {next : β → Prog σ χ ε Unit} (hth : pool.thread t = some ⟨op, .act step next⟩) :
    pool.step S (.run t choice) = (step t choice pool.world).map fun answer =>
      { pool with
        world := answer.2
        thread := Function.update pool.thread t (some ⟨op, next answer.1⟩) } := by
  simp only [Pool.step, hth]

/-- A thread at its end takes no action. -/
theorem Pool.step_done {op : Op} {result : Except ε Unit}
    (hth : pool.thread t = some ⟨op, .done result⟩) : pool.step S (.run t choice) = none := by
  simp only [Pool.step, hth]

/-- Only a thread of the pool takes an action. -/
theorem Pool.step_absent (hth : pool.thread t = none) : pool.step S (.run t choice) = none := by
  simp only [Pool.step, hth]

end Actions

namespace Course

variable {S : System σ χ ε Op} {ok : Pool σ χ ε Op → Event χ Op → Prop}

/-- The state at an event. -/
def world (course : Course S ok) (i : ℕ) : σ := (course.pool i).world

/-- An event is an action of the thread. -/
def By (course : Course S ok) (t : ThreadId) (i : ℕ) : Prop :=
  ∃ choice, course.event i = .run t choice

/-- **Every run is a course.** -/
theorem of_run {pool pool' : Pool σ χ ε Op} (hrun : Run S ok pool pool') :
    ∃ course : Course S ok, course.pool 0 = pool ∧ course.pool course.length = pool' := by
  induction hrun with
  | refl =>
    exact ⟨⟨fun _ => pool, fun _ => .tick, 0, fun _ h => absurd h (Nat.not_lt_zero _),
      fun _ h => absurd h (Nat.not_lt_zero _)⟩, rfl, rfl⟩
  | @tail middle last _ hstep ih =>
    obtain ⟨event, hok, hstep⟩ := hstep
    obtain ⟨course, hstart, hend⟩ := ih
    -- the course is continued by one event
    refine ⟨⟨fun i => if i ≤ course.length then course.pool i else last,
      fun i => if i < course.length then course.event i else event, course.length + 1,
      fun i hi => ?_, fun i hi => ?_⟩, ?_, ?_⟩
    · rw [if_pos (Nat.lt_succ_iff.mp hi)]
      split_ifs with hlt
      · exact course.allowed i hlt
      · obtain rfl : i = course.length := by omega
        exact hend ▸ hok
    · rw [if_pos (Nat.lt_succ_iff.mp hi)]
      split_ifs with hlt hle
      · exact course.step i hlt
      · omega
      · omega
      · obtain rfl : i = course.length := by omega
        exact hend ▸ hstep
    · exact hstart
    · exact if_neg (Nat.not_succ_le_self _)

/-- **By induction along a course**: what its start has and every event keeps. -/
theorem invariant {motive : ℕ → Prop} (course : Course S ok) (hstart : motive 0)
    (hstep : ∀ i < course.length, motive i → motive (i + 1)) : ∀ i ≤ course.length, motive i := by
  intro i
  induction i with
  | zero => exact fun _ => hstart
  | succ i ih => exact fun hi => hstep i hi (ih (Nat.le_of_succ_le hi))

end Course

end NetBoxScripts
