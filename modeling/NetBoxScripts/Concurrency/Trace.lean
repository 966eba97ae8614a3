import Mathlib.Logic.Function.Basic
import Mathlib.Tactic.SplitIfs

/-!
# Traces

Runs of a machine whose events are taken where it allows them, and what holds along them.

## Main definitions

* `Trace step allowed start`: the states that allowed events lead to
* `Trace.run`: the state that listed events lead to

## Main results

* `Trace.invariant`: what the start has and every allowed event keeps, every state has
-/

namespace NetBoxScripts

variable {State Event : Type}

/-- The states a machine reaches from `start` by events that are allowed where they are taken. -/
inductive Trace (step : State → Event → Option State) (allowed : State → Event → Prop)
    (start : State) : State → Prop
  | start : Trace step allowed start start
  | next {s s' : State} {e : Event} (h : Trace step allowed start s) (hallowed : allowed s e)
      (hstep : step s e = some s') : Trace step allowed start s'

namespace Trace

variable {step : State → Event → Option State} {allowed : State → Event → Prop}
  {start s s' : State}

/-- **An invariant**: what the start has and every allowed event keeps. -/
theorem invariant {I : State → Prop} (h : Trace step allowed start s) (hstart : I start)
    (hstep : ∀ s e s', I s → allowed s e → step s e = some s' → I s') : I s := by
  induction h with
  | start => exact hstart
  | next h hallowed hnext ih => exact hstep _ _ _ ih hallowed hnext

/-- An invariant that the proof of a second one uses. -/
theorem invariant_of {I J : State → Prop} (h : Trace step allowed start s)
    (hI : ∀ s, Trace step allowed start s → I s) (hstart : J start)
    (hstep : ∀ s e s', I s → J s → allowed s e → step s e = some s' → J s') : J s := by
  induction h with
  | start => exact hstart
  | next h hallowed hnext ih => exact hstep _ _ _ (hI _ h) ih hallowed hnext

/-- More events allowed, more states. -/
theorem mono {allowed' : State → Event → Prop} (h : Trace step allowed start s)
    (hallowed : ∀ s e, allowed s e → allowed' s e) : Trace step allowed' start s := by
  induction h with
  | start => exact .start
  | next h hevent hnext ih => exact ih.next (hallowed _ _ hevent) hnext

/-- The state after listed events, each of them where `ok` lets it happen. -/
def run (step : State → Event → Option State) (ok : State → Event → Bool) :
    State → List Event → Option State
  | s, [] => some s
  | s, e :: events => if ok s e then (step s e).bind fun s' => run step ok s' events else none

/-- Listed events lead to a state of the machine. -/
theorem of_run {ok : State → Event → Bool} {events : List Event}
    (h : Trace step (fun s e => ok s e = true) start s) (hrun : run step ok s events = some s') :
    Trace step (fun s e => ok s e = true) start s' := by
  induction events generalizing s with
  | nil =>
    obtain rfl := Option.some.inj hrun
    exact h
  | cons e events ih =>
    rw [run] at hrun
    split_ifs at hrun with hok
    obtain ⟨next, hnext, hrun⟩ := Option.bind_eq_some_iff.mp hrun
    exact ih (h.next hok hnext) hrun

end Trace

end NetBoxScripts
