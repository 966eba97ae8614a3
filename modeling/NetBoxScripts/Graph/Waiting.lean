import Mathlib.Logic.Relation
import Mathlib.Order.Defs.Unbundled

/-!
# Agents that wait for one another

Agents take items one at a time, each item under a lock, and an agent waits while another holds
the lock of the item it wants. Agents that agree on the order of what they still take never wait
in a circle: on the way round, what is wanted only grows.

## Main definitions

* `Waits`: an agent wants an item whose lock another agent holds
* `Deadlocked`: agents that wait in a circle

## Main results

* `not_transGen_of_increasing`: no circle where a value grows along the edges that go on
* `not_deadlocked_of_ordered`: agents that want more than what they hold do not deadlock
-/

namespace NetBoxScripts

variable {Agent Item Lock : Type*}

/-- The agent wants an item, and the other holds one under the same lock. -/
def Waits (wants : Agent → Option Item) (holds : Agent → List Item) (lockOf : Item → Lock)
    (agent other : Agent) : Prop :=
  agent ≠ other ∧
    ∃ item ∈ wants agent, ∃ held ∈ holds other, lockOf held = lockOf item

/-- Some agents wait in a circle. -/
def Deadlocked (wants : Agent → Option Item) (holds : Agent → List Item) (lockOf : Item → Lock) :
    Prop :=
  ∃ agent, Relation.TransGen (Waits wants holds lockOf) agent agent

section Increasing

variable {edge : Agent → Agent → Prop} {value : Agent → Item} {lt : Item → Item → Prop}
  {agent other : Agent}

/-- A path whose last agent has an edge of its own increases the value. -/
theorem value_lt_of_path (htrans : ∀ a b c, lt a b → lt b c → lt a c)
    (hedge : ∀ a b c, edge a b → edge b c → lt (value a) (value b))
    (h : Relation.TransGen edge agent other) {next : Agent} (hnext : edge other next) :
    lt (value agent) (value other) := by
  induction h generalizing next with
  | single hstep => exact hedge _ _ _ hstep hnext
  | tail _ hstep ih => exact htrans _ _ _ (ih hstep) (hedge _ _ _ hstep hnext)

/-- **No circle**: where the value grows along an edge that another one follows, no path comes
back. -/
theorem not_transGen_of_increasing (value : Agent → Item)
    (htrans : ∀ a b c, lt a b → lt b c → lt a c) (hirrefl : ∀ a, ¬lt a a)
    (hedge : ∀ a b c, edge a b → edge b c → lt (value a) (value b)) (agent : Agent) :
    ¬Relation.TransGen edge agent agent := by
  intro h
  obtain ⟨next, hnext, -⟩ := Relation.TransGen.head'_iff.mp h
  exact hirrefl _ (value_lt_of_path htrans hedge h hnext)

end Increasing

section Ordered

variable {wants : Agent → Option Item} {holds : Agent → List Item} {lockOf : Item → Lock}

/-- **Ordered agents do not deadlock**: each wants an item beyond all it holds, and where one
waits for another they mean the same item. -/
theorem not_deadlocked_of_ordered (lt : Item → Item → Prop)
    (htrans : ∀ a b c, lt a b → lt b c → lt a c) (hirrefl : ∀ a, ¬lt a a)
    (hordered : ∀ agent, ∀ item ∈ wants agent, ∀ held ∈ holds agent, lt held item)
    (hsame : ∀ agent other, agent ≠ other → ∀ item ∈ wants agent, ∀ held ∈ holds other,
      lockOf held = lockOf item → held = item) :
    ¬Deadlocked wants holds lockOf := by
  rintro ⟨agent, hcircle⟩
  -- whoever waits wants something, so the agents of the circle have a value
  obtain ⟨next, ⟨-, first, -, -⟩, -⟩ := Relation.TransGen.head'_iff.mp hcircle
  refine not_transGen_of_increasing (fun agent => (wants agent).getD first) htrans hirrefl
    (fun a b c hab hbc => ?_) agent hcircle
  obtain ⟨hne, item, hitem, held, hheld, hlock⟩ := hab
  obtain ⟨-, wanted, hwanted, -⟩ := hbc
  obtain rfl := hsame a b hne item hitem held hheld hlock
  rw [Option.mem_def] at hitem hwanted
  simpa [hitem, hwanted] using hordered b wanted hwanted _ hheld

end Ordered

end NetBoxScripts
