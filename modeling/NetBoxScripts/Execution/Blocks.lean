import Mathlib.Data.Set.Insert
import Mathlib.Logic.Function.Basic

/-!
# Blocks that raise

Statements over a state, as what they leave and what they raised, and the two ways to surround
them: a transaction over one of several stores, and a context manager.

A block that raises in a transaction leaves the one store as it was; what transactions over
several stores leave as it was, when each is opened inside the other, is the union.

## Main definitions

* `Block`: what statements do to a state
* `Store`: the stores of a state, by their keys
* `Block.atomic`: a block in a transaction over one store
* `Block.within`: a block in a context manager

## Main results

* `Block.RevertsOutside.atomic`: a transaction reverts its own store, and keeps the rest reverted
* `Block.within_of_started`: a context manager that starts ends its block
-/

namespace NetBoxScripts

/-- What statements do to a state: the state they leave, and what they raised. -/
abbrev Block (State Error : Type) := State → State × Option Error

/-- The stores of a state, by their keys. -/
structure Store (State Key Data : Type) [DecidableEq Key] where
  get : State → Key → Data
  put : State → Key → Data → State
  get_put : ∀ s key data, get (put s key data) = Function.update (get s) key data

/-- A context manager: what it does before its block, and what after, given how that ended. -/
structure Manager (State Error : Type) where
  enter : Block State Error
  exit : Option Error → Block State Error

namespace Block

variable {State Key Data Error View : Type}

/-! ## Transactions -/

section Transactions

variable [DecidableEq Key] {store : Store State Key Data} {keys : Set Key} {key : Key}
  {block : Block State Error} {s : State}

/-- `with transaction.atomic(using=key)`: one store is put back when the block raises. -/
def atomic (store : Store State Key Data) (key : Key) (block : Block State Error) :
    Block State Error := fun s =>
  match block s with
  | (s', none) => (s', none)
  | (s', some error) => (store.put s' key (store.get s key), some error)

theorem atomic_of_returned (h : (block s).2 = none) : block.atomic store key s = block s := by
  unfold atomic
  split
  next s' heq => rw [heq]
  next s' error heq => simp [heq] at h

theorem atomic_of_raised {error : Error} (h : (block s).2 = some error) :
    block.atomic store key s = (store.put (block s).1 key (store.get s key), some error) := by
  unfold atomic
  split
  next s' heq => simp [heq] at h
  next s' error' heq =>
    obtain rfl : error' = error := by simpa [heq] using h
    rw [heq]

/-- A transaction raises what its block raises. -/
@[simp] theorem atomic_raised : (block.atomic store key s).2 = (block s).2 := by
  cases h : (block s).2 with
  | none => rw [atomic_of_returned h, h]
  | some error => rw [atomic_of_raised h]

/-- What a rollback does not touch is as the block left it. -/
theorem view_atomic (view : State → View)
    (hput : ∀ s key data, view (store.put s key data) = view s) :
    view (block.atomic store key s).1 = view (block s).1 := by
  cases h : (block s).2 with
  | none => rw [atomic_of_returned h]
  | some error => rw [atomic_of_raised h, hput]

/-- A block that raises leaves the stores outside `keys` as they were. -/
def RevertsOutside (store : Store State Key Data) (keys : Set Key) (block : Block State Error) :
    Prop :=
  ∀ s, (block s).2 ≠ none → ∀ key ∉ keys, store.get (block s).1 key = store.get s key

/-- **A transaction** puts its own store back, and what was put back inside it stays so. -/
theorem RevertsOutside.atomic (h : RevertsOutside store (insert key keys) block) :
    RevertsOutside store keys (block.atomic store key) := by
  intro s hraised other hother
  rw [atomic_raised] at hraised
  obtain ⟨error, herror⟩ := Option.ne_none_iff_exists'.mp hraised
  rw [atomic_of_raised herror, store.get_put]
  by_cases heq : other = key
  · simp [heq]
  · rw [Function.update_of_ne heq]
    exact h s hraised other (by simp [heq, hother])

/-- A block that raises under transactions over all it writes leaves every store as it was. -/
theorem RevertsOutside.get_eq (h : RevertsOutside store ∅ block) (hraised : (block s).2 ≠ none) :
    store.get (block s).1 = store.get s :=
  funext fun key => h s hraised key (by simp)

end Transactions

/-! ## Context managers -/

section Managers

variable {manager : Manager State Error} {s s' : State}

/-- `with manager:` -/
def within (manager : Manager State Error) (block : Block State Error) : Block State Error :=
  fun s =>
    match manager.enter s with
    | (s, some error) => (s, some error)
    | (s, none) => manager.exit (block s).2 (block s).1

theorem within_of_started (block : Block State Error) (h : manager.enter s = (s', none)) :
    within manager block s = manager.exit (block s').2 (block s').1 := by
  simp [within, h]

theorem within_of_not_started (block : Block State Error) {error : Error}
    (h : manager.enter s = (s', some error)) :
    within manager block s = (s', some error) := by
  simp [within, h]

end Managers

end Block

end NetBoxScripts
