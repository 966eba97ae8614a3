import Mathlib.Data.List.Basic

/-!
# Histories

A value with all the values it had before, so that what was read at an earlier moment can still be
spoken of when others have changed it.

## Main definitions

* `History`: the present value and the earlier ones; `at?`, `push`
* `History.Extends`: a later history of the same value
* `History.During`: it was so at a moment between two others
* `History.Linked`: a relation between each value and every later one

## Main results

* `History.Extends.at?_eq`: a later history tells the same of earlier moments
* `History.Linked.push`: a relation that is reflexive and transitive holds along a history if it
  holds of every change
-/

namespace NetBoxScripts

/-- A value, with the values it had before each of its changes. -/
structure History (α : Type) where
  past : List α
  now : α

namespace History

variable {α : Type} {h h' h'' : History α} {i j : ℕ} {a b : α}

/-- The number of the present moment. -/
def moment (h : History α) : ℕ := h.past.length

/-- The value at a moment. -/
def at? (h : History α) (i : ℕ) : Option α := (h.past ++ [h.now])[i]?

/-- The value changes. -/
def push (h : History α) (a : α) : History α := ⟨h.past ++ [h.now], a⟩

theorem at?_moment : h.at? h.moment = some h.now := by simp [at?, moment]

theorem le_moment_of_at? (hi : h.at? i = some a) : i ≤ h.moment := by
  obtain ⟨hlt, -⟩ := List.getElem?_eq_some_iff.mp hi
  rw [List.length_append, List.length_singleton] at hlt
  exact Nat.le_of_lt_succ hlt

@[simp] theorem moment_push : (h.push a).moment = h.moment + 1 := by simp [push, moment]

theorem at?_push (hi : i ≤ h.moment) : (h.push a).at? i = h.at? i := by
  refine List.getElem?_append_left ?_
  rw [push, List.length_append, List.length_singleton]
  exact Nat.lt_succ_of_le hi

theorem at?_push_moment : (h.push a).at? (h.moment + 1) = some a := by
  rw [← moment_push (a := a), at?_moment]
  rfl

/-- The later history goes on from the earlier one. -/
structure Extends (h h' : History α) : Prop where
  moment_le : h.moment ≤ h'.moment
  at?_eq : ∀ i ≤ h.moment, h'.at? i = h.at? i

theorem Extends.refl (h : History α) : h.Extends h := ⟨Nat.le_refl _, fun _ _ => rfl⟩

theorem Extends.trans (hfirst : h.Extends h') (hnext : h'.Extends h'') : h.Extends h'' where
  moment_le := Nat.le_trans hfirst.moment_le hnext.moment_le
  at?_eq i hi := (hnext.at?_eq i (Nat.le_trans hi hfirst.moment_le)).trans (hfirst.at?_eq i hi)

theorem extends_push : h.Extends (h.push a) where
  moment_le := by
    rw [moment_push]
    exact Nat.le_succ _
  at?_eq _ hi := at?_push hi

/-- What was the value at a moment still was. -/
theorem Extends.at? (hextends : h.Extends h') (hi : h.at? i = some a) : h'.at? i = some a :=
  (hextends.at?_eq i (le_moment_of_at? hi)).trans hi

/-- It was so at a moment between two others. -/
def During (h : History α) (first last : ℕ) (fact : α → Prop) : Prop :=
  ∃ i a, first ≤ i ∧ i ≤ last ∧ h.at? i = some a ∧ fact a

section During

variable {first last last' : ℕ} {fact other : α → Prop}

/-- What is so now. -/
theorem during_now (hfirst : first ≤ h.moment) (hfact : fact h.now) :
    h.During first h.moment fact :=
  ⟨h.moment, h.now, hfirst, Nat.le_refl _, at?_moment, hfact⟩

theorem During.extend (hs : h.During first last fact) (hextends : h.Extends h')
    (hlast : last ≤ last') : h'.During first last' fact := by
  obtain ⟨i, a, hfirst, hi, hat, hfact⟩ := hs
  exact ⟨i, a, hfirst, Nat.le_trans hi hlast, hextends.at? hat, hfact⟩

theorem During.mono (hs : h.During first last fact) (himp : ∀ a, fact a → other a) :
    h.During first last other := by
  obtain ⟨i, a, hfirst, hi, hat, hfact⟩ := hs
  exact ⟨i, a, hfirst, hi, hat, himp a hfact⟩

end During

/-- The relation holds between each value and every later one. -/
def Linked (rel : α → α → Prop) (h : History α) : Prop :=
  ∀ i j a b, i ≤ j → h.at? i = some a → h.at? j = some b → rel a b

variable {rel : α → α → Prop}

theorem linked_start (hrefl : ∀ a, rel a a) : Linked rel ⟨[], a⟩ := by
  intro i j b c hij hb hc
  obtain rfl : j = 0 := Nat.le_zero.mp (le_moment_of_at? hc)
  obtain rfl : i = 0 := Nat.le_zero.mp hij
  obtain rfl := Option.some.inj (hb.symm.trans hc)
  exact hrefl b

theorem Linked.push (hlinked : Linked rel h) (hrefl : ∀ a, rel a a)
    (htrans : ∀ a b c, rel a b → rel b c → rel a c) (hchange : rel h.now a) :
    Linked rel (h.push a) := by
  intro i j b c hij hb hc
  have hj := le_moment_of_at? hc
  rw [moment_push] at hj
  rcases Nat.lt_or_eq_of_le hj with hj | rfl
  · -- both moments were before the change
    have hj : j ≤ h.moment := Nat.le_of_lt_succ hj
    rw [at?_push (Nat.le_trans hij hj)] at hb
    rw [at?_push hj] at hc
    exact hlinked i j b c hij hb hc
  · obtain rfl := Option.some.inj (at?_push_moment.symm.trans hc)
    rcases Nat.lt_or_eq_of_le hij with hi | rfl
    · have hi : i ≤ h.moment := Nat.le_of_lt_succ hi
      rw [at?_push hi] at hb
      exact htrans b h.now a (hlinked i h.moment b h.now hi hb at?_moment) hchange
    · obtain rfl := Option.some.inj (at?_push_moment.symm.trans hb)
      exact hrefl a

end History

end NetBoxScripts
