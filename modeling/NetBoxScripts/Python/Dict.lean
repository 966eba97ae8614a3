import NetBoxScripts.Python.Text

/-!
# Dictionaries

A `dict` with string keys, in the order its keys were first set.

## Main definitions

* `Dict`: keys with their values
* `get?`, `set`, `update`: `d.get(k)`, `d[k] = v` and `{**d, **entries}`

## Main results

* `get?_set_self`, `get?_set_of_ne`, `get?_update_of_notMem`: what setting keys changes
* `isSome_get?_update`: no key is lost
-/

namespace NetBoxScripts

/-- A dictionary with string keys. -/
abbrev Dict (α : Type) := List (PyStr × α)

namespace Dict

variable {α : Type} {d entries : Dict α} {k k' : PyStr} {v : α}

/-- `d.get(k)` -/
def get? (d : Dict α) (k : PyStr) : Option α := d.lookup k

/-- `d[k] = v` -/
def set : Dict α → PyStr → α → Dict α
  | [], k, v => [(k, v)]
  | (k', v') :: d, k, v => if k = k' then (k, v) :: d else (k', v') :: set d k v

/-- `{**d, **entries}` -/
def update (d entries : Dict α) : Dict α := entries.foldl (fun d entry => d.set entry.1 entry.2) d

@[simp] theorem get?_nil : get? ([] : Dict α) k = none := rfl

theorem get?_cons : get? ((k', v) :: d) k = if k = k' then some v else get? d k := by
  rw [get?, List.lookup_cons]
  split_ifs with h
  · rw [beq_iff_eq.mpr h]
  · rw [beq_eq_false_iff_ne.mpr h]
    rfl

@[simp] theorem get?_set_self : (d.set k v).get? k = some v := by
  induction d with
  | nil => simp [set, get?_cons]
  | cons entry d ih =>
    rw [set]
    split_ifs with h
    · simp [get?_cons]
    · rw [get?_cons, if_neg h]
      exact ih

/-- A key that is not there is set at the end. -/
theorem set_of_notMem (h : k ∉ d.map Prod.fst) : d.set k v = d ++ [(k, v)] := by
  induction d with
  | nil => rfl
  | cons entry d ih =>
    rw [List.map_cons, List.mem_cons, not_or] at h
    rw [set, if_neg h.1, ih h.2]
    rfl

theorem get?_set_of_ne (h : k ≠ k') : (d.set k' v).get? k = d.get? k := by
  induction d with
  | nil => simp [set, get?_cons, h]
  | cons entry d ih =>
    rw [set]
    split_ifs with hk
    · subst hk
      rw [get?_cons, if_neg h, get?_cons, if_neg h]
    · rw [get?_cons, get?_cons, ih]

@[simp] theorem update_nil : d.update [] = d := rfl

@[simp] theorem update_cons {entry : PyStr × α} :
    d.update (entry :: entries) = (d.set entry.1 entry.2).update entries := rfl

/-- Keys that are not among the entries keep their values. -/
theorem get?_update_of_notMem (h : k ∉ entries.map Prod.fst) :
    (d.update entries).get? k = d.get? k := by
  induction entries generalizing d with
  | nil => rfl
  | cons entry entries ih =>
    rw [List.map_cons, List.mem_cons, not_or] at h
    rw [update_cons, ih h.2, get?_set_of_ne h.1]

theorem isSome_get?_set (h : (d.get? k).isSome = true) : ((d.set k' v).get? k).isSome = true := by
  rcases eq_or_ne k k' with rfl | hne
  · rw [get?_set_self]
    rfl
  · rwa [get?_set_of_ne hne]

/-- A key that has a value is one of the keys. -/
theorem mem_keys_of_isSome (h : (d.get? k).isSome = true) : k ∈ d.map Prod.fst := by
  induction d with
  | nil => cases h
  | cons entry d ih =>
    rw [get?_cons] at h
    rw [List.map_cons, List.mem_cons]
    split_ifs at h with hk
    · exact .inl hk
    · exact .inr (ih h)

/-- No key is lost. -/
theorem isSome_get?_update (h : (d.get? k).isSome = true) :
    ((d.update entries).get? k).isSome = true := by
  induction entries generalizing d with
  | nil => exact h
  | cons entry entries ih => exact ih (isSome_get?_set h)

end Dict

end NetBoxScripts
