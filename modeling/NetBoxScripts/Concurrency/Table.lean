import Mathlib.Data.List.Nodup

/-!
# Tables

A table of rows under numbers that are never given out twice.

## Main definitions

* `Table`: rows below a bound, the next number
* `insert`, `modify`, `modifyAll`, `eraseAll`: the ways a table changes
* `entries`: the rows in the order of their numbers

## Main results

* `mem_entries`, `nodup_entries`: the entries are the rows there are, each of them once
-/

namespace NetBoxScripts

/-- Rows of one type, none of them at or above the number the next one gets. -/
structure Table (α : Type) where
  row : ℕ → Option α
  next : ℕ
  fresh : ∀ i, next ≤ i → row i = none

namespace Table

variable {α : Type} (table : Table α)

/-- No rows, and the number the first one gets. -/
def startingAt (next : ℕ) : Table α := ⟨fun _ => none, next, fun _ _ => rfl⟩

/-- The table with one more row, under the next number. -/
def insert (a : α) : Table α where
  row i := if i = table.next then some a else table.row i
  next := table.next + 1
  fresh i hi := by
    rw [if_neg (by omega)]
    exact table.fresh i (by omega)

/-- Every row rewritten, by its number. -/
def modifyAll (f : ℕ → α → α) : Table α where
  row i := (table.row i).map (f i)
  next := table.next
  fresh i hi := by rw [table.fresh i hi, Option.map_none]

/-- One row rewritten. -/
def modify (i : ℕ) (f : α → α) : Table α := table.modifyAll fun j a => if j = i then f a else a

/-- The table without the rows of some numbers. -/
def eraseAll (gone : ℕ → Bool) : Table α where
  row i := if gone i then none else table.row i
  next := table.next
  fresh i hi := by rw [table.fresh i hi, ite_self]

/-- The rows in the order of their numbers. -/
def entries : List (ℕ × α) :=
  (List.range table.next).filterMap fun i => (table.row i).map fun a => (i, a)

variable {table} {i j : ℕ} {a b : α} {β : Type}

theorem lt_next_of_row (h : table.row i = some a) : i < table.next := by
  by_contra hlt
  rw [table.fresh i (by omega)] at h
  cases h

theorem row_next : table.row table.next = none := table.fresh _ (Nat.le_refl _)

theorem mem_entries : (i, a) ∈ table.entries ↔ table.row i = some a := by
  simp only [entries, List.mem_filterMap, List.mem_range, Option.map_eq_some_iff, Prod.mk.injEq]
  constructor
  · rintro ⟨j, -, b, hb, rfl, rfl⟩
    exact hb
  · intro h
    exact ⟨i, lt_next_of_row h, a, h, rfl, rfl⟩

/-- Each number has one entry. -/
theorem nodup_entries (table : Table α) : (table.entries.map Prod.fst).Nodup := by
  have hids : table.entries.map Prod.fst =
      (List.range table.next).filter fun i => (table.row i).isSome := by
    rw [entries, List.map_filterMap, ← List.filterMap_eq_filter]
    refine congrArg (List.filterMap · _) (funext fun i => ?_)
    cases hrow : table.row i <;> simp [Option.guard, hrow]
  rw [hids]
  exact List.filter_sublist.nodup List.nodup_range

/-- What is gathered from the entries, by number. -/
theorem filterMap_entries {f : ℕ × α → Option β} {n : ℕ} (hn : table.next ≤ n) :
    table.entries.filterMap f =
      (List.range n).filterMap fun i => (table.row i).bind fun a => f (i, a) := by
  rw [entries, List.filterMap_filterMap, ← Nat.add_sub_of_le hn, List.range_add,
    List.filterMap_append]
  have hfresh : ((List.range (n - table.next)).map (table.next + ·)).filterMap
      (fun i => (table.row i).bind fun a => f (i, a)) = [] := by
    refine List.filterMap_eq_nil_iff.mpr fun i hi => ?_
    obtain ⟨j, -, rfl⟩ := List.mem_map.mp hi
    rw [table.fresh _ (Nat.le_add_right _ _), Option.bind_none]
  rw [hfresh, List.append_nil]
  exact congrArg (List.filterMap · _) (funext fun i => Option.bind_map)

/-- Two tables have the same to gather where each number has. -/
theorem filterMap_entries_congr {f : ℕ × α → Option β} {table' : Table α}
    (h : ∀ i, ((table.row i).bind fun a => f (i, a)) = (table'.row i).bind fun a => f (i, a)) :
    table.entries.filterMap f = table'.entries.filterMap f := by
  rw [filterMap_entries (Nat.le_max_left table.next table'.next),
    filterMap_entries (Nat.le_max_right table.next table'.next), funext h]

@[simp] theorem next_insert : (table.insert a).next = table.next + 1 := rfl

theorem row_insert : (table.insert a).row i = if i = table.next then some a else table.row i := rfl

@[simp] theorem row_insert_next : (table.insert a).row table.next = some a := if_pos rfl

theorem row_insert_of_lt (h : i < table.next) : (table.insert a).row i = table.row i :=
  if_neg (by omega)

/-- A row of the table is still there after an insertion. -/
theorem row_insert_of_row (h : table.row i = some b) : (table.insert a).row i = some b := by
  rw [row_insert_of_lt (lt_next_of_row h), h]

/-- A row after an insertion is the new one or was there. -/
theorem row_insert_eq_some (h : (table.insert a).row i = some b) :
    (i = table.next ∧ b = a) ∨ table.row i = some b := by
  rw [row_insert] at h
  split_ifs at h with hi
  · exact .inl ⟨hi, (Option.some.inj h).symm⟩
  · exact .inr h

/-- A new row comes last. -/
theorem entries_insert : (table.insert a).entries = table.entries ++ [(table.next, a)] := by
  rw [entries, next_insert, List.range_succ, List.filterMap_append]
  congr 1
  · refine List.filterMap_congr fun i hi => ?_
    rw [row_insert_of_lt (List.mem_range.mp hi)]
  · simp

@[simp] theorem next_modifyAll {f : ℕ → α → α} : (table.modifyAll f).next = table.next := rfl

@[simp] theorem row_modifyAll {f : ℕ → α → α} :
    (table.modifyAll f).row i = (table.row i).map (f i) := rfl

@[simp] theorem next_modify {f : α → α} : (table.modify i f).next = table.next := rfl

@[simp] theorem row_modify_self {f : α → α} : (table.modify i f).row i = (table.row i).map f := by
  rw [modify, row_modifyAll]
  exact congrArg (Option.map · _) (funext fun a => if_pos rfl)

theorem row_modify_of_ne {f : α → α} (h : j ≠ i) : (table.modify i f).row j = table.row j := by
  simp [modify, h]

/-- Rewriting a row to itself changes nothing. -/
theorem modify_eq_self {f : α → α} (h : table.row i = some a) (hsame : f a = a) :
    table.modify i f = table := by
  have hrow : (table.modify i f).row = table.row := by
    funext j
    rcases eq_or_ne j i with rfl | hj
    · rw [row_modify_self, h, Option.map_some, hsame]
    · exact row_modify_of_ne hj
  cases table
  simpa only [modify, modifyAll, mk.injEq, and_true] using hrow

/-- Rewriting one row is setting it to what it is rewritten to. -/
theorem modify_eq_of_row {f : α → α} (h : table.row i = some a) :
    table.modify i f = table.modify i fun _ => f a := by
  have hrow : (table.modify i f).row = (table.modify i fun _ => f a).row := by
    funext j
    rcases eq_or_ne j i with rfl | hj
    · simp [h]
    · rw [row_modify_of_ne hj, row_modify_of_ne hj]
  simp only [modify, modifyAll, mk.injEq, and_true]
  exact hrow

/-- Rewriting a row twice is rewriting it once. -/
theorem modify_modify {f g : α → α} :
    (table.modify i f).modify i g = table.modify i fun a => g (f a) := by
  have hrow : ((table.modify i f).modify i g).row = (table.modify i fun a => g (f a)).row := by
    funext j
    rcases eq_or_ne j i with rfl | hj
    · simp [Function.comp_def]
    · rw [row_modify_of_ne hj, row_modify_of_ne hj, row_modify_of_ne hj]
  simp only [modify, modifyAll, mk.injEq, and_true] at hrow ⊢
  exact hrow

/-- A row after a row was rewritten. -/
theorem row_modify_eq_some {f : α → α} (h : (table.modify i f).row j = some b) :
    ∃ a, table.row j = some a ∧ b = if j = i then f a else a := by
  rw [modify, row_modifyAll, Option.map_eq_some_iff] at h
  obtain ⟨a, ha, rfl⟩ := h
  exact ⟨a, ha, rfl⟩

@[simp] theorem next_eraseAll {gone : ℕ → Bool} : (table.eraseAll gone).next = table.next := rfl

theorem row_eraseAll {gone : ℕ → Bool} :
    (table.eraseAll gone).row i = if gone i then none else table.row i := rfl

@[simp] theorem row_eraseAll_eq_some {gone : ℕ → Bool} :
    (table.eraseAll gone).row i = some a ↔ gone i = false ∧ table.row i = some a := by
  rw [row_eraseAll]
  cases gone i <;> simp

end Table

end NetBoxScripts
