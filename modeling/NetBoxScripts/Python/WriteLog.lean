import Mathlib.Data.List.Induction

/-!
# Logs of writes

A store that two parties write: what its places hold after a log, and what they would hold if one
party alone had written.

## Main definitions

* `Write`: one write of a place, and whether it is the party's own
* `valueAfter`: what a place holds after a log
* `lastWrite`: the write that a place has its value from

## Main results

* `valueAfter_eq`: the last write of a place decides
* `valueAfter_kept_iff`: a place is as it was or as the own writes left it exactly when the last write
  does not leave something else there as the other party's
-/

namespace NetBoxScripts

/-- One write of a place. -/
structure Write (Place Value : Type) where
  place : Place
  value : Value
  own : Bool
  deriving DecidableEq

section WriteLog

variable {Place Value : Type} [DecidableEq Place] {log log' : List (Write Place Value)}
  {place : Place} {start : Value}

/-- What a place holds after a log. -/
def valueAfter (log : List (Write Place Value)) (place : Place) (start : Value) : Value :=
  log.foldl (fun value write => if write.place = place then write.value else value) start

/-- The write that a place has its value from. -/
def lastWrite (log : List (Write Place Value)) (place : Place) : Option (Write Place Value) :=
  (log.filter (·.place = place)).getLast?

/-- The writes of one party. -/
def ownWrites (log : List (Write Place Value)) : List (Write Place Value) := log.filter (·.own)

theorem valueAfter_append : valueAfter (log ++ log') place start =
    valueAfter log' place (valueAfter log place start) :=
  List.foldl_append ..

theorem lastWrite_concat (write : Write Place Value) :
    lastWrite (log ++ [write]) place =
      if write.place = place then some write else lastWrite log place := by
  unfold lastWrite
  rw [List.filter_append]
  split_ifs with hplace <;> simp [hplace]

/-- **The last write of a place** decides what it holds. -/
theorem valueAfter_eq :
    valueAfter log place start = ((lastWrite log place).map Write.value).getD start := by
  induction log using List.reverseRecOn with
  | nil => rfl
  | append_singleton log write ih =>
    rw [valueAfter_append, lastWrite_concat, ih]
    simp only [valueAfter, List.foldl_cons, List.foldl_nil]
    split_ifs <;> rfl

theorem mem_of_lastWrite {write : Write Place Value} (h : lastWrite log place = some write) :
    write ∈ log ∧ write.place = place := by
  have hmem := List.mem_of_getLast? h
  rw [List.mem_filter, decide_eq_true_eq] at hmem
  exact hmem

/-- What is written last by the party is what it has written last. -/
theorem lastWrite_ownWrites {write : Write Place Value} (h : lastWrite log place = some write)
    (hown : write.own = true) : lastWrite (ownWrites log) place = some write := by
  induction log using List.reverseRecOn with
  | nil => cases h
  | append_singleton log last ih =>
    rw [lastWrite_concat] at h
    unfold ownWrites at ih ⊢
    rw [List.filter_append]
    split_ifs at h with hplace
    · cases h
      rw [List.filter_cons_of_pos hown, List.filter_nil, lastWrite_concat, if_pos hplace]
    · by_cases hlast : last.own = true
      · rw [List.filter_cons_of_pos hlast, List.filter_nil, lastWrite_concat, if_neg hplace]
        exact ih h
      · rw [List.filter_cons_of_neg hlast, List.filter_nil, List.append_nil]
        exact ih h

/-- The other party's last write of a place leaves it as it was, or as the own writes left it. -/
def Harmless (log : List (Write Place Value)) (place : Place) (start : Value) : Prop :=
  ∀ write, lastWrite log place = some write → write.own = false →
    write.value = start ∨ write.value = valueAfter (ownWrites log) place start

/-- A place is as it was, or as the own writes left it, exactly when the last write is harmless. -/
theorem valueAfter_kept_iff : (valueAfter log place start = start ∨
    valueAfter log place start = valueAfter (ownWrites log) place start) ↔
      Harmless log place start := by
  rw [valueAfter_eq]
  cases hlast : lastWrite log place with
  | none => exact iff_of_true (.inl rfl) fun write hwrite => by rw [hlast] at hwrite; cases hwrite
  | some write =>
    constructor
    · intro h other hother _
      obtain rfl := Option.some.inj (hlast.symm.trans hother)
      exact h
    · intro h
      by_cases hown : write.own = true
      · right
        rw [valueAfter_eq, lastWrite_ownWrites hlast hown]
      · exact h write hlast (Bool.not_eq_true _ ▸ hown)

/-- What the own writes left is there from the start or was written. -/
theorem valueAfter_cases {value : Value} (h : valueAfter log place start = value) :
    value = start ∨ ∃ write ∈ log, write.place = place ∧ write.value = value := by
  rw [valueAfter_eq] at h
  cases hlast : lastWrite log place with
  | none =>
    rw [hlast] at h
    exact .inl h.symm
  | some write =>
    rw [hlast] at h
    obtain ⟨hmem, hplace⟩ := mem_of_lastWrite hlast
    exact .inr ⟨write, hmem, hplace, h⟩

end WriteLog

end NetBoxScripts
