import NetBoxScripts.Execution.RunScript

/-!
# What a run makes of its body

The part of `run_script` inside its context managers. A body that raises leaves both databases as
they were, whatever it raised; a dry run is a body that raised; and an `Exception` is logged on
its way out, where formatting it does not raise.

## Main results

* `transactions_reverts`: the two transactions leave no database changed by a body that raises
* `execute_of_committed`, `execute_of_rollback`: a run that keeps its writes, and one that ends
  with the rollback of a dry run
* `execute_of_formatted`, `execute_of_unformatted`: what becomes of an `Exception`
-/

namespace NetBoxScripts

variable {Database : Type}

/-! ## Inside the transactions -/

/-- The databases after the writes of a body. -/
def Body.written (body : Body Database) (changeloggedAlias : PyStr) (s : RunState Database) :
    PyStr → Database :=
  (body.apply changeloggedAlias s).databases

section Inside

variable {site : Site} {body : Body Database} {commit : Bool} {request : Option ℕ} {key : PyStr}
  {s t : RunState Database} {error : RunError} {output : PyStr}

@[simp] theorem log_databases (status : LogLevel) (message : PyStr) :
    (s.log status message).databases = s.databases := rfl

@[simp] theorem log_delivered (status : LogLevel) (message : PyStr) :
    (s.log status message).delivered = s.delivered := rfl

@[simp] theorem log_calls (status : LogLevel) (message : PyStr) :
    (s.log status message).script.calls = s.script.calls := by
  unfold RunState.log ScriptInstance.log
  split_ifs <;> rfl

theorem log_messages {message : PyStr} (status : LogLevel) (hne : message ≠ []) :
    (s.log status message).script.messages = s.script.messages ++ [⟨status, message⟩] := by
  simp [RunState.log, ScriptInstance.log, hne]

/-- A step writes where its target lies, and nowhere else. -/
theorem apply_databases_of_notMem (step : BodyStep Database) {other : PyStr}
    (hother : other ∉ ({defaultDbAlias, key} : Set PyStr)) :
    (step.apply key s).databases other = s.databases other := by
  simp only [Set.mem_insert_iff, Set.mem_singleton_iff, not_or] at hother
  cases step with
  | queueEvent event => rfl
  | write target change =>
    refine Function.update_of_ne ?_ _ _
    cases target with
    | default => exact hother.1
    | changelogged => exact hother.2

/-- What a step writes depends on the databases alone. -/
theorem apply_databases_congr (step : BodyStep Database) (h : s.databases = t.databases) :
    (step.apply key s).databases = (step.apply key t).databases := by
  cases step with
  | queueEvent event => exact h
  | write target change => simp only [BodyStep.apply, h]

@[simp] theorem apply_script (step : BodyStep Database) : (step.apply key s).script = s.script := by
  cases step <;> rfl

@[simp] theorem apply_delivered (step : BodyStep Database) :
    (step.apply key s).delivered = s.delivered := by
  cases step <;> rfl

/-- A body writes to its two databases. -/
theorem bodyApply_databases_of_notMem {other : PyStr}
    (hother : other ∉ ({defaultDbAlias, key} : Set PyStr)) :
    (body.apply key s).databases other = s.databases other := by
  unfold Body.apply
  induction body.steps generalizing s with
  | nil => rfl
  | cons step steps ih => rw [List.foldl_cons, ih, apply_databases_of_notMem step hother]

theorem written_congr (h : s.databases = t.databases) :
    body.written key s = body.written key t := by
  unfold Body.written Body.apply
  induction body.steps generalizing s t with
  | nil => exact h
  | cons step steps ih =>
    rw [List.foldl_cons, List.foldl_cons]
    exact ih (apply_databases_congr step h)

@[simp] theorem bodyApply_script : (body.apply key s).script = s.script := by
  unfold Body.apply
  induction body.steps generalizing s with
  | nil => rfl
  | cons step steps ih => rw [List.foldl_cons, ih, apply_script]

@[simp] theorem bodyApply_delivered : (body.apply key s).delivered = s.delivered := by
  unfold Body.apply
  induction body.steps generalizing s with
  | nil => rfl
  | cons step steps ih => rw [List.foldl_cons, ih, apply_delivered]

/-- The script instance as its `run` is called. -/
def RunState.called (s : RunState Database) : RunState Database :=
  { s with script := { s.script with calls := s.script.calls + 1 } }

theorem call_of_error (h : body.ends = .error error) :
    call body commit key s = (body.apply key s.called, some error) := by
  simp [call, h, RunState.called]

theorem call_of_ok (h : body.ends = .ok output) :
    call body commit key s =
      ({ body.apply key s.called with
          script := { (body.apply key s.called).script with output := some output } },
        if commit then none else some dryRunRollback) := by
  simp only [call, h, RunState.called]
  split_ifs <;> rfl

theorem call_script_calls : (call body commit key s).1.script.calls = s.script.calls + 1 := by
  cases h : body.ends with
  | error error => simp [call_of_error h, RunState.called]
  | ok output => simp [call_of_ok h, RunState.called]

theorem call_messages : (call body commit key s).1.script.messages = s.script.messages := by
  cases h : body.ends with
  | error error => simp [call_of_error h, RunState.called]
  | ok output => simp [call_of_ok h, RunState.called]

theorem call_delivered : (call body commit key s).1.delivered = s.delivered := by
  cases h : body.ends with
  | error error => simp [call_of_error h, RunState.called]
  | ok output => simp [call_of_ok h, RunState.called]

/-- Whatever a body does, what it does to other databases is nothing. -/
theorem call_reverts : Block.RevertsOutside (databaseStore Database) {defaultDbAlias, key}
    (call body commit key) := by
  intro s _ other hother
  change (call body commit key s).1.databases other = s.databases other
  cases h : body.ends with
  | error error =>
    rw [call_of_error h]
    exact bodyApply_databases_of_notMem hother
  | ok output =>
    rw [call_of_ok h]
    exact bodyApply_databases_of_notMem hother

/-- **The two transactions** leave no database changed by a body that raises. -/
theorem transactions_reverts : Block.RevertsOutside (databaseStore Database) ∅
    (transactions key (call body commit key)) := by
  refine Block.RevertsOutside.atomic ?_
  split_ifs with hkey
  · refine Block.RevertsOutside.atomic ?_
    simpa [Set.pair_comm] using call_reverts
  · have hreverts : Block.RevertsOutside (databaseStore Database) {defaultDbAlias, key}
        (call body commit key) := call_reverts
    simpa [not_not.mp hkey] using hreverts

/-- A transaction raises what its body raises, and rolls nothing back but databases. -/
theorem transactions_raised : (transactions key (call body commit key) s).2 =
    (call body commit key s).2 := by
  unfold transactions
  split_ifs <;> simp

theorem transactions_view {View : Type} (view : RunState Database → View)
    (hview : ∀ s databases, view { s with databases := databases } = view s) :
    view (transactions key (call body commit key) s).1 = view (call body commit key s).1 := by
  unfold transactions
  rw [Block.view_atomic view fun _ _ _ => hview _ _]
  split_ifs
  · exact Block.view_atomic view fun _ _ _ => hview _ _
  · rfl

theorem transactions_of_returned (h : (call body commit key s).2 = none) :
    transactions key (call body commit key) s = call body commit key s := by
  unfold transactions
  split_ifs
  · rw [Block.atomic_of_returned (by simpa using h), Block.atomic_of_returned h]
  · exact Block.atomic_of_returned h

/-! ## What the run makes of an exception -/

/-- The alias a run has is the router's. -/
theorem dbForWrite_of_prepare (h : (prepare site).2 = .ok key) : site.dbForWrite = .ok key := by
  unfold prepare at h
  split at h
  · simp at h
  · split at h
    · exact h
    · split at h
      · simp at h
      · split at h
        · simp at h
        · exact h

@[simp] theorem warned_databases (warning : Option PyStr) :
    (s.warned warning).databases = s.databases := by
  cases warning <;> rfl

@[simp] theorem warned_delivered (warning : Option PyStr) :
    (s.warned warning).delivered = s.delivered := by
  cases warning <;> rfl

@[simp] theorem warned_calls (warning : Option PyStr) :
    (s.warned warning).script.calls = s.script.calls := by
  cases warning with
  | none => rfl
  | some reason => exact log_calls _ _

/-- What is logged before the transactions is no failure. -/
theorem warned_messages (warning : Option PyStr) : ∃ records : List LogRecord,
    (s.warned warning).script.messages = s.script.messages ++ records ∧
      ∀ logged ∈ records, logged.status ≠ .failure := by
  cases warning with
  | none => exact ⟨[], by simp [RunState.warned]⟩
  | some reason =>
    by_cases hreason : reason = []
    · exact ⟨[], by simp [RunState.warned, RunState.log, ScriptInstance.log, hreason]⟩
    · exact ⟨[⟨.warning, reason⟩], log_messages _ hreason, by simp⟩

/-- A run that cannot be prepared calls nothing and ends with an exception. -/
theorem attempt_of_not_prepared (h : (prepare site).2 = .error error) :
    attemptScript site body commit s = (s.warned (prepare site).1, some error) := by
  simp only [attemptScript, h]

/-- The state a body leaves when it raised and its transactions are over. -/
def RunState.rolledBack (s : RunState Database) (site : Site) (body : Body Database)
    (commit : Bool) (key : PyStr) : RunState Database :=
  (transactions key (call body commit key) (s.warned (prepare site).1)).1

theorem attempt_of_returned (h : (prepare site).2 = .ok key)
    (hcall : ∀ s : RunState Database, (call body commit key s).2 = none) :
    attemptScript site body commit s = call body commit key (s.warned (prepare site).1) := by
  have hreturned := transactions_of_returned (hcall (s.warned (prepare site).1))
  simp only [attemptScript, h]
  split
  next s' heq => rw [← hreturned, heq]
  next s' error heq =>
    have hnone := hcall (s.warned (prepare site).1)
    simp [← hreturned, heq] at hnone

/-- The rollback of a dry run ends at the inner `try`, and any other exception goes on. -/
theorem attempt_of_raised (h : (prepare site).2 = .ok key)
    (hcall : ∀ s : RunState Database, (call body commit key s).2 = some error) :
    attemptScript site body commit s =
      if error.kind = .dryRunRollback then
        ((s.rolledBack site body commit key).log .info
          dryRunReverted, none)
      else (s.rolledBack site body commit key, some error) := by
  have hraised : (transactions key (call body commit key) (s.warned (prepare site).1)).2 =
      some error := by
    rw [transactions_raised, hcall]
  simp only [attemptScript, h]
  split
  next s' heq => simp [heq] at hraised
  next s' error' heq =>
    obtain rfl : error' = error := by simpa [heq] using hraised
    have hs' : s' = s.rolledBack site body commit key := by simp [RunState.rolledBack, heq]
    rw [hs']

@[simp] theorem rolledBack_calls : (s.rolledBack site body commit key).script.calls =
    s.script.calls + 1 := by
  unfold RunState.rolledBack
  rw [transactions_view (fun s => s.script.calls) fun _ _ => rfl, call_script_calls, warned_calls]

@[simp] theorem rolledBack_delivered : (s.rolledBack site body commit key).delivered =
    s.delivered := by
  unfold RunState.rolledBack
  rw [transactions_view (fun s => s.delivered) fun _ _ => rfl, call_delivered, warned_delivered]

theorem rolledBack_messages (site : Site) (body : Body Database) (commit : Bool) (key : PyStr)
    (s : RunState Database) : ∃ records : List LogRecord,
    (s.rolledBack site body commit key).script.messages = s.script.messages ++ records ∧
      ∀ logged ∈ records, logged.status ≠ .failure := by
  unfold RunState.rolledBack
  rw [transactions_view (fun s => s.script.messages) fun _ _ => rfl, call_messages]
  exact warned_messages _

theorem rolledBack_databases
    (hcall : ∀ s : RunState Database, (call body commit key s).2 = some error) :
    (s.rolledBack site body commit key).databases = s.databases := by
  have hraised : (transactions key (call body commit key) (s.warned (prepare site).1)).2 ≠
      none := by
    simp [transactions_raised, hcall]
  have hreverts := transactions_reverts.get_eq hraised
  exact hreverts.trans (warned_databases _)

/-! ## What the run logs -/

/-- A failure that can be formatted is logged. -/
theorem logFailure_of_text {text : PyStr} (h : site.str error = .ok text) :
    ∃ message : PyStr, message ≠ [] ∧ logFailure site error s = (s.log .failure message, none) := by
  simp only [logFailure, h]
  split_ifs
  · exact ⟨_, by simp [py], rfl⟩
  · exact ⟨_, by simp [py], rfl⟩

theorem execute_of_returned (h : (attemptScript site body commit s).2 = none) :
    executeScript site body commit request s = attemptScript site body commit s := by
  unfold executeScript
  split
  next s' heq => rw [heq]
  next s' error heq => simp [heq] at h

/-- A `BaseException` passes through. -/
theorem execute_of_baseException (h : (attemptScript site body commit s).2 = some error)
    (hbase : error.isException = false) :
    executeScript site body commit request s = attemptScript site body commit s := by
  unfold executeScript
  split
  next s' heq => simp [heq] at h
  next s' error' heq =>
    obtain rfl : error' = error := by simpa [heq] using h
    simp [hbase, heq]

/-- What cannot be formatted is replaced, and nothing is logged. -/
theorem execute_of_unformatted {raised : RunError} {s' : RunState Database}
    (h : attemptScript site body commit s = (s', some error))
    (hexception : error.isException = true) (hstr : site.str error = .error raised) :
    executeScript site body commit request s = (s', some raised) := by
  simp [executeScript, h, hexception, logFailure, hstr]

/-- Any other exception is logged and raised again. -/
theorem execute_of_formatted (request : Option ℕ) {text : PyStr} {s' : RunState Database}
    (h : attemptScript site body commit s = (s', some error))
    (hexception : error.isException = true) (hstr : site.str error = .ok text) :
    ∃ logged : LogRecord, ∃ t : RunState Database, logged.status = .failure ∧
      executeScript site body commit request s = (t, some error) ∧ t.databases = s'.databases ∧
      t.delivered = s'.delivered ∧ t.script.calls = s'.script.calls ∧
      logged ∈ t.script.messages.drop s'.script.messages.length := by
  obtain ⟨message, hmessage, hlog⟩ := logFailure_of_text (s := s') hstr
  refine ⟨⟨.failure, message⟩, _, rfl, by simp only [executeScript, h, hexception, hlog]; rfl, ?_⟩
  split_ifs <;>
    simp [log_messages _ hmessage,
      log_messages _ (show unfinishedReverted ≠ [] by simp [unfinishedReverted, py])]

/-- A run that is committed and returns leaves what its body left. -/
theorem execute_of_committed (request : Option ℕ) (s : RunState Database)
    (h : (prepare site).2 = .ok key) (hends : body.ends = .ok output) :
    ∃ t : RunState Database, executeScript site body true request s = (t, none) ∧
      t.databases = body.written key s ∧ t.script.calls = s.script.calls + 1 := by
  have hcall : ∀ s : RunState Database, (call body true key s).2 = none := fun s => by
    simp [call_of_ok hends]
  have hattempt := attempt_of_returned (s := s) h hcall
  refine ⟨(call body true key (s.warned (prepare site).1)).1, ?_, ?_, ?_⟩
  · rw [execute_of_returned (by rw [hattempt, hcall]), hattempt]
    exact Prod.ext rfl (hcall _)
  · rw [call_of_ok hends]
    exact written_congr (warned_databases _)
  · rw [call_script_calls, warned_calls]

/-- A run that ends with the rollback of a dry run raises nothing, and leaves no failure in its
log. -/
theorem execute_of_rollback (h : (prepare site).2 = .ok key)
    (hcall : ∀ s : RunState Database, (call body commit key s).2 = some error)
    (hkind : error.kind = .dryRunRollback) :
    executeScript site body commit request s = ((s.rolledBack site body commit key).log .info
      dryRunReverted, none) := by
  have hattempt := attempt_of_raised (s := s) h hcall
  rw [if_pos hkind] at hattempt
  rw [execute_of_returned (by rw [hattempt]), hattempt]

theorem attempt_of_body_raised (commit : Bool) (s : RunState Database)
    (h : (prepare site).2 = .ok key) (hends : body.ends = .error error)
    (hkind : error.kind ≠ .dryRunRollback) :
    attemptScript site body commit s = (s.rolledBack site body commit key, some error) := by
  rw [attempt_of_raised h fun s => by rw [call_of_error hends], if_neg hkind]

end Inside

end NetBoxScripts
