import NetBoxScripts.Execution.Rollback

/-!
# What a run promises

What `run_script` leaves behind of a run, whatever its processors do as they start: the context
managers around it hand on how it ended, and a run that is stopped before its body has changed
nothing. So the promise of a run is decided by the one thing that its body decides, the exception
it ends with.

## Main definitions

* `RunsAsPromised`: what a run is to leave behind
* `Site.HandsOn`: context managers that hand on how their blocks end
* `Site.Reportable`: an exception that can be logged and is no rollback of a dry run

## Main results

* `runProcessors_reached`, `runProcessors_not_reached`: what the loop over the registry makes of
  the block inside
* `runScript_cases`: a run comes to its body, or is stopped before
* `runsAsPromised_iff`: a run keeps its promise unless its body raises what the run takes for its
  own rollback, or what cannot be formatted
-/

namespace NetBoxScripts

variable {Database : Type}

/-! ## What a run is to leave behind -/

/-- The body returned. -/
def Body.Returns (body : Body Database) : Prop := ∃ output, body.ends = .ok output

/-- What a run is to leave behind, of a body it called or did not call. -/
structure RunsAsPromised (site : Site) (body : Body Database) (commit : Bool)
    (before after : RunState Database) (raised : Option RunError) : Prop where
  /-- A run that is committed and returns keeps what it wrote, on both databases. -/
  persisted : before.script.calls < after.script.calls → commit = true → body.Returns →
    ∃ key, site.dbForWrite = .ok key ∧ after.databases = body.written key before
  /-- Every other run leaves both as they were. -/
  reverted : ¬(before.script.calls < after.script.calls ∧ commit = true ∧ body.Returns) →
    after.databases = before.databases
  /-- It delivers no event either. -/
  silent : ¬(before.script.calls < after.script.calls ∧ commit = true ∧ body.Returns) →
    after.delivered = before.delivered
  /-- A dry run that returns is no failure. -/
  dryRun : before.script.calls < after.script.calls → commit = false → body.Returns →
    raised = none
  /-- What a body raises is re-raised, after it was logged. -/
  reraised : before.script.calls < after.script.calls → ∀ error, body.ends = .error error →
    error.isException = true → raised = some error ∧
      ∃ logged ∈ after.script.messages.drop before.script.messages.length,
        logged.status = .failure
  /-- The caller's request context is what it was. -/
  context : after.currentRequest = before.currentRequest

/-- A context manager that hands on what its block raised. -/
def PluginManager.HandsOn (manager : PluginManager) : Prop :=
  ∀ raised, manager.close raised = raised

/-- The context managers of other plugins hand on what their blocks raised. -/
def Site.HandsOn (site : Site) : Prop :=
  site.deactivation.HandsOn ∧
    ∀ manager, Processor.plugin manager ∈ site.requestProcessors → manager.HandsOn

/-- A run goes on past a processor: event tracking that a dry run leaves out, one that starts, or
another plugin's that raises an `Exception` as it starts. -/
def Processor.goesOn (commit : Bool) : Processor → Bool
  | .eventTracking start _ => !commit || start.isNone
  | .plugin manager => manager.start.all RunError.isException

/-- A run comes to its body. -/
def Site.ReachesBody (site : Site) (commit : Bool) : Prop :=
  (∀ processor ∈ site.requestProcessors, processor.goesOn commit = true) ∧
    site.deactivation.start = none ∧ ∃ key, (prepare site).2 = .ok key

/-- An exception that a run can log, and does not take for the rollback of a dry run. -/
def Site.Reportable (site : Site) (error : RunError) : Prop :=
  error.kind ≠ .dryRunRollback ∧ ∃ text, site.str error = .ok text

/-! ## Around the run -/

/-- A manager that is entered touches neither the databases nor the script, and delivers
nothing. -/
structure SameRecord (s t : RunState Database) : Prop where
  databases : t.databases = s.databases
  script : t.script = s.script
  delivered : t.delivered = s.delivered

/-- What becomes of the end of a block on its way out: an exception arrives as it is, nothing is
delivered beside it, and the end of a dry run is not changed at all. -/
structure HandedOn (commit : Bool) (inner outer : RunState Database × Option RunError) : Prop where
  databases : outer.1.databases = inner.1.databases
  script : outer.1.script = inner.1.script
  raised : ∀ error, inner.2 = some error →
    outer.2 = some error ∧ outer.1.delivered = inner.1.delivered
  dryRun : commit = false → outer.2 = inner.2 ∧ outer.1.delivered = inner.1.delivered

section Around

variable {site : Site} {commit : Bool} {request : Option ℕ} {processors : List Processor}
  {block : Block (RunState Database) RunError} {s t u : RunState Database}
  {inner middle outer : RunState Database × Option RunError}

theorem SameRecord.refl (s : RunState Database) : SameRecord s s := ⟨rfl, rfl, rfl⟩

theorem SameRecord.trans (h : SameRecord s t) (h' : SameRecord t u) : SameRecord s u :=
  ⟨h'.databases.trans h.databases, h'.script.trans h.script, h'.delivered.trans h.delivered⟩

theorem HandedOn.refl (inner : RunState Database × Option RunError) : HandedOn commit inner inner :=
  ⟨rfl, rfl, fun _ h => ⟨h, rfl⟩, fun _ => ⟨rfl, rfl⟩⟩

theorem HandedOn.trans (h : HandedOn commit inner middle) (h' : HandedOn commit middle outer) :
    HandedOn commit inner outer where
  databases := h'.databases.trans h.databases
  script := h'.script.trans h.script
  raised error herror := by
    obtain ⟨hmiddle, hdelivered⟩ := h.raised error herror
    obtain ⟨houter, hdelivered'⟩ := h'.raised error hmiddle
    exact ⟨houter, hdelivered'.trans hdelivered⟩
  dryRun hcommit := by
    obtain ⟨hraised, hdelivered⟩ := h.dryRun hcommit
    obtain ⟨hraised', hdelivered'⟩ := h'.dryRun hcommit
    exact ⟨hraised'.trans hraised, hdelivered'.trans hdelivered⟩

/-- What a processor raises as it starts. -/
def Processor.start : Processor → Option RunError
  | .eventTracking start _ => start
  | .plugin manager => manager.start

/-- A processor starts, or does not, and touches the queue and the request context. -/
theorem enter_processor (processor : Processor) (request : Option ℕ) (s : RunState Database) :
    ∃ t, (processor.manager request).enter s = (t, processor.start) ∧ SameRecord s t := by
  cases processor with
  | plugin manager => exact ⟨_, rfl, ⟨rfl, rfl, rfl⟩⟩
  | eventTracking start flush =>
    cases start with
    | none => exact ⟨_, rfl, ⟨rfl, rfl, rfl⟩⟩
    | some error => exact ⟨_, rfl, .refl s⟩

theorem handedOn_plugin {manager : PluginManager} (hhands : manager.HandsOn)
    (ended : RunState Database × Option RunError) :
    HandedOn commit ended (manager.manager.exit ended.2 ended.1) where
  databases := rfl
  script := rfl
  raised _ herror := ⟨(hhands _).trans herror, rfl⟩
  dryRun _ := ⟨hhands _, rfl⟩

/-- A processor that was entered hands on how its block ended. -/
theorem handedOn_processor {processor : Processor}
    (hentered : (!commit && processor.isEventTracking) = false)
    (hhands : ∀ manager, processor = .plugin manager → manager.HandsOn)
    (ended : RunState Database × Option RunError) :
    HandedOn commit ended ((processor.manager request).exit ended.2 ended.1) := by
  cases processor with
  | plugin manager => exact handedOn_plugin (hhands manager rfl) ended
  | eventTracking start flush =>
    obtain rfl : commit = true := by simpa [Processor.isEventTracking] using hentered
    obtain ⟨s, raised⟩ := ended
    cases raised with
    | none => exact ⟨rfl, rfl, by simp, by simp⟩
    | some error => exact .refl _

/-- Whether a run goes on past a processor, as the loop asks it. -/
theorem goesOn_iff (processor : Processor) : processor.goesOn commit = true ↔
    (!commit && processor.isEventTracking) = true ∨ processor.start = none ∨
      ∃ error, processor.start = some error ∧
        (error.isException && !processor.isEventTracking) = true := by
  cases processor with
  | eventTracking start flush =>
    cases start <;> simp [Processor.goesOn, Processor.isEventTracking, Processor.start]
  | plugin manager =>
    cases hstart : manager.start <;>
      simp [Processor.goesOn, Processor.isEventTracking, Processor.start, hstart]

/-- What the loop does at a processor: it goes on, and what the rest ends with is handed on, or it
stops with what the processor raised. -/
theorem runProcessors_cons (request : Option ℕ) (block : Block (RunState Database) RunError)
    {processor : Processor} (rest : List Processor)
    (hhands : ∀ manager, processor = .plugin manager → manager.HandsOn) (s : RunState Database) :
    ∃ t, SameRecord s t ∧
      (processor.goesOn commit = true → HandedOn commit
        (runProcessors request commit rest block t)
        (runProcessors request commit (processor :: rest) block s)) ∧
      (processor.goesOn commit = false →
        ∃ error, runProcessors request commit (processor :: rest) block s = (t, some error)) := by
  by_cases hskip : (!commit && processor.isEventTracking) = true
  · refine ⟨s, .refl s, fun _ => ?_, fun hstops => ?_⟩
    · simp only [runProcessors, hskip, if_true]
      exact .refl _
    · simp [(goesOn_iff processor).mpr (.inl hskip)] at hstops
  · obtain ⟨t, henter, hsame⟩ := enter_processor processor request s
    refine ⟨t, hsame, fun hgoes => ?_, fun hstops => ?_⟩
    · simp only [runProcessors, hskip, henter]
      rcases (goesOn_iff processor).mp hgoes with h | h | ⟨error, h, hpassed⟩
      · exact absurd h hskip
      · rw [h]
        exact handedOn_processor (by simpa using hskip) hhands _
      · simp only [h, hpassed, if_true]
        exact .refl _
    · rw [← Bool.not_eq_true, goesOn_iff] at hstops
      simp only [not_or, not_exists, not_and] at hstops
      obtain ⟨-, hstart, hpassed⟩ := hstops
      obtain ⟨error, herror⟩ := Option.ne_none_iff_exists'.mp hstart
      refine ⟨error, ?_⟩
      simp [runProcessors, hskip, henter, herror, hpassed error herror]

/-- **Processors that all let the run go on** hand on how the block inside them ends. -/
theorem runProcessors_reached
    (hhands : ∀ manager, Processor.plugin manager ∈ processors → manager.HandsOn)
    (hgoes : ∀ processor ∈ processors, processor.goesOn commit = true) (request : Option ℕ)
    (block : Block (RunState Database) RunError) (s : RunState Database) :
    ∃ t, SameRecord s t ∧
      HandedOn commit (block t) (runProcessors request commit processors block s) := by
  induction processors generalizing s with
  | nil => exact ⟨s, .refl s, .refl _⟩
  | cons processor rest ih =>
    simp only [List.mem_cons, forall_eq_or_imp] at hgoes
    obtain ⟨t, hsame, hon, -⟩ := runProcessors_cons request block rest
      (fun manager heq => hhands manager (heq ▸ List.mem_cons_self)) s
    obtain ⟨u, hsame', hhanded⟩ :=
      ih (fun manager hmem => hhands manager (List.mem_cons_of_mem _ hmem)) hgoes.2 t
    exact ⟨u, hsame.trans hsame', hhanded.trans (hon hgoes.1)⟩

/-- **A processor that ends the run** ends it with what it raised. -/
theorem runProcessors_not_reached
    (hhands : ∀ manager, Processor.plugin manager ∈ processors → manager.HandsOn)
    (hstops : ∃ processor ∈ processors, processor.goesOn commit = false)
    (request : Option ℕ) (block : Block (RunState Database) RunError) (s : RunState Database) :
    ∃ t error, SameRecord s t ∧
      HandedOn commit (t, some error) (runProcessors request commit processors block s) := by
  induction processors generalizing s with
  | nil => simp at hstops
  | cons processor rest ih =>
    simp only [List.mem_cons, exists_eq_or_imp] at hstops
    obtain ⟨t, hsame, hon, hstopped⟩ := runProcessors_cons request block rest
      (fun manager heq => hhands manager (heq ▸ List.mem_cons_self)) s
    by_cases hgoes : processor.goesOn commit = true
    · obtain ⟨u, error, hsame', hhanded⟩ :=
        ih (fun manager hmem => hhands manager (List.mem_cons_of_mem _ hmem))
          (by simpa [hgoes] using hstops) t
      exact ⟨u, error, hsame.trans hsame', hhanded.trans (hon hgoes)⟩
    · obtain ⟨error, hended⟩ := hstopped (by simpa using hgoes)
      exact ⟨t, error, hsame, hended ▸ .refl _⟩

/-- A run that is stopped on its way to the body has changed nothing, and ends with an
exception. -/
structure Stopped (before : RunState Database) (ended : RunState Database × Option RunError) :
    Prop where
  databases : ended.1.databases = before.databases
  delivered : ended.1.delivered = before.delivered
  calls : ended.1.script.calls = before.script.calls
  raised : ended.2 ≠ none

theorem Stopped.of_error {error : RunError} (h : SameRecord s t) : Stopped s (t, some error) :=
  ⟨h.databases, h.delivered, congrArg ScriptInstance.calls h.script, by simp⟩

theorem Stopped.handedOn (h : Stopped s inner) (hhanded : HandedOn commit inner outer) :
    Stopped s outer := by
  obtain ⟨error, herror⟩ := Option.ne_none_iff_exists'.mp h.raised
  obtain ⟨hraised, hdelivered⟩ := hhanded.raised error herror
  exact ⟨hhanded.databases.trans h.databases, hdelivered.trans h.delivered,
    (congrArg ScriptInstance.calls hhanded.script).trans h.calls, by simp [hraised]⟩

theorem Stopped.of_same (h : Stopped t inner) (hsame : SameRecord s t) : Stopped s inner :=
  ⟨h.databases.trans hsame.databases, h.delivered.trans hsame.delivered,
    h.calls.trans (congrArg ScriptInstance.calls hsame.script), h.raised⟩

/-- A run that cannot be prepared is stopped. -/
theorem execute_stopped {body : Body Database} {error : RunError}
    (h : (prepare site).2 = .error error) :
    Stopped s (executeScript site body commit request s) := by
  have hattempt : attemptScript site body commit s = (s.warned (prepare site).1, some error) :=
    attempt_of_not_prepared h
  cases hexception : error.isException with
  | false =>
    rw [execute_of_baseException (by rw [hattempt]) hexception, hattempt]
    exact ⟨by simp, by simp, by simp, by simp⟩
  | true =>
    cases hstr : site.str error with
    | error raised =>
      rw [execute_of_unformatted hattempt hexception hstr]
      exact ⟨by simp, by simp, by simp, by simp⟩
    | ok text =>
      obtain ⟨_, t, -, hended, hdatabases, hdelivered, hcalls, -⟩ :=
        execute_of_formatted request hattempt hexception hstr
      rw [hended]
      exact ⟨by simp [hdatabases], by simp [hdelivered], by simp [hcalls], by simp⟩

/-- The state in which another plugin's manager runs its block. -/
def PluginManager.entered (plugin : PluginManager) (s : RunState Database) : RunState Database :=
  { s with currentRequest := plugin.entering s.currentRequest }

theorem sameRecord_entered (plugin : PluginManager) (s : RunState Database) :
    SameRecord s (plugin.entered s) := ⟨rfl, rfl, rfl⟩

theorem enter_plugin {plugin : PluginManager} {start : Option RunError}
    (h : plugin.start = start) (s : RunState Database) :
    plugin.manager.enter s = (plugin.entered s, start) := by
  rw [← h]
  rfl

/-- The request context is put back when everything else is over. -/
theorem handedOn_runScript (site : Site) (body : Body Database) (commit : Bool)
    (request : Option ℕ) (s : RunState Database) : HandedOn commit
      (runProcessors request commit site.requestProcessors
        (Block.within site.deactivation.manager (executeScript site body commit request)) s)
      (runScript site body commit request s) :=
  ⟨rfl, rfl, fun _ h => ⟨h, rfl⟩, fun _ => ⟨rfl, rfl⟩⟩

/-- **The stack of a run**: the run comes to its body and what that ends with is handed on, or it
is stopped before. -/
theorem runScript_cases (body : Body Database) (commit : Bool) (request : Option ℕ)
    (hhands : site.HandsOn) (s : RunState Database) :
    (site.ReachesBody commit ∧ ∃ t, SameRecord s t ∧ HandedOn commit
      (executeScript site body commit request t) (runScript site body commit request s)) ∨
    (¬site.ReachesBody commit ∧ Stopped s (runScript site body commit request s)) := by
  have hfinally := handedOn_runScript site body commit request s
  by_cases hgoes : ∀ processor ∈ site.requestProcessors, processor.goesOn commit = true
  · obtain ⟨t, hsame, hprocessors⟩ := runProcessors_reached hhands.2 hgoes request
      (Block.within site.deactivation.manager (executeScript site body commit request)) s
    have hsame := hsame.trans (sameRecord_entered site.deactivation t)
    cases hstart : site.deactivation.start with
    | some error =>
      refine .inr ⟨fun hreaches => by simp [hreaches.2.1] at hstart, ?_⟩
      rw [Block.within_of_not_started _ (enter_plugin hstart t)] at hprocessors
      exact (Stopped.of_error hsame).handedOn (hprocessors.trans hfinally)
    | none =>
      rw [Block.within_of_started _ (enter_plugin hstart t)] at hprocessors
      have hhanded := (handedOn_plugin hhands.1 _).trans (hprocessors.trans hfinally)
      cases hprepared : (prepare site).2 with
      | ok key => exact .inl ⟨⟨hgoes, hstart, key, hprepared⟩, _, hsame, hhanded⟩
      | error error =>
        have hstopped := ((execute_stopped hprepared).of_same hsame).handedOn hhanded
        refine .inr ⟨fun hreaches => ?_, hstopped⟩
        obtain ⟨-, -, key, hkey⟩ := hreaches
        simp [hprepared] at hkey
  · refine .inr ⟨fun hreaches => hgoes hreaches.1, ?_⟩
    obtain ⟨t, error, hsame, hprocessors⟩ := runProcessors_not_reached hhands.2
      (by simpa using hgoes) request
      (Block.within site.deactivation.manager (executeScript site body commit request)) s
    exact (Stopped.of_error hsame).handedOn (hprocessors.trans hfinally)

/-! ## What a run leaves behind -/

variable {body : Body Database} {key : PyStr} {error : RunError} {output : PyStr}

/-- A run that did not come to its body is as promised, whatever the body would have done. -/
theorem Stopped.runsAsPromised {outer : RunState Database × Option RunError} (h : Stopped s outer)
    (hcontext : outer.1.currentRequest = s.currentRequest) :
    RunsAsPromised site body commit s outer.1 outer.2 where
  persisted hcalled := by simp [h.calls] at hcalled
  reverted _ := h.databases
  silent _ := h.delivered
  dryRun hcalled := by simp [h.calls] at hcalled
  reraised hcalled := by simp [h.calls] at hcalled
  context := hcontext

/-- A run that is committed and returns is as promised. -/
theorem runsAsPromised_of_committed (hprepared : (prepare site).2 = .ok key)
    (hends : body.ends = .ok output) (hsame : SameRecord s t)
    (hhanded : HandedOn true (executeScript site body true request t) outer)
    (hcontext : outer.1.currentRequest = s.currentRequest) :
    RunsAsPromised site body true s outer.1 outer.2 := by
  obtain ⟨u, hended, hdatabases, hcalls⟩ :=
    execute_of_committed request t hprepared hends
  rw [hended] at hhanded
  have hcalled : outer.1.script.calls = s.script.calls + 1 := by
    rw [hhanded.script, hcalls, hsame.script]
  have hdone : s.script.calls < outer.1.script.calls ∧ true = true ∧ body.Returns :=
    ⟨by omega, rfl, output, hends⟩
  refine ⟨fun _ _ _ => ⟨key, dbForWrite_of_prepare hprepared, ?_⟩, fun h => absurd hdone h,
    fun h => absurd hdone h, fun _ h => by simp at h, fun _ error herror => ?_, hcontext⟩
  · rw [hhanded.databases, hdatabases, written_congr hsame.databases]
  · simp [hends] at herror

/-- A run whose transactions were rolled back is as promised, when it ends with what it is to
raise and has logged it. -/
theorem runsAsPromised_of_reverted (hsame : SameRecord s t)
    (hhanded : HandedOn commit inner outer)
    (hcontext : outer.1.currentRequest = s.currentRequest)
    (hreverted : inner.1.databases = t.databases ∧ inner.1.delivered = t.delivered)
    (hundone : ¬(commit = true ∧ body.Returns)) (hends : commit = true → inner.2 ≠ none)
    (hdry : commit = false → body.Returns → inner.2 = none)
    (hlogged : ∀ error, body.ends = .error error → error.isException = true →
      inner.2 = some error ∧
        ∃ logged ∈ inner.1.script.messages.drop t.script.messages.length,
          logged.status = .failure) :
    RunsAsPromised site body commit s outer.1 outer.2 where
  persisted _ hcommit hreturns := absurd ⟨hcommit, hreturns⟩ hundone
  reverted _ := (hhanded.databases.trans hreverted.1).trans hsame.databases
  silent _ := by
    have hdelivered : outer.1.delivered = inner.1.delivered := by
      cases commit with
      | false => exact (hhanded.dryRun rfl).2
      | true =>
        obtain ⟨error, herror⟩ := Option.ne_none_iff_exists'.mp (hends rfl)
        exact (hhanded.raised error herror).2
    exact (hdelivered.trans hreverted.2).trans hsame.delivered
  dryRun _ hcommit hreturns := (hhanded.dryRun hcommit).1.trans (hdry hcommit hreturns)
  reraised _ error herror hexception := by
    obtain ⟨hraised, hlogged⟩ := hlogged error herror hexception
    rw [hhanded.script, ← hsame.script]
    exact ⟨(hhanded.raised error hraised).1, hlogged⟩
  context := hcontext

/-- A dry run that returns is as promised. -/
theorem runsAsPromised_of_dryRun (hprepared : (prepare site).2 = .ok key)
    (hends : body.ends = .ok output) (hsame : SameRecord s t)
    (hhanded : HandedOn false (executeScript site body false request t) outer)
    (hcontext : outer.1.currentRequest = s.currentRequest) :
    RunsAsPromised site body false s outer.1 outer.2 := by
  have hcall : ∀ s : RunState Database, (call body false key s).2 = some dryRunRollback :=
    fun s => by simp [call_of_ok hends]
  rw [execute_of_rollback hprepared hcall rfl] at hhanded
  refine runsAsPromised_of_reverted hsame hhanded hcontext ⟨?_, ?_⟩ (by simp) (by simp)
    (fun _ _ => rfl) fun error herror => ?_
  · rw [log_databases, rolledBack_databases hcall]
  · rw [log_delivered, rolledBack_delivered]
  · simp [hends] at herror

/-- A run whose body raises what is logged and raised again is as promised, and so is one whose
body raises what is no `Exception`. -/
theorem runsAsPromised_of_raised (hprepared : (prepare site).2 = .ok key)
    (hends : body.ends = .error error)
    (hreport : error.isException = true → site.Reportable error) (hsame : SameRecord s t)
    (hhanded : HandedOn commit (executeScript site body commit request t) outer)
    (hcontext : outer.1.currentRequest = s.currentRequest) :
    RunsAsPromised site body commit s outer.1 outer.2 := by
  have hcall : ∀ s : RunState Database, (call body commit key s).2 = some error :=
    fun s => by rw [call_of_error hends]
  have hreturns : ¬body.Returns := fun ⟨output, houtput⟩ => by simp [hends] at houtput
  cases hexception : error.isException with
  | false =>
    have hkind : error.kind ≠ .dryRunRollback := fun hkind => by
      simp [RunError.isException, hkind] at hexception
    have hattempt := attempt_of_body_raised commit t hprepared hends hkind
    rw [execute_of_baseException (by rw [hattempt]) hexception, hattempt] at hhanded
    refine runsAsPromised_of_reverted hsame hhanded hcontext
      ⟨rolledBack_databases hcall, rolledBack_delivered⟩ (fun h => hreturns h.2) (by simp)
      (fun _ h => absurd h hreturns) fun error' herror' hexception' => ?_
    obtain rfl : error = error' := by simpa [hends] using herror'
    simp [hexception] at hexception'
  | true =>
    obtain ⟨hkind, text, hstr⟩ := hreport hexception
    have hattempt := attempt_of_body_raised commit t hprepared hends hkind
    obtain ⟨logged, u, hfailure, hended, hdatabases, hdelivered, -, hmem⟩ :=
      execute_of_formatted request hattempt hexception hstr
    rw [hended] at hhanded
    refine runsAsPromised_of_reverted hsame hhanded hcontext
      ⟨hdatabases.trans (rolledBack_databases hcall), hdelivered.trans rolledBack_delivered⟩
      (fun h => hreturns h.2) (by simp) (fun _ h => absurd h hreturns)
      fun error' herror' _ => ?_
    obtain rfl : error = error' := by simpa [hends] using herror'
    refine ⟨rfl, logged, ?_, hfailure⟩
    obtain ⟨records, hrecords, -⟩ := rolledBack_messages site body commit key t
    rw [hrecords] at hmem
    exact (List.drop_sublist_drop_left _ (by simp)).subset hmem

/-- An `Exception` that is not reportable leaves no failure in the log. -/
theorem execute_of_not_reportable (commit : Bool) (request : Option ℕ) (t : RunState Database)
    (hprepared : (prepare site).2 = .ok key) (hends : body.ends = .error error)
    (hexception : error.isException = true) (hreport : ¬site.Reportable error) :
    (executeScript site body commit request t).1.script.calls = t.script.calls + 1 ∧
      ∃ records : List LogRecord,
        (executeScript site body commit request t).1.script.messages =
          t.script.messages ++ records ∧ ∀ logged ∈ records, logged.status ≠ .failure := by
  obtain ⟨records, hrecords, hnone⟩ := rolledBack_messages site body commit key t
  by_cases hkind : error.kind = .dryRunRollback
  · rw [execute_of_rollback hprepared (fun s => by rw [call_of_error hends]) hkind]
    refine ⟨by simp, records ++ [⟨.info, dryRunReverted⟩], ?_, ?_⟩
    · rw [log_messages _ (by simp [dryRunReverted, py]), hrecords, List.append_assoc]
    · simpa [or_imp, forall_and] using hnone
  · cases hstr : site.str error with
    | ok text => exact absurd ⟨hkind, text, hstr⟩ hreport
    | error raised =>
      rw [execute_of_unformatted (attempt_of_body_raised _ _ hprepared hends hkind) hexception hstr]
      exact ⟨rolledBack_calls, records, hrecords, hnone⟩

/-- **What a run promises**, under any site whose managers hand on how their blocks end: it keeps
its promise if and only if an `Exception` its body raises can be logged and is not the one it
reverts a dry run with. -/
theorem runsAsPromised_iff (site : Site) (hhands : site.HandsOn) (body : Body Database)
    (commit : Bool) (request : Option ℕ) (s : RunState Database) :
    RunsAsPromised site body commit s (runScript site body commit request s).1
        (runScript site body commit request s).2 ↔
      (site.ReachesBody commit → ∀ error, body.ends = .error error →
        error.isException = true → site.Reportable error) := by
  have hcontext : (runScript site body commit request s).1.currentRequest = s.currentRequest := rfl
  rcases runScript_cases body commit request hhands s with
    ⟨hreaches, t, hsame, hhanded⟩ | ⟨hreaches, hstopped⟩
  · obtain ⟨-, -, key, hprepared⟩ := id hreaches
    constructor
    · intro hpromised _ error hends hexception
      by_contra hreport
      obtain ⟨hcalls, records, hrecords, hnone⟩ :=
        execute_of_not_reportable commit request t hprepared hends hexception hreport
      rw [← hhanded.script, hsame.script] at hcalls hrecords
      obtain ⟨-, logged, hlogged, hfailure⟩ :=
        hpromised.reraised (by omega) error hends hexception
      rw [hrecords, List.drop_left] at hlogged
      exact hnone logged hlogged hfailure
    · intro hreport
      cases hends : body.ends with
      | error error =>
        exact runsAsPromised_of_raised hprepared hends (hreport hreaches error hends) hsame
          hhanded hcontext
      | ok output =>
        cases commit with
        | true => exact runsAsPromised_of_committed hprepared hends hsame hhanded hcontext
        | false => exact runsAsPromised_of_dryRun hprepared hends hsame hhanded hcontext
  · exact ⟨fun _ h => absurd h hreaches, fun _ => hstopped.runsAsPromised hcontext⟩

end Around

/-! ## A body whose exception has no text -/

/-- A context manager that starts and hands on how its block ends. -/
def plainManager : PluginManager where
  start := none
  entering := id
  leaving := id
  close := id

/-- What a `__str__` that returns no string raises. -/
def strReturnedNonString : RunError :=
  ⟨.exception, py "TypeError", py "__str__ returned non-string (type dict)"⟩

/-- A site with event tracking, a processor that cannot start and one that can, where one class of
exceptions has a `__str__` that returns a dictionary. -/
def sampleSite : Site where
  requestProcessors := [.eventTracking none none,
    .plugin { plainManager with start := some ⟨.exception, py "LookupError", py "gone"⟩ },
    .plugin plainManager]
  deactivation := plainManager
  probeUnusableReason := .ok none
  activeBranchName := .ok none
  dbForWrite := .ok (py "schema_branch")
  str error :=
    if error.className = py "RemoteError" then .error strReturnedNonString else .ok error.args
  formatExc _ := py "Traceback"

theorem sampleSite_handsOn : sampleSite.HandsOn := by
  refine ⟨fun _ => rfl, fun manager hmem => ?_⟩
  simp only [sampleSite, List.mem_cons, reduceCtorEq, Processor.plugin.injEq, List.not_mem_nil,
    or_false, false_or] at hmem
  rcases hmem with rfl | rfl <;> exact fun _ => rfl

/-- A body that writes to both databases, queues an event and then raises. -/
def raisingBody (error : RunError) : Body (List ℕ) where
  steps := [.write .default (· ++ [1]), .queueEvent (py "created"),
    .write .changelogged (· ++ [2])]
  ends := .error error

/-- The state before a run. -/
def idleState : RunState (List ℕ) where
  databases _ := [0]
  script := ⟨[], false, none, 0⟩
  queue := []
  delivered := []
  currentRequest := some 1

/-- **A broken text**: the exception of the body is replaced by what formatting it raises, and
nothing of it is logged. -/
theorem not_runsAsPromised_of_broken_str : sampleSite.HandsOn ∧
    ¬RunsAsPromised sampleSite (raisingBody ⟨.exception, py "RemoteError", py "refused"⟩) true
      idleState
      (runScript sampleSite (raisingBody ⟨.exception, py "RemoteError", py "refused"⟩) true
        (some 7) idleState).1
      (runScript sampleSite (raisingBody ⟨.exception, py "RemoteError", py "refused"⟩) true
        (some 7) idleState).2 := by
  refine ⟨sampleSite_handsOn, fun hpromised => ?_⟩
  have hraised : (runScript sampleSite (raisingBody ⟨.exception, py "RemoteError", py "refused"⟩)
      true (some 7) idleState).2 = some strReturnedNonString := by decide
  have hreraised := (hpromised.reraised (by decide) _ rfl rfl).1
  rw [hraised] at hreraised
  exact absurd hreraised (by decide)

theorem runsAsPromised_of_abort :
    RunsAsPromised sampleSite (raisingBody ⟨.abort, py "AbortScript", py "stop"⟩) true idleState
      (runScript sampleSite (raisingBody ⟨.abort, py "AbortScript", py "stop"⟩) true (some 7)
        idleState).1
      (runScript sampleSite (raisingBody ⟨.abort, py "AbortScript", py "stop"⟩) true (some 7)
        idleState).2 := by
  refine (runsAsPromised_iff sampleSite sampleSite_handsOn _ true (some 7) idleState).mpr
    fun _ error herror _ => ?_
  obtain rfl : (⟨.abort, py "AbortScript", py "stop"⟩ : RunError) = error := by
    simpa [raisingBody] using herror
  exact ⟨by decide, py "stop", by decide⟩

end NetBoxScripts
