import NetBoxScripts.Migration.Cutover

/-!
# The passes after the cutover keep the invariant

`migration/references.py` and `migration/cleanup.py`, the staging job, and the Jobs that run
meanwhile. A schedule is recreated only where its Job is dead, with the record of it.

## Main results

* `Owns.recreateEntries`: the loop over the captured schedules
* `wp_recreateSchedules`, `wp_retireLegacy`, …: the passes
-/

namespace NetBoxScripts

open Migration

section Steps

variable {t : ThreadId} {n : ℕ} {run : RunInstance} {w : MigrationWorld}

/-- A guard, with what it allows. -/
theorem Owns.require (h : Owns t n run w) {allowed : Bool} {error : MigrationError} :
    Keeps t (Migration.require allowed error)
      (Returns fun _ w => Owns t n run w ∧ allowed = true) w :=
  wp_require fun hallowed => ⟨h, hallowed⟩

/-- **`require_staged`** -/
theorem Owns.requireStaged (h : Owns t n run w) :
    Keeps t (Migration.requireStaged run) (Returns fun _ w => Owns t n run w ∧
      run.row.journal.stepDone (py "cutover") = true) w := by
  refine h.require.bind fun _ w₁ h₁ => ?_
  exact wp_mono (fun r w' hr => by cases r with
    | error e => trivial
    | ok a => exact ⟨hr.1, h₁.2⟩) h₁.1.require

/-- **`_require_activated`** -/
theorem Owns.requireActivated (h : Owns t n run w) :
    Keeps t (Migration.requireActivated run) (Returns fun _ w => Owns t n run w ∧
      run.row.journal.stepDone (py "cutover") = true ∧
      run.row.journal.stepDone (py "activate") = true) w := by
  refine h.requireStaged.bind fun _ w₁ h₁ => ?_
  exact wp_mono (fun r w' hr => by cases r with
    | error e => trivial
    | ok a => exact ⟨hr.1, h₁.2, hr.2⟩) h₁.1.require

/-- **`_require_serving`** -/
theorem Owns.requireServing (h : Owns t n run w) :
    Keeps t (Migration.requireServing run) (Returns fun _ w => Owns t n run w ∧
      run.row.journal.stepDone (py "cutover") = true ∧
      run.row.journal.stepDone (py "activate") = true) w := by
  refine h.requireActivated.bind fun _ w₁ h₁ => ?_
  refine (h₁.1.ask (Lasting.const True).steady trivial).bind fun _ w₂ h₂ => ?_
  exact wp_mono (fun r w' hr => by cases r with
    | error e => trivial
    | ok a => exact ⟨hr.1, h₁.2⟩) h₂.1.require

/-- The end of a reference pass. -/
theorem Owns.finishStep (h : Owns t (n + 1) run w) {name : PyStr} {outstanding : Bool}
    (hactivate : run.row.journal.stepDone (py "activate") = true)
    (hname : name ≠ py "activate" ∧ name ≠ py "cutover") :
    Keeps t (Migration.finishStep run name outstanding) (Returns fun _ _ => True) w := by
  have htrue := Lasting.const True
  refine (h.ask htrue.steady trivial).bind fun messages w₁ h₁ => ?_
  refine (h₁.1.ask htrue.steady trivial).bind fun counts w₂ h₂ => ?_
  split_ifs
  · exact (h₂.1.recordWarnings htrue trivial).bind fun _ _ _ => trivial
  · exact (h₂.1.completeStep htrue trivial (fun _ => hactivate)
      (fun heq => absurd heq hname.1) fun heq => absurd heq hname.2).bind fun _ _ _ => trivial

/-- **`activate_staged`** -/
theorem wp_activateStaged {stale : Option RunInstance} (hinv : w.Inv) (hfree : ¬ w.HeldBy t) :
    Keeps t (activateStaged stale) (Returns fun _ _ => True) w := by
  have htrue := Lasting.const True
  refine wp_serialized hinv hfree fun run w₁ h₁ => ?_
  refine h₁.requireStaged.bind fun _ w₂ h₂ => ?_
  refine (h₂.1.ask htrue.steady trivial).bind fun counts w₃ h₃ => ?_
  exact (h₃.1.recordStep htrue trivial (fun hname => absurd hname (by decide)) (fun _ => h₂.2)
    fun hname => absurd hname (by decide)).bind fun _ _ _ => trivial

/-- **`repoint_event_rules`** -/
theorem wp_repointEventRules {stale : Option RunInstance} (hinv : w.Inv)
    (hfree : ¬ w.HeldBy t) :
    Keeps t (repointEventRules stale) (Returns fun _ _ => True) w := by
  refine wp_serialized hinv hfree fun run w₁ h₁ => ?_
  refine h₁.requireServing.bind fun _ w₂ h₂ => ?_
  split_ifs
  · trivial
  · refine (h₂.1.ask (Lasting.const True).steady trivial).bind fun outstanding w₃ h₃ => ?_
    exact h₃.1.finishStep h₂.2.2 (by decide)

/-- Each split permission is recorded, and nothing else of the journal changes. -/
theorem Owns.splitPermissions {permissions : List PyStr} (h : Owns t (n + 1) run w) :
    Keeps t (Migration.splitPermissions run permissions) (Returns fun run' w =>
      Owns t (n + 1) run' w ∧ run'.row.journal.steps = run.row.journal.steps) w := by
  induction permissions generalizing run w with
  | nil => exact ⟨h, rfl⟩
  | cons permission permissions ih =>
    have htrue := Lasting.const True
    have hname : py "split_permissions" ∈ Journal.mappingNames := by decide
    refine (h.ask htrue.steady trivial).bind fun sibling w₁ h₁ => ?_
    have hsteps : (run.row.recordMapping (py "split_permissions")
        [(permission, sibling)]).journal.steps = run.row.journal.steps :=
      steps_recordMapping hname
    refine Keeps.bind (h₁.1.mergeJournal htrue.steady trivial htrue trivial
      (.mapping _ [(permission, sibling)] hname) fun w' hw' _ _ hrow =>
        hw'.write_same hrow id ((hw'.steps _ _ hrow).congr rfl hsteps)
          (schedules_recordMapping hname) (mapping_recordMapping_of_ne (by decide))
          fun hdone => .inl ?_) fun run₂ w₂ h₂ => ?_
    · have hsame : (run.row.recordMapping (py "split_permissions")
          [(permission, sibling)]).journal.stepDone (py "cutover") =
            run.row.journal.stepDone (py "cutover") := by
        rw [Journal.stepDone, hsteps, Journal.stepDone]
      exact hsame.symm.trans hdone
    · obtain ⟨h₂, rfl, -⟩ := h₂
      refine wp_mono (fun r w' hr => ?_) (ih h₂)
      cases r with
      | error e => trivial
      | ok run' => exact ⟨hr.1, hr.2.trans hsteps⟩

/-- **`repoint_permissions`** -/
theorem wp_repointPermissions {stale : Option RunInstance} (hinv : w.Inv)
    (hfree : ¬ w.HeldBy t) :
    Keeps t (repointPermissions stale) (Returns fun _ _ => True) w := by
  refine wp_serialized hinv hfree fun run w₁ h₁ => ?_
  refine h₁.requireActivated.bind fun _ w₂ h₂ => ?_
  split_ifs
  · trivial
  · refine (h₂.1.ask (Lasting.const True).steady trivial).bind fun permissions w₃ h₃ => ?_
    refine h₃.1.splitPermissions.bind fun run₄ w₄ h₄ => ?_
    refine h₄.1.finishStep ?_ (by decide)
    rw [Journal.stepDone, h₄.2]
    exact h₂.2.2

/-- **`repoint_job_history`** -/
theorem wp_repointJobHistory {stale : Option RunInstance} (hinv : w.Inv)
    (hfree : ¬ w.HeldBy t) :
    Keeps t (repointJobHistory stale) (Returns fun _ _ => True) w := by
  have htrue := Lasting.const True
  refine wp_serialized hinv hfree fun run w₁ h₁ => ?_
  refine h₁.requireServing.bind fun _ w₂ h₂ => ?_
  split_ifs
  · trivial
  refine Keeps.bind (Q := fun _ w => Owns t 1 run w) ?_ fun _ w₃ h₃ => ?_
  · refine h₂.1.stmt htrue.steady trivial fun w' hown _ c r w'' heq => ?_
    cases heq
    have hlater : ∀ (i : ℕ) (job : JobRow),
        job.Later { job with builtin := job.builtin && !c.ids i } :=
      fun i job => ⟨id, id, id, rfl⟩
    have hchange : MigrationChange t w' { w' with jobs := w'.jobs.modifyAll fun i job =>
        { job with builtin := job.builtin && !c.ids i } } := by
      refine jobsChange rfl rfl (fun j job hjob => ?_) (fun j hj => ?_)
        (fun v job j hjob hreplaced => ?_) fun _ _ _ h => h
      · exact ⟨_, by rw [Table.row_modifyAll, hjob]; rfl, hlater j job⟩
      · obtain ⟨job, hjob, hfailed, hnone, htaken⟩ := hj
        refine ⟨{ job with builtin := job.builtin && !c.ids j }, ?_, hfailed, hnone, htaken⟩
        rw [Table.row_modifyAll, hjob]
        rfl
      · rw [Table.row_modifyAll, Option.map_eq_some_iff] at hjob
        obtain ⟨old, hold, rfl⟩ := hjob
        exact ⟨old, hold, hreplaced⟩
    exact ⟨hchange, ⟨hchange.inv hown.inv, hown.lock⟩, hown.row⟩
  · refine (h₃.ask htrue.steady trivial).bind fun outstanding w₄ h₄ => ?_
    exact h₄.1.finishStep h₂.2.2 (by decide)

end Steps

/-! ## Recreating -/

section Recreate

variable {t : ThreadId} {n : ℕ} {run : RunInstance} {w : MigrationWorld}

/-- **The gate**: a Job that did not change after its cancellation is dead. -/
theorem Owns.changedAfterCancellation (h : Owns t n run w) {entry : ScheduleEntry}
    (hentry : w.EntryOk entry) :
    Keeps t (Migration.changedAfterCancellation entry.jobPk) (Returns fun changed w =>
      Owns t n run w ∧ (changed = false → w.Dead entry.jobPk)) w := by
  refine h.stmt (lasting_entryOk entry).steady hentry fun w' hown hentry' c r w'' heq => ?_
  obtain ⟨-, job, hjob, -, -⟩ := hentry'
  split_ifs at heq with htaken
  rw [not_not] at htaken
  cases heq
  refine ⟨.refl t w', hown, fun hsame => ?_⟩
  rw [hjob, Option.any_some, decide_eq_false_iff_not, not_or, not_not, Bool.not_eq_true,
    Option.isSome_eq_false_iff, Option.isNone_iff_eq_none] at hsame
  exact ⟨job, hjob, hsame.1, hsame.2, htaken⟩

/-- **`_recreate`**: of a dead Job that is not recorded yet. -/
theorem Owns.recreate (h : Owns t n run w) {entry : ScheduleEntry}
    (hentry : entry ∈ run.row.journal.schedules) (hdead : w.Dead entry.jobPk)
    (hnew : run.row.journal.recreated.get? (decimal entry.jobPk) = none) :
    Keeps t (Migration.recreate run entry.jobPk) (Returns fun run' w => Owns t n run' w ∧
      ∃ v, run' = ⟨run.pk, run.row.recordRecreated entry.jobPk v⟩) w := by
  refine h.stmt (lasting_dead _).steady hdead fun w' hown hdead' c r w'' heq => ?_
  simp only [hown.row, Option.some.injEq, Prod.mk.injEq] at heq
  obtain ⟨rfl, rfl⟩ := heq
  have hinv := hown.inv.recreate hown.row hentry hdead' hnew
  refine ⟨⟨fun _ => hinv, .inl rfl, .inr hown.heldBy, fun pk row hrow => ?_, ?_, ?_,
    fun _ _ _ h => h⟩,
    ⟨⟨hinv, hown.lock⟩, ?_⟩, w'.jobs.next, rfl⟩
  · rcases eq_or_ne pk run.pk with rfl | hpk
    · obtain rfl := Option.some.inj (hown.row.symm.trans hrow)
      exact ⟨_, by rw [Table.row_modify_self, hown.row]; rfl,
        .inr (.mapping _ [(decimal entry.jobPk, w'.jobs.next)] recreated_mem_mappingNames)⟩
    · exact ⟨row, (Table.row_modify_of_ne hpk).trans hrow, .inl rfl⟩
  · exact later_insert w'.jobs _
  · rintro j ⟨job, hjob, hrest⟩
    exact ⟨job, Table.row_insert_of_row hjob, hrest⟩
  · rw [Table.row_modify_self, hown.row]
    rfl

/-- A run whose schedules are being recreated, and the keys that already are. -/
structure Recreating (run : RunInstance) (recreated : List PyStr)
    (entries : List ScheduleEntry) : Prop where
  captured : ∀ e ∈ entries, e ∈ run.row.journal.schedules
  resolved : ∀ e ∈ entries, e.resolved = true
  known : ∀ k, (run.row.journal.recreated.get? k).isSome = true → k ∈ recreated
  activated : run.row.journal.stepDone (py "activate") = true

theorem Recreating.tail {recreated : List PyStr} {entry : ScheduleEntry}
    {entries : List ScheduleEntry} (h : Recreating run recreated (entry :: entries)) :
    Recreating run recreated entries :=
  ⟨fun e he => h.captured e (List.mem_cons_of_mem _ he),
    fun e he => h.resolved e (List.mem_cons_of_mem _ he), h.known, h.activated⟩

/-- What is recreated is among the keys, and the rest is left. -/
theorem Recreating.recorded {recreated : List PyStr} {entries : List ScheduleEntry}
    (h : Recreating run recreated entries) (j v : Id) :
    Recreating ⟨run.pk, run.row.recordRecreated j v⟩ (decimal j :: recreated) entries where
  captured e he := by
    rw [schedules_recordMapping recreated_mem_mappingNames]
    exact h.captured e he
  resolved := h.resolved
  known k hk := by
    rw [List.mem_cons]
    refine or_iff_not_imp_left.mpr fun hne => h.known k ?_
    rwa [Journal.recreated, mapping_recordMapping_self, Dict.update_cons, Dict.update_nil,
      Dict.get?_set_of_ne hne] at hk
  activated := by
    rw [Journal.stepDone, steps_recordMapping recreated_mem_mappingNames]
    exact h.activated

/-- **An entry that may be replayed** is recreated where its Job is dead. -/
theorem Owns.replayEntry (h : Owns t n run w) {recreated : List PyStr} {entry : ScheduleEntry}
    {entries : List ScheduleEntry} (hrun : Recreating run recreated (entry :: entries))
    (hnew : decimal entry.jobPk ∉ recreated) (hcancelled : entry.cancellation = some .cancelled) :
    Keeps t (Migration.replayEntry run recreated entry) (Returns fun result w =>
      Owns t n result.1 w ∧ Recreating result.1 result.2 entries) w := by
  have hentry := hrun.captured entry (by simp)
  unfold Migration.replayEntry
  rw [if_pos hcancelled]
  refine (h.changedAfterCancellation (h.inv.entries _ _ h.row entry hentry)).bind
    fun changed w₁ h₁ => ?_
  have hdead : Lasting fun w : MigrationWorld => changed = false → w.Dead entry.jobPk :=
    Lasting.imp fun _ => lasting_dead _
  refine (h₁.1.ask hdead.steady h₁.2).bind fun replayable w₂ h₂ => ?_
  split_ifs with hkept
  · exact ⟨h₂.1, hrun.tail⟩
  · rw [not_or] at hkept
    have hnone : run.row.journal.recreated.get? (decimal entry.jobPk) = none := by
      by_contra hsome
      exact hnew (hrun.known _ (Option.isSome_iff_ne_none.mpr hsome))
    refine (h₂.1.recreate hentry (h₂.2 (by simpa using hkept.1)) hnone).bind fun run₃ w₃ h₃ => ?_
    obtain ⟨h₃, v, rfl⟩ := h₃
    exact ⟨h₃, hrun.tail.recorded _ v⟩

/-- **The loop** over the captured schedules. -/
theorem Owns.recreateEntries {recreated : List PyStr} {entries : List ScheduleEntry}
    (h : Owns t n run w) (hrun : Recreating run recreated entries) :
    Keeps t (Migration.recreateEntries run recreated entries) (Returns fun run' w =>
      Owns t n run' w ∧ run'.row.journal.stepDone (py "activate") = true) w := by
  induction entries generalizing run recreated w with
  | nil => exact ⟨h, hrun.activated⟩
  | cons entry entries ih =>
    refine Keeps.bind (Q := fun result w => Owns t n result.1 w ∧
      Recreating result.1 result.2 entries) ?_ fun result w₁ h₁ => ih h₁.1 h₁.2
    unfold Migration.recreateEntry
    split_ifs with hskipped
    · exact ⟨h, hrun.tail⟩
    · rw [not_or, not_or] at hskipped
      have hresolved := hrun.resolved entry (by simp)
      simp only [ScheduleEntry.resolved, decide_eq_true_eq] at hresolved
      exact h.replayEntry hrun hskipped.1
        (hresolved.resolve_right fun hran => hran.elim hskipped.2.1 hskipped.2.2)

/-- **`recreate_schedules`** -/
theorem wp_recreateSchedules {stale : Option RunInstance} (hinv : w.Inv)
    (hfree : ¬ w.HeldBy t) :
    Keeps t (recreateSchedules stale) (Returns fun _ _ => True) w := by
  refine wp_serialized hinv hfree fun run w₁ h₁ => ?_
  refine h₁.requireServing.bind fun _ w₂ h₂ => ?_
  obtain ⟨h₂, hcutover, hactivate⟩ := h₂
  split_ifs
  · trivial
  refine (h₂.recreateEntries ⟨fun _ he => he, h₂.inv.resolved _ _ h₂.row hcutover,
    fun k hk => ?_, hactivate⟩).bind fun run₃ w₃ h₃ => ?_
  · exact Dict.mem_keys_of_isSome hk
  · refine (h₃.1.ask (Lasting.const True).steady trivial).bind fun outstanding w₄ h₄ => ?_
    exact h₄.1.finishStep h₃.2 (by decide)

end Recreate

/-! ## Closing and opening a run -/

section Close

variable {t : ThreadId} {n : ℕ} {run : RunInstance} {w : MigrationWorld}

/-- A run that is closed with its last step, after the steps that it requires. -/
theorem MigrationRow.StepsOrdered.close {row advanced : MigrationRow} (h : row.StepsOrdered)
    (hjournal : advanced.journal = row.journal) {messages : List PyStr} {counts : Json}
    (hrequired : ∀ name ∈ requiredSteps, row.journal.stepDone name = true) :
    ((advanced.recordWarnings messages).recordStep (py "cleanup") counts).StepsOrdered := by
  have hold : ∀ name, row.journal.stepDone name = true →
      ((advanced.recordWarnings messages).recordStep (py "cleanup") counts).journal.stepDone
        name = true := by
    intro name hdone
    refine stepDone_recordStep ?_
    show advanced.journal.stepDone name = true
    rwa [hjournal]
  have hactivated := h.activated (py "repoint_event_rules") (by decide) (hrequired _ (by decide))
  exact ⟨fun _ _ _ => hold _ hactivated, fun _ => hold _ (h.crossed hactivated),
    fun _ => ⟨stepDone_recordStep_self, fun name hname => hold name (hrequired name hname)⟩⟩

/-- **The transaction that closes the run**. -/
theorem Owns.closeRun (h : Owns t n run w) {messages : List PyStr} {counts : Json}
    (hrequired : ∀ name ∈ requiredSteps, run.row.journal.stepDone name = true) :
    Keeps t (Migration.closeRun run messages counts) (Returns fun _ _ => True) w := by
  refine h.stmt (Lasting.const True).steady trivial fun w' hown _ c r w'' heq => ?_
  simp only [hown.row] at heq
  cases hadvance : run.row.advance .migrated w'.now with
  | none =>
    simp only [hadvance] at heq
    cases heq
    exact ⟨.refl t w', trivial⟩
  | some advanced =>
    simp only [hadvance] at heq
    obtain ⟨-, hstate, hjournal, hwarnings⟩ := advance_eq_some hadvance
    have hrow : ({ run.row with
        state := advanced.state
        cutoverStarted := advanced.cutoverStarted
        completed := advanced.completed } : MigrationRow) = advanced := by
      show MigrationRow.mk _ run.row.journal run.row.warnings _ _ = advanced
      rw [← hjournal, ← hwarnings]
    rw [hrow] at heq
    cases heq
    have hordered : ((advanced.recordWarnings (run.row.warnings ++ messages)).recordStep
        (py "cleanup") counts).StepsOrdered :=
      (hown.inv.steps _ _ hown.row).close hjournal hrequired
    refine ⟨hown.write (.close _ counts hadvance) (hown.inv.write_same hown.row
      (fun _ => hstate) hordered ?_ ?_ fun hdone => .inl ?_), trivial⟩
    · rw [schedules_recordStep]
      exact congrArg Journal.schedules hjournal
    · exact (mapping_recordStep recreated_mem_mappingNames).trans
        (congrArg Journal.recreated hjournal)
    · rw [stepDone_recordStep_of_ne (by decide)] at hdone
      have hsame : advanced.journal.stepDone (py "cutover") = true := hdone
      rwa [hjournal] at hsame

/-- **`retire_legacy`** -/
theorem wp_retireLegacy {stale : Option RunInstance} (hinv : w.Inv) (hfree : ¬ w.HeldBy t) :
    Keeps t (retireLegacy stale) (Returns fun _ _ => True) w := by
  have htrue := Lasting.const True
  refine wp_serialized hinv hfree fun run w₁ h₁ => ?_
  split_ifs
  · trivial
  refine h₁.requireStaged.bind fun _ w₂ h₂ => ?_
  refine h₂.1.require.bind fun _ w₃ h₃ => ?_
  refine (h₃.1.ask htrue.steady trivial).bind fun blocked w₄ h₄ => ?_
  refine (h₄.1.ask htrue.steady trivial).bind fun messages w₅ h₅ => ?_
  refine (h₅.1.ask htrue.steady trivial).bind fun counts w₆ h₆ => ?_
  split_ifs
  · exact (h₆.1.recordWarnings htrue trivial).bind fun _ _ _ => trivial
  · exact h₆.1.closeRun (List.all_eq_true.mp h₃.2)

theorem current_row {run : RunInstance} (h : w.current = some run) :
    w.runs.row run.pk = some run.row := by
  obtain ⟨⟨pk, row⟩, hfind, rfl⟩ := Option.map_eq_some_iff.mp h
  exact Table.mem_entries.mp (List.mem_reverse.mp (List.mem_of_find?_eq_some hfind))

theorem closed_of_current (h : w.current = none) {i : Id} {row : MigrationRow}
    (hrow : w.runs.row i = some row) : row.state = .migrated := by
  have hnone := Option.map_eq_none_iff.mp h
  rw [List.find?_eq_none] at hnone
  simpa using hnone (i, row) (List.mem_reverse.mpr (Table.mem_entries.mpr hrow))

/-- An answer from outside, before there is a run. -/
theorem Holds.ask {α : Type} (h : Holds t n w) {read : Answer → α} :
    Keeps t (Migration.ask read) (Returns fun _ w => Holds t n w) w := by
  refine h.stmt (Lasting.const True).steady trivial fun w' hheld _ c r w'' heq => ?_
  cases heq
  exact ⟨.refl t w', hheld⟩

/-- A read, before there is a run. -/
theorem Holds.query {α : Type} (h : Holds t n w) {read : MigrationWorld → α}
    {post : Except MigrationError α → MigrationWorld → Prop}
    (hpost : ∀ w', Holds t n w' → post (.ok (read w')) w') : Keeps t (.query read) post w := by
  refine h.stmt (Lasting.const True).steady trivial fun w' hheld _ c r w'' heq => ?_
  cases heq
  exact ⟨.refl t w', hpost w' hheld⟩

/-- **`start`**: only while no run is open. -/
theorem Holds.start (h : Holds t n w) :
    Keeps t Migration.start (Returns (Owns t n)) w := by
  refine h.stmt (Lasting.const True).steady trivial fun w' hheld _ c r w'' heq => ?_
  cases hcurrent : w'.current with
  | some run =>
    simp only [hcurrent] at heq
    cases heq
    exact ⟨.refl t w', trivial⟩
  | none =>
    simp only [hcurrent] at heq
    cases heq
    have hinv := hheld.inv.start fun i row => closed_of_current hcurrent
    refine ⟨⟨fun _ => hinv, .inl rfl, .inr hheld.heldBy, fun pk row hrow => ?_, ?_, fun _ h => h,
      fun _ _ _ h => h⟩, ⟨hinv, hheld.lock⟩, ?_⟩
    · exact ⟨row, Table.row_insert_of_row hrow, .inl rfl⟩
    · exact fun j job hjob => ⟨job, hjob, .refl job⟩
    · exact Table.row_insert_next

/-- **`MigrationStagingJob.run`** -/
theorem wp_stage (hinv : w.Inv) (hfree : ¬ w.HeldBy t) :
    Keeps t stage (Returns fun _ _ => True) w := by
  refine wp_migrationLock hinv hfree fun w₁ h₁ => ?_
  refine h₁.ask.bind fun _ w₂ h₂ => ?_
  refine Keeps.bind (Q := fun _ => Holds t 1) (wp_require fun _ => h₂) fun _ w₃ h₃ => ?_
  rw [keeps_bind]
  refine h₃.query fun w₄ h₄ => ?_
  refine Keeps.bind (Q := fun _ => Holds t 1) (wp_require fun _ => h₄) fun _ w₅ h₅ => ?_
  refine Keeps.bind (Q := fun _ => Holds t 1) (wp_require fun _ => h₅) fun _ w₆ h₆ => ?_
  refine h₆.ask.bind fun _ w₇ h₇ => ?_
  refine Keeps.bind (Q := fun _ => Holds t 1) (wp_require fun _ => h₇) fun _ w₈ h₈ => ?_
  have hcurrent : Keeps t (migrationLock currentOrStart) (Returns fun run w => Holds t 1 w ∧
      w.runs.row run.pk = some run.row) w₈ := by
    refine h₈.migrationLock (Lasting.const True).steady trivial
      (fun run => steady_runs fun runs => runs.row run.pk = some run.row) fun w₉ h₉ _ => ?_
    unfold currentOrStart
    rw [keeps_bind]
    refine h₉.query fun w₁₀ h₁₀ => ?_
    rw [andThen_ok]
    cases hcurrent : w₁₀.current with
    | some run => exact ⟨h₁₀, current_row hcurrent⟩
    | none =>
      refine wp_mono (fun r w' hr => ?_) h₁₀.start
      cases r with
      | error e => trivial
      | ok run => exact ⟨hr.toHolds, hr.row⟩
  refine hcurrent.bind fun run w₁₁ h₁₁ => ?_
  have hown : Owns t 1 run w₁₁ := ⟨h₁₁.1, h₁₁.2⟩
  refine Keeps.bind (Q := fun _ _ => True) (Keeps.updateIf ?_ trivial) fun _ _ _ => trivial
  refine wp_mono (fun r w' _ => ?_) (hown.advance (Lasting.const True) trivial (by decide))
  cases r <;> trivial

end Close

/-! ## Jobs -/

section Jobs

variable {t : ThreadId} {w : MigrationWorld} {job : Id}

/-- **A Job is submitted**. -/
theorem wp_submit : Keeps t submit (Returns fun _ _ => True) w := by
  refine Keeps.bind (Q := fun _ _ => True) (wp_stmt (Stable.const True) trivial
    fun w' _ c r w'' heq => ?_) fun j w₁ _ => ?_
  · cases heq
    refine ⟨jobsChange rfl rfl (later_insert w'.jobs _) (fun j hj => ?_)
      (fun v row j hrow hreplaced => ?_) fun _ _ _ h => h, trivial⟩
    · obtain ⟨row, hrow, hrest⟩ := hj
      exact ⟨row, Table.row_insert_of_row hrow, hrest⟩
    · rcases Table.row_insert_eq_some hrow with ⟨-, rfl⟩ | hold
      · cases hreplaced
      · exact ⟨row, hold, hreplaced⟩
  · refine wp_stmt (Stable.const True) trivial fun w' _ c r w'' heq => ?_
    cases heq
    exact ⟨queueChange, trivial⟩

theorem wp_queueTask : Keeps t (queueTask job) (Returns fun _ _ => True) w := by
  refine wp_stmt (Stable.const True) trivial fun w' _ c r w'' heq => ?_
  cases heq
  exact ⟨queueChange, trivial⟩

/-- A task that is taken is of a Job that waits. -/
theorem wp_dequeue :
    Keeps t (dequeue job) (Returns fun _ w => t ∈ w.taken job) w := by
  refine wp_stmt (Stable.const True) trivial fun w' _ c r w'' heq => ?_
  split_ifs at heq with hwaits
  cases heq
  rw [Bool.and_eq_true] at hwaits
  refine ⟨jobsChange rfl rfl (fun _ row hrow => ⟨row, hrow, .refl row⟩) (fun j hj => ?_)
    (fun _ row _ hrow hreplaced => ⟨row, hrow, hreplaced⟩) fun j u _ hu => ?_, by simp⟩
  · obtain ⟨row, hrow, hfailed, hnone, htaken⟩ := hj
    refine ⟨row, hrow, hfailed, hnone, ?_⟩
    have hne : j ≠ job := by
      rintro rfl
      simp [hrow, hfailed, JobStatus.cancellable] at hwaits
    exact (Function.update_of_ne hne _ _).trans htaken
  · rcases eq_or_ne j job with rfl | hne
    · simp [hu]
    · simpa [hne] using hu

/-- **A Job is started** only by a worker that has taken its task. -/
theorem wp_startJob (htaken : t ∈ w.taken job) :
    Keeps t (startJob job) (Returns fun _ _ => True) w := by
  have hstable : Stable MigrationChange t fun w => t ∈ w.taken job :=
    fun u w w' hne hchange hmem => hchange.taken job t hne.symm hmem
  refine wp_stmt hstable htaken fun w' hw' c r w'' heq => ?_
  cases heq
  refine ⟨jobChange rfl rfl rfl (fun row _ => ?_) (fun i hi => ?_) fun j u hne hu => ?_, trivial⟩
  · split_ifs
    · exact .refl row
    · exact ⟨fun _ => rfl, fun _ => JobRow.spent_of_started rfl,
        fun _ => JobRow.known_of_started rfl, rfl⟩
  · have hne : i ≠ job := by
      rintro rfl
      obtain ⟨-, -, -, -, hempty⟩ := hi
      rw [hempty] at hw'
      cases hw'
    obtain ⟨-, -, -, -, hempty⟩ := id hi
    exact hi.modify rfl (fun heq => absurd heq hne)
      ((Function.update_of_ne hne _ _).trans hempty)
  · rcases eq_or_ne j job with rfl | hj
    · simp [hu, hne]
    · simpa [hj] using hu

theorem wp_finishJob : Keeps t (finishJob job) (Returns fun _ _ => True) w := by
  refine wp_stmt (Stable.const True) trivial fun w' _ c r w'' heq => ?_
  cases heq
  refine ⟨jobChange rfl rfl rfl (fun row _ => ?_) (fun i hi => ?_) fun _ _ _ h => h, trivial⟩
  · split_ifs with hends
    · refine ⟨id, fun _ _ => hends.2, fun hknown hnone => ?_, rfl⟩
      rcases hknown hnone with hwaits | hfailed
      · rw [hends.1] at hwaits
        exact absurd hwaits (by decide)
      · exact absurd (hends.1.symm.trans hfailed) (by decide)
    · exact .refl row
  · obtain ⟨row, hrow, hfailed, -, hempty⟩ := id hi
    refine hi.modify rfl (fun heq old hold => ?_) hempty
    obtain rfl := Option.some.inj (hold.symm.trans (heq ▸ hrow))
    exact if_neg fun hends => absurd (hends.1.symm.trans hfailed) (by decide)

/-- **A worker runs a Job**. -/
theorem wp_work : Keeps t (work job) (Returns fun _ _ => True) w := by
  refine wp_dequeue.bind fun _ w₁ h₁ => ?_
  exact (wp_startJob h₁).bind fun _ w₂ _ => wp_finishJob

end Jobs

end NetBoxScripts
