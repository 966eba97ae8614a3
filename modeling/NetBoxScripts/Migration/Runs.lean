import NetBoxScripts.Concurrency.Pool
import NetBoxScripts.Migration.References
import NetBoxScripts.Python.JsonText

/-!
# Migrations in any order

Every pass, the submission of Jobs and the workers, interleaved at every statement, each dying
at any of them.

## Main results

* `migration_keeps_records`: no pass loses what another one recorded, the state moves one step
  at a time, and a closed run has every step
* `recreated_once`: a schedule is recreated once at most, and only where its Job never started
-/

namespace NetBoxScripts

open Migration

/-- What a thread can be started for. A pass gets whatever instance its caller has. -/
inductive MigrationOp
  | stage
  | enterCutover (stale : Option RunInstance) (acceptConcurrentWorkers : Bool)
  | activateStaged (stale : Option RunInstance)
  | repointEventRules (stale : Option RunInstance)
  | repointPermissions (stale : Option RunInstance)
  | repointJobHistory (stale : Option RunInstance)
  | recreateSchedules (stale : Option RunInstance)
  | retireLegacy (stale : Option RunInstance)
  | submit
  | queueTask (job : Id)
  | work (job : Id)

/-- The program of each operation. -/
def MigrationOp.body : MigrationOp → Pass Unit
  | .stage => Migration.stage
  | .enterCutover stale accept => Migration.enterCutover stale accept
  | .activateStaged stale => Migration.activateStaged stale
  | .repointEventRules stale => Migration.repointEventRules stale
  | .repointPermissions stale => Migration.repointPermissions stale
  | .repointJobHistory stale => Migration.repointJobHistory stale
  | .recreateSchedules stale => Migration.recreateSchedules stale
  | .retireLegacy stale => Migration.retireLegacy stale
  | .submit => Migration.submit
  | .queueTask job => Migration.queueTask job
  | .work job => Migration.work job

/-- A thread that dies: its session's lock is released, and its task is not run. -/
def MigrationWorld.reap (t : ThreadId) (w : MigrationWorld) : MigrationWorld :=
  { w with
    lock := if (w.lock.map Prod.fst) = some t then none else w.lock
    taken := fun job => (w.taken job).filter (· ≠ t) }

/-- The system. -/
def migrationSystem : System MigrationWorld Answer MigrationError MigrationOp where
  body := MigrationOp.body
  reap := MigrationWorld.reap
  tick w := { w with now := w.now + 1 }

/-- Nobody migrated yet: there is no run, no lock and no recreated Job. -/
structure MigrationWorld.Fresh (w : MigrationWorld) : Prop where
  runs : ∀ pk, w.runs.row pk = none
  lock : w.lock = none
  jobs : ∀ v job, w.jobs.row v = some job → job.replaces = none

/-- A migration under way, whichever of its operations do what. -/
abbrev MigrationPool := Pool MigrationWorld Answer MigrationError MigrationOp

/-- Runs of the system. -/
abbrev MigrationRuns : MigrationPool → MigrationPool → Prop :=
  Run migrationSystem fun _ _ => True

theorem MigrationWorld.Fresh.inv {w : MigrationWorld} (h : w.Fresh) : w.Inv := by
  have hnone : ∀ {pk row}, w.runs.row pk = some row → False := by
    intro pk row hrow
    rw [h.runs pk] at hrow
    cases hrow
  refine ⟨fun i j a b ha => (hnone ha).elim, fun pk row hrow => (hnone hrow).elim,
    fun pk row hrow => (hnone hrow).elim, fun pk row hrow => (hnone hrow).elim,
    fun i j a b hij ha => (hnone ha).elim, fun pk row k v hrow => (hnone hrow).elim,
    fun v job j hjob hreplaced => ?_⟩
  rw [h.jobs v job hjob] at hreplaced
  cases hreplaced

/-- A death is a change. -/
theorem reapChange (t : ThreadId) (w : MigrationWorld) : MigrationChange t w (w.reap t) := by
  have hjobs : MigrationChange t w { w with
      taken := fun job => (w.taken job).filter (· ≠ t) } := by
    refine jobsChange rfl rfl (fun _ job hjob => ⟨job, hjob, .refl job⟩) (fun j hj => ?_)
      (fun _ job _ hjob hreplaced => ⟨job, hjob, hreplaced⟩) fun j u hne hu => ?_
    · obtain ⟨job, hjob, hfailed, hnone, htaken⟩ := hj
      refine ⟨job, hjob, hfailed, hnone, ?_⟩
      show (w.taken j).filter (· ≠ t) = []
      rw [htaken]
      rfl
    · exact List.mem_filter.mpr ⟨hu, by simpa using hne⟩
  unfold MigrationWorld.reap
  split_ifs with hlock
  · obtain ⟨⟨u, n⟩, heq, rfl⟩ := Option.map_eq_some_iff.mp hlock
    refine ⟨fun hinv => ?_, .inr ⟨.inr ⟨n, heq⟩, .inl rfl⟩, .inl rfl, hjobs.rows, hjobs.jobs,
      hjobs.dead, hjobs.taken⟩
    have hkept := hjobs.inv hinv
    exact ⟨hkept.one_open, hkept.steps, hkept.entries, hkept.resolved, hkept.exclusive,
      hkept.recreated, hkept.replaced⟩
  · exact hjobs

/-- Time is a change. -/
theorem tickChange (t : ThreadId) (w : MigrationWorld) :
    MigrationChange t w { w with now := w.now + 1 } :=
  jobsChange rfl rfl (fun _ job hjob => ⟨job, hjob, .refl job⟩) (fun _ h => h)
    (fun _ job _ hjob hreplaced => ⟨job, hjob, hreplaced⟩) fun _ _ _ h => h

/-- **Every operation keeps the invariant**, whatever the others do. -/
theorem migrationSystem_verified :
    migrationSystem.Verified MigrationChange (fun _ => MigrationChange)
      fun t w => w.Inv ∧ ¬ w.HeldBy t where
  body op t w hw := by
    refine wp_mono (fun _ _ _ => trivial) (?_ : Keeps t op.body (Returns fun _ _ => True) w)
    cases op with
    | stage => exact wp_stage hw.1 hw.2
    | enterCutover stale accept => exact wp_enterCutover hw.1 hw.2
    | activateStaged stale => exact wp_activateStaged hw.1 hw.2
    | repointEventRules stale => exact wp_repointEventRules hw.1 hw.2
    | repointPermissions stale => exact wp_repointPermissions hw.1 hw.2
    | repointJobHistory stale => exact wp_repointJobHistory hw.1 hw.2
    | recreateSchedules stale => exact wp_recreateSchedules hw.1 hw.2
    | retireLegacy stale => exact wp_retireLegacy hw.1 hw.2
    | submit => exact wp_submit
    | queueTask job => exact wp_queueTask
    | work job => exact wp_work
  fresh_stable _ := free_stable
  guar_change h := h
  reap := reapChange
  tick := tickChange

section Pools

variable {w₀ : MigrationWorld} {next : ThreadId} {pool pool' : MigrationPool}

theorem MigrationWorld.Fresh.sound (h : w₀.Fresh) :
    Sound MigrationChange (fun _ => MigrationChange) (fun t w => w.Inv ∧ ¬ w.HeldBy t)
      (Pool.start w₀ next : MigrationPool) := by
  refine .start fun t _ => ⟨h.inv, ?_⟩
  rintro ⟨n, hheld⟩
  rw [h.lock] at hheld
  cases hheld

/-- The invariant holds of every state that is reached. -/
theorem inv_of_run (hstart : w₀.Fresh) (hrun : MigrationRuns (Pool.start w₀ next) pool) :
    pool.world.Inv :=
  migrationSystem_verified.run_invariant (fun _ _ _ hchange => hchange.inv) hstart.sound
    hstart.inv hrun

/-- What every change keeps is still there after a run. -/
theorem Lasting.run {fact : MigrationWorld → Prop} (h : Lasting fact) (hstart : w₀.Fresh)
    (hrun : MigrationRuns (Pool.start w₀ next) pool) (hlater : MigrationRuns pool pool')
    (hfact : fact pool.world) : fact pool'.world :=
  migrationSystem_verified.run_invariant h
    (migrationSystem_verified.run_sound hstart.sound hrun) hfact hlater

/-- A row that holds all that a row held. -/
theorem lasting_kept (pk : Id) (row : MigrationRow) :
    Lasting fun w => ∃ row', w.runs.row pk = some row' ∧ row.Kept row' := by
  rintro u w w' hchange ⟨row₁, hrow₁, hkept⟩
  obtain ⟨row₂, hrow₂, rfl | hrecorded⟩ := hchange.rows pk row₁ hrow₁
  · exact ⟨row₂, hrow₂, hkept⟩
  · exact ⟨row₂, hrow₂, hkept.trans hrecorded.kept⟩

/-- The steps a closed run has recorded. -/
def closedSteps : List PyStr :=
  py "cutover" :: py "activate" :: requiredSteps ++ [py "cleanup"]

/-- **The passes keep what was recorded**, in any order, from any instance, and whichever of them
die: each write of a run is one of its methods' on the row as it is stored, no write loses a
journal key, a mapping entry, a step or a warning, the state moves one step at a time, and a
closed run has recorded every step. -/
theorem migration_keeps_records (hstart : w₀.Fresh)
    (hrun : MigrationRuns (Pool.start w₀ next) pool) :
    (∀ event pool', pool.step migrationSystem event = some pool' →
      ∀ pk row, pool.world.runs.row pk = some row →
        ∃ row', pool'.world.runs.row pk = some row' ∧ (row' = row ∨ Recorded row row') ∧
          (row'.state = row.state ∨ row.state.next? = some row'.state)) ∧
    (∀ pool', MigrationRuns pool pool' → ∀ pk row, pool.world.runs.row pk = some row →
      ∃ row', pool'.world.runs.row pk = some row' ∧ row.Kept row') ∧
    (∀ pk row, pool.world.runs.row pk = some row → row.state = .migrated →
      ∀ name ∈ closedSteps, row.journal.stepDone name = true) := by
  have hinv := inv_of_run hstart hrun
  refine ⟨fun event pool' hstep pk row hrow => ?_, fun pool' hlater pk row hrow => ?_,
    fun pk row hrow hclosed name hname => ?_⟩
  · have hsound := migrationSystem_verified.run_sound hstart.sound hrun
    have hevent := (migrationSystem_verified.step hsound hstep).1
    rcases hevent.world_change migrationSystem_verified with heq | ⟨t, hchange⟩
    · exact ⟨row, heq ▸ hrow, .inl rfl, .inl rfl⟩
    · obtain ⟨row', hrow', hwritten⟩ := hchange.rows pk row hrow
      refine ⟨row', hrow', hwritten, ?_⟩
      rcases hwritten with rfl | hrecorded
      · exact .inl rfl
      · exact hrecorded.state
  · exact (lasting_kept pk row).run hstart hrun hlater ⟨row, hrow, .refl row⟩
  · have hordered := hinv.steps pk row hrow
    simp only [closedSteps, List.cons_append, List.mem_cons, List.mem_append,
      List.mem_nil_iff, or_false] at hname
    rcases hname with rfl | rfl | hrequired | rfl
    · exact (hordered.cutover hclosed).2
    · exact (hordered.cutover hclosed).1
    · exact (hordered.closed hclosed).2 name hrequired
    · exact (hordered.closed hclosed).1

/-- The Job that a recreated one stands for is recorded, and dead. -/
theorem MigrationWorld.Inv.replaced_dead {w : MigrationWorld} (h : w.Inv) {v j : Id} {job : JobRow}
    (hjob : w.jobs.row v = some job) (hreplaced : job.replaces = some j) :
    ∃ pk row, w.runs.row pk = some row ∧ row.journal.recreated.get? (decimal j) = some v ∧
      w.Dead j ∧ ∃ e ∈ row.journal.schedules, e.jobPk = j := by
  obtain ⟨pk, row, hrow, hv⟩ := h.replaced v job j hjob hreplaced
  obtain ⟨e, he, hkey, hdead⟩ := h.recreated pk row _ v hrow hv
  obtain rfl := Json.decimal_injective hkey
  exact ⟨pk, row, hrow, hv, hdead, e, he, rfl⟩

/-- **A schedule is recreated once, and only where its Job never ran**: in every state that is
reached, the Job that a recreated one stands for has started at no time before, and no other one
stands for it. -/
theorem recreated_once (hstart : w₀.Fresh) (hrun : MigrationRuns (Pool.start w₀ next) pool)
    (hlater : MigrationRuns pool pool') {v j : Id} {job : JobRow}
    (hjob : pool'.world.jobs.row v = some job) (hreplaced : job.replaces = some j) :
    ¬ pool.world.Started j ∧ ¬ pool'.world.Started j ∧
      ∀ v' job', pool'.world.jobs.row v' = some job' → job'.replaces = some j → v' = v := by
  have hinv := inv_of_run hstart (hrun.trans hlater)
  obtain ⟨pk, row, hrow, hv, hdead, e, he, hej⟩ := hinv.replaced_dead hjob hreplaced
  refine ⟨fun hstarted => ?_, hdead.not_started, fun v' job' hjob' hreplaced' => ?_⟩
  · exact hdead.not_started ((lasting_started j).run hstart hrun hlater hstarted)
  · obtain ⟨pk', row', hrow', hv', -, f, hf, hfj⟩ := hinv.replaced_dead hjob' hreplaced'
    rcases eq_or_ne pk' pk with rfl | hpk
    · obtain rfl := Option.some.inj (hrow.symm.trans hrow')
      exact Option.some.inj (hv'.symm.trans hv)
    · have hboth := hinv.exclusive pk pk' row row' hpk.symm hrow hrow' e he f hf
        (hej.trans hfj.symm)
      exact absurd (hej ▸ hboth) hdead.not_started

end Pools

/-! ## A migration of one schedule -/

/-- A scheduled Job whose task is in the queue, and no migration yet. -/
def scheduledWorld : MigrationWorld where
  runs := Table.startingAt 0
  lock := none
  jobs := (Table.startingAt 0).insert ⟨.scheduled, none, true, none⟩
  queue _ := true
  taken _ := []
  now := 0

/-- Every question is answered yes, with some texts. -/
def agreeing (texts : List PyStr) : Answer := ⟨true, .null, texts, 0, fun _ => false, .completed⟩

/-- The instance as it was staged, which every later pass finds outdated. -/
def staleRun : RunInstance := ⟨0, ⟨.legacy, [], [], none, none⟩⟩

/-- Staging, the cutover up to what it reads of the Job, the rest of it, the activation, and the
recreation of the schedule. -/
def recreatedPool : MigrationPool :=
  let drive (t : ThreadId) (texts : List PyStr) (n : ℕ) (pool : MigrationPool) :=
    Pool.drive migrationSystem t (agreeing texts) n pool
  let pool := drive 0 [] 20 ((Pool.start scheduledWorld 0).spawn migrationSystem .stage)
  let pool := drive 1 [] 10 (pool.spawn migrationSystem (.enterCutover (some staleRun) false))
  let pool := drive 1 [] 60 (drive 1 [py "extras.script"] 1 pool)
  let pool := drive 2 [] 20 (pool.spawn migrationSystem (.activateStaged (some staleRun)))
  drive 3 [] 12 (pool.spawn migrationSystem (.recreateSchedules (some staleRun)))

theorem scheduledWorld_fresh : scheduledWorld.Fresh where
  runs _ := rfl
  lock := rfl
  jobs v job hjob := by
    rcases Table.row_insert_eq_some hjob with ⟨-, rfl⟩ | hold
    · rfl
    · cases hold

theorem recreatedPool_run : MigrationRuns (Pool.start scheduledWorld 0) recreatedPool :=
  run_drive _ _ _ <| run_spawn _ <| run_drive _ _ _ <| run_spawn _ <| run_drive _ _ _ <|
    run_drive _ _ _ <| run_drive _ _ _ <| run_spawn _ <| run_drive _ _ _ <| run_spawn _ .refl

theorem recreatedPool_job :
    recreatedPool.world.jobs.row 1 = some ⟨.pending, none, false, some 0⟩ := by
  decide +kernel

/-- The recreated Job is the only one that stands for the scheduled one, which never started. -/
theorem recreated_once_scheduled :
    ¬ scheduledWorld.Started 0 ∧ ¬ recreatedPool.world.Started 0 ∧
      ∀ v job, recreatedPool.world.jobs.row v = some job → job.replaces = some 0 → v = 1 :=
  recreated_once scheduledWorld_fresh .refl recreatedPool_run recreatedPool_job rfl

/-- The pool before the schedule is recreated. -/
def activatedPool : MigrationPool :=
  let drive (t : ThreadId) (texts : List PyStr) (n : ℕ) (pool : MigrationPool) :=
    Pool.drive migrationSystem t (agreeing texts) n pool
  let pool := drive 0 [] 20 ((Pool.start scheduledWorld 0).spawn migrationSystem .stage)
  let pool := drive 1 [] 10 (pool.spawn migrationSystem (.enterCutover (some staleRun) false))
  let pool := drive 1 [] 60 (drive 1 [py "extras.script"] 1 pool)
  drive 2 [] 20 (pool.spawn migrationSystem (.activateStaged (some staleRun)))

theorem activatedPool_run : MigrationRuns (Pool.start scheduledWorld 0) activatedPool :=
  run_drive _ _ _ <| run_spawn _ <| run_drive _ _ _ <| run_drive _ _ _ <| run_drive _ _ _ <|
    run_spawn _ <| run_drive _ _ _ <| run_spawn _ .refl

theorem recreatedPool_run_activatedPool : MigrationRuns activatedPool recreatedPool :=
  run_drive _ _ _ <| run_spawn _ .refl

/-- What the activation has recorded is there when the schedule has been recreated. -/
theorem migration_keeps_records_recreated :
    ∃ row row', activatedPool.world.runs.row 0 = some row ∧
      recreatedPool.world.runs.row 0 = some row' ∧ row.Kept row' := by
  have hstored : (activatedPool.world.runs.row 0).isSome = true := by decide +kernel
  obtain ⟨row, hrow⟩ := Option.isSome_iff_exists.mp hstored
  obtain ⟨row', hrow', hkept⟩ := (migration_keeps_records scheduledWorld_fresh
    activatedPool_run).2.1 recreatedPool recreatedPool_run_activatedPool 0 row hrow
  exact ⟨row, row', hrow, hrow', hkept⟩

end NetBoxScripts
