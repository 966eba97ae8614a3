import NetBoxScripts.Migration.Verified

/-!
# The cutover keeps the invariant

`migration/cutover.py`: capturing the waiting Jobs, cancelling each of them, and the record of
the step. A captured entry always agrees with its Job, and each is settled before the step is
recorded.

## Main results

* `Owns.capture`: each captured Job waits, and is in no other run's schedules unless started
* `Owns.cancelSchedules`: every entry is settled, and a cancelled one's Job cannot start
* `wp_enterCutover`: the pass
-/

namespace NetBoxScripts

open Migration

section Jobs

variable {t : ThreadId} {w w' : MigrationWorld} {j : Id}

/-- A change of the Jobs and their queue alone. -/
theorem jobsChange (hruns : w'.runs = w.runs) (hlock : w'.lock = w.lock)
    (hjobs : ∀ j job, w.jobs.row j = some job → ∃ job', w'.jobs.row j = some job' ∧ job.Later job')
    (hdead : ∀ j, w.Dead j → w'.Dead j)
    (hreplaces : ∀ v job j, w'.jobs.row v = some job → job.replaces = some j →
      ∃ job', w.jobs.row v = some job' ∧ job'.replaces = some j)
    (htaken : ∀ j u, u ≠ t → u ∈ w.taken j → u ∈ w'.taken j) : MigrationChange t w w' where
  inv h := h.jobs hruns hjobs hdead hreplaces
  lock := .inl hlock
  runs := .inl hruns
  rows _ row hrow := ⟨row, hruns ▸ hrow, .inl rfl⟩
  jobs := hjobs
  dead := hdead
  taken := htaken

/-- A dead Job whose row stays. -/
theorem MigrationWorld.Dead.modify {f : JobRow → JobRow} {i : Id} (h : w.Dead i)
    (hjobs : w'.jobs = w.jobs.modify j f)
    (hkeep : i = j → ∀ job, w.jobs.row j = some job → f job = job) (htaken : w'.taken i = []) :
    w'.Dead i := by
  obtain ⟨job, hjob, hfailed, hnone, -⟩ := h
  refine ⟨job, ?_, hfailed, hnone, htaken⟩
  rw [hjobs]
  rcases eq_or_ne i j with rfl | hij
  · rw [Table.row_modify_self, hjob, Option.map_some, hkeep rfl job hjob]
  · exact (Table.row_modify_of_ne hij).trans hjob

/-- A change of one Job. -/
theorem jobChange {f : JobRow → JobRow} (hruns : w'.runs = w.runs) (hlock : w'.lock = w.lock)
    (hjobs : w'.jobs = w.jobs.modify j f)
    (hlater : ∀ job, w.jobs.row j = some job → job.Later (f job))
    (hdead : ∀ i, w.Dead i → w'.Dead i)
    (htaken : ∀ j u, u ≠ t → u ∈ w.taken j → u ∈ w'.taken j) : MigrationChange t w w' := by
  refine jobsChange hruns hlock (fun i job hjob => ?_) hdead (fun v job i hjob hreplaced => ?_)
    htaken
  · rw [hjobs]
    rcases eq_or_ne i j with rfl | hij
    · exact ⟨f job, by simp [hjob], hlater job hjob⟩
    · exact ⟨job, (Table.row_modify_of_ne hij).trans hjob, .refl job⟩
  · rw [hjobs] at hjob
    obtain ⟨old, hold, rfl⟩ := Table.row_modify_eq_some hjob
    refine ⟨old, hold, ?_⟩
    split_ifs at hreplaced with hv
    · subst hv
      exact (hlater old hold).replaces ▸ hreplaced
    · exact hreplaced

/-- What becomes of the queue is no part of the invariant. -/
theorem queueChange {queue : Id → Bool} : MigrationChange t w { w with queue } :=
  jobsChange rfl rfl (fun _ job hjob => ⟨job, hjob, .refl job⟩) (fun _ h => h)
    (fun _ job _ hjob hreplaced => ⟨job, hjob, hreplaced⟩) fun _ _ _ h => h

theorem mem_scriptJobs {status : JobStatus → Bool} (h : j ∈ w.scriptJobs status) :
    ∃ job, w.jobs.row j = some job ∧ status job.status = true := by
  obtain ⟨⟨i, job⟩, hmem, rfl⟩ := List.mem_map.mp h
  obtain ⟨hentry, hstatus⟩ := List.mem_filter.mp hmem
  exact ⟨job, Table.mem_entries.mp hentry, (Bool.and_eq_true_iff.mp hstatus).2⟩

theorem lasting_job {p : JobRow → Prop} (hp : ∀ job job', job.Later job' → p job → p job') :
    Lasting fun w => ∃ job, w.jobs.row j = some job ∧ p job := by
  rintro u w w' hchange ⟨job, hjob, hpjob⟩
  obtain ⟨job', hjob', hlater⟩ := hchange.jobs j job hjob
  exact ⟨job', hjob', hp job job' hlater hpjob⟩

/-- A run that is open owns no Job of another one, unless a worker has started it. -/
theorem MigrationWorld.Inv.started_of_other (h : w.Inv) {pk i : Id} {row other : MigrationRow}
    (hrow : w.runs.row pk = some row) (hopen : row.state ≠ .migrated) (hi : i ≠ pk)
    (hother : w.runs.row i = some other) {f : ScheduleEntry} (hf : f ∈ other.journal.schedules)
    (hwaits : ∃ job, w.jobs.row f.jobPk = some job ∧ job.status.cancellable = true) :
    w.Started f.jobPk := by
  have hclosed : other.state = .migrated :=
    (h.one_open i pk other row hother hrow hi).resolve_right hopen
  have hcutover := ((h.steps i other hother).cutover hclosed).2
  obtain ⟨-, job, hjob, -, hspent⟩ := h.entries i other hother f hf
  obtain ⟨job', hjob', hwaits⟩ := hwaits
  obtain rfl := Option.some.inj (hjob.symm.trans hjob')
  refine ⟨job, hjob, ?_⟩
  by_contra hnone
  rw [Bool.not_eq_true, Option.isSome_eq_false_iff, Option.isNone_iff_eq_none] at hnone
  rw [hspent (h.resolved i other hother hcutover f hf) hnone] at hwaits
  cases hwaits

end Jobs

/-! ## Capturing -/

section Capture

variable {t : ThreadId} {n : ℕ} {run : RunInstance} {w : MigrationWorld}
  {fact : MigrationWorld → Prop}

/-- What is captured of a key is recorded under it. -/
theorem Owns.captureAbsent (h : Owns t n run w) (hsteady : Steady t fact) (hfact : fact w)
    {name : PyStr} :
    Keeps t (Migration.captureAbsent run name) (Returns fun entries w =>
      (Owns t n run w ∧ fact w) ∧ ∀ entry ∈ entries, entry.1 = name) w := by
  unfold Migration.captureAbsent
  split_ifs
  · exact ⟨⟨h, hfact⟩, by simp⟩
  · refine (h.ask hsteady hfact).bind fun value w₁ h₁ => ⟨h₁, ?_⟩
    simp

/-- Whether a task is found changes nothing. -/
theorem Owns.taskFound (h : Owns t n run w) (hsteady : Steady t fact) (hfact : fact w) {job : Id} :
    Keeps t (Migration.taskFound job) (Returns fun _ w => Owns t n run w ∧ fact w) w := by
  refine h.stmt hsteady hfact fun w' hown hfact' c r w'' heq => ?_
  cases heq
  exact ⟨.refl t w', hown, hfact'⟩

/-- An entry that is captured has one of the Jobs, and no outcome yet. -/
theorem Owns.captureSchedules {jobs : List Id} (h : Owns t n run w) (hsteady : Steady t fact)
    (hfact : fact w) :
    Keeps t (Migration.captureSchedules jobs) (Returns fun fresh w =>
      (Owns t n run w ∧ fact w) ∧ ∀ e ∈ fresh, e.jobPk ∈ jobs ∧ e.cancellation = none) w := by
  induction jobs generalizing w with
  | nil => exact ⟨⟨h, hfact⟩, by simp⟩
  | cons job jobs ih =>
    rw [Migration.captureSchedules]
    refine (h.taskFound hsteady hfact).bind fun found w₁ h₁ => ?_
    refine (h₁.1.ask hsteady h₁.2).bind fun label w₂ h₂ => ?_
    refine (h₂.1.ask hsteady h₂.2).bind fun dropped w₃ h₃ => ?_
    refine (ih h₃.1 h₃.2).bind fun rest w₄ h₄ => ⟨h₄.1, fun e he => ?_⟩
    have hrest : ∀ e ∈ rest, e.jobPk ∈ job :: jobs ∧ e.cancellation = none :=
      fun e he => (h₄.2 e he).imp_left (List.mem_cons_of_mem _)
    split_ifs at he
    · rcases List.mem_cons.mp he with rfl | he
      · exact ⟨List.mem_cons_self, rfl⟩
      · exact hrest e he
    · exact hrest e he

/-- The schedules after new ones were added. -/
theorem schedules_scheduleEntries {journal entries : Journal} {fresh : List ScheduleEntry}
    (hentries : ∀ entry ∈ entries, entry.1 ≠ py "schedules") :
    Journal.schedules (journal.update (entries ++ scheduleEntries journal fresh)) =
      journal.schedules ++ fresh := by
  have hget : (journal.update entries).get? (py "schedules") = journal.get? (py "schedules") :=
    Dict.get?_update_of_notMem (Journal.notMem_keys hentries)
  have happend : journal.update (entries ++ scheduleEntries journal fresh) =
      (journal.update entries).update (scheduleEntries journal fresh) := List.foldl_append
  rw [happend, scheduleEntries]
  split_ifs with hnew
  · simp [Journal.schedules, Dict.update_cons]
  · rw [not_or, not_not] at hnew
    rw [Dict.update_nil, Journal.schedules_congr hget, hnew.1, List.append_nil]

/-- **`_capture`**: each new entry is of a Job that waits, whichever run captured it before. -/
theorem Owns.capture (h : Owns t (n + 1) run w) (hopen : run.row.state ≠ .migrated)
    (hcutover : run.row.journal.stepDone (py "cutover") = false) :
    Keeps t (Migration.capture run) (Returns fun run' w => Owns t (n + 1) run' w ∧
      run'.row.journal.stepDone (py "cutover") = false) w := by
  have htrue := (Lasting.const True).steady (t := t)
  unfold Migration.capture
  refine (h.captureAbsent htrue trivial).bind fun permissions w₁ h₁ => ?_
  refine (h₁.1.1.captureAbsent htrue trivial).bind fun rules w₂ h₂ => ?_
  refine (h₂.1.1.captureAbsent htrue trivial).bind fun mapping w₃ h₃ => ?_
  rw [keeps_bind]
  refine h₃.1.1.query htrue trivial fun w₄ h₄ _ => ?_
  rw [andThen_ok]
  generalize hwaiting : (w₄.scriptJobs JobStatus.cancellable).filter
    (· ∉ run.row.journal.schedules.map ScheduleEntry.jobPk) = waiting
  have hwaits : ∀ j ∈ waiting, ∃ job, w₄.jobs.row j = some job ∧
      job.status.cancellable = true := by
    intro j hj
    rw [← hwaiting] at hj
    exact mem_scriptJobs (List.mem_filter.mp hj).1
  -- the runs stay while this session holds the lock, and so does what was read of the Jobs
  let known : MigrationWorld → Prop := fun w => w.runs = w₄.runs
  let fact : MigrationWorld → Prop := fun w =>
    (∀ j ∈ waiting, ∃ job, w.jobs.row j = some job ∧ job.Known) ∧
    (∀ j, w₄.Started j → w.Started j) ∧ ∀ e ∈ run.row.journal.schedules, w.EntryOk e
  have hknown : Steady t known := steady_runs fun runs => runs = w₄.runs
  have hlasting : Lasting fact :=
    (Lasting.all fun j => .imp fun _ => lasting_job fun _ _ hlater hp => hlater.known hp).and
      ((Lasting.all fun j => .imp fun _ => lasting_started j).and
        (Lasting.all fun e => .imp fun _ => lasting_entryOk e))
  have hfact : fact w₄ := by
    refine ⟨fun j hj => ?_, fun j hj => hj, h₄.inv.entries _ _ h₄.row⟩
    obtain ⟨job, hjob, hwait⟩ := hwaits j hj
    exact ⟨job, hjob, fun _ => .inl hwait⟩
  refine (h₄.captureSchedules (hknown.and hlasting.steady) ⟨rfl, hfact⟩).bind
    fun fresh w₅ h₅ => ?_
  obtain ⟨⟨h₅, hknown₅, hfact₅⟩, hfresh⟩ := h₅
  have hkeys : ∀ entry ∈ permissions ++ rules ++ mapping, entry.1 = py "permissions" ∨
      entry.1 = py "event_rules" ∨ entry.1 = py "mapping" := by
    intro entry hentry
    rcases List.mem_append.mp hentry with hentry | hentry
    · rcases List.mem_append.mp hentry with hentry | hentry
      · exact .inl (h₁.2 entry hentry)
      · exact .inr (.inl (h₂.2 entry hentry))
    · exact .inr (.inr (h₃.2 entry hentry))
  have hnew : ∀ entry ∈ permissions ++ rules ++ mapping ++
      scheduleEntries run.row.journal fresh,
      entry.1 ≠ py "steps" ∧ entry.1 ∉ Journal.mappingNames := by
    have hall : ∀ k ∈ [py "permissions", py "event_rules", py "mapping", py "schedules"],
        k ≠ py "steps" ∧ k ∉ Journal.mappingNames := by decide
    intro entry hentry
    refine hall _ ?_
    rcases List.mem_append.mp hentry with hentry | hentry
    · rcases hkeys entry hentry with heq | heq | heq <;> simp [heq]
    · unfold scheduleEntries at hentry
      split_ifs at hentry
      · simp [List.mem_singleton.mp hentry]
      · cases hentry
  have hschedules : (run.row.recordJournal (permissions ++ rules ++ mapping ++
      scheduleEntries run.row.journal fresh)).journal.schedules =
        run.row.journal.schedules ++ fresh := by
    refine schedules_scheduleEntries fun entry hentry heq => ?_
    rcases hkeys entry hentry with hkey | hkey | hkey <;>
      exact absurd (hkey.symm.trans heq) (by decide)
  refine wp_mono (fun r w' hr => ?_) (h₅.recordCaptured hknown hknown₅ hlasting hfact₅ hnew
    hschedules hcutover (fun w' hw' e he => ?_) (fun w' hinv hrow hruns hw' => ?_) fun e he =>
      ⟨e, List.mem_append_left _ he, rfl⟩)
  · cases r with
    | error e => trivial
    | ok run' =>
      refine ⟨hr.1, ?_⟩
      rw [Journal.stepDone, hr.2.1.2.2.2]
      exact hcutover
  · rcases List.mem_append.mp he with he | he
    · exact hw'.2.2 e he
    · obtain ⟨job, hjob, hknown⟩ := hw'.1 _ (hfresh e he).1
      refine ⟨by simp [(hfresh e he).2], job, hjob, hknown, fun hresolved => ?_⟩
      simp [ScheduleEntry.resolved, (hfresh e he).2] at hresolved
  · intro i other hi hother e he f hf hef
    rcases List.mem_append.mp he with he | he
    · exact hinv.exclusive _ _ _ _ hi.symm hrow hother e he f hf hef
    · have hother₄ : w₄.runs.row i = some other := hruns ▸ hother
      have hstarted := h₄.inv.started_of_other h₄.row hopen hi hother₄ hf
        (hef ▸ hwaits _ (hfresh e he).1)
      exact hw'.2.1 _ (hef ▸ hstarted)

end Capture

/-! ## Cancelling -/

section Cancel

variable {t : ThreadId} {n : ℕ} {run : RunInstance} {w : MigrationWorld}
  {fact : MigrationWorld → Prop} {before after : List ScheduleEntry} {entry : ScheduleEntry}

/-- What is known of each entry. -/
abbrev EntriesOk (entries : List ScheduleEntry) (w : MigrationWorld) : Prop :=
  ∀ e ∈ entries, w.EntryOk e

theorem lasting_entriesOk (entries : List ScheduleEntry) : Lasting (EntriesOk entries) :=
  Lasting.all fun e => .imp fun _ => lasting_entryOk e

/-- A run that is being cancelled: its cutover is not done, and it captured these Jobs. -/
structure Cancelling (run : RunInstance) (entries : List ScheduleEntry) : Prop where
  isOpen : run.row.journal.stepDone (py "cutover") = false
  jobs : entries.map ScheduleEntry.jobPk = run.row.journal.schedules.map ScheduleEntry.jobPk

theorem Cancelling.of_jobs {entries entries' : List ScheduleEntry} (h : Cancelling run entries)
    (hjobs : entries'.map ScheduleEntry.jobPk = entries.map ScheduleEntry.jobPk) :
    Cancelling run entries' := ⟨h.isOpen, hjobs.trans h.jobs⟩

/-- **`record_journal(schedules=…)`** of the same Jobs. -/
theorem Owns.recordSchedules {entries : List ScheduleEntry} (h : Owns t (n + 1) run w)
    (hrun : Cancelling run entries) (hentries : EntriesOk entries w) :
    Keeps t (Migration.recordSchedules run entries) (Returns fun run' w =>
      Owns t (n + 1) run' w ∧ Cancelling run' entries ∧ EntriesOk entries w ∧
        run'.row.journal.schedules = entries) w := by
  have hschedules : (run.row.recordJournal
      [(py "schedules", .schedules entries)]).journal.schedules = entries := by
    simp [MigrationRow.recordJournal, Journal.schedules]
  refine wp_mono (fun r w' hr => ?_) (h.recordCaptured (Lasting.const True).steady trivial
    (lasting_entriesOk entries) hentries ?_ hschedules hrun.isOpen (fun _ hw' => hw')
    (fun w' hinv hrow _ _ i other hi hother e he f hf hef => ?_) fun e he => ?_)
  · cases r with
    | error e => trivial
    | ok run' =>
      obtain ⟨hown, ⟨-, hcaptured, -, hsteps⟩, hentries'⟩ := hr
      refine ⟨hown, ⟨?_, by rw [hcaptured]⟩, hentries', hcaptured⟩
      rw [Journal.stepDone, hsteps]
      exact hrun.isOpen
  · rintro entry hentry
    obtain rfl := List.mem_singleton.mp hentry
    exact (by decide : py "schedules" ≠ py "steps" ∧ py "schedules" ∉ Journal.mappingNames)
  · have hmem : e.jobPk ∈ run.row.journal.schedules.map ScheduleEntry.jobPk :=
      hrun.jobs ▸ List.mem_map_of_mem he
    obtain ⟨e', he', heq⟩ := List.mem_map.mp hmem
    exact heq ▸ hinv.exclusive _ _ _ _ hi.symm hrow hother e' he' f hf (heq.trans hef)
  · have hmem : e.jobPk ∈ entries.map ScheduleEntry.jobPk :=
      hrun.jobs ▸ List.mem_map_of_mem he
    obtain ⟨e', he', heq⟩ := List.mem_map.mp hmem
    exact ⟨e', he', heq⟩

/-- What `_fail_closed` leaves: a Job it failed nothing starts, another does not wait any more. -/
theorem Owns.failClosed (h : Owns t n run w) (hlasting : Lasting fact) (hfact : fact w)
    {job : Id} (hjob : ∃ row, w.jobs.row job = some row ∧ row.Known) :
    Keeps t (Migration.failClosed job) (Returns fun _ w => Owns t n run w ∧ fact w ∧
      ∃ row, w.jobs.row job = some row ∧ row.Known ∧ row.Spent) w := by
  have hboth := hlasting.and
    (lasting_job (j := job) (p := JobRow.Known) fun _ _ hlater hp => hlater.known hp)
  refine Keeps.bind (h.stmt hboth.steady ⟨hfact, hjob⟩ (Q := Returns fun _ w =>
    Owns t n run w ∧ fact w ∧ ∃ row, w.jobs.row job = some row ∧ row.Known)
      fun w' hown hw' c r w'' heq => ?_) fun _ w₁ h₁ => ?_
  · cases heq
    have hchange : MigrationChange t w'
        { w' with queue := Function.update w'.queue job false } := queueChange
    exact ⟨hchange, ⟨⟨hchange.inv hown.inv, hown.lock⟩, hown.row⟩, hboth _ _ _ hchange hw'⟩
  · refine h₁.1.stmt hboth.steady h₁.2 fun w' hown hw' c r w'' heq => ?_
    obtain ⟨hfact', row, hrow, hknown⟩ := hw'
    simp only [hrow, Option.any_some, Option.some.injEq, Prod.mk.injEq] at heq
    obtain ⟨rfl, rfl⟩ := heq
    split_ifs with hwaits
    · rw [Bool.and_eq_true] at hwaits
      have hlater : ∀ old : JobRow, old.Later { old with status := .failed } := fun old =>
        ⟨id, fun _ _ => rfl, fun _ _ => .inr rfl, rfl⟩
      have hchange : MigrationChange t w' { w' with
          jobs := w'.jobs.modify job fun row => { row with status := .failed } } := by
        refine jobChange rfl rfl rfl (fun old _ => hlater old) (fun i hi => ?_) fun _ _ _ h => h
        obtain ⟨old, hold, hfailed, -, htaken⟩ := id hi
        refine hi.modify rfl (fun heq => ?_) htaken
        obtain rfl := Option.some.inj (hrow.symm.trans (heq ▸ hold))
        rw [hfailed] at hwaits
        exact absurd hwaits.1 (by decide)
      refine ⟨hchange, ⟨⟨hchange.inv hown.inv, hown.lock⟩, hown.row⟩,
        hlasting t w' _ hchange hfact', { row with status := .failed }, by simp [hrow], ?_, ?_⟩
      · exact fun _ => .inr rfl
      · exact fun _ => rfl
    · refine ⟨.refl t w', hown, hfact', row, hrow, hknown, fun hnone => ?_⟩
      rw [hnone] at hwaits
      simpa using hwaits

/-- An entry that is settled in its place. -/
theorem EntriesOk.settle (h : EntriesOk (before ++ entry :: after) w) {entry' : ScheduleEntry}
    (hentry : w.EntryOk entry') : EntriesOk (before ++ entry' :: after) w := by
  intro e he
  rw [List.mem_append, List.mem_cons] at he
  rcases he with he | rfl | he
  · exact h e (List.mem_append_left _ he)
  · exact hentry
  · exact h e (List.mem_append_right _ (List.mem_cons_of_mem _ he))

theorem Cancelling.settle (h : Cancelling run (before ++ entry :: after)) {entry' : ScheduleEntry}
    (hjob : entry'.jobPk = entry.jobPk) : Cancelling run (before ++ entry' :: after) :=
  h.of_jobs (by simp [hjob])

/-- What cancelling one entry leaves. -/
structure Settled (t : ThreadId) (n : ℕ) (before after : List ScheduleEntry)
    (result : RunInstance × ScheduleEntry) (w : MigrationWorld) : Prop where
  own : Owns t n result.1 w
  cancelling : Cancelling result.1 (before ++ result.2 :: after)
  entries : EntriesOk (before ++ result.2 :: after) w
  resolved : result.2.resolved = true

/-- The outcome of a Job that did not wait any more. -/
theorem Owns.settleUncancelled (h : Owns t n run w)
    (hrun : Cancelling run (before ++ entry :: after))
    (hentries : EntriesOk (before ++ entry :: after) w) {job : JobRow}
    (hjob : w.jobs.row entry.jobPk = some job) (hknown : job.Known) (hspent : job.Spent) :
    Settled t n before after (run, uncancelled entry job) w where
  own := h
  cancelling := hrun.settle rfl
  entries := hentries.settle ⟨by unfold uncancelled; split_ifs <;> simp, job, hjob, hknown,
    fun _ => hspent⟩
  resolved := by unfold uncancelled; split_ifs <;> simp [ScheduleEntry.resolved]

/-- **One waiting Job**: the attempt is recorded before it is made, and its outcome after. -/
theorem Owns.cancelWaiting (h : Owns t (n + 1) run w)
    (hrun : Cancelling run (before ++ entry :: after))
    (hentries : EntriesOk (before ++ entry :: after) w) :
    Keeps t (Migration.cancelWaiting run before entry after)
      (Returns (Settled t (n + 1) before after)) w := by
  have hentry := hentries entry (by simp)
  let attempted : ScheduleEntry := { entry with cancellation := some .cancelling }
  have hattempted : w.EntryOk attempted := by
    obtain ⟨-, job, hjob, hknown, -⟩ := hentry
    refine ⟨by simp [attempted], job, hjob, hknown, fun hresolved => ?_⟩
    simp [ScheduleEntry.resolved, attempted] at hresolved
  unfold Migration.cancelWaiting
  refine (h.recordSchedules (hrun.settle rfl : Cancelling run (before ++ attempted :: after))
    (hentries.settle hattempted)).bind fun run₁ w₁ h₁ => ?_
  obtain ⟨h₁, hrun₁, hentries₁, -⟩ := h₁
  obtain ⟨-, job₁, hjob₁, hknown₁, -⟩ := hentries₁ attempted (by simp)
  refine (h₁.failClosed (lasting_entriesOk _) hentries₁ ⟨job₁, hjob₁, hknown₁⟩).bind
    fun failed w₂ h₂ => ?_
  obtain ⟨h₂, hentries₂, hjob₂⟩ := h₂
  cases failed with
  | true =>
    let cancelled : ScheduleEntry := { attempted with cancellation := some .cancelled }
    have hcancelled : w₂.EntryOk cancelled := by
      obtain ⟨job, hjob, hknown, hspent⟩ := hjob₂
      exact ⟨by simp [cancelled], job, hjob, hknown, fun _ => hspent⟩
    refine (h₂.recordSchedules (hrun₁.settle rfl : Cancelling run₁ (before ++ cancelled :: after))
      (hentries₂.settle hcancelled)).bind fun run₃ w₃ h₃ => ?_
    exact ⟨h₃.1, h₃.2.1, h₃.2.2.1, by simp [ScheduleEntry.resolved]⟩
  | false =>
    have hlasting := (lasting_entriesOk (before ++ attempted :: after)).and
      (lasting_job (j := entry.jobPk) (p := fun job => job.Known ∧ job.Spent)
        fun _ _ hlater hp => ⟨hlater.known hp.1, hlater.spent hp.2⟩)
    rw [if_neg Bool.false_ne_true, keeps_bind]
    refine h₂.query hlasting.steady ⟨hentries₂, hjob₂⟩ fun w₃ h₃ hw₃ => ?_
    obtain ⟨hentries₃, job, hjob, hknown, hspent⟩ := hw₃
    rw [andThen_ok, hjob]
    exact h₃.settleUncancelled hrun₁ hentries₃ hjob hknown hspent

/-- **One entry** of `_cancel_schedules`. -/
theorem Owns.cancelEntry (h : Owns t (n + 1) run w)
    (hrun : Cancelling run (before ++ entry :: after))
    (hentries : EntriesOk (before ++ entry :: after) w) :
    Keeps t (Migration.cancelEntry run before entry after)
      (Returns (Settled t (n + 1) before after)) w := by
  unfold Migration.cancelEntry
  split_ifs with hcancelled
  · exact ⟨h, hrun, hentries, by simp [ScheduleEntry.resolved, hcancelled]⟩
  · rw [keeps_bind]
    refine h.query (lasting_entriesOk _).steady hentries fun w₁ h₁ hentries₁ => ?_
    obtain ⟨-, job, hjob, hknown, -⟩ := hentries₁ entry (by simp)
    simp only [andThen_ok, hjob]
    by_cases hinterrupted : entry.cancellation = some .cancelling ∧ job.status.cancellable = false
    · rw [if_pos hinterrupted]
      -- an attempt was interrupted: a Job that nothing started was failed by it
      let settled : ScheduleEntry := { entry with
        cancellation := some (if job.started = none then .cancelled else .executed) }
      have hresolved : settled.resolved = true := by
        simp only [ScheduleEntry.resolved, settled]
        split_ifs <;> simp
      have hsettled : w₁.EntryOk settled :=
        ⟨by simp only [settled]; split_ifs <;> simp, job, hjob, hknown,
          fun _ _ => hinterrupted.2⟩
      refine (h₁.recordSchedules (hrun.settle rfl : Cancelling run (before ++ settled :: after))
        (hentries₁.settle hsettled)).bind fun run₂ w₂ h₂ => ?_
      exact ⟨h₂.1, h₂.2.1, h₂.2.2.1, hresolved⟩
    rw [if_neg hinterrupted]
    by_cases hwaits : job.status.cancellable = true
    · rw [if_pos hwaits]
      exact h₁.cancelWaiting hrun hentries₁
    · rw [if_neg hwaits]
      exact h₁.settleUncancelled hrun hentries₁ hjob hknown fun _ => by simpa using hwaits

/-- **`_cancel_schedules`** settles every entry. -/
theorem Owns.cancelSchedules (h : Owns t (n + 1) run w) (hrun : Cancelling run (before ++ after))
    (hentries : EntriesOk (before ++ after) w) (hbefore : ∀ e ∈ before, e.resolved = true) :
    Keeps t (Migration.cancelSchedules run before after) (Returns fun result w =>
      Owns t (n + 1) result.1 w ∧ Cancelling result.1 result.2 ∧ EntriesOk result.2 w ∧
        ∀ e ∈ result.2, e.resolved = true) w := by
  induction after generalizing run before w with
  | nil =>
    rw [List.append_nil] at hrun hentries
    exact ⟨h, hrun, hentries, hbefore⟩
  | cons entry after ih =>
    refine (h.cancelEntry hrun hentries).bind fun result w₁ h₁ => ?_
    obtain ⟨run₁, entry₁⟩ := result
    have happend : before ++ entry₁ :: after = before ++ [entry₁] ++ after := by simp
    refine ih h₁.own (happend ▸ h₁.cancelling) (happend ▸ h₁.entries) fun e he => ?_
    rcases List.mem_append.mp he with he | he
    · exact hbefore e he
    · exact List.mem_singleton.mp he ▸ h₁.resolved

/-- **`_close`**: every captured entry is settled. -/
theorem Owns.close (h : Owns t (n + 1) run w)
    (hcutover : run.row.journal.stepDone (py "cutover") = false) :
    Keeps t (Migration.close run) (Returns fun run' w => Owns t (n + 1) run' w ∧
      ∀ e ∈ run'.row.journal.schedules, e.resolved = true) w := by
  have htrue := Lasting.const True
  unfold Migration.close
  have hcancelling : Cancelling run ([] ++ run.row.journal.schedules) := ⟨hcutover, rfl⟩
  refine (h.cancelSchedules hcancelling (h.inv.entries _ _ h.row) (by simp)).bind
    fun result w₁ h₁ => ?_
  obtain ⟨run₁, captured⟩ := result
  obtain ⟨h₁, hrun₁, hentries₁, hresolved⟩ := h₁
  refine (h₁.recordSchedules hrun₁ hentries₁).bind fun run₂ w₂ h₂ => ?_
  obtain ⟨h₂, -, -, hschedules⟩ := h₂
  refine (h₂.ask htrue.steady trivial).bind fun messages w₃ h₃ => ?_
  refine (h₃.1.recordWarnings htrue trivial).bind fun run₄ w₄ h₄ => ?_
  obtain ⟨h₄, hagrees₄, -⟩ := h₄
  have hresolved₄ : ∀ e ∈ run₄.row.journal.schedules, e.resolved = true := by
    rw [hagrees₄.schedules, hschedules]
    exact hresolved
  refine (h₄.captureAbsent htrue.steady trivial).bind fun autoSync w₅ h₅ => ?_
  refine Keeps.updateIf ?_ ⟨h₅.1.1, hresolved₄⟩
  have hkey : py "auto_sync" ≠ py "steps" ∧ py "auto_sync" ∉ Journal.mappingNames ∧
      py "auto_sync" ≠ py "schedules" := by decide
  have hnew : ∀ entry ∈ autoSync,
      entry.1 ≠ py "steps" ∧ entry.1 ∉ Journal.mappingNames := by
    intro entry hentry
    rw [h₅.2 entry hentry]
    exact ⟨hkey.1, hkey.2.1⟩
  refine wp_mono (fun r w' hr => ?_) (h₅.1.1.recordOther htrue trivial hnew fun entry hentry => ?_)
  · cases r with
    | error e => trivial
    | ok run' => exact ⟨hr.1, hr.2.1.schedules ▸ hresolved₄⟩
  · rw [h₅.2 entry hentry]
    exact hkey.2.2

end Cancel

/-! ## The pass -/

section Enter

variable {t : ThreadId} {n : ℕ} {run : RunInstance} {w : MigrationWorld}

/-- The cutover, once nothing runs. -/
theorem Owns.crossOver (h : Owns t (n + 1) run w) (hopen : run.row.state ≠ .migrated)
    (hcutover : run.row.journal.stepDone (py "cutover") = false) {accepted : Bool} :
    Keeps t (Migration.crossOver run accepted) (Returns fun _ _ => True) w := by
  have htrue := Lasting.const True
  unfold Migration.crossOver
  refine (h.ask htrue.steady trivial).bind fun competing w₁ h₁ => ?_
  refine Keeps.bind (Q := fun _ w => Owns t (n + 1) run w)
    (wp_require fun _ => h₁.1) fun _ w₂ h₂ => ?_
  refine (h₂.ask htrue.steady trivial).bind fun servable w₃ h₃ => ?_
  refine Keeps.bind (Q := fun _ w => Owns t (n + 1) run w)
    (wp_require fun _ => h₃.1) fun _ w₄ h₄ => ?_
  have haccept : ∀ k : JournalValue, ∀ entry ∈ [(py "concurrent_workers_accepted", k)],
      (entry.1 ≠ py "steps" ∧ entry.1 ∉ Journal.mappingNames) ∧ entry.1 ≠ py "schedules" := by
    intro k entry hentry
    obtain rfl := List.mem_singleton.mp hentry
    exact (by decide : (py "concurrent_workers_accepted" ≠ py "steps" ∧
      py "concurrent_workers_accepted" ∉ Journal.mappingNames) ∧
        py "concurrent_workers_accepted" ≠ py "schedules")
  refine Keeps.bind (Keeps.updateIf (h₄.recordOther htrue trivial
    (fun entry hentry => (haccept _ entry hentry).1) fun entry hentry =>
      (haccept _ entry hentry).2) ⟨h₄, .refl run, trivial⟩) fun run₅ w₅ h₅ => ?_
  obtain ⟨h₅, hagrees₅, -⟩ := h₅
  refine (h₅.capture (hagrees₅.isOpen hopen) ((hagrees₅.stepDone _).trans hcutover)).bind
    fun run₆ w₆ h₆ => ?_
  obtain ⟨h₆, hcutover₆⟩ := h₆
  refine (h₆.ask htrue.steady trivial).bind fun messages w₇ h₇ => ?_
  refine (h₇.1.recordWarnings htrue trivial).bind fun run₈ w₈ h₈ => ?_
  obtain ⟨h₈, hagrees₈, -⟩ := h₈
  refine Keeps.bind (Keeps.updateIf (h₈.advance htrue trivial (by decide))
    ⟨h₈, .refl run₈, trivial⟩) fun run₉ w₉ h₉ => ?_
  obtain ⟨h₉, hagrees₉, -⟩ := h₉
  have hcutover₉ : run₉.row.journal.stepDone (py "cutover") = false :=
    ((hagrees₉.stepDone _).trans (hagrees₈.stepDone _)).trans hcutover₆
  refine (h₉.close hcutover₉).bind fun run₁₀ w₁₀ h₁₀ => ?_
  obtain ⟨h₁₀, hresolved⟩ := h₁₀
  rw [keeps_bind]
  refine h₁₀.query htrue.steady trivial fun w₁₁ h₁₁ _ => ?_
  refine (h₁₁.ask htrue.steady trivial).bind fun counts w₁₂ h₁₂ => ?_
  split_ifs
  · refine (h₁₂.1.ask htrue.steady trivial).bind fun messages w₁₃ h₁₃ => ?_
    exact (h₁₃.1.recordWarnings htrue trivial).bind fun _ _ _ => trivial
  · exact (h₁₂.1.completeStep htrue trivial (fun hname => absurd hname (by decide))
      (fun hname => absurd hname (by decide)) fun _ => hresolved).bind fun _ _ _ => trivial

/-- The entries of running Jobs, as they are marked, still agree with their Jobs. -/
theorem EntriesOk.markRunning {schedules : List ScheduleEntry} {running : List Id}
    (h : EntriesOk schedules w) (hrunning : ∀ j ∈ running, ∃ job, w.jobs.row j = some job ∧
      job.status = .running) : EntriesOk (Migration.markRunning running schedules) w := by
  intro e he
  obtain ⟨entry, hentry, rfl⟩ := List.mem_map.mp he
  split_ifs with hmem
  · obtain ⟨-, job, hjob, hknown, -⟩ := h entry hentry
    obtain ⟨job', hjob', hstatus⟩ := hrunning _ hmem
    obtain rfl := Option.some.inj (hjob.symm.trans hjob')
    refine ⟨by simp, job, hjob, hknown, fun _ _ => ?_⟩
    rw [hstatus]
    decide
  · exact h entry hentry

/-- **`enter_cutover`** -/
theorem wp_enterCutover {stale : Option RunInstance} {accepted : Bool} (hinv : w.Inv)
    (hfree : ¬ w.HeldBy t) :
    Keeps t (enterCutover stale accepted) (Returns fun _ _ => True) w := by
  have htrue := Lasting.const True
  refine wp_serialized hinv hfree fun run w₁ h₁ => ?_
  refine Keeps.bind (Q := fun _ w => Owns t 1 run w ∧ run.row.state ≠ .migrated)
    (wp_require fun hstate => ⟨h₁, ?_⟩) fun _ w₂ h₂ => ?_
  · rintro heq
    simp [heq] at hstate
  obtain ⟨h₂, hopen⟩ := h₂
  by_cases hdone : run.row.journal.stepDone (py "cutover") = true
  · rw [if_pos hdone]
    trivial
  rw [if_neg hdone, keeps_bind]
  rw [Bool.not_eq_true] at hdone
  refine h₂.query htrue.steady trivial fun w₃ h₃ _ => ?_
  rw [andThen_ok]
  generalize hrunning : w₃.scriptJobs (fun status => status = .running) = running
  have hjobs : ∀ j ∈ running, ∃ job, w₃.jobs.row j = some job ∧ job.status = .running := by
    intro j hj
    obtain ⟨job, hjob, hstatus⟩ := mem_scriptJobs (hrunning ▸ hj)
    exact ⟨job, hjob, by simpa using hstatus⟩
  split_ifs
  · have hmarked : Cancelling run (Migration.markRunning running run.row.journal.schedules) := by
      refine ⟨hdone, ?_⟩
      rw [Migration.markRunning, List.map_map]
      refine List.map_congr_left fun entry _ => ?_
      rw [Function.comp_apply]
      split_ifs <;> rfl
    refine Keeps.bind (Q := fun _ _ => True) (Keeps.updateIf ?_ trivial) fun _ _ _ => trivial
    refine wp_mono (fun r w' _ => ?_) (h₃.recordSchedules hmarked
      (EntriesOk.markRunning (h₃.inv.entries _ _ h₃.row) hjobs))
    cases r <;> trivial
  · exact h₃.crossOver hopen hdone

end Enter

end NetBoxScripts
