import NetBoxScripts.Migration.Passes

/-!
# What the passes keep

The invariant of a migration's runs and of the Jobs they captured, and what one write of a run,
or one change of the Jobs, keeps of it.

## Main definitions

* `JobRow.Spent`, `JobRow.Known`, `MigrationWorld.Dead`: what is known of a captured Job
* `MigrationWorld.Inv`: the invariant
* `MigrationChange`: what one step of a thread may do

## Main results

* `Inv.write`, `Inv.jobs`, `Inv.recreate`: what keeps the invariant
-/

namespace NetBoxScripts

open Migration

/-! ## Jobs -/

namespace JobRow

/-- A Job that does not wait for its first run. -/
def Spent (job : JobRow) : Prop := job.started = none → job.status.cancellable = false

/-- A Job that no worker has started is waiting, or was failed by a cutover. -/
def Known (job : JobRow) : Prop :=
  job.started = none → job.status.cancellable = true ∨ job.status = .failed

/-- What becomes of a Job. -/
structure Later (job job' : JobRow) : Prop where
  started : job.started.isSome = true → job'.started.isSome = true
  spent : job.Spent → job'.Spent
  known : job.Known → job'.Known
  replaces : job'.replaces = job.replaces

theorem Later.refl (job : JobRow) : job.Later job := ⟨id, id, id, rfl⟩

theorem spent_of_started {job : JobRow} (h : job.started.isSome = true) : job.Spent := by
  intro hnone
  rw [hnone] at h
  cases h

theorem known_of_started {job : JobRow} (h : job.started.isSome = true) : job.Known := by
  intro hnone
  rw [hnone] at h
  cases h

end JobRow

/-- The cutover settled this entry. -/
def ScheduleEntry.resolved (entry : ScheduleEntry) : Bool :=
  entry.cancellation = some .cancelled ∨ entry.cancellation = some .executed ∨
    entry.cancellation = some .running

namespace MigrationWorld

variable (w : MigrationWorld)

/-- A Job that was failed before a worker took it, which nothing starts. -/
def Dead (j : Id) : Prop :=
  ∃ job, w.jobs.row j = some job ∧ job.status = .failed ∧ job.started = none ∧ w.taken j = []

/-- A captured entry agrees with its Job. -/
def EntryOk (entry : ScheduleEntry) : Prop :=
  entry.cancellation ≠ some .vanished ∧ ∃ job, w.jobs.row entry.jobPk = some job ∧ job.Known ∧
    (entry.resolved = true → job.Spent)

/-- A Job of an entry, that a worker has started. -/
def Started (j : Id) : Prop := ∃ job, w.jobs.row j = some job ∧ job.started.isSome = true

/-- A session holds the migration lock. -/
def HeldBy (t : ThreadId) : Prop := ∃ n, w.lock = some (t, n)

end MigrationWorld

/-- The recreated schedules a journal records. -/
def Journal.recreated (journal : Journal) : Dict Id := journal.mapping (py "recreated_schedules")

theorem recreated_mem_mappingNames : py "recreated_schedules" ∈ Journal.mappingNames := by decide

/-- Each step is recorded after the steps that it relies on. -/
structure MigrationRow.StepsOrdered (row : MigrationRow) : Prop where
  activated : ∀ name ∈ requiredSteps, row.journal.stepDone name = true →
    row.journal.stepDone (py "activate") = true
  crossed : row.journal.stepDone (py "activate") = true → row.journal.stepDone (py "cutover") = true
  closed : row.state = .migrated → row.journal.stepDone (py "cleanup") = true ∧
    ∀ name ∈ requiredSteps, row.journal.stepDone name = true

/-- A closed run has every step. -/
theorem MigrationRow.StepsOrdered.cutover {row : MigrationRow} (h : row.StepsOrdered)
    (hclosed : row.state = .migrated) : row.journal.stepDone (py "activate") = true ∧
      row.journal.stepDone (py "cutover") = true := by
  have hactivated := h.activated (py "repoint_event_rules") (by decide)
    ((h.closed hclosed).2 _ (by decide))
  exact ⟨hactivated, h.crossed hactivated⟩

/-- What every run keeps of the migrations. -/
structure MigrationWorld.Inv (w : MigrationWorld) : Prop where
  one_open : ∀ i j a b, w.runs.row i = some a → w.runs.row j = some b → i ≠ j →
    a.state = .migrated ∨ b.state = .migrated
  steps : ∀ pk row, w.runs.row pk = some row → row.StepsOrdered
  entries : ∀ pk row, w.runs.row pk = some row → ∀ e ∈ row.journal.schedules, w.EntryOk e
  resolved : ∀ pk row, w.runs.row pk = some row → row.journal.stepDone (py "cutover") = true →
    ∀ e ∈ row.journal.schedules, e.resolved = true
  exclusive : ∀ i j a b, i ≠ j → w.runs.row i = some a → w.runs.row j = some b →
    ∀ e ∈ a.journal.schedules, ∀ f ∈ b.journal.schedules, e.jobPk = f.jobPk → w.Started e.jobPk
  recreated : ∀ pk row k v, w.runs.row pk = some row → row.journal.recreated.get? k = some v →
    ∃ e ∈ row.journal.schedules, k = decimal e.jobPk ∧ w.Dead e.jobPk
  replaced : ∀ v job j, w.jobs.row v = some job → job.replaces = some j →
    ∃ pk row, w.runs.row pk = some row ∧ row.journal.recreated.get? (decimal j) = some v

/-- What one step of a thread may do. -/
structure MigrationChange (t : ThreadId) (w w' : MigrationWorld) : Prop where
  inv : w.Inv → w'.Inv
  lock : w'.lock = w.lock ∨ ((w.lock = none ∨ w.HeldBy t) ∧ (w'.lock = none ∨ w'.HeldBy t))
  runs : w'.runs = w.runs ∨ w.HeldBy t
  rows : ∀ pk row, w.runs.row pk = some row → ∃ row', w'.runs.row pk = some row' ∧
    (row' = row ∨ Recorded row row')
  jobs : ∀ j job, w.jobs.row j = some job → ∃ job', w'.jobs.row j = some job' ∧ job.Later job'
  dead : ∀ j, w.Dead j → w'.Dead j
  taken : ∀ j u, u ≠ t → u ∈ w.taken j → u ∈ w'.taken j

section Keeping

variable {w w' : MigrationWorld}

/-- Later Jobs agree with an entry as well. -/
theorem MigrationWorld.EntryOk.later {entry : ScheduleEntry} (h : w.EntryOk entry)
    (hjobs : ∀ j job, w.jobs.row j = some job → ∃ job', w'.jobs.row j = some job' ∧
      job.Later job') : w'.EntryOk entry := by
  obtain ⟨hpresent, job, hjob, hknown, hspent⟩ := h
  obtain ⟨job', hjob', hlater⟩ := hjobs _ _ hjob
  exact ⟨hpresent, job', hjob', hlater.known hknown, fun hr => hlater.spent (hspent hr)⟩

theorem MigrationWorld.Started.later {j : Id} (h : w.Started j)
    (hjobs : ∀ j job, w.jobs.row j = some job → ∃ job', w'.jobs.row j = some job' ∧
      job.Later job') : w'.Started j := by
  obtain ⟨job, hjob, hstarted⟩ := h
  obtain ⟨job', hjob', hlater⟩ := hjobs _ _ hjob
  exact ⟨job', hjob', hlater.started hstarted⟩

/-- A dead Job has not been started. -/
theorem MigrationWorld.Dead.not_started {j : Id} (h : w.Dead j) : ¬ w.Started j := by
  obtain ⟨job, hjob, -, hnone, -⟩ := h
  rintro ⟨job', hjob', hstarted⟩
  obtain rfl := Option.some.inj (hjob.symm.trans hjob')
  rw [hnone] at hstarted
  cases hstarted

/-- **Jobs move on**: runs that stay keep the invariant. -/
theorem MigrationWorld.Inv.jobs (h : w.Inv) (hruns : w'.runs = w.runs)
    (hjobs : ∀ j job, w.jobs.row j = some job → ∃ job', w'.jobs.row j = some job' ∧ job.Later job')
    (hdead : ∀ j, w.Dead j → w'.Dead j)
    (hreplaces : ∀ v job j, w'.jobs.row v = some job → job.replaces = some j →
      ∃ job', w.jobs.row v = some job' ∧ job'.replaces = some j) : w'.Inv where
  one_open := hruns ▸ h.one_open
  steps := hruns ▸ h.steps
  entries pk row hrow e he := (h.entries pk row (hruns ▸ hrow) e he).later hjobs
  resolved := hruns ▸ h.resolved
  exclusive i j a b hij ha hb e he f hf hef :=
    (h.exclusive i j a b hij (hruns ▸ ha) (hruns ▸ hb) e he f hf hef).later hjobs
  recreated pk row k v hrow hv := by
    obtain ⟨e, he, hk, hdead'⟩ := h.recreated pk row k v (hruns ▸ hrow) hv
    exact ⟨e, he, hk, hdead _ hdead'⟩
  replaced v job j hjob hreplaced := by
    obtain ⟨job', hjob', hreplaced'⟩ := hreplaces v job j hjob hreplaced
    rw [hruns]
    exact h.replaced v job' j hjob' hreplaced'

/-- What a write has to leave of the other runs' entries: a Job that two runs captured was
started. -/
def MigrationWorld.Exclusive (w : MigrationWorld) (pk : Id) (schedules : List ScheduleEntry) :
    Prop :=
  ∀ i other, i ≠ pk → w.runs.row i = some other → ∀ e ∈ schedules,
    ∀ f ∈ other.journal.schedules, e.jobPk = f.jobPk → w.Started e.jobPk

/-- A rewritten row, or one that stayed. -/
theorem row_modify_cases {runs : Table MigrationRow} {pk i : Id} {row' written : MigrationRow}
    (h : (runs.modify pk fun _ => written).row i = some row') :
    (i = pk ∧ row' = written) ∨ (i ≠ pk ∧ runs.row i = some row') := by
  obtain ⟨old, hold, rfl⟩ := Table.row_modify_eq_some h
  split_ifs with hi
  · exact .inl ⟨hi, rfl⟩
  · exact .inr ⟨hi, hold⟩

/-- **A write of a run** that records nothing as recreated keeps the invariant. -/
theorem MigrationWorld.Inv.write (h : w.Inv) {pk : Id} {row row' : MigrationRow}
    (hrow : w.runs.row pk = some row) (hopen : row.state = .migrated → row'.state = .migrated)
    (hsteps : row'.StepsOrdered) (hentries : ∀ e ∈ row'.journal.schedules, w.EntryOk e)
    (hresolved : row'.journal.stepDone (py "cutover") = true →
      ∀ e ∈ row'.journal.schedules, e.resolved = true)
    (hexclusive : w.Exclusive pk row'.journal.schedules)
    (hrecreated : row'.journal.recreated = row.journal.recreated)
    (hkept : ∀ e ∈ row.journal.schedules, ∃ e' ∈ row'.journal.schedules, e'.jobPk = e.jobPk) :
    ({ w with runs := w.runs.modify pk fun _ => row' } : MigrationWorld).Inv where
  one_open i j a b ha hb hij := by
    rcases row_modify_cases ha with ⟨rfl, rfl⟩ | ⟨hi, ha'⟩
    · rcases row_modify_cases hb with ⟨rfl, -⟩ | ⟨-, hb'⟩
      · exact absurd rfl hij
      · exact (h.one_open _ j row b hrow hb' hij).imp_left hopen
    · rcases row_modify_cases hb with ⟨rfl, rfl⟩ | ⟨-, hb'⟩
      · exact (h.one_open i _ a row ha' hrow hij).imp_right hopen
      · exact h.one_open i j a b ha' hb' hij
  steps i a ha := by
    rcases row_modify_cases ha with ⟨-, rfl⟩ | ⟨-, ha⟩
    · exact hsteps
    · exact h.steps i a ha
  entries i a ha := by
    rcases row_modify_cases ha with ⟨-, rfl⟩ | ⟨-, ha⟩
    · exact hentries
    · exact h.entries i a ha
  resolved i a ha := by
    rcases row_modify_cases ha with ⟨-, rfl⟩ | ⟨-, ha⟩
    · exact hresolved
    · exact h.resolved i a ha
  exclusive i j a b hij ha hb e he f hf hef := by
    rcases row_modify_cases ha with ⟨rfl, rfl⟩ | ⟨hi, ha'⟩
    · rcases row_modify_cases hb with ⟨rfl, -⟩ | ⟨hj, hb'⟩
      · exact absurd rfl hij
      · exact hexclusive j b hj hb' e he f hf hef
    · rcases row_modify_cases hb with ⟨rfl, rfl⟩ | ⟨-, hb'⟩
      · have hstarted := hexclusive i a hi ha' f hf e he hef.symm
        rwa [← hef] at hstarted
      · exact h.exclusive i j a b hij ha' hb' e he f hf hef
  recreated i a k v ha hv := by
    rcases row_modify_cases ha with ⟨-, rfl⟩ | ⟨-, ha⟩
    · obtain ⟨e, he, rfl, hdead⟩ := h.recreated pk row k v hrow (hrecreated ▸ hv)
      obtain ⟨e', he', heq⟩ := hkept e he
      exact ⟨e', he', by rw [heq], heq ▸ hdead⟩
    · exact h.recreated i a k v ha hv
  replaced v job j hjob hreplaced := by
    obtain ⟨i, a, ha, hv⟩ := h.replaced v job j hjob hreplaced
    rcases eq_or_ne i pk with rfl | hi
    · obtain rfl := Option.some.inj (hrow.symm.trans ha)
      exact ⟨i, row', by simp [hrow], hrecreated ▸ hv⟩
    · exact ⟨i, a, (Table.row_modify_of_ne hi).trans ha, hv⟩

/-- A write that leaves the schedules, and what is recreated of them, keeps the invariant. -/
theorem MigrationWorld.Inv.write_same (h : w.Inv) {pk : Id} {row row' : MigrationRow}
    (hrow : w.runs.row pk = some row) (hopen : row.state = .migrated → row'.state = .migrated)
    (hsteps : row'.StepsOrdered)
    (hschedules : row'.journal.schedules = row.journal.schedules)
    (hrecreated : row'.journal.recreated = row.journal.recreated)
    (hdone : row'.journal.stepDone (py "cutover") = true →
      row.journal.stepDone (py "cutover") = true ∨
        ∀ e ∈ row.journal.schedules, e.resolved = true) :
    ({ w with runs := w.runs.modify pk fun _ => row' } : MigrationWorld).Inv := by
  refine h.write hrow hopen hsteps ?_ ?_ ?_ hrecreated ?_
  · rw [hschedules]
    exact h.entries pk row hrow
  · intro hcutover
    rw [hschedules]
    rcases hdone hcutover with hold | hall
    · exact h.resolved pk row hrow hold
    · exact hall
  · intro i other hi hother e he f hf hef
    rw [hschedules] at he
    exact h.exclusive pk i row other hi.symm hrow hother e he f hf hef
  · rw [hschedules]
    exact fun e he => ⟨e, he, rfl⟩

/-- A Job that is added moves none of the others. -/
theorem later_insert (jobs : Table JobRow) (new : JobRow) (j : Id) (job : JobRow)
    (h : jobs.row j = some job) :
    ∃ job', (jobs.insert new).row j = some job' ∧ job.Later job' :=
  ⟨job, Table.row_insert_of_row h, JobRow.Later.refl job⟩

theorem MigrationRow.StepsOrdered.congr {row row' : MigrationRow} (h : row.StepsOrdered)
    (hstate : row'.state = row.state) (hsteps : row'.journal.steps = row.journal.steps) :
    row'.StepsOrdered := by
  have hdone : ∀ name, row'.journal.stepDone name = row.journal.stepDone name := by
    intro name
    rw [Journal.stepDone, hsteps, Journal.stepDone]
  refine ⟨fun name hname hd => ?_, fun hd => ?_, fun hclosed => ?_⟩
  · rw [hdone] at hd ⊢
    exact h.activated name hname hd
  · rw [hdone] at hd ⊢
    exact h.crossed hd
  · rw [hstate] at hclosed
    refine ⟨(hdone _).trans (h.closed hclosed).1, fun name hname => ?_⟩
    exact (hdone _).trans ((h.closed hclosed).2 name hname)

/-- A step that is recorded after the steps it relies on. -/
theorem MigrationRow.StepsOrdered.recordStep {row : MigrationRow} (h : row.StepsOrdered)
    {name : PyStr} {detail : Json}
    (hrequired : name ∈ requiredSteps → row.journal.stepDone (py "activate") = true)
    (hactivate : name = py "activate" → row.journal.stepDone (py "cutover") = true) :
    (row.recordStep name detail).StepsOrdered := by
  have hback : ∀ name', (row.recordStep name detail).journal.stepDone name' = true →
      name' = name ∨ row.journal.stepDone name' = true := by
    intro name' hdone
    rcases eq_or_ne name' name with heq | hne
    · exact .inl heq
    · exact .inr (by rwa [stepDone_recordStep_of_ne hne] at hdone)
  refine ⟨fun name' hname hdone => stepDone_recordStep ?_,
    fun hdone => stepDone_recordStep ?_, fun hclosed => ?_⟩
  · rcases hback name' hdone with rfl | hold
    · exact hrequired hname
    · exact h.activated name' hname hold
  · rcases hback _ hdone with heq | hold
    · exact hactivate heq.symm
    · exact h.crossed hold
  · obtain ⟨hcleanup, hsteps⟩ := h.closed hclosed
    exact ⟨stepDone_recordStep hcleanup, fun name' hname => stepDone_recordStep (hsteps name' hname)⟩

/-- The row that records a Job as recreated. -/
abbrev MigrationRow.recordRecreated (row : MigrationRow) (j v : Id) : MigrationRow :=
  row.recordMapping (py "recreated_schedules") [(decimal j, v)]

/-- **A Job that is recreated**, with the record of it, keeps the invariant: of an entry whose Job
nothing starts any more, and that is not recorded yet. -/
theorem MigrationWorld.Inv.recreate (h : w.Inv) {pk : Id} {row : MigrationRow}
    (hrow : w.runs.row pk = some row) {entry : ScheduleEntry}
    (hentry : entry ∈ row.journal.schedules) (hdead : w.Dead entry.jobPk)
    (hnew : row.journal.recreated.get? (decimal entry.jobPk) = none) :
    ({ w with
      jobs := w.jobs.insert ⟨.pending, none, false, some entry.jobPk⟩
      runs := w.runs.modify pk fun _ => row.recordRecreated entry.jobPk w.jobs.next } :
        MigrationWorld).Inv := by
  have hschedules : (row.recordRecreated entry.jobPk w.jobs.next).journal.schedules =
      row.journal.schedules := schedules_recordMapping recreated_mem_mappingNames
  have hsteps : (row.recordRecreated entry.jobPk w.jobs.next).journal.steps = row.journal.steps :=
    steps_recordMapping recreated_mem_mappingNames
  have hmap : ∀ k, (row.recordRecreated entry.jobPk w.jobs.next).journal.recreated.get? k =
      if k = decimal entry.jobPk then some w.jobs.next else row.journal.recreated.get? k := by
    intro k
    rw [Journal.recreated, mapping_recordMapping_self]
    split_ifs with hk
    · rw [hk, Dict.update_cons, Dict.update_nil, Dict.get?_set_self]
    · rw [Dict.update_cons, Dict.update_nil, Dict.get?_set_of_ne hk]
      rfl
  have hlater := later_insert w.jobs ⟨.pending, none, false, some entry.jobPk⟩
  have hdeadLater : ∀ j, w.Dead j → ({ w with
      jobs := w.jobs.insert ⟨.pending, none, false, some entry.jobPk⟩ } : MigrationWorld).Dead j := by
    rintro j ⟨job, hjob, hrest⟩
    exact ⟨job, Table.row_insert_of_row hjob, hrest⟩
  -- the rows' states and schedules are what they were
  have hback : ∀ i a, (w.runs.modify pk fun _ =>
      row.recordRecreated entry.jobPk w.jobs.next).row i = some a →
        ∃ b, w.runs.row i = some b ∧ a.state = b.state ∧
          a.journal.schedules = b.journal.schedules ∧ a.journal.steps = b.journal.steps := by
    intro i a ha
    rcases row_modify_cases ha with ⟨rfl, rfl⟩ | ⟨-, ha⟩
    · exact ⟨row, hrow, rfl, hschedules, hsteps⟩
    · exact ⟨a, ha, rfl, rfl, rfl⟩
  refine ⟨fun i j a b ha hb hij => ?_, fun i a ha => ?_, fun i a ha e he => ?_,
    fun i a ha hdone e he => ?_, fun i j a b hij ha hb e he f hf hef => ?_,
    fun i a k v ha hv => ?_, fun v job j hjob hreplaced => ?_⟩
  · obtain ⟨a', ha', hsa, -⟩ := hback i a ha
    obtain ⟨b', hb', hsb, -⟩ := hback j b hb
    rw [hsa, hsb]
    exact h.one_open i j a' b' ha' hb' hij
  · obtain ⟨a', ha', hsa, -, hst⟩ := hback i a ha
    exact (h.steps i a' ha').congr hsa hst
  · obtain ⟨a', ha', -, hsc, -⟩ := hback i a ha
    exact (h.entries i a' ha' e (hsc ▸ he)).later hlater
  · obtain ⟨a', ha', -, hsc, hst⟩ := hback i a ha
    rw [Journal.stepDone, hst] at hdone
    exact h.resolved i a' ha' hdone e (hsc ▸ he)
  · obtain ⟨a', ha', -, hsa, -⟩ := hback i a ha
    obtain ⟨b', hb', -, hsb, -⟩ := hback j b hb
    exact (h.exclusive i j a' b' hij ha' hb' e (hsa ▸ he) f (hsb ▸ hf) hef).later hlater
  · rcases row_modify_cases ha with ⟨rfl, rfl⟩ | ⟨-, ha'⟩
    · rw [hmap] at hv
      rw [hschedules]
      split_ifs at hv with hk
      · exact ⟨entry, hentry, hk, hdeadLater _ hdead⟩
      · obtain ⟨e, he, hke, hde⟩ := h.recreated _ row k v hrow hv
        exact ⟨e, he, hke, hdeadLater _ hde⟩
    · obtain ⟨e, he, hke, hde⟩ := h.recreated i a k v ha' hv
      exact ⟨e, he, hke, hdeadLater _ hde⟩
  · rcases Table.row_insert_eq_some hjob with ⟨rfl, rfl⟩ | hold
    · obtain rfl := Option.some.inj hreplaced
      refine ⟨pk, row.recordRecreated entry.jobPk w.jobs.next, ?_, ?_⟩
      · rw [Table.row_modify_self, hrow]
        rfl
      · rw [hmap, if_pos rfl]
    · obtain ⟨i, a, ha, hv⟩ := h.replaced v job j hold hreplaced
      rcases eq_or_ne i pk with rfl | hi
      · obtain rfl := Option.some.inj (hrow.symm.trans ha)
        refine ⟨i, row.recordRecreated entry.jobPk w.jobs.next, ?_, ?_⟩
        · rw [Table.row_modify_self, hrow]
          rfl
        · rw [hmap, if_neg]
          · exact hv
          · intro hk
            rw [hk, hnew] at hv
            cases hv
      · exact ⟨i, a, (Table.row_modify_of_ne hi).trans ha, hv⟩

/-- **A run that is opened** while no other one is keeps the invariant. -/
theorem MigrationWorld.Inv.start (h : w.Inv)
    (hclosed : ∀ i row, w.runs.row i = some row → row.state = .migrated) :
    ({ w with runs := w.runs.insert ⟨.legacy, [], [], none, none⟩ } : MigrationWorld).Inv := by
  have hcases : ∀ i a, (w.runs.insert ⟨.legacy, [], [], none, none⟩).row i = some a →
      (i = w.runs.next ∧ a = ⟨.legacy, [], [], none, none⟩) ∨ w.runs.row i = some a :=
    fun i a ha => Table.row_insert_eq_some ha
  have hempty : Journal.schedules [] = [] := rfl
  refine ⟨fun i j a b ha hb hij => ?_, fun i a ha => ?_, fun i a ha e he => ?_,
    fun i a ha hdone e he => ?_, fun i j a b hij ha hb e he f hf hef => ?_,
    fun i a k v ha hv => ?_, fun v job j hjob hreplaced => ?_⟩
  · rcases hcases i a ha with ⟨rfl, -⟩ | ha
    · rcases hcases j b hb with ⟨rfl, -⟩ | hb
      · exact absurd rfl hij
      · exact .inr (hclosed j b hb)
    · exact .inl (hclosed i a ha)
  · rcases hcases i a ha with ⟨-, rfl⟩ | ha
    · refine ⟨fun name _ hdone => ?_, fun hdone => ?_, fun hstate => ?_⟩
      · cases hdone
      · cases hdone
      · cases hstate
    · exact h.steps i a ha
  · rcases hcases i a ha with ⟨-, rfl⟩ | ha
    · cases he
    · exact h.entries i a ha e he
  · rcases hcases i a ha with ⟨-, rfl⟩ | ha
    · cases he
    · exact h.resolved i a ha hdone e he
  · rcases hcases i a ha with ⟨-, rfl⟩ | ha
    · cases he
    · rcases hcases j b hb with ⟨-, rfl⟩ | hb
      · cases hf
      · exact h.exclusive i j a b hij ha hb e he f hf hef
  · rcases hcases i a ha with ⟨-, rfl⟩ | ha
    · cases hv
    · exact h.recreated i a k v ha hv
  · obtain ⟨i, a, ha, hv⟩ := h.replaced v job j hjob hreplaced
    exact ⟨i, a, Table.row_insert_of_row ha, hv⟩

end Keeping

end NetBoxScripts
