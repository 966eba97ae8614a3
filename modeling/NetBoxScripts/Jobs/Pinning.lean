import NetBoxScripts.Execution.Promise
import NetBoxScripts.Jobs.Queue
import NetBoxScripts.Services.Repair
import NetBoxScripts.Validation.Verdict

/-!
# What a run executes

A one-shot run is pinned when it is requested: whatever is activated, deleted or switched off
before a worker takes it, it executes the revision its project served then, or nothing. A
recurring run is pinned to nothing, and each occurrence executes what its project serves at that
time, with the inputs, the identity and the notifications that were asked for.

## Main definitions

* `Seen`, `Serves`, `Permitted`: what was so between two moments
* `Kept`, `TaskOf`, `Executed`: what holds of a Job row, of its task and of what it executed
* `Sane`: the invariant of the system

## Main results

* `Sane.insert`, `Sane.queue`, `Sane.execute`, `Sane.record`: what each statement keeps
* `executions_pinned`: what a run executes
* `occurrences_as_asked`: every occurrence of a recurring run
-/

namespace NetBoxScripts

namespace Runs

/-! ## What was so -/

section Facts

/-- It was so at a moment between two others. -/
def Seen (s : RunsState) (first last : ℕ) (fact : Tables → Prop) : Prop :=
  s.history.During first last fact

/-- The row of the script was so, and after that the row of its project. -/
def Found (s : RunsState) (first last : ℕ) (script : Id) (row : ScriptRow) (project : ProjectRow) :
    Prop :=
  ∃ middle, Seen s first middle (fun tables => tables.world.scripts.row script = some row) ∧
    Seen s middle last fun tables => tables.world.projects.row row.project = some project

/-- **Served**: the script and its project were enabled, and the revision was the active one. -/
def Serves (s : RunsState) (first last : ℕ) (script r : Id) : Prop :=
  ∃ row project, Found s first last script row project ∧ row.enabled = true ∧
    project.enabled = true ∧ project.activeRevision = some r

/-- The script was gone, or it and its project were enabled. -/
def Permitted (s : RunsState) (first last : ℕ) (script : Id) : Prop :=
  Seen s first last (fun tables => tables.world.scripts.row script = none) ∨
    ∃ row project, Found s first last script row project ∧ row.enabled = true ∧
      project.enabled = true

/-- The revision was there, with the digest. -/
def HasDigest (s : RunsState) (first last : ℕ) (r : Id) (digest : Option PyStr) : Prop :=
  Seen s first last fun tables => ∃ row, tables.world.revisions.row r = some row ∧
    row.digest = digest

/-- The settings of the script were so. -/
def HasSetting (s : RunsState) (first last : ℕ) (script : Id) (fact : LoadedScript → Prop) : Prop :=
  Seen s first last fun tables => ∃ row, tables.world.scripts.row script = some row ∧
    fact ⟨script, row, tables.overrides script⟩

/-- The state goes on: moments stay what they were, and rows and executions stay. -/
structure Extends (s s' : RunsState) : Prop where
  history : s.history.Extends s'.history
  jobs : ∀ j row, s.jobs.row j = some row → ∃ data, s'.jobs.row j = some { row with data }
  executions : ∀ e ∈ s.executions, e ∈ s'.executions

variable {s s' s'' : RunsState} {first last last' : ℕ} {script r : Id} {fact : Tables → Prop}

theorem Extends.refl : Extends s s := ⟨.refl _, fun _ row h => ⟨row.data, h⟩, fun _ h => h⟩

theorem Extends.trans (h : Extends s s') (h' : Extends s' s'') : Extends s s'' where
  history := h.history.trans h'.history
  jobs j row hrow := by
    obtain ⟨data, hrow⟩ := h.jobs j row hrow
    obtain ⟨data', hrow⟩ := h'.jobs j _ hrow
    exact ⟨data', hrow⟩
  executions e he := h'.executions e (h.executions e he)

theorem Extends.moment (h : Extends s s') : s.moment ≤ s'.moment := h.history.moment_le

theorem Seen.mono (h : Seen s first last fact) (hextends : Extends s s') (hlast : last ≤ last') :
    Seen s' first last' fact :=
  History.During.extend h hextends.history hlast

/-- What is so now. -/
theorem seen_now (hfirst : first ≤ s.moment) (hfact : fact s.tables) :
    Seen s first s.moment fact :=
  History.during_now hfirst hfact

theorem Found.mono {row : ScriptRow} {project : ProjectRow}
    (h : Found s first last script row project) (hextends : Extends s s') (hlast : last ≤ last') :
    Found s' first last' script row project := by
  obtain ⟨middle, hscript, hproject⟩ := h
  exact ⟨middle, hscript.mono hextends (le_refl _), hproject.mono hextends hlast⟩

theorem Serves.mono (h : Serves s first last script r) (hextends : Extends s s')
    (hlast : last ≤ last') : Serves s' first last' script r := by
  obtain ⟨row, project, hfound, hrest⟩ := h
  exact ⟨row, project, hfound.mono hextends hlast, hrest⟩

theorem Permitted.mono (h : Permitted s first last script) (hextends : Extends s s')
    (hlast : last ≤ last') : Permitted s' first last' script := by
  rcases h with hgone | ⟨row, project, hfound, hrest⟩
  · exact .inl (hgone.mono hextends hlast)
  · exact .inr ⟨row, project, hfound.mono hextends hlast, hrest⟩

end Facts

/-! ## The invariant -/

/-- **What holds of a Job row**, which keeps what it was created with. -/
structure Kept (s : RunsState) (j : Id) (row : RunJob) : Prop where
  since_le : row.since ≤ row.created
  created_le : row.created ≤ s.moment
  modulePath : row.payload.modulePath = row.asked.modulePath
  className : row.payload.className = row.asked.className
  commit : row.payload.commit = row.asked.commit
  event : row.payload.event = row.asked.event
  user : row.user = row.asked.user
  policy : row.notifications ∈ jobNotificationChoices
  revisionId : row.data.get? (py "revision_id") = some (.ofId? row.payload.revisionId)
  /-- The digest is the one that was pinned, or the one of what was executed. -/
  revisionDigest :
    row.data.get? (py "revision_digest") = some (.ofText? row.payload.revisionDigest) ∨
      ∃ e ∈ s.executions, e.job = j ∧ row.data.get? (py "revision_digest") = some (.str e.digest)
  snapshots : ∀ fields : Dict Json, row.data.get? (py "event") = some (.obj fields) →
    fields.get? (py "snapshots") = none
  pinned : isRecurring row.interval = false → ∃ r, row.payload.revisionId = some r ∧
    Serves s row.since row.created row.script r ∧
      HasDigest s row.since row.created r row.payload.revisionDigest
  unpinned : isRecurring row.interval = true → row.payload.revisionId = none
  inherited : isRecurring row.interval = true → row.asked.notifications = none →
    HasSetting s row.since row.created row.script fun script =>
      row.notifications = script.notificationsDefault
  chosen : isRecurring row.interval = true → ∀ policy, row.asked.notifications = some policy →
    policy ≠ [] → row.notifications = policy
  timeout : isRecurring row.interval = true → row.asked.jobTimeout = none →
    HasSetting s row.since row.created row.script fun script => row.jobTimeout = script.jobTimeout

/-- **What holds of the task** of a Job. -/
structure TaskOf (row : RunJob) (task : RunTask) : Prop where
  payload : task.payload = row.payload
  data : task.data = row.asked.data
  request : task.request = row.asked.request
  notificationsInherited : task.notificationsInherited = some row.asked.notifications.isNone
  recurring : isRecurring row.interval = true →
    ∀ upload ∈ uploadsOf task.data task.request, upload.isUpload = false
  temporary : ∀ upload ∈ uploadsOf task.data task.request, upload.isTemporary = false

/-- **What holds of what a Job executed.** -/
structure Executed (s : RunsState) (row : RunJob) (e : Execution) : Prop where
  created_le : row.created ≤ e.began
  reached_le : e.reached ≤ s.moment
  modulePath : e.modulePath = row.asked.modulePath
  className : e.className = row.asked.className
  commit : e.commit = row.asked.commit
  values : ∃ data, row.asked.data = some data ∧ e.values = runValues data row.asked.request
  permitted : Permitted s e.began e.reached row.script
  pinned : ∀ r, row.payload.revisionId = some r → e.revision = r
  unpinned : row.payload.revisionId = none → Serves s e.began e.reached row.script e.revision
  digest : HasDigest s e.began e.reached e.revision (some e.digest)

/-- **The invariant.** -/
structure Sane (s : RunsState) : Prop where
  history : s.history.Linked Tables.Later
  jobs : ∀ j row, s.jobs.row j = some row → Kept s j row
  tasks : ∀ j task, s.tasks j = some task → ∃ row, s.jobs.row j = some row ∧ TaskOf row task
  executions : ∀ e ∈ s.executions, ∃ row, s.jobs.row e.job = some row ∧ Executed s row e

section Invariant

variable {s s' : RunsState} {j : Id} {row : RunJob} {task : RunTask} {e : Execution}

theorem Kept.mono (h : Kept s j row) (hextends : Extends s s') : Kept s' j row where
  since_le := h.since_le
  created_le := h.created_le.trans hextends.moment
  modulePath := h.modulePath
  className := h.className
  commit := h.commit
  event := h.event
  user := h.user
  policy := h.policy
  revisionId := h.revisionId
  revisionDigest := by
    rcases h.revisionDigest with hpinned | ⟨e, he, hrest⟩
    · exact .inl hpinned
    · exact .inr ⟨e, hextends.executions e he, hrest⟩
  snapshots := h.snapshots
  pinned hrecurring := by
    obtain ⟨r, hpin, hserves, hdigest⟩ := h.pinned hrecurring
    exact ⟨r, hpin, hserves.mono hextends (le_refl _), hdigest.mono hextends (le_refl _)⟩
  unpinned := h.unpinned
  inherited hrecurring hasked := (h.inherited hrecurring hasked).mono hextends (le_refl _)
  chosen := h.chosen
  timeout hrecurring hasked := (h.timeout hrecurring hasked).mono hextends (le_refl _)

/-- What holds of a row that only its data changes. -/
theorem TaskOf.data_irrelevant {data : Dict Json} (h : TaskOf row task) :
    TaskOf { row with data } task :=
  ⟨h.payload, h.data, h.request, h.notificationsInherited, h.recurring, h.temporary⟩

theorem Executed.mono (h : Executed s row e) (hextends : Extends s s') (data : Dict Json) {n : ℕ}
    (hlater : e.reached ≤ n) (hn : n ≤ s'.moment) :
    Executed s' { row with data } { e with reached := n } where
  created_le := h.created_le
  reached_le := hn
  modulePath := h.modulePath
  className := h.className
  commit := h.commit
  values := h.values
  permitted := h.permitted.mono hextends hlater
  pinned := h.pinned
  unpinned hpin := (h.unpinned hpin).mono hextends hlater
  digest := h.digest.mono hextends hlater

/-- What was executed, in a later state. -/
theorem Sane.executions_mono (h : Sane s) (hextends : Extends s s') (he : e ∈ s.executions) :
    ∃ row, s'.jobs.row e.job = some row ∧ Executed s' row e := by
  obtain ⟨row, hrow, hexecuted⟩ := h.executions e he
  obtain ⟨data, hrow'⟩ := hextends.jobs e.job row hrow
  exact ⟨_, hrow', hexecuted.mono hextends data (le_refl _)
    (hexecuted.reached_le.trans hextends.moment)⟩

/-- The tables change. -/
theorem extends_change {change : TablesChange} :
    Extends s { s with history := s.history.push (change.apply s.tables) } :=
  ⟨History.extends_push, fun _ row h => ⟨row.data, h⟩, fun _ h => h⟩

theorem Sane.change (h : Sane s) (change : TablesChange) :
    Sane { s with history := s.history.push (change.apply s.tables) } where
  history := h.history.push Tables.Later.refl (fun _ _ _ => Tables.Later.trans)
    (change.later s.tables)
  jobs j row hrow := (h.jobs j row hrow).mono extends_change
  tasks := h.tasks
  executions _ he := h.executions_mono extends_change he

/-- A row is inserted. -/
theorem extends_insert : Extends s { s with jobs := s.jobs.insert row } :=
  ⟨.refl _, fun _ row hrow => ⟨row.data, Table.row_insert_of_row hrow⟩, fun _ h => h⟩

theorem Sane.insert (h : Sane s) (hrow : Kept s s.jobs.next row) :
    Sane { s with jobs := s.jobs.insert row } where
  history := h.history
  jobs j other hother := by
    rw [Table.row_insert] at hother
    split_ifs at hother with hj
    · subst hj
      obtain rfl := Option.some.inj hother
      exact hrow.mono extends_insert
    · exact (h.jobs j other hother).mono extends_insert
  tasks j task htask := by
    obtain ⟨other, hother, htaskOf⟩ := h.tasks j task htask
    exact ⟨other, Table.row_insert_of_row hother, htaskOf⟩
  executions _ he := h.executions_mono extends_insert he

/-- A task is handed over. -/
theorem extends_queue : Extends s { s with tasks := Function.update s.tasks j (some task) } :=
  ⟨.refl _, fun _ row h => ⟨row.data, h⟩, fun _ h => h⟩

theorem Sane.queue (h : Sane s) (hrow : s.jobs.row j = some row) (htask : TaskOf row task) :
    Sane { s with tasks := Function.update s.tasks j (some task) } where
  history := h.history
  jobs j row hrow := (h.jobs j row hrow).mono extends_queue
  tasks i other hother := by
    simp only [Function.update_apply] at hother
    split_ifs at hother with hi
    · subst hi
      obtain rfl := Option.some.inj hother
      exact ⟨row, hrow, htask⟩
    · exact h.tasks i other hother
  executions _ he := h.executions_mono extends_queue he

/-- A class is run. -/
theorem extends_execute : Extends s { s with executions := s.executions ++ [e] } :=
  ⟨.refl _, fun _ row h => ⟨row.data, h⟩, fun _ h => List.mem_append_left _ h⟩

theorem Sane.execute (h : Sane s) (hrow : s.jobs.row e.job = some row)
    (hexecuted : Executed s row e) : Sane { s with executions := s.executions ++ [e] } where
  history := h.history
  jobs j row hrow := (h.jobs j row hrow).mono extends_execute
  tasks := h.tasks
  executions other hother := by
    rcases List.mem_append.mp hother with hother | hother
    · exact h.executions_mono extends_execute hother
    · obtain rfl := List.mem_singleton.mp hother
      exact ⟨row, hrow, hexecuted.mono extends_execute row.data (le_refl _) hexecuted.reached_le⟩

/-- Rows go, and come back. -/
theorem extends_gone (gone : Id → Bool) : Extends s { s with gone } :=
  ⟨.refl _, fun _ row h => ⟨row.data, h⟩, fun _ h => h⟩

theorem Sane.gone (h : Sane s) (gone : Id → Bool) : Sane { s with gone } where
  history := h.history
  jobs j row hrow := (h.jobs j row hrow).mono (extends_gone gone)
  tasks := h.tasks
  executions _ he := h.executions_mono (extends_gone gone) he

/-- Rows and tasks go. -/
theorem extends_removal (gone dropped : Id → Bool) : Extends s
    { s with gone, tasks := fun j => if dropped j then none else s.tasks j } :=
  ⟨.refl _, fun _ row h => ⟨row.data, h⟩, fun _ h => h⟩

theorem Sane.removal (h : Sane s) (gone dropped : Id → Bool) :
    Sane { s with gone, tasks := fun j => if dropped j then none else s.tasks j } where
  history := h.history
  jobs j row hrow := (h.jobs j row hrow).mono (extends_removal gone dropped)
  tasks j task htask := by
    dsimp only at htask
    split_ifs at htask
    exact h.tasks j task htask
  executions _ he := h.executions_mono (extends_removal gone dropped) he

/-- A result joins the pin. -/
theorem extends_record (j : Id) (entries : Dict Json) : Extends s { s with
    jobs := s.jobs.modify j fun row => { row with data := row.data.update entries } } where
  history := .refl _
  jobs i row hrow := by
    by_cases hi : i = j
    · subst hi
      exact ⟨_, (Table.row_modify_self ..).trans (congrArg _ hrow)⟩
    · exact ⟨row.data, (Table.row_modify_of_ne hi).trans hrow⟩
  executions _ h := h

theorem Sane.record (h : Sane s) (he : e ∈ s.executions) {sanitize : PyStr → PyStr}
    {ended : ScriptInstance} : Sane { s with
      jobs := s.jobs.modify e.job fun row =>
        { row with data := row.data.update (runRecord sanitize ended e.digest) } } where
  history := h.history
  jobs i row hrow := by
    obtain ⟨old, hold, rfl⟩ := Table.row_modify_eq_some hrow
    have hkept := (h.jobs i old hold).mono (extends_record e.job
      (runRecord sanitize ended e.digest))
    split_ifs with hi
    · have hother : ∀ key, key ∉ [py "log", py "output", py "revision_digest"] →
          (old.data.update (runRecord sanitize ended e.digest)).get? key = old.data.get? key :=
        fun key hkey => Dict.get?_update_of_notMem hkey
      exact
        { hkept with
          revisionId := (hother _ (by decide)).trans hkept.revisionId
          revisionDigest := .inr ⟨e, he, hi.symm, Dict.get?_set_self⟩
          snapshots := fun fields hfields =>
            hkept.snapshots fields ((hother _ (by decide)).symm.trans hfields) }
    · exact hkept
  tasks i task htask := by
    obtain ⟨row, hrow, htaskOf⟩ := h.tasks i task htask
    obtain ⟨data, hrow'⟩ := (extends_record e.job
      (runRecord sanitize ended e.digest)).jobs i row hrow
    exact ⟨_, hrow', htaskOf.data_irrelevant⟩
  executions _ hother := h.executions_mono (extends_record _ _) hother

end Invariant

/-! ## Programs -/

section Rules

variable {Cls Database : Type} {α β : Type} {t : ThreadId} {s : RunsState}

/-- What every statement does. -/
def Forward (_ : ThreadId) (s s' : RunsState) : Prop := Extends s s' ∧ (Sane s → Sane s')

/-- From a sane state on, every statement goes forward, and where the program returns it ends in
the postcondition. -/
abbrev Walks {α : Type} (t : ThreadId) (prog : RunProg Cls Database α)
    (post : α → RunsState → Prop) (s : RunsState) : Prop :=
  wp Forward t (Forward t) prog (andThen post fun _ _ => True) s

variable {prog : RunProg Cls Database α} {post : α → RunsState → Prop}

theorem rely_forward {s' : RunsState} (h : Rely Forward t s s') : Forward t s s' := by
  induction h with
  | refl => exact ⟨.refl, id⟩
  | tail _ hstep ih =>
    obtain ⟨u, -, hextends, hsane⟩ := hstep
    exact ⟨ih.1.trans hextends, fun hs => hsane (ih.2 hs)⟩

theorem walks_pure {a : α} (h : post a s) :
    Walks t (pure a : RunProg Cls Database α) post s := h

theorem walks_raise {e : RunFailure} : Walks t (.raise e : RunProg Cls Database α) post s :=
  trivial

theorem walks_ofExcept {result : Except RunFailure α} (h : ∀ a, result = .ok a → post a s) :
    Walks t (.ofExcept result : RunProg Cls Database α) post s := by
  cases result with
  | ok a => exact h a rfl
  | error e => trivial

theorem walks_bind {f : α → RunProg Cls Database β} {post' : β → RunsState → Prop}
    (h : Walks t prog post s) (hf : ∀ a s', post a s' → Walks t (f a) post' s') :
    Walks t (prog >>= f) post' s := by
  rw [Walks, wp_bind]
  refine wp_mono (fun result s₁ h₁ => ?_) h
  cases result with
  | ok a => exact hf a s₁ h₁
  | error e => trivial

theorem walks_attempt (h : Walks t prog (fun _ _ => True) s) :
    Walks t prog.attempt (fun _ _ => True) s := by
  rw [Walks, wp_attempt]
  exact wp_mono (fun _ _ _ => trivial) h

/-- One statement. -/
theorem walks_stmt {step : ThreadId → RunChoice Cls Database → RunsState →
      Option (Except RunFailure α × RunsState)} (hs : Sane s)
    (h : ∀ s', Extends s s' → Sane s' → ∀ c result s'', step t c s' = some (result, s'') →
      Extends s' s'' ∧ Sane s'' ∧ ∀ a, result = .ok a → post a s'') :
    Walks t (.stmt step) post s := by
  intro s' hrely c result s'' hstep
  obtain ⟨hextends, hsane⟩ := rely_forward hrely
  obtain ⟨hextends', hsane', hpost⟩ := h s' hextends (hsane hs) c result s'' hstep
  refine ⟨⟨hextends', fun _ => hsane'⟩, ?_⟩
  cases result with
  | ok a => exact hpost a rfl
  | error e => trivial

/-- One statement that reads. -/
theorem walks_read {read : RunChoice Cls Database → RunsState → Except RunFailure α}
    (hs : Sane s) (h : ∀ s', Extends s s' → Sane s' → ∀ c a, read c s' = .ok a → post a s') :
    Walks t (.stmt fun _ c s => some (read c s, s)) post s := by
  refine walks_stmt hs fun s' hextends hs' c result s'' hstep => ?_
  cases hstep
  exact ⟨.refl, hs', fun a hread => h s' hextends hs' c a hread⟩

/-- One statement whose answer does not matter. -/
theorem walks_glance {read : RunChoice Cls Database → RunsState → Except RunFailure α}
    (hs : Sane s) :
    Walks t (.stmt fun _ c s => some (read c s, s))
      (fun _ s' => Extends s s' ∧ Sane s') s :=
  walks_read hs fun _ hextends hs' _ _ _ => ⟨hextends, hs'⟩

theorem walks_query {read : RunsState → α} (hs : Sane s)
    (h : ∀ s', Extends s s' → Sane s' → post (read s') s') :
    Walks t (.query read : RunProg Cls Database α) post s :=
  walks_read hs fun s' hextends hs' _ a hread => by
    cases hread
    exact h s' hextends hs'

/-! ## What is read -/

/-- The state went on, and is sane. -/
def Went (s s' : RunsState) : Prop := Extends s s' ∧ Sane s'

variable {first : ℕ}

theorem walks_moment (hs : Sane s) : Walks t (.query RunsState.moment : RunProg Cls Database ℕ)
    (fun n s' => Went s s' ∧ n = s'.moment) s :=
  walks_query hs fun _ hextends hs' => ⟨⟨hextends, hs'⟩, rfl⟩

theorem walks_loadScript {pk : Id} (hs : Sane s) (hfirst : first ≤ s.moment) :
    Walks t (loadScript pk : RunProg Cls Database _) (fun loaded s' => Went s s' ∧
      match loaded with
      | none => Seen s' first s'.moment fun tables => tables.world.scripts.row pk = none
      | some script => script.pk = pk ∧ Seen s' first s'.moment fun tables =>
        tables.world.scripts.row pk = some script.row ∧
          tables.overrides pk = script.overrides) s := by
  refine walks_query hs fun s' hextends hs' => ⟨⟨hextends, hs'⟩, ?_⟩
  have hfirst' := hfirst.trans hextends.moment
  cases hrow : s'.tables.world.scripts.row pk with
  | none => exact seen_now hfirst' hrow
  | some row => exact ⟨rfl, seen_now hfirst' ⟨hrow, rfl⟩⟩

theorem walks_loadProject {p : Id} (hs : Sane s) :
    Walks t (loadProject p : RunProg Cls Database _) (fun project s' => Went s s' ∧
      Seen s' s.moment s'.moment fun tables =>
        tables.world.projects.row p = some project) s := by
  refine walks_read hs fun s' hextends hs' c project hread => ⟨⟨hextends, hs'⟩, ?_⟩
  cases hrow : s'.tables.world.projects.row p with
  | none =>
    rw [hrow] at hread
    cases hread
  | some row =>
    rw [hrow] at hread
    cases hread
    exact seen_now hextends.moment hrow

theorem walks_loadRevision {r : Id} (hs : Sane s) (hfirst : first ≤ s.moment) :
    Walks t (loadRevision r : RunProg Cls Database _) (fun row s' => Went s s' ∧
      ∀ row' ∈ row, HasDigest s' first s'.moment r row'.digest) s := by
  refine walks_query hs fun s' hextends hs' => ⟨⟨hextends, hs'⟩, fun row' hrow' => ?_⟩
  exact seen_now (hfirst.trans hextends.moment) ⟨row', hrow', rfl⟩

/-- The active revision of a project that was read. -/
theorem walks_activeRevisionOf {project : ProjectRow} (hs : Sane s) (hfirst : first ≤ s.moment) :
    Walks t (activeRevisionOf project : RunProg Cls Database _) (fun revision s' => Went s s' ∧
      revision.map Prod.fst = project.activeRevision ∧
        ∀ found ∈ revision, HasDigest s' first s'.moment found.1 found.2.digest) s := by
  unfold activeRevisionOf
  cases project.activeRevision with
  | none => exact walks_pure ⟨⟨.refl, hs⟩, rfl, by simp⟩
  | some r =>
    refine walks_bind (walks_loadRevision hs hfirst) ?_
    rintro (- | row) s' ⟨hwent, hdigest⟩
    · exact walks_raise
    · refine walks_pure ⟨hwent, rfl, ?_⟩
      rintro found hfound
      obtain rfl := Option.some.inj hfound
      exact hdigest row rfl

/-! ## Requests -/

theorem walks_requireSafeRouting (hs : Sane s) :
    Walks t (requireSafeRouting : RunProg Cls Database Unit) (fun _ => Went s) s := by
  refine walks_bind (walks_glance hs) fun reason s' hwent => ?_
  cases reason with
  | some reason => exact walks_raise
  | none => exact walks_pure hwent

/-- A script that may run, and its project. -/
theorem walks_requireExecutable {script : LoadedScript} (hs : Sane s)
    (hscript : Seen s first s.moment fun tables =>
      tables.world.scripts.row script.pk = some script.row) :
    Walks t (requireExecutable script : RunProg Cls Database _) (fun project s' => Went s s' ∧
      Found s' first s'.moment script.pk script.row project ∧ script.row.enabled = true ∧
        project.enabled = true ∧ project.activeRevision ≠ none) s := by
  unfold requireExecutable
  split
  · exact walks_raise
  next hown =>
  refine walks_bind (walks_loadProject hs) ?_
  rintro project s' ⟨hwent, hproject⟩
  split
  · exact walks_raise
  next hrefusal =>
  have henabled : script.row.enabled = true := by
    unfold LoadedScript.ownRefusal at hown
    split_ifs at hown with hdisabled
    exact Bool.eq_true_of_not_eq_false hdisabled
  refine walks_pure ⟨hwent, ⟨s.moment, hscript.mono hwent.1 (le_refl _), hproject⟩, henabled, ?_⟩
  unfold ProjectRow.refusal at hrefusal
  split_ifs at hrefusal with hdisabled hnothing
  exact ⟨Bool.eq_true_of_not_eq_false hdisabled, hnothing⟩

/-- What a preparation that refuses nothing makes. -/
structure Prepared (script : LoadedScript) (kwargs : EnqueueArgs) (asked : Asked) (since : ℕ)
    (row : RunJob) (task : RunTask) : Prop where
  script_eq : row.script = script.pk
  user_eq : row.user = kwargs.user
  interval_eq : row.interval = kwargs.interval
  asked_eq : row.asked = asked
  since_eq : row.since = since
  data_eq : row.data = rowData row.payload
  pinned : isRecurring kwargs.interval = false → row.payload.revisionId = kwargs.revisionId ∧
    row.payload.revisionDigest = kwargs.revisionDigest
  unpinned : isRecurring kwargs.interval = true → row.payload.revisionId = none
  modulePath_eq : row.payload.modulePath = kwargs.modulePath.getD script.row.modulePath
  className_eq : row.payload.className = kwargs.className.getD script.row.className
  commit_eq : row.payload.commit = kwargs.commit.getD script.commitDefault
  event_eq : row.payload.event = kwargs.event
  chosen : (isRecurring kwargs.interval && kwargs.notificationsInherited.getD true) = false →
    ∀ policy, kwargs.notifications = some policy → row.notifications = policy
  inherited : (isRecurring kwargs.interval && kwargs.notificationsInherited.getD true) = true →
    row.notifications = script.notificationsDefault ∧
      script.notificationsDefault ∈ jobNotificationChoices
  timeout_eq : row.jobTimeout = kwargs.jobTimeout.getD script.jobTimeout
  task_eq : task = ⟨row.payload, kwargs.data, kwargs.request, kwargs.notificationsInherited⟩
  recurring : isRecurring kwargs.interval = true →
    ∀ upload ∈ uploadsOf kwargs.data kwargs.request, upload.isUpload = false
  temporary : ∀ upload ∈ uploadsOf kwargs.data kwargs.request, upload.isTemporary = false

omit t s in
theorem policyFor_none {script : LoadedScript} :
    script.policyFor none = script.notificationsDefault := by
  rw [LoadedScript.policyFor, Option.getD_none, firstTrue_cons, if_pos rfl, firstTrue_cons]
  split_ifs with h
  · exact h.symm
  · rfl

omit t s in
theorem policyFor_some {script : LoadedScript} {policy : PyStr} (h : policy ≠ []) :
    script.policyFor (some policy) = policy := by
  rw [LoadedScript.policyFor, Option.getD_some, firstTrue_cons, if_neg h]

omit t s in
theorem prepared_of_ok {script : LoadedScript} {kwargs : EnqueueArgs} {asked : Asked} {since : ℕ}
    {row : RunJob} {task : RunTask}
    (h : prepareRun script kwargs asked since = .ok (row, task)) :
    Prepared script kwargs asked since row task := by
  unfold prepareRun at h
  obtain ⟨⟨timeout, policy⟩, hsettings, h⟩ := Except.bind_eq_ok_iff.mp h
  have hvalid : script.runSettings (if isRecurring kwargs.interval &&
      kwargs.notificationsInherited.getD true then none else kwargs.notifications) =
        .ok (timeout, policy) := by
    revert hsettings
    cases script.runSettings (if isRecurring kwargs.interval &&
      kwargs.notificationsInherited.getD true then none else kwargs.notifications) with
    | error error => exact fun h => by cases h
    | ok settings => exact fun h => by cases h; rfl
  obtain ⟨⟨rfl, -⟩, rfl, hpolicy⟩ := runSettings_eq_ok.mp hvalid
  dsimp only at h
  by_cases huploads : (isRecurring kwargs.interval &&
    (uploadsOf kwargs.data kwargs.request).any InputValue.isUpload) = true
  · rw [if_pos huploads] at h
    cases h
  rw [if_neg huploads] at h
  by_cases htemporary : (uploadsOf kwargs.data kwargs.request).any InputValue.isTemporary = true
  · rw [if_pos htemporary] at h
    cases h
  rw [if_neg htemporary] at h
  cases h
  have hnone : ∀ p : InputValue → Bool, (uploadsOf kwargs.data kwargs.request).any p = false →
      ∀ upload ∈ uploadsOf kwargs.data kwargs.request, p upload = false := by
    intro p hp
    simpa using hp
  refine
    { script_eq := rfl, user_eq := rfl, interval_eq := rfl, asked_eq := rfl, since_eq := rfl
      data_eq := rfl
      pinned := fun hrecurring => ?_, unpinned := fun hrecurring => ?_
      modulePath_eq := rfl, className_eq := rfl, commit_eq := rfl, event_eq := rfl
      chosen := fun hinherited chosen hchosen => ?_, inherited := fun hinherited => ?_
      timeout_eq := rfl, task_eq := rfl, recurring := fun hrecurring => hnone _ ?_
      temporary := hnone _ (Bool.eq_false_iff.mpr htemporary) }
  · simp [hrecurring]
  · simp [hrecurring]
  · simp [hinherited, hchosen]
  · rw [if_pos hinherited, policyFor_none] at hpolicy
    refine ⟨?_, hpolicy⟩
    simp only [hinherited, if_true, policyFor_none]
  · rw [hrecurring, Bool.true_and, Bool.not_eq_true] at huploads
    exact huploads

/-- The arguments of `enqueue` are what was asked for. -/
structure AsAsked (s : RunsState) (kwargs : EnqueueArgs) (asked : Asked) (since : ℕ) : Prop where
  since_le : since ≤ s.moment
  modulePath : kwargs.modulePath = some asked.modulePath
  className : kwargs.className = some asked.className
  commit : kwargs.commit = some asked.commit
  event : kwargs.event = asked.event
  data : kwargs.data = asked.data
  request : kwargs.request = asked.request
  user : kwargs.user = asked.user
  notificationsInherited : kwargs.notificationsInherited = some asked.notifications.isNone
  policy : ∃ policy, kwargs.notifications = some policy ∧ policy ∈ jobNotificationChoices ∧
    ∀ chosen, asked.notifications = some chosen → chosen ≠ [] → policy = chosen
  timeout : asked.jobTimeout = none → ∀ timeout, kwargs.jobTimeout = some timeout →
    HasSetting s since s.moment kwargs.script fun script => timeout = script.jobTimeout
  pinned : isRecurring kwargs.interval = false → ∃ r, kwargs.revisionId = some r ∧
    Serves s since s.moment kwargs.script r ∧ HasDigest s since s.moment r kwargs.revisionDigest

theorem AsAsked.mono {s' : RunsState} {kwargs : EnqueueArgs} {asked : Asked} {since : ℕ}
    (h : AsAsked s kwargs asked since) (hextends : Extends s s') :
    AsAsked s' kwargs asked since :=
  { h with
    since_le := h.since_le.trans hextends.moment
    timeout := fun hasked timeout hset =>
      (h.timeout hasked timeout hset).mono hextends hextends.moment
    pinned := fun hrecurring => by
      obtain ⟨r, hpin, hserves, hdigest⟩ := h.pinned hrecurring
      exact ⟨r, hpin, hserves.mono hextends hextends.moment,
        hdigest.mono hextends hextends.moment⟩ }

/-- The settings of a script that was read. -/
theorem hasSetting_of_seen {script : LoadedScript} {last : ℕ} {fact : LoadedScript → Prop}
    (h : Seen s first last fun tables => tables.world.scripts.row script.pk = some script.row ∧
      tables.overrides script.pk = script.overrides) (hfact : fact script) :
    HasSetting s first last script.pk fact := by
  obtain ⟨i, tables, hi, hlast, hat, hrow, hoverrides⟩ := h
  exact ⟨i, tables, hi, hlast, hat, script.row, hrow, hoverrides ▸ hfact⟩

/-- What holds of the row that is inserted. -/
theorem Prepared.kept {script : LoadedScript} {kwargs : EnqueueArgs} {asked : Asked} {since : ℕ}
    {row : RunJob} {task : RunTask} {j : Id} (h : Prepared script kwargs asked since row task)
    (hasked : AsAsked s kwargs asked since) (hscript : script.pk = kwargs.script)
    (hseen : Seen s since s.moment fun tables =>
      tables.world.scripts.row script.pk = some script.row ∧
        tables.overrides script.pk = script.overrides) :
    Kept s j { row with created := s.moment } where
  since_le := h.since_eq ▸ hasked.since_le
  created_le := le_refl _
  modulePath := by
    show row.payload.modulePath = row.asked.modulePath
    rw [h.modulePath_eq, hasked.modulePath, h.asked_eq, Option.getD_some]
  className := by
    show row.payload.className = row.asked.className
    rw [h.className_eq, hasked.className, h.asked_eq, Option.getD_some]
  commit := by
    show row.payload.commit = row.asked.commit
    rw [h.commit_eq, hasked.commit, h.asked_eq, Option.getD_some]
  event := h.event_eq.trans (hasked.event.trans (congrArg Asked.event h.asked_eq.symm))
  user := h.user_eq.trans (hasked.user.trans (congrArg Asked.user h.asked_eq.symm))
  policy := by
    obtain ⟨policy, hgiven, hvalid, -⟩ := hasked.policy
    cases hinherited : isRecurring kwargs.interval && kwargs.notificationsInherited.getD true with
    | true =>
      obtain ⟨hpolicy, hvalid⟩ := h.inherited hinherited
      exact hpolicy ▸ hvalid
    | false => exact h.chosen hinherited policy hgiven ▸ hvalid
  revisionId := h.data_eq ▸ get?_rowData_revisionId
  revisionDigest := .inl (h.data_eq ▸ get?_rowData_revisionDigest)
  snapshots fields hfields := rowData_without_snapshots (h.data_eq ▸ hfields)
  pinned hrecurring := by
    have hrecurring : isRecurring kwargs.interval = false := h.interval_eq ▸ hrecurring
    obtain ⟨hpin, hdigest⟩ := h.pinned hrecurring
    obtain ⟨r, hr, hserves, hrow⟩ := hasked.pinned hrecurring
    refine ⟨r, hpin.trans hr, ?_, ?_⟩
    · show Serves s row.since s.moment row.script r
      rwa [h.since_eq, h.script_eq, hscript]
    · show HasDigest s row.since s.moment r row.payload.revisionDigest
      rwa [h.since_eq, hdigest]
  unpinned hrecurring := h.unpinned (h.interval_eq ▸ hrecurring)
  inherited hrecurring hnone := by
    have hnone : asked.notifications = none := by rw [← h.asked_eq]; exact hnone
    have hinherited : (isRecurring kwargs.interval &&
        kwargs.notificationsInherited.getD true) = true := by
      rw [← h.interval_eq, show isRecurring row.interval = true from hrecurring,
        hasked.notificationsInherited, hnone]
      rfl
    show HasSetting s row.since s.moment row.script _
    rw [h.since_eq, h.script_eq]
    exact hasSetting_of_seen hseen (h.inherited hinherited).1
  chosen hrecurring policy hpolicy hne := by
    have hpolicy : asked.notifications = some policy := by rw [← h.asked_eq]; exact hpolicy
    have hinherited : (isRecurring kwargs.interval &&
        kwargs.notificationsInherited.getD true) = false := by
      rw [hasked.notificationsInherited, hpolicy]
      exact Bool.and_false _
    obtain ⟨given, hgiven, -, hsame⟩ := hasked.policy
    exact (h.chosen hinherited given hgiven).trans (hsame policy hpolicy hne)
  timeout hrecurring hnone := by
    have hnone : asked.jobTimeout = none := by rw [← h.asked_eq]; exact hnone
    show HasSetting s row.since s.moment row.script fun script =>
      row.jobTimeout = script.jobTimeout
    rw [h.since_eq, h.script_eq, h.timeout_eq]
    cases htimeout : kwargs.jobTimeout with
    | none => exact hasSetting_of_seen hseen rfl
    | some timeout => exact hscript ▸ hasked.timeout hnone timeout htimeout

/-- What holds of the task that is handed over. -/
theorem Prepared.taskOf {script : LoadedScript} {kwargs : EnqueueArgs} {asked : Asked} {since : ℕ}
    {row : RunJob} {task : RunTask} {n : ℕ} (h : Prepared script kwargs asked since row task)
    (hasked : AsAsked s kwargs asked since) : TaskOf { row with created := n } task := by
  have hasked_eq := h.asked_eq
  obtain rfl := h.task_eq
  refine ⟨rfl, ?_, ?_, ?_, fun hrecurring => h.recurring (h.interval_eq ▸ hrecurring),
    h.temporary⟩
  · exact hasked.data.trans (congrArg Asked.data hasked_eq.symm)
  · exact hasked.request.trans (congrArg Asked.request hasked_eq.symm)
  · show kwargs.notificationsInherited = some row.asked.notifications.isNone
    rw [hasked.notificationsInherited, hasked_eq]

/-- A row that is sane when it is inserted. -/
theorem walks_insertJob {row : RunJob} (hs : Sane s)
    (hkept : ∀ s' j, Extends s s' → Kept s' j { row with created := s'.moment }) :
    Walks t (insertJob row : RunProg Cls Database Id) (fun j s' => Went s s' ∧
      ∃ n, s'.jobs.row j = some { row with created := n } ∧ n = s'.moment) s := by
  refine walks_stmt hs fun s' hextends hs' c result s'' hstep => ?_
  cases hstep
  have hsane := hs'.insert (hkept s' s'.jobs.next hextends)
  refine ⟨extends_insert, hsane, fun j hj => ?_⟩
  cases hj
  exact ⟨⟨hextends.trans extends_insert, hsane⟩, s'.moment,
    by simp [Table.row_insert], rfl⟩

theorem walks_queueTask {row : RunJob} {task : RunTask} {j : Id} (hs : Sane s)
    (hrow : s.jobs.row j = some row) (htask : TaskOf row task) :
    Walks t (queueTask j task : RunProg Cls Database Unit) (fun _ _ => True) s := by
  refine walks_stmt hs fun s' hextends hs' c result s'' hstep => ?_
  cases hstep
  obtain ⟨data, hrow'⟩ := hextends.jobs j row hrow
  exact ⟨extends_queue, hs'.queue hrow' htask.data_irrelevant, fun _ _ => trivial⟩

/-- **`enqueue`** makes a row and a task that are as asked. -/
theorem walks_enqueue {kwargs : EnqueueArgs} {asked : Asked} {since : ℕ} (hs : Sane s)
    (hasked : AsAsked s kwargs asked since) :
    Walks t (enqueue kwargs asked since : RunProg Cls Database Unit) (fun _ _ => True) s := by
  unfold enqueue
  split_ifs
  · exact walks_raise
  refine walks_bind (walks_loadScript hs hasked.since_le) ?_
  rintro (- | script) s₁ ⟨hwent, hloaded⟩
  · exact walks_raise
  obtain ⟨hpk, hseen⟩ := hloaded
  rw [← hpk] at hseen
  have hprepare : Walks t (.ofExcept (prepareRun script kwargs asked since) :
      RunProg Cls Database _) (fun prepared s' => s' = s₁ ∧
        Prepared script kwargs asked since prepared.1 prepared.2) s₁ :=
    walks_ofExcept fun prepared hprepared => ⟨rfl, prepared_of_ok hprepared⟩
  refine walks_bind hprepare ?_
  rintro ⟨row, task⟩ s₂ ⟨rfl, hprepared⟩
  have hkept : ∀ s' j, Extends s₂ s' → Kept s' j { row with created := s'.moment } :=
    fun s' j hextends => hprepared.kept (hasked.mono (hwent.1.trans hextends)) hpk
      (hseen.mono hextends hextends.moment)
  refine walks_bind (walks_insertJob hwent.2 hkept) ?_
  rintro j s₃ ⟨hwent₃, n, hrow, -⟩
  exact walks_queueTask hwent₃.2 hrow (hprepared.taskOf hasked)

/-! ## Runs -/

/-- The Job that a worker runs. -/
structure Running (s : RunsState) (j : Id) (row : RunJob) (task : RunTask) : Prop where
  present : ∃ data, s.jobs.row j = some { row with data }
  payload : task.payload = row.payload
  data : task.data = row.asked.data
  request : task.request = row.asked.request

theorem Running.mono {s' : RunsState} {j : Id} {row : RunJob} {task : RunTask}
    (h : Running s j row task) (hextends : Extends s s') : Running s' j row task := by
  obtain ⟨data, hrow⟩ := h.present
  obtain ⟨data', hrow'⟩ := hextends.jobs j _ hrow
  exact { h with present := ⟨data', hrow'⟩ }

/-- The checks of `enabled`: what is permitted, and which project was read. -/
theorem walks_requireEnabled {script : Id} {loaded : Option LoadedScript} (hs : Sane s)
    (hloaded : match loaded with
      | none => Seen s first s.moment fun tables => tables.world.scripts.row script = none
      | some loaded => loaded.pk = script ∧ Seen s first s.moment fun tables =>
        tables.world.scripts.row script = some loaded.row ∧
          tables.overrides script = loaded.overrides) :
    Walks t (requireEnabled loaded : RunProg Cls Database _) (fun project s' => Went s s' ∧
      Permitted s' first s'.moment script ∧
        ∀ read ∈ project, ∀ r, read.activeRevision = some r →
          Serves s' first s'.moment script r) s := by
  cases loaded with
  | none => exact walks_pure ⟨⟨.refl, hs⟩, .inl hloaded, by simp⟩
  | some loaded =>
    obtain ⟨-, hseen⟩ := hloaded
    rw [requireEnabled]
    split_ifs with hdisabled
    · exact walks_raise
    refine walks_bind (walks_loadProject hs) ?_
    rintro project s' ⟨hwent, hproject⟩
    split_ifs with hproject_disabled
    · exact walks_raise
    have hfound : Found s' first s'.moment script loaded.row project := by
      refine ⟨s.moment, ?_, hproject⟩
      obtain ⟨i, tables, hi, hlast, hat, hrow, -⟩ := hseen.mono hwent.1 (le_refl _)
      exact ⟨i, tables, hi, hlast, hat, hrow⟩
    have henabled := Bool.eq_true_of_not_eq_false hdisabled
    have hproject_enabled := Bool.eq_true_of_not_eq_false hproject_disabled
    refine walks_pure ⟨hwent, .inr ⟨_, _, hfound, henabled, hproject_enabled⟩, ?_⟩
    rintro read hread r hr
    obtain rfl := Option.some.inj hread
    exact ⟨_, _, hfound, henabled, hproject_enabled, hr⟩

/-- **The revision of a run**: the one that is pinned, or the one that is served. -/
theorem walks_revisionFor {script : Id} {pin : Option Id} {project : Option ProjectRow}
    (hs : Sane s) (hfirst : first ≤ s.moment)
    (hproject : ∀ read ∈ project, ∀ r, read.activeRevision = some r →
      Serves s first s.moment script r) :
    Walks t (revisionFor pin project : RunProg Cls Database _) (fun revision s' => Went s s' ∧
      HasDigest s' first s'.moment revision.1 revision.2.digest ∧
        (∀ r, pin = some r → revision.1 = r) ∧
          (pin = none → Serves s' first s'.moment script revision.1)) s := by
  unfold revisionFor
  cases pin with
  | some r =>
    refine walks_bind (walks_loadRevision hs hfirst) ?_
    rintro (- | row) s' ⟨hwent, hdigest⟩
    · exact walks_raise
    · exact walks_pure ⟨hwent, hdigest row rfl, fun r' hr => Option.some.inj hr,
        fun h => by cases h⟩
  | none =>
    cases project with
    | none => exact walks_raise
    | some project =>
      refine walks_bind (walks_activeRevisionOf hs hfirst) ?_
      rintro (- | revision) s' ⟨hwent, hactive, hdigest⟩
      · exact walks_raise
      · exact walks_pure ⟨hwent, hdigest revision rfl, (fun r h => by cases h),
          fun _ => (hproject project rfl revision.1 hactive.symm).mono hwent.1 hwent.1.moment⟩

/-- A result is recorded. -/
theorem walks_recordRun {e : Execution} {n : ℕ} {sanitize : PyStr → PyStr} {ended : ScriptInstance}
    (hs : Sane s) (he : { e with reached := n } ∈ s.executions) :
    Walks t (recordRun e.job (runRecord sanitize ended e.digest) : RunProg Cls Database Unit)
      (fun _ _ => True) s := by
  refine walks_stmt hs fun s' hextends hs' c result s'' hstep => ?_
  cases hstep
  split_ifs
  · exact ⟨.refl, hs', fun _ _ => trivial⟩
  · exact ⟨(extends_record _ _).trans (extends_gone _),
      (hs'.record (hextends.executions _ he)).gone _, fun _ _ => trivial⟩

/-- **The execution** of a class, and the record of it. -/
theorem walks_runClass {cls : Cls} {e : Execution} {row : RunJob} {request : Option RunRequest}
    {sanitize : PyStr → PyStr} (hs : Sane s)
    (hrow : ∃ data, s.jobs.row e.job = some { row with data })
    (hexecuted : Executed s row { e with reached := s.moment }) :
    Walks t (runClass cls e request sanitize : RunProg Cls Database Unit) (fun _ _ => True) s := by
  have hexecute : Walks t (execute cls e request : RunProg Cls Database _)
      (fun _ s' => Sane s' ∧ ∃ n, { e with reached := n } ∈ s'.executions) s := by
    refine walks_stmt hs fun s' hextends hs' c result s'' hstep => ?_
    cases hstep
    obtain ⟨data, hrow⟩ := hrow
    obtain ⟨data', hrow'⟩ := hextends.jobs e.job _ hrow
    have hmono : Executed s' { row with data := data' } { e with reached := s'.moment } :=
      hexecuted.mono hextends data' hextends.moment (le_refl _)
    have hsane := hs'.execute (e := { e with reached := s'.moment }) hrow' hmono
    exact ⟨extends_execute, hsane, fun _ _ => ⟨hsane, s'.moment,
      List.mem_append_right _ (List.mem_singleton_self _)⟩⟩
  refine walks_bind hexecute ?_
  rintro ⟨ended, raised⟩ s₁ ⟨hs₁, n, hmem⟩
  refine walks_bind (walks_recordRun hs₁ hmem) fun _ s₂ _ => ?_
  cases raised with
  | none => exact walks_pure trivial
  | some error => exact walks_raise

/-- **`run`** executes what it may. -/
theorem walks_runTask {j : Id} {row : RunJob} {task : RunTask} (hs : Sane s)
    (hrunning : Running s j row task) :
    Walks t (runTask j row.script task : RunProg Cls Database Unit) (fun _ _ => True) s := by
  unfold runTask
  refine walks_bind (walks_moment hs) ?_
  rintro began s₁ ⟨hwent₁, rfl⟩
  refine walks_bind (walks_glance hwent₁.2) ?_
  rintro (- | reason) s₂ hwent₂
  swap
  · exact walks_raise
  have hfirst₂ := hwent₂.1.moment
  refine walks_bind (walks_loadScript hwent₂.2 hfirst₂) ?_
  rintro loaded s₃ ⟨hwent₃, hloaded⟩
  refine walks_bind (walks_requireEnabled hwent₃.2 hloaded) ?_
  rintro project s₄ ⟨hwent₄, hpermitted, hproject⟩
  have hfirst₄ := hfirst₂.trans (hwent₃.1.moment.trans hwent₄.1.moment)
  refine walks_bind (walks_revisionFor hwent₄.2 hfirst₄ hproject) ?_
  rintro ⟨r, revision⟩ s₅ ⟨hwent₅, hdigest, hpinned, hunpinned⟩
  refine walks_bind (walks_loadProject hwent₅.2) ?_
  rintro owner s₆ ⟨hwent₆, -⟩
  cases hrevision : revision.digest with
  | none => exact walks_raise
  | some digest =>
  refine walks_bind (walks_glance hwent₆.2) ?_
  rintro sanitize s₇ hwent₇
  refine walks_bind (walks_glance hwent₇.2) ?_
  rintro cls s₈ hwent₈
  cases hdata : task.data with
  | none => exact walks_raise
  | some data =>
  -- what was read before still was so
  have hlater : Extends s₄ s₈ :=
    hwent₅.1.trans (hwent₆.1.trans (hwent₇.1.trans hwent₈.1))
  have hlater' : Extends s₅ s₈ := hwent₆.1.trans (hwent₇.1.trans hwent₈.1)
  have hrunning' := hrunning.mono (hwent₁.1.trans (hwent₂.1.trans (hwent₃.1.trans
    (hwent₄.1.trans hlater))))
  obtain ⟨old, hold⟩ := hrunning.present
  have hkept := hs.jobs j _ hold
  have hpayload := hrunning.payload
  refine walks_runClass hwent₈.2 hrunning'.present
    { created_le := hkept.created_le.trans hwent₁.1.moment
      reached_le := le_refl _
      modulePath := (congrArg RunPayload.modulePath hpayload).trans hkept.modulePath
      className := (congrArg RunPayload.className hpayload).trans hkept.className
      commit := (congrArg RunPayload.commit hpayload).trans hkept.commit
      values := ⟨data, hrunning.data ▸ hdata, by rw [← hrunning.request]⟩
      permitted := hpermitted.mono hlater hlater.moment
      pinned := fun pin hpin => hpinned pin (hpayload ▸ hpin)
      unpinned := fun hpin => (hunpinned (hpayload ▸ hpin)).mono hlater' hlater'.moment
      digest := (hrevision ▸ hdigest).mono hlater' hlater'.moment }

/-- **The pin** of a run: the revision that its project serves, and none of a recurring run. -/
theorem walks_pinnedRevision {script : Id} {row : ScriptRow} {project : ProjectRow}
    {interval : Option ℕ} (hs : Sane s) (hfirst : first ≤ s.moment)
    (hfound : Found s first s.moment script row project) (henabled : row.enabled = true)
    (hproject : project.enabled = true) (hserving : project.activeRevision ≠ none) :
    Walks t (pinnedRevision interval project : RunProg Cls Database _)
      (fun revision s' => Went s s' ∧
        (isRecurring interval = false → ∃ found, revision = some found ∧
          Serves s' first s'.moment script found.1 ∧
            HasDigest s' first s'.moment found.1 found.2.digest)) s := by
  unfold pinnedRevision
  split_ifs with hrecurring
  · exact walks_pure ⟨⟨.refl, hs⟩, fun h => by rw [hrecurring] at h; cases h⟩
  refine wp_mono (fun result s' h => ?_) (walks_activeRevisionOf hs hfirst)
  rcases result with error | (- | found)
  · trivial
  · exact absurd h.2.1.symm hserving
  obtain ⟨hwent, hactive, hdigest⟩ := h
  exact ⟨hwent, fun _ => ⟨found, rfl, ⟨row, project, hfound.mono hwent.1 hwent.1.moment, henabled,
    hproject, hactive.symm⟩, hdigest found rfl⟩⟩

/-- **`_run_now`** runs a row that is sane when it is inserted. -/
theorem walks_runNow {script : Id} {payload : RunPayload} {args : RunArgs} {policy : PyStr}
    {asked : Asked} {since : ℕ} (hs : Sane s) (hdata : args.data = asked.data)
    (hrequest : args.request = asked.request)
    (hkept : ∀ s' j, Extends s s' → Kept s' j
      { script, user := args.user, scheduleAt := none, interval := none, notifications := policy
        jobTimeout := none, data := rowData payload, payload, asked, since
        created := s'.moment }) :
    Walks t (runNow script payload args policy asked since : RunProg Cls Database Unit)
      (fun _ _ => True) s := by
  unfold runNow
  split_ifs
  · exact walks_raise
  refine walks_bind (walks_insertJob hs hkept) ?_
  rintro j s' ⟨hwent, n, hrow, -⟩
  have hrunning : Running s' j
      { script, user := args.user, scheduleAt := none, interval := none, notifications := policy
        jobTimeout := none, data := rowData payload, payload, asked, since, created := n }
      { payload, data := args.data, request := args.request, notificationsInherited := none } :=
    ⟨⟨rowData payload, hrow⟩, rfl, hdata, hrequest⟩
  refine walks_bind (walks_attempt (walks_runTask hwent.2 hrunning)) fun _ _ _ => ?_
  exact walks_pure trivial

/-- **`enqueue_run`** makes a row that is pinned, or an unpinned one of a recurring run. -/
theorem walks_enqueueRun {pk : Id} {args : RunArgs} (hs : Sane s) :
    Walks t (enqueueRun pk args : RunProg Cls Database Unit) (fun _ _ => True) s := by
  unfold enqueueRun
  refine walks_bind (walks_moment hs) ?_
  rintro since s₁ ⟨hwent₁, rfl⟩
  refine walks_bind (walks_loadScript hwent₁.2 (le_refl _)) ?_
  rintro (- | script) s₂ ⟨hwent₂, hloaded⟩
  · exact walks_raise
  obtain ⟨rfl, hseen⟩ := hloaded
  by_cases hdeferred : (args.immediate &&
    (args.scheduleAt.isSome || isRecurring args.interval)) = true
  · simp only [hdeferred, if_true]
    exact walks_raise
  simp only [hdeferred]
  refine walks_bind (walks_requireSafeRouting hwent₂.2) ?_
  rintro - s₃ hwent₃
  have hscript : Seen s₃ s₁.moment s₃.moment fun tables =>
      tables.world.scripts.row script.pk = some script.row := by
    obtain ⟨i, tables, hi, hlast, hat, hrow, -⟩ := hseen.mono hwent₃.1 hwent₃.1.moment
    exact ⟨i, tables, hi, hlast, hat, hrow⟩
  refine walks_bind (walks_requireExecutable hwent₃.2 hscript) ?_
  rintro project s₄ ⟨hwent₄, hfound, henabled, hproject, hserving⟩
  have hfirst₄ := hwent₂.1.moment.trans (hwent₃.1.moment.trans hwent₄.1.moment)
  refine walks_bind (walks_pinnedRevision hwent₄.2 hfirst₄ hfound henabled hproject hserving) ?_
  rintro revision s₅ ⟨hwent₅, hpin⟩
  have hsettings : Walks t (.ofExcept ((script.runSettings args.notifications).mapError
      RunFailure.validationError) : RunProg Cls Database _) (fun settings s' => s' = s₅ ∧
        settings.1 = script.jobTimeout ∧ settings.2 = script.policyFor args.notifications ∧
          settings.2 ∈ jobNotificationChoices) s₅ := by
    refine walks_ofExcept fun settings hsettings => ⟨rfl, ?_⟩
    cases hvalid : script.runSettings args.notifications with
    | error error =>
      rw [hvalid] at hsettings
      cases hsettings
    | ok valid =>
      rw [hvalid] at hsettings
      cases hsettings
      obtain ⟨⟨htimeout, -⟩, hpolicy, hchoice⟩ := runSettings_eq_ok.mp hvalid
      exact ⟨htimeout, hpolicy, hpolicy ▸ hchoice⟩
  refine walks_bind hsettings ?_
  rintro ⟨timeout, policy⟩ s' ⟨rfl, rfl, rfl, hchoice⟩
  have hfirst : s₁.moment ≤ s'.moment := hfirst₄.trans hwent₅.1.moment
  have hchosen : ∀ chosen, args.notifications = some chosen → chosen ≠ [] →
      script.policyFor args.notifications = chosen := by
    intro chosen hchosen hne
    rw [hchosen, policyFor_some hne]
  dsimp only
  split_ifs with himmediate
  · have hone : isRecurring args.interval = false := by
      simp only [himmediate, Bool.true_and, Bool.or_eq_true, not_or, Bool.not_eq_true] at hdeferred
      exact hdeferred.2
    obtain ⟨found, rfl, hserves, hdigest⟩ := hpin hone
    refine walks_runNow hwent₅.2 rfl rfl fun s'' j hextends => ?_
    exact
      { since_le := hfirst.trans hextends.moment, created_le := le_refl _, modulePath := rfl
        className := rfl, commit := rfl, event := rfl, user := rfl, policy := hchoice
        revisionId := get?_rowData_revisionId
        revisionDigest := .inl get?_rowData_revisionDigest
        snapshots := fun fields hfields => rowData_without_snapshots hfields
        pinned := fun _ => ⟨found.1, rfl, hserves.mono hextends hextends.moment,
          hdigest.mono hextends hextends.moment⟩
        unpinned := fun h => by cases h
        inherited := fun h => by cases h
        chosen := fun h => by cases h
        timeout := fun h => by cases h }
  · refine walks_enqueue hwent₅.2
      { since_le := hfirst, modulePath := rfl, className := rfl, commit := rfl, event := rfl
        data := rfl, request := rfl, user := rfl, notificationsInherited := rfl
        policy := ⟨_, rfl, hchoice, hchosen⟩
        timeout := fun hasked timeout htimeout => ?_
        pinned := fun hone => ?_ }
    · have hasked : args.jobTimeout = none := hasked
      have hlast := hwent₃.1.trans (hwent₄.1.trans hwent₅.1)
      refine hasSetting_of_seen (hseen.mono hlast hlast.moment) ?_
      rw [hasked] at htimeout
      obtain ⟨seconds, hseconds, rfl⟩ := Option.map_eq_some_iff.mp htimeout
      exact hseconds.symm
    · obtain ⟨found, rfl, hserves, hdigest⟩ := hpin hone
      exact ⟨found.1, rfl, hserves, hdigest⟩

/-! ## The system -/

/-- The row and the task of a Job. -/
theorem walks_takeTask {j : Id} (hs : Sane s) :
    Walks t (takeTask j : RunProg Cls Database _) (fun taken s' => Went s s' ∧
      s'.jobs.row j = some taken.1 ∧ TaskOf taken.1 taken.2) s := by
  refine walks_stmt hs fun s' hextends hs' c result s'' hstep => ?_
  obtain ⟨row, hrow, hstep⟩ := Option.bind_eq_some_iff.mp hstep
  obtain ⟨task, htask, hstep⟩ := Option.bind_eq_some_iff.mp hstep
  cases hstep
  refine ⟨.refl, hs', fun taken htaken => ?_⟩
  cases htaken
  obtain ⟨row', hrow', htaskOf⟩ := hs'.tasks j task htask
  obtain rfl := Option.some.inj (hrow.symm.trans hrow')
  exact ⟨⟨hextends, hs'⟩, hrow, htaskOf⟩

theorem walks_startJob {j : Id} (hs : Sane s) :
    Walks t (startJob j : RunProg Cls Database Unit) (fun _ s' => Went s s') s := by
  refine walks_stmt hs fun s' hextends hs' c result s'' hstep => ?_
  split at hstep
  · cases hstep
    exact ⟨.refl, hs', fun _ h => by cases h⟩
  · cases hstep
    exact ⟨extends_gone _, hs'.gone _, fun _ _ => ⟨hextends.trans (extends_gone _), hs'.gone _⟩⟩

theorem walks_occurrence {j : Id} (hs : Sane s) :
    Walks t (occurrence j : RunProg Cls Database Unit) (fun _ _ => True) s := by
  refine walks_bind (walks_takeTask hs) ?_
  rintro ⟨row, task⟩ s' ⟨hwent, hrow, htask⟩
  have hrunning : Running s' j row task :=
    ⟨⟨row.data, hrow⟩, htask.payload, htask.data, htask.request⟩
  refine walks_bind (walks_startJob hwent.2) ?_
  rintro - s'' hwent'
  exact walks_runTask hwent'.2 (hrunning.mono hwent'.1)

/-- **The next occurrence** is as the one before was asked for. -/
theorem walks_reschedule {j : Id} {scheduleAt : Option Time} (hs : Sane s) :
    Walks t (reschedule j scheduleAt : RunProg Cls Database Unit) (fun _ _ => True) s := by
  refine walks_bind (walks_moment hs) ?_
  rintro since s₁ ⟨hwent₁, rfl⟩
  refine walks_bind (walks_takeTask hwent₁.2) ?_
  rintro ⟨row, task⟩ s₂ ⟨hwent₂, hrow, htask⟩
  have hkept := hwent₂.2.jobs j row hrow
  dsimp only
  split_ifs with hrecurring
  swap
  · exact walks_pure trivial
  refine walks_enqueue hwent₂.2
    { since_le := hwent₂.1.moment
      modulePath := congrArg some ((congrArg RunPayload.modulePath htask.payload).trans
        hkept.modulePath)
      className := congrArg some ((congrArg RunPayload.className htask.payload).trans
        hkept.className)
      commit := congrArg some ((congrArg RunPayload.commit htask.payload).trans hkept.commit)
      event := (congrArg RunPayload.event htask.payload).trans hkept.event
      data := htask.data, request := htask.request, user := hkept.user
      notificationsInherited := htask.notificationsInherited
      policy := ⟨_, rfl, hkept.policy, hkept.chosen hrecurring⟩
      timeout := fun _ timeout htimeout => by cases htimeout
      pinned := fun hone => by
        have hone : isRecurring row.interval = false := hone
        rw [hrecurring] at hone
        cases hone }

theorem walks_elsewhere {change : TablesChange} (hs : Sane s) :
    Walks t (elsewhere change : RunProg Cls Database Unit) (fun _ _ => True) s := by
  refine walks_stmt hs fun s' hextends hs' c result s'' hstep => ?_
  cases hstep
  exact ⟨extends_change, hs'.change change, fun _ _ => trivial⟩

theorem walks_removal {rows tasks : Id → Bool} (hs : Sane s) :
    Walks t (removal rows tasks : RunProg Cls Database Unit) (fun _ _ => True) s := by
  refine walks_stmt hs fun s' hextends hs' c result s'' hstep => ?_
  cases hstep
  exact ⟨extends_removal _ tasks, hs'.removal _ tasks, fun _ _ => trivial⟩

/-- **Every statement of every process** keeps the invariant. -/
theorem verified_runs : (runs Cls Database).Verified Forward (fun _ => Forward) fun _ => Sane where
  body op t s hs := by
    have hwalks : Walks t ((runs Cls Database).body op) (fun _ _ => True) s := by
      cases op with
      | request script args => exact walks_enqueueRun hs
      | occurrence job => exact walks_occurrence hs
      | reschedule job scheduleAt => exact walks_reschedule hs
      | elsewhere change => exact walks_elsewhere hs
      | removal rows tasks => exact walks_removal hs
    exact wp_mono (fun _ _ _ => trivial) hwalks
  fresh_stable t u s s' _ h hs := h.2 hs
  guar_change h := h
  reap _ _ := ⟨.refl, id⟩
  tick _ _ := ⟨.refl, id⟩

end Rules

/-! ## What every run leaves -/

section Results

variable {Cls Database : Type} {tables : Tables} {next : ThreadId}
  {pool : Pool RunsState (RunChoice Cls Database) RunFailure RunOp}

/-- A deployment in which no run was ever requested. -/
def start (tables : Tables) : RunsState := 
  ⟨⟨[], tables⟩, .startingAt 1, fun _ => false, fun _ => none, []⟩

theorem sane_start : Sane (start tables) where
  history := History.linked_start Tables.Later.refl
  jobs j row hrow := by cases hrow
  tasks j task htask := by cases htask
  executions e he := by cases he

/-- Every state that a run reaches is sane. -/
theorem sane_of_run
    (hrun : Run (runs Cls Database) (fun _ _ => True) (Pool.start (start tables) next) pool) :
    Sane pool.world :=
  verified_runs.run_invariant (fun _ _ _ h => h.2) (.start fun _ _ => sane_start) sane_start hrun

/-- A revision has one digest for good. -/
theorem Sane.digest_eq {s : RunsState} (h : Sane s) {first last first' last' : ℕ} {r : Id}
    {digest digest' : Option PyStr} (hfirst : HasDigest s first last r digest)
    (hlast : HasDigest s first' last' r digest') : digest = digest' := by
  obtain ⟨i, a, -, -, ha, row, hrow, rfl⟩ := hfirst
  obtain ⟨j, b, -, -, hb, row', hrow', rfl⟩ := hlast
  rcases Nat.le_total i j with hij | hij
  · exact ((h.history i j a b hij ha hb).digest r row row' hrow hrow').symm
  · exact (h.history j i b a hij hb ha).digest r row' row hrow' hrow

/-- **What a run executes**, whatever else is done meanwhile and whoever dies. It executes the
class that was asked for, with the inputs that were asked for, and only while the script was
gone or it and its project were enabled. A one-shot run executes the revision that its project
served when it was requested, which its row names before and after. A recurring run executes the
revision that its project serves at that time. The row is meant as it is, or as it last was where it
is gone. -/
theorem executions_pinned
    (hrun : Run (runs Cls Database) (fun _ _ => True) (Pool.start (start tables) next) pool) :
    ∀ e ∈ pool.world.executions, ∃ job, pool.world.jobs.row e.job = some job ∧
      (e.modulePath = job.asked.modulePath ∧ e.className = job.asked.className ∧
        e.commit = job.asked.commit ∧ ∃ data, job.asked.data = some data ∧
          e.values = runValues data job.asked.request) ∧
      (job.created ≤ e.began ∧ Permitted pool.world e.began e.reached job.script) ∧
      (isRecurring job.interval = false →
        Serves pool.world job.since job.created job.script e.revision ∧
          job.data.get? (py "revision_id") = some (.int e.revision) ∧
          job.data.get? (py "revision_digest") = some (.str e.digest)) ∧
      (isRecurring job.interval = true →
        Serves pool.world e.began e.reached job.script e.revision) := by
  intro e he
  have hsane := sane_of_run hrun
  obtain ⟨job, hjob, hexecuted⟩ := hsane.executions e he
  have hkept := hsane.jobs e.job job hjob
  refine ⟨job, hjob, ⟨hexecuted.modulePath, hexecuted.className, hexecuted.commit,
    hexecuted.values⟩, ⟨hexecuted.created_le, hexecuted.permitted⟩, fun hone => ?_,
    fun hrecurring => hexecuted.unpinned (hkept.unpinned hrecurring)⟩
  obtain ⟨r, hpin, hserves, hdigest⟩ := hkept.pinned hone
  obtain rfl := hexecuted.pinned r hpin
  refine ⟨hserves, ?_, ?_⟩
  · rw [hkept.revisionId, hpin]
    rfl
  · rcases hkept.revisionDigest with hdata | ⟨other, hother, hsame, hdata⟩
    · rw [hdata, hsane.digest_eq hdigest hexecuted.digest]
      rfl
    · -- another execution of the Job is of the same revision
      obtain ⟨job', hjob', hexecuted'⟩ := hsane.executions other hother
      obtain rfl : job' = job := Option.some.inj ((hsame ▸ hjob').symm.trans hjob)
      have hrevision : other.revision = e.revision := hexecuted'.pinned e.revision hpin
      have hdigest' := hsane.digest_eq (hrevision ▸ hexecuted'.digest) hexecuted.digest
      rw [hdata, Option.some.inj hdigest']

/-- **Every occurrence** of a recurring run: its row pins nothing, and keeps the identity and the
user of the request. It is notified by the policy that was chosen, and without a choice by the one
the script has when the occurrence is queued, as it is with its timeout. No row has an object
snapshot. Of every task a row was created, and as that row is, or last was where it is gone: the
task has its pin and the inputs of the request, none of which is an upload of a recurring run or one
that is no longer there when it is run. -/
theorem occurrences_as_asked
    (hrun : Run (runs Cls Database) (fun _ _ => True) (Pool.start (start tables) next) pool) :
    (∀ j job, pool.world.jobs.row j = some job →
      (∀ fields : Dict Json, job.data.get? (py "event") = some (.obj fields) →
        fields.get? (py "snapshots") = none) ∧
      (isRecurring job.interval = true →
        job.data.get? (py "revision_id") = some .null ∧ job.user = job.asked.user ∧
        (job.asked.notifications = none →
          HasSetting pool.world job.since job.created job.script fun script =>
            job.notifications = script.notificationsDefault) ∧
        (∀ policy, job.asked.notifications = some policy → policy ≠ [] →
          job.notifications = policy) ∧
        (job.asked.jobTimeout = none →
          HasSetting pool.world job.since job.created job.script fun script =>
            job.jobTimeout = script.jobTimeout))) ∧
    ∀ j task, pool.world.tasks j = some task → ∃ job, pool.world.jobs.row j = some job ∧
      (task.payload.modulePath = job.asked.modulePath ∧
        task.payload.className = job.asked.className ∧ task.payload.commit = job.asked.commit ∧
        task.data = job.asked.data ∧ task.request = job.asked.request) ∧
      job.data.get? (py "revision_id") = some (.ofId? task.payload.revisionId) ∧
      ∀ upload ∈ uploadsOf task.data task.request, upload.isTemporary = false ∧
        (isRecurring job.interval = true → upload.isUpload = false) := by
  have hsane := sane_of_run hrun
  refine ⟨fun j job hjob => ?_, fun j task htask => ?_⟩
  · have hkept := hsane.jobs j job hjob
    refine ⟨hkept.snapshots, fun hrecurring => ⟨?_, hkept.user, hkept.inherited hrecurring,
      hkept.chosen hrecurring, hkept.timeout hrecurring⟩⟩
    rw [hkept.revisionId, hkept.unpinned hrecurring]
    rfl
  · obtain ⟨job, hjob, htaskOf⟩ := hsane.tasks j task htask
    have hkept := hsane.jobs j job hjob
    have hpayload := htaskOf.payload
    refine ⟨job, hjob, ⟨?_, ?_, ?_, htaskOf.data, htaskOf.request⟩, ?_, fun upload hupload =>
      ⟨htaskOf.temporary upload hupload, fun hrecurring =>
        htaskOf.recurring hrecurring upload hupload⟩⟩
    · exact (congrArg RunPayload.modulePath hpayload).trans hkept.modulePath
    · exact (congrArg RunPayload.className hpayload).trans hkept.className
    · exact (congrArg RunPayload.commit hpayload).trans hkept.commit
    · rw [hpayload]
      exact hkept.revisionId

end Results

section Once

/-- A script that revision 1 publishes. -/
def publishedRecord : ScriptRecord :=
  ⟨py "a", py "S", 1, py "a.py", 0, py "S", [], ⟨true, true, none, py "always"⟩⟩

/-- A project that serves its first revision of two. -/
def servingTables : Tables where
  world :=
    { vacantWorld with
      projects := vacantWorld.projects.insert
        ⟨py "p", 0, .upload, none, [], .manual, some 1, none, false, true⟩
      revisions := (vacantWorld.revisions.insert
        { exampleRevision with status := .active, discoveredScripts := [publishedRecord] }).insert
          { exampleRevision with status := .valid }
      scripts := vacantWorld.scripts.insert
        ⟨1, py "a", py "S", py "S", [], publishedRecord.metadata, false, some 1, true⟩ }
  overrides _ := ⟨none, none, []⟩

/-- The other revision is activated. -/
def servesOther : TablesChange where
  apply tables := { tables with world := tables.world.modifyProject 1 fun project =>
    { project with activeRevision := some 2 } }
  later _ := .of_revisions rfl

/-- What a run meets. -/
def plainChoice : RunChoice Unit Unit where
  routing := none
  facts := exampleFacts (py "S") (.ofString (py "always"))
  discover _ := .ok [()]
  unreachable := false
  cacheRoot := some (py "/tmp")
  site := sampleSite
  body _ _ := ⟨[], .ok []⟩
  before := ⟨fun _ => (), .fresh, [], [], none⟩
  writesBack := true

/-- A request of a run at an interval, or of one run. -/
def plainArgs (interval : Option ℕ) : RunArgs :=
  ⟨some [], true, none, none, none, interval, none, none, false, none, false⟩

/-- A run was requested. -/
def requestedPool (interval : Option ℕ) : Pool RunsState (RunChoice Unit Unit) RunFailure RunOp :=
  ((Pool.start (start servingTables) 0).spawn (runs Unit Unit)
    (.request 1 (plainArgs interval))).drive (runs Unit Unit) 0 plainChoice 9

theorem requestedPool_run (interval : Option ℕ) : Run (runs Unit Unit) (fun _ _ => True)
    (Pool.start (start servingTables) 0) (requestedPool interval) :=
  run_drive 0 plainChoice 9 (run_spawn _ .refl)

/-- The other revision is activated meanwhile, and a worker takes the task. -/
def pinnedPool : Pool RunsState (RunChoice Unit Unit) RunFailure RunOp :=
  (((((requestedPool none).spawn (runs Unit Unit) (.elsewhere servesOther)).drive
    (runs Unit Unit) 1 plainChoice 1).spawn (runs Unit Unit) (.occurrence 1))).drive
      (runs Unit Unit) 2 plainChoice 12

theorem pinnedPool_run : Run (runs Unit Unit) (fun _ _ => True)
    (Pool.start (start servingTables) 0) pinnedPool :=
  run_drive 2 plainChoice 12 (run_spawn _ (run_drive 1 plainChoice 1 (run_spawn _
    (requestedPool_run none))))

/-- The run executes the revision that was served when it was requested, and not the one that is
served now. -/
theorem executions_pinned_once : ∃ e ∈ pinnedPool.world.executions, ∃ job,
    pinnedPool.world.jobs.row e.job = some job ∧
      Serves pinnedPool.world job.since job.created job.script e.revision ∧ e.revision = 1 ∧
      (pinnedPool.world.tables.world.projects.row 1).bind ProjectRow.activeRevision = some 2 := by
  have hexecuted : pinnedPool.world.executions.map (fun e => (e.job, e.revision)) = [(1, 1)] ∧
      (pinnedPool.world.jobs.row 1).map (fun job => isRecurring job.interval) = some false ∧
      (pinnedPool.world.tables.world.projects.row 1).bind ProjectRow.activeRevision = some 2 := by
    decide +kernel
  obtain ⟨hexecuted, hone, hactive⟩ := hexecuted
  obtain ⟨e, he, hsame⟩ := List.mem_map.mp (hexecuted ▸ List.mem_singleton_self _)
  obtain ⟨hjob, hrevision⟩ := Prod.mk.inj hsame
  obtain ⟨job, hrow, -, -, hpinned, -⟩ := executions_pinned pinnedPool_run e he
  have hone : isRecurring job.interval = false := by
    rw [← hjob, hrow] at hone
    exact Option.some.inj hone
  exact ⟨e, he, job, hrow, (hpinned hone).1, hrevision, hactive⟩

/-- The next occurrence of a recurring run is queued. -/
def recurringPool : Pool RunsState (RunChoice Unit Unit) RunFailure RunOp :=
  ((requestedPool (some 60)).spawn (runs Unit Unit) (.reschedule 1 (some 60))).drive
    (runs Unit Unit) 1 plainChoice 5

theorem recurringPool_run : Run (runs Unit Unit) (fun _ _ => True)
    (Pool.start (start servingTables) 0) recurringPool :=
  run_drive 1 plainChoice 5 (run_spawn _ (requestedPool_run (some 60)))

/-- The second occurrence is pinned to nothing and is notified as the script says. -/
theorem occurrences_as_asked_twice : ∃ job, recurringPool.world.jobs.row 2 = some job ∧
    isRecurring job.interval = true ∧ job.data.get? (py "revision_id") = some .null ∧
      HasSetting recurringPool.world job.since job.created job.script fun script =>
        job.notifications = script.notificationsDefault := by
  have hqueued : (recurringPool.world.jobs.row 2).map (fun job =>
      (isRecurring job.interval, job.asked.notifications)) = some (true, none) := by
    decide +kernel
  obtain ⟨job, hjob, hqueued⟩ := Option.map_eq_some_iff.mp hqueued
  obtain ⟨hrecurring, hnone⟩ := Prod.mk.inj hqueued
  obtain ⟨-, hoccurrence⟩ := (occurrences_as_asked recurringPool_run).1 2 job hjob
  obtain ⟨hpin, -, hinherited, -⟩ := hoccurrence hrecurring
  exact ⟨job, hjob, hrecurring, hpin, hinherited hnone⟩

end Once

end Runs

end NetBoxScripts
