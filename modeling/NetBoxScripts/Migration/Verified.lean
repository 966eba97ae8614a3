import NetBoxScripts.Migration.Invariant

/-!
# The passes keep the invariant

Each action of each pass is a change that keeps the invariant: while a pass holds the migration
lock, its instance is the row the database holds.

## Main definitions

* `Owns`: a session that holds the lock and whose instance is the stored row
* `Lasting`: a fact that every change keeps

## Main results

* `Holds.migrationLock`, `wp_serialized`: what a pass runs under
* `Owns.mergeJournal`, `Owns.recordWarnings`, `Owns.advance`: the methods of `MigrationRun`
* `Owns.recordStep`, `Owns.completeStep`: the record of a step
-/

namespace NetBoxScripts

open Migration

/-- A pass ends as it should under `post`, from `w` on, and each of its actions is a change. -/
abbrev Keeps {α : Type} (t : ThreadId) (prog : Pass α)
    (post : Except MigrationError α → MigrationWorld → Prop) (w : MigrationWorld) : Prop :=
  wp MigrationChange t (MigrationChange t) prog post w

/-- A postcondition of the result of a pass that does not fail. -/
abbrev Returns {α : Type} (post : α → MigrationWorld → Prop) :
    Except MigrationError α → MigrationWorld → Prop :=
  andThen post fun _ _ => True

/-- A fact that every change keeps. -/
def Lasting (fact : MigrationWorld → Prop) : Prop :=
  ∀ u w w', MigrationChange u w w' → fact w → fact w'

/-- A fact that the changes of others keep while `t` holds the lock, and that the lock is no part
of. -/
structure Steady (t : ThreadId) (fact : MigrationWorld → Prop) : Prop where
  others : ∀ u w w', u ≠ t → MigrationChange u w w' → w.HeldBy t → fact w → fact w'
  relock : ∀ w lock, MigrationChange t w { w with lock } → fact w → fact { w with lock }

/-- A session that holds the lock. -/
structure Holds (t : ThreadId) (n : ℕ) (w : MigrationWorld) : Prop where
  inv : w.Inv
  lock : w.lock = some (t, n)

/-- A session that holds the lock, whose instance is the stored row. -/
structure Owns (t : ThreadId) (n : ℕ) (run : RunInstance) (w : MigrationWorld) : Prop
    extends Holds t n w where
  row : w.runs.row run.pk = some run.row

section Facts

variable {t : ThreadId} {n : ℕ} {run : RunInstance} {w w' : MigrationWorld}
  {fact other : MigrationWorld → Prop}

theorem Lasting.and (h : Lasting fact) (h' : Lasting other) :
    Lasting fun w => fact w ∧ other w :=
  fun u w w' hchange hw => ⟨h u w w' hchange hw.1, h' u w w' hchange hw.2⟩

theorem Lasting.const (p : Prop) : Lasting fun _ => p := fun _ _ _ _ hp => hp

theorem Lasting.all {ι : Sort*} {family : ι → MigrationWorld → Prop}
    (h : ∀ i, Lasting (family i)) : Lasting fun w => ∀ i, family i w :=
  fun u w w' hchange hw i => h i u w w' hchange (hw i)

theorem Lasting.imp {p : Prop} (h : p → Lasting fact) : Lasting fun w => p → fact w :=
  fun u w w' hchange hw hp => h hp u w w' hchange (hw hp)

theorem Lasting.steady (h : Lasting fact) : Steady t fact where
  others u w w' _ hchange _ hw := h u w w' hchange hw
  relock w _ hchange hw := h t w _ hchange hw

theorem Steady.and (h : Steady t fact) (h' : Steady t other) : Steady t fun w => fact w ∧ other w where
  others u w w' hne hchange hheld hw :=
    ⟨h.others u w w' hne hchange hheld hw.1, h'.others u w w' hne hchange hheld hw.2⟩
  relock w lock hchange hw := ⟨h.relock w lock hchange hw.1, h'.relock w lock hchange hw.2⟩

theorem lasting_entryOk (entry : ScheduleEntry) : Lasting fun w => w.EntryOk entry :=
  fun _ _ _ hchange h => h.later hchange.jobs

theorem lasting_dead (j : Id) : Lasting fun w => w.Dead j :=
  fun _ _ _ hchange h => hchange.dead j h

theorem lasting_started (j : Id) : Lasting fun w => w.Started j :=
  fun _ _ _ hchange h => h.later hchange.jobs

theorem Holds.heldBy (h : Holds t n w) : w.HeldBy t := ⟨n, h.lock⟩

theorem Holds.not_heldBy (h : Holds t n w) {u : ThreadId} (hne : u ≠ t) : ¬ w.HeldBy u := by
  rintro ⟨m, hm⟩
  rw [h.lock, Option.some_inj, Prod.mk.injEq] at hm
  exact hne hm.1.symm

/-- What belongs to the session stays while it holds the lock. -/
theorem Holds.stable (hsteady : Steady t fact) :
    Stable MigrationChange t fun w => Holds t n w ∧ fact w := by
  rintro u w w' hne hchange ⟨h, hfact⟩
  have hlock : w'.lock = w.lock := by
    rcases hchange.lock with heq | ⟨hnone | hheld, -⟩
    · exact heq
    · rw [h.lock] at hnone
      cases hnone
    · exact absurd hheld (h.not_heldBy hne)
  exact ⟨⟨hchange.inv h.inv, hlock.trans h.lock⟩, hsteady.others u w w' hne hchange h.heldBy hfact⟩

/-- Others leave the runs alone. -/
theorem steady_runs (p : Table MigrationRow → Prop) : Steady t fun w => p w.runs where
  others u w w' hne hchange hheld hw := by
    obtain ⟨n, hlock⟩ := hheld
    have hruns : w'.runs = w.runs := by
      refine hchange.runs.resolve_right ?_
      rintro ⟨m, hm⟩
      rw [hlock, Option.some_inj, Prod.mk.injEq] at hm
      exact hne hm.1.symm
    exact hruns ▸ hw
  relock _ _ _ hw := hw

/-! ## Changes -/

theorem MigrationChange.refl (t : ThreadId) (w : MigrationWorld) : MigrationChange t w w :=
  ⟨id, .inl rfl, .inl rfl, fun _ row hrow => ⟨row, hrow, .inl rfl⟩,
    fun _ job hjob => ⟨job, hjob, .refl job⟩, fun _ h => h,
    fun _ _ _ h => h⟩

/-- Taking and releasing the lock is a change. -/
theorem lockChange {lock : Option (ThreadId × ℕ)} (hold : w.lock = none ∨ w.HeldBy t)
    (hnew : lock = none ∨ ∃ n, lock = some (t, n)) : MigrationChange t w { w with lock } where
  inv h := ⟨h.one_open, h.steps, h.entries, h.resolved, h.exclusive, h.recreated, h.replaced⟩
  lock := .inr ⟨hold, hnew⟩
  runs := .inl rfl
  rows _ row hrow := ⟨row, hrow, .inl rfl⟩
  jobs _ job hjob := ⟨job, hjob, .refl job⟩
  dead _ h := h
  taken _ _ _ h := h

/-- A write of a run under the lock is a change, where it keeps the invariant. -/
theorem Owns.write (h : Owns t n run w) {row' : MigrationRow} (hrecorded : Recorded run.row row')
    (hinv : ({ w with runs := w.runs.modify run.pk fun _ => row' } : MigrationWorld).Inv) :
    MigrationChange t w { w with runs := w.runs.modify run.pk fun _ => row' } where
  inv _ := hinv
  lock := .inl rfl
  runs := .inr ⟨n, h.lock⟩
  rows pk row hrow := by
    rcases eq_or_ne pk run.pk with rfl | hpk
    · obtain rfl := Option.some.inj (h.row.symm.trans hrow)
      exact ⟨row', by simp [h.row], .inr hrecorded⟩
    · exact ⟨row, (Table.row_modify_of_ne hpk).trans hrow, .inl rfl⟩
  jobs _ job hjob := ⟨job, hjob, .refl job⟩
  dead _ h := h
  taken _ _ _ h := h

/-- After its write, the session's instance is the stored row again. -/
theorem Owns.written (h : Owns t n run w) {row' : MigrationRow}
    (hchange : MigrationChange t w { w with runs := w.runs.modify run.pk fun _ => row' }) :
    Owns t n ⟨run.pk, row'⟩ { w with runs := w.runs.modify run.pk fun _ => row' } :=
  ⟨⟨hchange.inv h.inv, h.lock⟩, by simp [h.row]⟩

end Facts

/-! ## Rules -/

section Rules

variable {t : ThreadId} {n : ℕ} {run : RunInstance} {w : MigrationWorld}
  {fact : MigrationWorld → Prop} {α : Type}

theorem keeps_bind {β : Type} {prog : Pass α} {f : α → Pass β}
    {post : Except MigrationError β → MigrationWorld → Prop} :
    Keeps t (prog >>= f) post w =
      Keeps t prog (andThen (fun a => Keeps t (f a) post) fun e => post (.error e)) w := wp_bind

/-- A program after one that returns. -/
theorem Keeps.bind {β : Type} {prog : Pass α} {f : α → Pass β} {Q : α → MigrationWorld → Prop}
    {post : β → MigrationWorld → Prop} (h : Keeps t prog (Returns Q) w)
    (hnext : ∀ a w', Q a w' → Keeps t (f a) (Returns post) w') :
    Keeps t (prog >>= f) (Returns post) w := by
  rw [keeps_bind]
  refine wp_mono (fun r w' hr => ?_) h
  cases r with
  | ok a => exact hnext a w' hr
  | error e => trivial

/-- One action under the lock. -/
theorem Holds.stmt {step : ThreadId → Answer → MigrationWorld →
      Option (Except MigrationError α × MigrationWorld)}
    {post : Except MigrationError α → MigrationWorld → Prop} (h : Holds t n w)
    (hsteady : Steady t fact) (hfact : fact w)
    (hstep : ∀ w', Holds t n w' → fact w' → ∀ c r w'', step t c w' = some (r, w'') →
      MigrationChange t w' w'' ∧ post r w'') :
    Keeps t (.stmt step) post w :=
  wp_stmt (Holds.stable hsteady) ⟨h, hfact⟩ fun w' hw' => hstep w' hw'.1 hw'.2

/-- One action on the run that the session has. -/
theorem Owns.stmt {step : ThreadId → Answer → MigrationWorld →
      Option (Except MigrationError α × MigrationWorld)}
    {Q : Except MigrationError α → MigrationWorld → Prop} (h : Owns t n run w)
    (hsteady : Steady t fact) (hfact : fact w)
    (hstep : ∀ w', Owns t n run w' → fact w' → ∀ c r w'', step t c w' = some (r, w'') →
      MigrationChange t w' w'' ∧ Q r w'') :
    Keeps t (.stmt step) Q w :=
  h.toHolds.stmt ((steady_runs fun runs => runs.row run.pk = some run.row).and hsteady)
    ⟨h.row, hfact⟩ fun w' hheld hw' => hstep w' ⟨hheld, hw'.1⟩ hw'.2

/-- An answer from outside. -/
theorem Owns.ask (h : Owns t n run w) (hsteady : Steady t fact) (hfact : fact w)
    {read : Answer → α} :
    Keeps t (Migration.ask read) (Returns fun _ w => Owns t n run w ∧ fact w) w := by
  refine h.stmt hsteady hfact fun w' hown hfact' c r w'' heq => ?_
  cases heq
  exact ⟨.refl t w', hown, hfact'⟩

/-- A read. -/
theorem Owns.query (h : Owns t n run w) (hsteady : Steady t fact) (hfact : fact w)
    {read : MigrationWorld → α} {post : Except MigrationError α → MigrationWorld → Prop}
    (hpost : ∀ w', Owns t n run w' → fact w' → post (.ok (read w')) w') :
    Keeps t (.query read) post w := by
  refine h.stmt hsteady hfact fun w' hown hfact' c r w'' heq => ?_
  cases heq
  exact ⟨.refl t w', hpost w' hown hfact'⟩

theorem wp_require {allowed : Bool} {error : MigrationError}
    {post : Unit → MigrationWorld → Prop} (h : allowed = true → post () w) :
    Keeps t (require allowed error) (Returns post) w := by
  cases allowed with
  | true => exact h rfl
  | false => trivial

/-- Releasing is a change, whoever holds the lock. -/
theorem wp_release {post : Except MigrationError Unit → MigrationWorld → Prop}
    (hpost : ∀ w', post (.ok ()) w') : Keeps t release post w := by
  refine wp_stmt (Stable.const True) trivial fun w' _ c r w'' heq => ?_
  split at heq
  · cases heq
    exact ⟨.refl t w', hpost w'⟩
  next u m hlock =>
    split_ifs at heq with hu hm
    · cases heq
      exact ⟨lockChange (.inr ⟨m, hu ▸ hlock⟩) (.inl rfl), hpost _⟩
    · cases heq
      exact ⟨lockChange (.inr ⟨m, hu ▸ hlock⟩) (.inr ⟨m - 1, rfl⟩), hpost _⟩
    · cases heq
      exact ⟨.refl t w', hpost w'⟩

/-- **The lock taken once more** by the session that holds it. -/
theorem Holds.migrationLock {body : Pass α} {after : α → MigrationWorld → Prop}
    (h : Holds t (n + 1) w) (hsteady : Steady t fact) (hfact : fact w)
    (hafter : ∀ a, Steady t (after a))
    (hbody : ∀ w', Holds t (n + 2) w' → fact w' →
      Keeps t body (Returns fun a w => Holds t (n + 2) w ∧ after a w) w') :
    Keeps t (Migration.migrationLock body)
      (Returns fun a w => Holds t (n + 1) w ∧ after a w) w := by
  unfold Migration.migrationLock
  rw [keeps_bind]
  refine h.stmt hsteady hfact fun w' hheld hfact' c r w'' heq => ?_
  simp only [hheld.lock, if_true, Option.some.injEq, Prod.mk.injEq] at heq
  obtain ⟨rfl, rfl⟩ := heq
  have hchange : MigrationChange t w' { w' with lock := some (t, n + 2) } :=
    lockChange (.inr hheld.heldBy) (.inr ⟨_, rfl⟩)
  refine ⟨hchange, wp_finallyDo (wp_mono (fun r w₁ hr => ?_) (hbody _ ⟨hchange.inv hheld.inv, rfl⟩
    (hsteady.relock w' _ hchange hfact')))⟩
  cases r with
  | error e => exact wp_release fun _ => trivial
  | ok a =>
    obtain ⟨hheld₁, hafter₁⟩ := hr
    refine hheld₁.stmt (hafter a) hafter₁ fun w₂ hheld₂ hafter₂ c r w₃ heq => ?_
    simp only [hheld₂.lock, if_true, Option.some.injEq, Prod.mk.injEq] at heq
    obtain ⟨rfl, rfl⟩ := heq
    have hchange₂ : MigrationChange t w₂ { w₂ with
        lock := if n + 2 ≤ 1 then none else some (t, n + 2 - 1) } :=
      lockChange (.inr hheld₂.heldBy) (.inr ⟨n + 1, by simp⟩)
    exact ⟨hchange₂, ⟨hchange₂.inv hheld₂.inv, by simp⟩, (hafter a).relock w₂ _ hchange₂ hafter₂⟩

/-- The lock taken once more, while the instance is the stored row before and after. -/
theorem Owns.migrationLock {body : Pass α} {result : α → RunInstance}
    {after : α → MigrationWorld → Prop} (h : Owns t (n + 1) run w) (hsteady : Steady t fact)
    (hfact : fact w) (hafter : ∀ a, Lasting (after a))
    (hbody : ∀ w', Owns t (n + 2) run w' → fact w' →
      Keeps t body (Returns fun a w => Owns t (n + 2) (result a) w ∧ after a w) w') :
    Keeps t (Migration.migrationLock body)
      (Returns fun a w => Owns t (n + 1) (result a) w ∧ after a w) w := by
  have hrow (run : RunInstance) := steady_runs (t := t) fun runs => runs.row run.pk = some run.row
  refine wp_mono (fun r w' hr => ?_) (h.toHolds.migrationLock ((hrow run).and hsteady)
    ⟨h.row, hfact⟩ (fun a => (hrow (result a)).and (hafter a).steady)
    fun w' hheld hw' => wp_mono (fun r w'' hr => ?_) (hbody w' ⟨hheld, hw'.1⟩ hw'.2))
  · cases r with
    | error e => trivial
    | ok a => exact ⟨⟨hr.1, hr.2.1⟩, hr.2.2⟩
  · cases r with
    | error e => trivial
    | ok a => exact ⟨hr.1.toHolds, hr.1.row, hr.2⟩

/-- Others take no lock for `t`. -/
theorem free_stable : Stable MigrationChange t fun w => w.Inv ∧ ¬ w.HeldBy t := by
  rintro u w w' hne hchange ⟨hinv, hfree⟩
  refine ⟨hchange.inv hinv, ?_⟩
  rintro ⟨n, hheld⟩
  rcases hchange.lock with heq | ⟨-, hnone | ⟨m, hother⟩⟩
  · exact hfree ⟨n, heq ▸ hheld⟩
  · rw [hnone] at hheld
    cases hheld
  · rw [hother, Option.some_inj, Prod.mk.injEq] at hheld
    exact hne hheld.1

/-- **The lock taken first**, and a pass under it. -/
theorem wp_migrationLock {body : Pass α} (hinv : w.Inv) (hfree : ¬ w.HeldBy t)
    (hbody : ∀ w', Holds t 1 w' → Keeps t body (Returns fun _ _ => True) w') :
    Keeps t (Migration.migrationLock body) (Returns fun _ _ => True) w := by
  unfold Migration.migrationLock
  rw [keeps_bind]
  refine wp_stmt free_stable ⟨hinv, hfree⟩ fun w' hw' c r w'' heq => ?_
  have hlock : w'.lock = none ∧ (.ok (), { w' with lock := some (t, 1) }) = (r, w'') := by
    split at heq
    next hnone => exact ⟨hnone, Option.some.inj heq⟩
    next u m hlock =>
      split_ifs at heq with hu
      exact absurd ⟨m, hu ▸ hlock⟩ hw'.2
  obtain ⟨hnone, hend⟩ := hlock
  cases hend
  have hchange : MigrationChange t w' { w' with lock := some (t, 1) } :=
    lockChange (.inl hnone) (.inr ⟨1, rfl⟩)
  refine ⟨hchange, wp_finallyDo (wp_mono (fun r w₁ _ => ?_)
    (hbody _ ⟨hchange.inv hw'.1, rfl⟩))⟩
  cases r <;> exact wp_release fun _ => trivial

/-- **`serialized_migration_step`**: the pass works on the row the database holds. -/
theorem wp_serialized {stale : Option RunInstance} {body : RunInstance → Pass Unit}
    (hinv : w.Inv) (hfree : ¬ w.HeldBy t)
    (hbody : ∀ run w', Owns t 1 run w' → Keeps t (body run) (Returns fun _ _ => True) w') :
    Keeps t (serialized stale body) (Returns fun _ _ => True) w := by
  refine wp_migrationLock hinv hfree fun w₁ h₁ => ?_
  cases stale with
  | none => trivial
  | some run =>
    have hrefresh : Keeps t (refresh run) (Returns fun run' w => Owns t 1 run' w) w₁ := by
      refine h₁.stmt (Lasting.const True).steady trivial fun w₂ h₂ _ c r w₃ heq => ?_
      split at heq
      · cases heq
        exact ⟨.refl t w₂, trivial⟩
      next row hrow =>
        cases heq
        exact ⟨.refl t w₂, h₂, hrow⟩
    exact hrefresh.bind hbody

end Rules

/-! ## The methods of a run -/

/-- Two instances of one run agree on what the invariant speaks of. -/
structure RunInstance.Agrees (run run' : RunInstance) : Prop where
  pk : run'.pk = run.pk
  isOpen : run.row.state ≠ .migrated → run'.row.state ≠ .migrated
  schedules : run'.row.journal.schedules = run.row.journal.schedules
  recreated : run'.row.journal.recreated = run.row.journal.recreated
  steps : run'.row.journal.steps = run.row.journal.steps

namespace RunInstance.Agrees

variable {run run' run'' : RunInstance}

theorem refl (run : RunInstance) : run.Agrees run := ⟨rfl, id, rfl, rfl, rfl⟩

theorem trans (h : run.Agrees run') (h' : run'.Agrees run'') : run.Agrees run'' :=
  ⟨h'.pk.trans h.pk, fun hopen => h'.isOpen (h.isOpen hopen), h'.schedules.trans h.schedules,
    h'.recreated.trans h.recreated, h'.steps.trans h.steps⟩

theorem stepDone (h : run.Agrees run') (name : PyStr) :
    run'.row.journal.stepDone name = run.row.journal.stepDone name := by
  rw [Journal.stepDone, h.steps, Journal.stepDone]

end RunInstance.Agrees

section Methods

variable {t : ThreadId} {n : ℕ} {run : RunInstance} {w : MigrationWorld}
  {known fact : MigrationWorld → Prop}

/-- A save of what the row is rewritten to. -/
theorem Owns.saveRow (h : Owns t n run w) (hsteady : Steady t known) (hknown : known w)
    (hlasting : Lasting fact) (hfact : fact w) {write : MigrationRow → MigrationRow}
    (hrecorded : Recorded run.row (write run.row))
    (hinv : ∀ w', w'.Inv → known w' → fact w' → w'.runs.row run.pk = some run.row →
      ({ w' with runs := w'.runs.modify run.pk fun _ => write run.row } : MigrationWorld).Inv) :
    Keeps t (Migration.saveRow run.pk write)
      (Returns fun _ w => Owns t n ⟨run.pk, write run.row⟩ w ∧ fact w) w := by
  refine h.stmt (hsteady.and hlasting.steady) ⟨hknown, hfact⟩ fun w' hown hw' c r w'' heq => ?_
  simp only [hown.row, Option.some.injEq, Prod.mk.injEq] at heq
  obtain ⟨rfl, rfl⟩ := heq
  rw [Table.modify_eq_of_row hown.row]
  have hchange := hown.write hrecorded (hinv w' hown.inv hw'.1 hw'.2 hown.row)
  exact ⟨hchange, hown.written hchange, hlasting t w' _ hchange hw'.2⟩

/-- **`record_journal`, `record_mapping`, `record_step`**: what is merged is merged into the stored
journal, which is the instance's. -/
theorem Owns.mergeJournal (h : Owns t (n + 1) run w) (hsteady : Steady t known)
    (hknown : known w) (hlasting : Lasting fact) (hfact : fact w) {merge : Journal → Journal}
    (hrecorded : Recorded run.row { run.row with journal := merge run.row.journal })
    (hinv : ∀ w', w'.Inv → known w' → fact w' → w'.runs.row run.pk = some run.row →
      ({ w' with runs := w'.runs.modify run.pk fun _ =>
        { run.row with journal := merge run.row.journal } } : MigrationWorld).Inv) :
    Keeps t (Migration.mergeJournal run merge)
      (Returns fun run' w => Owns t (n + 1) run' w ∧
        run' = ⟨run.pk, { run.row with journal := merge run.row.journal }⟩ ∧ fact w) w := by
  have hboth := hsteady.and hlasting.steady
  refine h.migrationLock hboth ⟨hknown, hfact⟩ (fun run' => (Lasting.const _).and hlasting)
    fun w₁ h₁ hw₁ => ?_
  rw [keeps_bind]
  refine h₁.query hboth hw₁ fun w₂ h₂ hw₂ => ?_
  rw [h₂.row]
  refine (h₂.saveRow hsteady hw₂.1 hlasting hw₂.2 hrecorded hinv).bind fun _ w₃ h₃ => ?_
  exact ⟨h₃.1, rfl, h₃.2⟩

/-- **`record_warnings`** leaves the journal. -/
theorem Owns.recordWarnings (h : Owns t (n + 1) run w) (hlasting : Lasting fact) (hfact : fact w)
    {messages : List PyStr} :
    Keeps t (Migration.recordWarnings run messages)
      (Returns fun run' w => Owns t (n + 1) run' w ∧ run.Agrees run' ∧ fact w) w := by
  refine h.migrationLock hlasting.steady hfact (fun run' => (Lasting.const _).and hlasting)
    fun w₁ h₁ hfact₁ => ?_
  rw [keeps_bind]
  refine h₁.query hlasting.steady hfact₁ fun w₂ h₂ hfact₂ => ?_
  rw [h₂.row]
  let row' := run.row.recordWarnings (run.row.warnings ++ messages)
  have hsave : Keeps t (saveRowIf (row'.warnings ≠ run.row.warnings) run.pk fun row =>
      { row with warnings := row'.warnings })
        (Returns fun _ w => Owns t (n + 2) ⟨run.pk, row'⟩ w ∧ fact w) w₂ := by
    unfold saveRowIf
    split_ifs with hnew
    · exact h₂.saveRow (Lasting.const True).steady trivial hlasting hfact₂ (.warnings _)
        fun w' hw' _ _ hrow =>
        hw'.write_same hrow id ((hw'.steps _ _ hrow).congr rfl rfl) rfl rfl .inl
    · have hsame : row' = run.row := by
        have hwarnings : row'.warnings = run.row.warnings := by simpa using hnew
        show { run.row with warnings := row'.warnings } = run.row
        rw [hwarnings]
      exact ⟨hsame ▸ h₂, hfact₂⟩
  exact hsave.bind fun _ w₃ h₃ => ⟨h₃.1, ⟨rfl, id, rfl, rfl, rfl⟩, h₃.2⟩

/-- **`advance`** leaves the journal. -/
theorem Owns.advance (h : Owns t n run w) (hlasting : Lasting fact) (hfact : fact w)
    {state : MigrationState} (hopen : state ≠ .migrated) :
    Keeps t (Migration.advance run state)
      (Returns fun run' w => Owns t n run' w ∧ run.Agrees run' ∧ fact w) w := by
  unfold Migration.advance
  rw [keeps_bind]
  refine h.query hlasting.steady hfact fun w₁ h₁ hfact₁ => ?_
  rw [andThen_ok]
  cases hadvance : run.row.advance state w₁.now with
  | none => trivial
  | some row =>
    obtain ⟨hnext, hstate, hjournal, hwarnings⟩ := advance_eq_some hadvance
    let write (stored : MigrationRow) : MigrationRow := { stored with
      state := row.state, cutoverStarted := row.cutoverStarted, completed := row.completed }
    have hrow : write run.row = row := by
      show MigrationRow.mk _ run.row.journal run.row.warnings _ _ = row
      rw [← hjournal, ← hwarnings]
    have hsave : Keeps t (Migration.saveRow run.pk write)
        (Returns fun _ w => Owns t n ⟨run.pk, row⟩ w ∧ fact w) w₁ := by
      have hrecorded : Recorded run.row (write run.row) := hrow ▸ .advance hadvance hopen
      rw [← hrow]
      refine h₁.saveRow (Lasting.const True).steady trivial hlasting hfact₁ hrecorded
        fun w' hw' _ _ hrow' => ?_
      · rw [hrow]
        refine hw'.write_same hrow' (fun hmigrated => ?_) ?_ (by rw [hjournal]) (by rw [hjournal])
          fun hdone => .inl (hjournal ▸ hdone)
        · rw [hmigrated] at hnext
          cases hnext
        · have hordered := hw'.steps _ _ hrow'
          refine ⟨?_, ?_, fun hclosed => absurd (hstate.symm.trans hclosed) hopen⟩
          · rw [hjournal]
            exact hordered.activated
          · rw [hjournal]
            exact hordered.crossed
    exact hsave.bind fun _ w₂ h₂ => ⟨h₂.1, ⟨rfl, fun _ => hstate ▸ hopen,
      by rw [hjournal], by rw [hjournal], by rw [hjournal]⟩, h₂.2⟩

/-- A condition that leads to an update. -/
theorem Keeps.updateIf {condition : Bool} {update : Pass RunInstance}
    {post : RunInstance → MigrationWorld → Prop} (hupdate : Keeps t update (Returns post) w)
    (hsame : post run w) : Keeps t (Migration.updateIf condition run update) (Returns post) w := by
  unfold Migration.updateIf
  split_ifs
  · exact hupdate
  · exact hsame

/-- Journal keys besides the schedules. -/
theorem Owns.recordOther (h : Owns t (n + 1) run w) (hlasting : Lasting fact) (hfact : fact w)
    {entries : Journal} (hnew : ∀ entry ∈ entries,
      entry.1 ≠ py "steps" ∧ entry.1 ∉ Journal.mappingNames)
    (hschedules : ∀ entry ∈ entries, entry.1 ≠ py "schedules") :
    Keeps t (Migration.recordJournal run entries)
      (Returns fun run' w => Owns t (n + 1) run' w ∧ run.Agrees run' ∧ fact w) w := by
  have hs : (run.row.recordJournal entries).journal.schedules = run.row.journal.schedules :=
    Journal.schedules_congr (Dict.get?_update_of_notMem (Journal.notMem_keys hschedules))
  have hr : (run.row.recordJournal entries).journal.recreated = run.row.journal.recreated :=
    mapping_recordJournal hnew recreated_mem_mappingNames
  have hsteps : (run.row.recordJournal entries).journal.steps = run.row.journal.steps :=
    steps_recordJournal hnew
  have hdone' : ∀ name, (run.row.recordJournal entries).journal.stepDone name =
      run.row.journal.stepDone name := by
    intro name
    rw [Journal.stepDone, hsteps, Journal.stepDone]
  refine wp_mono (fun r w' hr' => ?_) (h.mergeJournal (Lasting.const True).steady trivial
    hlasting hfact (.journal entries hnew) fun w' hw' _ _ hrow =>
      hw'.write_same hrow id ((hw'.steps _ _ hrow).congr rfl hsteps) hs hr fun hdone => .inl ?_)
  · cases r with
    | error e => trivial
    | ok run' =>
      obtain ⟨hown, rfl, hfact'⟩ := hr'
      exact ⟨hown, ⟨rfl, id, hs, hr, hsteps⟩, hfact'⟩
  · exact (hdone' _).symm.trans hdone

/-- New schedules, before the cutover is complete. -/
theorem Owns.recordCaptured (h : Owns t (n + 1) run w) (hsteady : Steady t known)
    (hknown : known w) (hlasting : Lasting fact) (hfact : fact w)
    {entries : Journal} {captured : List ScheduleEntry} (hnew : ∀ entry ∈ entries,
      entry.1 ≠ py "steps" ∧ entry.1 ∉ Journal.mappingNames)
    (hcaptured : (run.row.recordJournal entries).journal.schedules = captured)
    (hopen : run.row.journal.stepDone (py "cutover") = false)
    (hentries : ∀ w', fact w' → ∀ e ∈ captured, w'.EntryOk e)
    (hexclusive : ∀ w', w'.Inv → w'.runs.row run.pk = some run.row → known w' → fact w' →
      w'.Exclusive run.pk captured)
    (hkept : ∀ e ∈ run.row.journal.schedules, ∃ e' ∈ captured, e'.jobPk = e.jobPk) :
    Keeps t (Migration.recordJournal run entries)
      (Returns fun run' w => Owns t (n + 1) run' w ∧ (run'.pk = run.pk ∧
        run'.row.journal.schedules = captured ∧
        run'.row.journal.recreated = run.row.journal.recreated ∧
        run'.row.journal.steps = run.row.journal.steps) ∧ fact w) w := by
  have hr : (run.row.recordJournal entries).journal.recreated = run.row.journal.recreated :=
    mapping_recordJournal hnew recreated_mem_mappingNames
  have hsteps : (run.row.recordJournal entries).journal.steps = run.row.journal.steps :=
    steps_recordJournal hnew
  have hdone' : ∀ name, (run.row.recordJournal entries).journal.stepDone name =
      run.row.journal.stepDone name := by
    intro name
    rw [Journal.stepDone, hsteps, Journal.stepDone]
  refine wp_mono (fun r w' hr' => ?_) (h.mergeJournal hsteady hknown hlasting hfact
    (.journal entries hnew) fun w' hw' hknown' hfact' hrow =>
      hw'.write hrow id ((hw'.steps _ _ hrow).congr rfl hsteps) ?_ ?_ ?_ hr ?_)
  · cases r with
    | error e => trivial
    | ok run' =>
      obtain ⟨hown, rfl, hfact'⟩ := hr'
      exact ⟨hown, ⟨rfl, hcaptured, hr, hsteps⟩, hfact'⟩
  · exact fun e he => hentries w' hfact' e (hcaptured ▸ he)
  · intro hdone
    have hclosed := (hdone' _).symm.trans hdone
    rw [hopen] at hclosed
    cases hclosed
  · exact fun i other hi hother e he =>
      hexclusive w' hw' hrow hknown' hfact' i other hi hother e (hcaptured ▸ he)
  · exact fun e he => hcaptured ▸ hkept e he

/-- **`record_step`**, after the steps it relies on. -/
theorem Owns.recordStep (h : Owns t (n + 1) run w) (hlasting : Lasting fact) (hfact : fact w)
    {name : PyStr} {detail : Json}
    (hrequired : name ∈ requiredSteps → run.row.journal.stepDone (py "activate") = true)
    (hactivate : name = py "activate" → run.row.journal.stepDone (py "cutover") = true)
    (hcutover : name = py "cutover" → ∀ e ∈ run.row.journal.schedules, e.resolved = true) :
    Keeps t (Migration.recordStep run name detail) (Returns fun _ _ => True) w := by
  have hr : (run.row.recordStep name detail).journal.recreated = run.row.journal.recreated :=
    mapping_recordStep recreated_mem_mappingNames
  refine wp_mono (fun r w' _ => ?_) (h.mergeJournal (Lasting.const True).steady trivial
    hlasting hfact (.step name detail) fun w' hw' _ _ hrow => hw'.write_same hrow id
      ((hw'.steps _ _ hrow).recordStep hrequired hactivate) schedules_recordStep hr fun hdone => ?_)
  · cases r <;> trivial
  · rcases eq_or_ne (py "cutover") name with heq | hne
    · exact .inr (hcutover heq.symm)
    · have hsame : (run.row.recordStep name detail).journal.stepDone (py "cutover") =
          run.row.journal.stepDone (py "cutover") := stepDone_recordStep_of_ne hne
      exact .inl (hsame ▸ hdone)

/-- **`complete_step`** -/
theorem Owns.completeStep (h : Owns t (n + 1) run w) (hlasting : Lasting fact) (hfact : fact w)
    {name : PyStr} {counts : Json} {messages : List PyStr}
    (hrequired : name ∈ requiredSteps → run.row.journal.stepDone (py "activate") = true)
    (hactivate : name = py "activate" → run.row.journal.stepDone (py "cutover") = true)
    (hcutover : name = py "cutover" → ∀ e ∈ run.row.journal.schedules, e.resolved = true) :
    Keeps t (Migration.completeStep run name counts messages) (Returns fun _ _ => True) w := by
  refine (h.recordWarnings hlasting hfact).bind fun run' w₁ h₁ => ?_
  obtain ⟨hown, hagrees, hfact₁⟩ := h₁
  refine hown.recordStep hlasting hfact₁ (fun hname => ?_) (fun hname => ?_) fun hname => ?_
  · exact (hagrees.stepDone _).trans (hrequired hname)
  · exact (hagrees.stepDone _).trans (hactivate hname)
  · exact hagrees.schedules ▸ hcutover hname

end Methods

end NetBoxScripts
