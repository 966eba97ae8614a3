import NetBoxScripts.Services.Fencing

/-!
# Verdicts and outcomes of a course

What a course of workers and saves comes to: one verdict for each revision, of the worker that
claimed it last; no writes by a worker after another claimed its revision; and on each Script File
the outcome of the validation that started last.

## Main definitions

* `Happens`: an event is a worker's move, or of no worker
* `VerdictOf`: a verdict, with the claim it follows from
* `Persisted`, `HoldsOutcome`: an outcome that was persisted, and what a row ends with
* `Opened`, `Settles`: what a course starts from, and what it comes to

## Main results

* `Fenced.next`: every event keeps the fence
* `Opened.judged`, `Opened.reclaimed`, `Opened.writer`: who gives a verdict, who is fenced off, and
  who writes an outcome
* `Opened.outcome_origin`: where the outcome on a row comes from
* `workers_settle`: every course settles
-/

namespace NetBoxScripts

namespace Workers

variable {Cls : Type} [DecidableEq Cls] [Unicode] [Hashing] {jobOf : ThreadId → Id}

section Events

variable {course : Shift Cls jobOf} {n : ℕ} {t u : ThreadId} {env : ValidationEnv Cls} {q r : Id}
  {stage stage' : Stage}

/-- **What happens at an event**: a move of a worker, or nothing that is a worker's. -/
inductive Happens (course : Shift Cls jobOf) (n : ℕ) : Prop
  | still (hinert : Inert (course.world n) (course.world (n + 1)))
      (hby : ∀ t, course.By t n → Unclaimed course n t)
  | moved {t : ThreadId} {env : ValidationEnv Cls} {r : Id} {stage stage' : Stage}
      (hby : course.By t n)
      (hthread : (course.pool n).thread t =
        some ⟨.validate env r (jobOf t), stage.prog env r (jobOf t)⟩)
      (hfacts : StageFacts course n t env r stage)
      (hmove : Move env r (jobOf t) stage (course.world n) stage' (course.world (n + 1)))

/-- **A claim** is the move of a worker that has claimed nothing. -/
theorem StageFacts.unclaimed {s s' : World} (hfacts : StageFacts course n t env r stage)
    (hmove : Move env r (jobOf t) stage s stage' s') (hclaims : Claims q s s') :
    Unclaimed course n t := by
  have hstill : s'.revisions ≠ s.revisions := fun heq => hclaims.changed (by rw [heq])
  have hstatus : ∃ row job now, s'.revisions.row q = some (claimRevision row job now) := by
    obtain ⟨row, job, now, -, -, hrow⟩ := hclaims
    exact ⟨row, job, now, hrow⟩
  obtain ⟨claimed, job, now, hclaimed⟩ := hstatus
  cases hmove with
  | claim hrow hclaimable => exact hfacts.1
  | revert hrow howned =>
    -- a claim that was given back leaves a materialized row
    rcases row_modifyRevision hclaimed with hold | ⟨-, old, -, heq⟩
    · exact absurd (hclaimed.trans hold.symm) hclaims.changed
    · cases congrArg RevisionRow.status heq
  | @judge _ row current verdict hrow howned =>
    rcases row_modifyRevision hclaimed with hold | ⟨-, old, -, heq⟩
    · exact absurd (hclaimed.trans hold.symm) hclaims.changed
    · -- a verdict is no claim
      have hsettled := settled_of_examined hfacts.2.1
      have hvalidating : RevisionStatus.validating = verdict.status :=
        congrArg RevisionRow.status heq
      rw [← hvalidating] at hsettled
      cases hsettled
  | time | refused | read | gone | kept | lost | record | skip | close => exact absurd rfl hstill

/-- A thread that takes no part in an event that is of no worker. -/
theorem Fenced.still (h : Fenced course n) {th : Thread World Choice Failure (Work Cls)}
    (hthread : (course.pool n).thread u = some th)
    (hinert : Inert (course.world n) (course.world (n + 1))) (hby : ¬ course.By u n) :
    Follows course (n + 1) u th := by
  have heffect : Effect 0 (jobOf u + 1) (course.world n) (course.world (n + 1)) := .inert hinert
  exact (h.follows u th hthread).other heffect h.grounded hby (Nat.succ_ne_self _).symm

/-- What has to be shown of an event that is of no worker. -/
theorem Advances.still (hinert : Inert (course.world n) (course.world (n + 1)))
    (hnext : (course.pool n).next ≤ (course.pool (n + 1)).next)
    (hby : ∀ t, course.By t n → t < (course.pool n).next)
    (hthread : ∀ t th, (course.pool (n + 1)).thread t = some th →
      t < (course.pool (n + 1)).next ∧ Follows course (n + 1) t th) : Advances course n 0 0 where
  effect := .inert hinert
  claimer _ hclaims := absurd hclaims hinert.not_claims
  next_le := hnext
  by_lt := hby
  thread := hthread

/-- A thread is started. -/
theorem Fenced.spawn (h : Fenced course n) (hn : n < course.length) {op : Work Cls}
    (hevent : course.event n = .spawn op) : Advances course n 0 0 ∧ Happens course n := by
  have hstep := course.step n hn
  rw [hevent] at hstep
  have hpool := (Option.some.inj hstep).symm
  have hworld : course.world (n + 1) = course.world n := by
    rw [Course.world, hpool]
    rfl
  have hnext : (course.pool (n + 1)).next = (course.pool n).next + 1 := by rw [hpool]
  have hinert : Inert (course.world n) (course.world (n + 1)) := by
    rw [hworld]
    exact .of_eq rfl rfl
  have hby : ∀ t, ¬ course.By t n := by
    rintro t ⟨c, hc⟩
    cases hevent.symm.trans hc
  -- the new thread has done nothing
  have hnothing : ∀ i < n + 1, ¬ course.By (course.pool n).next i := by
    intro i hi hbyi
    rcases Nat.lt_succ_iff_lt_or_eq.mp hi with hlt | rfl
    · exact absurd (h.by_lt i hlt _ hbyi) (Nat.lt_irrefl _)
    · exact hby _ hbyi
  refine ⟨.still hinert (hnext ▸ Nat.le_succ _) (fun t h => absurd h (hby t)) fun t th hth => ?_,
    .still hinert fun t h => absurd h (hby t)⟩
  have hth' := hth
  rw [hpool] at hth'
  dsimp only at hth'
  by_cases ht : t = (course.pool n).next
  · subst ht
    rw [Function.update_self] at hth'
    obtain rfl := Option.some.inj hth'
    refine ⟨hnext ▸ Nat.lt_succ_self _, ?_⟩
    cases op with
    | validate env r job =>
      obtain rfl := course.allowed n hn env r job hevent
      exact ⟨rfl, .fresh, rfl, fun i hi _ hclaimed => hnothing i hi hclaimed.1,
        fun i hi _ hjudged => hnothing i hi hjudged.1⟩
    | save file =>
      exact ⟨eachStep_saveScriptFile, fun i hi _ hclaimed => hnothing i hi hclaimed.1⟩
  · rw [Function.update_of_ne ht] at hth'
    exact ⟨hnext ▸ Nat.lt_succ_of_lt (h.lt t th hth'), h.still hth' hinert (hby t)⟩

/-- A thread ends where it stands. -/
theorem Fenced.die (h : Fenced course n) (hn : n < course.length)
    (hevent : course.event n = .die u) : Advances course n 0 0 ∧ Happens course n := by
  have hstep := course.step n hn
  rw [hevent] at hstep
  have hby : ∀ t, ¬ course.By t n := by
    rintro t ⟨c, hc⟩
    cases hevent.symm.trans hc
  simp only [Pool.step] at hstep
  split at hstep
  · have hpool := (Option.some.inj hstep).symm
    have hworld : course.world (n + 1) = (course.world n).reap u := by
      rw [Course.world, hpool]
      rfl
    have hnext : (course.pool (n + 1)).next = (course.pool n).next := by rw [hpool]
    have hinert : Inert (course.world n) (course.world (n + 1)) := by
      rw [hworld]
      exact .of_eq rfl rfl
    refine ⟨.still hinert hnext.ge (fun t h => absurd h (hby t)) fun t th hth => ?_,
      .still hinert fun t h => absurd h (hby t)⟩
    have hth' := hth
    rw [hpool] at hth'
    dsimp only at hth'
    by_cases ht : t = u
    · subst ht
      rw [Function.update_self] at hth'
      cases hth'
    · rw [Function.update_of_ne ht] at hth'
      exact ⟨hnext ▸ h.lt t th hth', h.still hth' hinert (hby t)⟩
  · cases hstep

/-- Time passes. -/
theorem Fenced.tick (h : Fenced course n) (hn : n < course.length)
    (hevent : course.event n = .tick) : Advances course n 0 0 ∧ Happens course n := by
  have hstep := course.step n hn
  rw [hevent] at hstep
  have hpool := (Option.some.inj hstep).symm
  have hinert : Inert (course.world n) (course.world (n + 1)) := by
    unfold Course.world
    rw [hpool]
    exact .of_eq rfl rfl
  have hby : ∀ t, ¬ course.By t n := by
    rintro t ⟨c, hc⟩
    cases hevent.symm.trans hc
  have hnext : (course.pool (n + 1)).next = (course.pool n).next := by rw [hpool]
  refine ⟨.still hinert hnext.ge (fun t h => absurd h (hby t)) fun t th hth => ?_,
    .still hinert fun t h => absurd h (hby t)⟩
  have hth' : (course.pool n).thread t = some th := by
    rw [hpool] at hth
    exact hth
  exact ⟨hnext ▸ h.lt t th hth', h.still hth' hinert (hby t)⟩

/-- A thread takes its next action. -/
theorem Fenced.run (hinjective : Function.Injective jobOf) (h : Fenced course n)
    (hn : n < course.length) {c : Choice} (hevent : course.event n = .run t c) :
    (∃ r job, Advances course n r job) ∧ Happens course n := by
  have hby : course.By t n := ⟨c, hevent⟩
  have hstep := course.step n hn
  rw [hevent] at hstep
  cases hth : (course.pool n).thread t with
  | none =>
    rw [Pool.step_absent hth] at hstep
    cases hstep
  | some th =>
    obtain ⟨op, prog⟩ := th
    cases prog with
    | done result =>
      rw [Pool.step_done hth] at hstep
      cases hstep
    | act step next =>
      rw [Pool.step_act hth] at hstep
      obtain ⟨⟨answer, s'⟩, hact, hpool⟩ := Option.map_eq_some_iff.mp hstep
      dsimp only at hpool
      have hworld : course.world (n + 1) = s' := (congrArg Pool.world hpool).symm
      have hnext : (course.pool (n + 1)).next = (course.pool n).next :=
        (congrArg Pool.next hpool).symm
      have hself : (course.pool (n + 1)).thread t = some ⟨op, next answer⟩ := by
        rw [← hpool]
        exact Function.update_self ..
      have hother : ∀ u, u ≠ t → (course.pool (n + 1)).thread u = (course.pool n).thread u := by
        intro u hu
        rw [← hpool]
        exact Function.update_of_ne hu ..
      have hlt : t < (course.pool n).next := h.lt t _ hth
      have hby_lt : ∀ u, course.By u n → u < (course.pool n).next :=
        fun u hu => by_unique hby hu ▸ hlt
      have hfollows := h.follows t _ hth
      cases op with
      | validate env r job =>
        obtain ⟨rfl, stage, hprog, hfacts⟩ := hfollows
        have hmoves : Moves env r (jobOf t) stage (stage.prog env r (jobOf t)) := moves_prog stage
        dsimp only at hprog
        rw [← hprog] at hmoves
        obtain ⟨stage', hmove, hleft⟩ := hmoves t c (course.world n) answer s' hact
        obtain ⟨heffect, hfacts'⟩ := hfacts.move h hby ⟨_, hth⟩ hmove rfl hworld
        rw [← hworld] at hmove heffect
        -- the others have jobs of their own, so that the move is one of another worker to them
        refine ⟨⟨r, jobOf t, heffect, fun q hclaims => ?_, hnext.ge, hby_lt, fun u th hu => ?_⟩,
          .moved hby (hprog ▸ hth) hfacts hmove⟩
        · exact ⟨t, hby, rfl, hfacts.unclaimed hmove hclaims⟩
        · by_cases hut : u = t
          · subst hut
            obtain rfl := Option.some.inj (hself.symm.trans hu)
            exact ⟨hnext ▸ hlt, rfl, stage', hleft, hfacts'⟩
          · rw [hother u hut] at hu
            refine ⟨hnext ▸ h.lt u th hu, ?_⟩
            exact (h.follows u th hu).other heffect h.grounded (fun hu => hut (by_unique hu hby))
              fun hjob => hut (hinjective hjob)
      | save file =>
        obtain ⟨⟨hinert, hleft⟩, hunclaimed⟩ := hfollows
        replace hinert := hinert t c (course.world n) answer s' hact
        rw [← hworld] at hinert
        refine ⟨⟨0, 0, .still hinert hnext.ge hby_lt fun u th hu => ?_⟩,
          .still hinert fun u hu => by_unique hby hu ▸ hunclaimed⟩
        by_cases hut : u = t
        · subst hut
          obtain rfl := Option.some.inj (hself.symm.trans hu)
          refine ⟨hnext ▸ hlt, hleft answer, hunclaimed.next fun q hclaimed => ?_⟩
          exact hinert.not_claims hclaimed.2
        · rw [hother u hut] at hu
          exact ⟨hnext ▸ h.lt u th hu, h.still hu hinert fun hu => hut (by_unique hu hby)⟩

/-- **Every event** is a worker's move or of no worker, and keeps the fence. -/
theorem Fenced.event (hinjective : Function.Injective jobOf) (h : Fenced course n)
    (hn : n < course.length) : (∃ r job, Advances course n r job) ∧ Happens course n := by
  cases hevent : course.event n with
  | spawn op => exact (h.spawn hn hevent).imp_left fun h => ⟨0, 0, h⟩
  | run t c => exact h.run hinjective hn hevent
  | die t => exact (h.die hn hevent).imp_left fun h => ⟨0, 0, h⟩
  | tick => exact (h.tick hn hevent).imp_left fun h => ⟨0, 0, h⟩

theorem Fenced.next (hinjective : Function.Injective jobOf) (h : Fenced course n)
    (hn : n < course.length) : Fenced course (n + 1) := by
  obtain ⟨⟨r, job, hadvances⟩, -⟩ := h.event hinjective hn
  exact h.advance hinjective hadvances

end Events

/-! ## Who gives a verdict, and who writes -/

section Courses

variable (course : Shift Cls jobOf)

/-- **The verdict given at event `k`** is the one its worker computed from the row it claimed at
event `i`, and no claim came between. -/
structure VerdictOf (r : Id) (t : ThreadId) (i k : ℕ) (env : ValidationEnv Cls) (row : RevisionRow)
    (verdict : Verdict) : Prop where
  lt : i < k
  claimed : ClaimedAt course t i r
  judged : JudgedAt course t k r
  latest : ∀ j, i < j → j < k → ¬ Claims r (course.world j) (course.world (j + 1))
  worker : ∃ prog, (course.pool k).thread t = some ⟨.validate env r (jobOf t), prog⟩
  taken : (course.world (i + 1)).revisions.row r = some row
  before : (course.world k).revisions.row r = some row
  examined : examineRevision env row = .verdict verdict
  given : (course.world (k + 1)).revisions.row r = some (finalizeRevision row verdict)

/-- A worker ended after its verdict, which has an outcome for the Script File, there as the
snapshot names it. -/
def Offered (f r : Id) : Prop :=
  ∃ t env k row verdict outcome file,
    (course.pool course.length).thread t = some ⟨.validate env r (jobOf t), .done (.ok ())⟩ ∧
      k < course.length ∧ JudgedAt course t k r ∧
      (course.world k).revisions.row r = some row ∧ examineRevision env row = .verdict verdict ∧
      outcome ∈ verdict.persisted ∧ outcome.1.scriptFile = f ∧
      (course.world k).files.row f = some file ∧ file.project = row.project ∧
      file.sourcePath = outcome.1.sourcePath

/-- The revision wrote an outcome on the Script File, or had one for it when its worker ended. -/
def Persisted (f r : Id) : Prop :=
  (∃ j < course.length, Writes f r (course.world j) (course.world (j + 1))) ∨ Offered course f r

/-- The row has the outcome of a verdict of the revision, or the one it had before. -/
def HoldsOutcome (f q : Id) (file : ScriptFileRow) : Prop :=
  (∃ t i k env row verdict, VerdictOf course q t i k env row verdict ∧
    ∃ outcome ∈ verdict.persisted, outcome.1.scriptFile = f ∧
      outcomeOn file = (outcome.2.1, outcome.2.2, some q)) ∨
    file.lastDiscoveredRevision = some q ∧ ∃ old, (course.world 0).files.row f = some old ∧
      outcomeOn file = outcomeOn old

/-- **What a course comes to.** -/
structure Settles : Prop where
  once : ∀ i < course.length, ∀ j < course.length, ∀ r,
    Judges r (course.world i) (course.world (i + 1)) →
      Judges r (course.world j) (course.world (j + 1)) → i = j
  stands : ∀ k n r, k < n → n ≤ course.length → Judges r (course.world k) (course.world (k + 1)) →
    (course.world n).revisions.row r = (course.world (k + 1)).revisions.row r
  latest : ∀ k < course.length, ∀ r, Judges r (course.world k) (course.world (k + 1)) →
    ∃ t i env row verdict, VerdictOf course r t i k env row verdict
  reclaimed : ∀ i j k r t u, i < j → j < k → k < course.length → ClaimedAt course t i r →
    ClaimedAt course u j r → course.By t k →
      (course.world (k + 1)).revisions = (course.world k).revisions ∧
        (course.world (k + 1)).files = (course.world k).files
  outcome : ∀ f r, Persisted course f r → ∃ file q,
    (course.world course.length).files.row f = some file ∧ HoldsOutcome course f q file ∧
      ∀ p, Persisted course f p → NoEarlier (course.world course.length) p q

/-- What a course starts from: no thread yet, no claim under a job of theirs, and no outcome but of
a revision that has its verdict. -/
structure Opened : Prop where
  own : Function.Injective jobOf
  thread : ∀ t, (course.pool 0).thread t = none
  job : ∀ r row t, (course.world 0).revisions.row r = some row →
    row.validationJob ≠ some (jobOf t)
  grounded : Grounded (course.world 0)

variable {course} {n : ℕ} {t u : ThreadId} {env : ValidationEnv Cls} {q r f : Id}

theorem Opened.fenced (hopened : Opened course) : ∀ n ≤ course.length, Fenced course n := by
  refine course.invariant ?_ fun n hn h => h.next hopened.own hn
  refine ⟨fun t th hth => ?_, fun i hi => absurd hi (Nat.not_lt_zero i), fun t th hth => ?_,
    fun r row t hrow hjob => absurd hjob (hopened.job r row t hrow),
    fun i hi => absurd hi (Nat.not_lt_zero i), hopened.grounded⟩
  all_goals
    rw [hopened.thread t] at hth
    cases hth

theorem Opened.happens (hopened : Opened course) (hn : n < course.length) : Happens course n :=
  ((hopened.fenced n hn.le).event hopened.own hn).2

theorem Opened.effect (hopened : Opened course) (hn : n < course.length) :
    ∃ r job, Effect r job (course.world n) (course.world (n + 1)) := by
  obtain ⟨⟨r, job, hadvances⟩, -⟩ := (hopened.fenced n hn.le).event hopened.own hn
  exact ⟨r, job, hadvances.effect⟩

/-- **A verdict stands** to the end. -/
theorem Opened.row_kept (hopened : Opened course) {m : ℕ} {row : RevisionRow}
    (hrow : (course.world m).revisions.row r = some row) (hsettled : row.status.settled = true)
    (hle : m ≤ n) : n ≤ course.length → (course.world n).revisions.row r = some row := by
  induction n, hle using Nat.le_induction with
  | base => exact fun _ => hrow
  | succ n hle ih =>
    intro hn
    obtain ⟨q, job, heffect⟩ := hopened.effect hn
    exact heffect.settled_kept (ih (Nat.le_of_succ_le hn)) hsettled

/-- A Script File stays covered to the end. -/
theorem Opened.covered_kept (hopened : Opened course) {m : ℕ}
    (hsettled : Settled (course.world m) r) (hcovered : Covered (course.world m) f r)
    (hle : m ≤ n) : n ≤ course.length → Covered (course.world n) f r := by
  suffices h : n ≤ course.length → Settled (course.world n) r ∧ Covered (course.world n) f r from
    fun hn => (h hn).2
  induction n, hle using Nat.le_induction with
  | base => exact fun _ => ⟨hsettled, hcovered⟩
  | succ n hle ih =>
    intro hn
    obtain ⟨hsettled, hcovered⟩ := ih (Nat.le_of_succ_le hn)
    obtain ⟨q, job, heffect⟩ := hopened.effect hn
    exact ⟨heffect.settled hsettled,
      heffect.covered (hopened.fenced n (Nat.le_of_succ_le hn)).grounded hsettled hcovered⟩

theorem judges_of_given {s s' : World} {row : RevisionRow} {verdict : Verdict} {job : Id}
    (hrow : s.revisions.row r = some row) (howned : OwnedBy row job)
    (hexamined : examineRevision env row = .verdict verdict)
    (hrow' : s'.revisions.row r = some (finalizeRevision row verdict)) : Judges r s s' :=
  ⟨row, finalizeRevision row verdict, hrow, hrow', not_settled_of_ownedBy howned,
    settled_of_examined hexamined⟩

/-- **Who gives a verdict**: the worker that claimed the revision last. -/
theorem Opened.verdictOf (hopened : Opened course) {k : ℕ} {row : RevisionRow} {verdict : Verdict}
    (hk : k < course.length) (hby : course.By t k)
    (hworker : ∃ prog, (course.pool k).thread t = some ⟨.validate env r (jobOf t), prog⟩)
    (hrow : (course.world k).revisions.row r = some row) (howned : OwnedBy row (jobOf t))
    (hexamined : examineRevision env row = .verdict verdict)
    (hgiven : (course.world (k + 1)).revisions.row r = some (finalizeRevision row verdict)) :
    ∃ i, VerdictOf course r t i k env row verdict := by
  obtain ⟨-, i, hi, hclaimed, hlatest, htaken⟩ :=
    (hopened.fenced k hk.le).latest r row t hrow howned.2
  exact ⟨i, hi, hclaimed, ⟨hby, judges_of_given hrow howned hexamined hgiven⟩, hlatest, hworker,
    htaken howned, hrow, hexamined, hgiven⟩

theorem Opened.judged (hopened : Opened course) {k : ℕ} (hk : k < course.length)
    (hjudges : Judges r (course.world k) (course.world (k + 1))) :
    ∃ t i env row verdict, VerdictOf course r t i k env row verdict := by
  cases hopened.happens hk with
  | still hinert => exact absurd hjudges (not_judges_of_eq hinert.revisions)
  | @moved t env p stage stage' hby hthread hfacts hmove =>
    obtain ⟨heffect, -⟩ := hfacts.move (hopened.fenced k hk.le) hby ⟨_, hthread⟩ hmove rfl rfl
    obtain ⟨rfl, -⟩ := heffect.judges hjudges
    -- only the last statement of a run gives a verdict
    generalize hs : course.world k = s at hmove hjudges
    generalize hs' : course.world (k + 1) = s' at hmove hjudges
    cases hmove with
    | @judge _ row current verdict hrow howned =>
      obtain ⟨-, hexamined, hcurrent⟩ := hfacts
      obtain rfl : current = row := hcurrent current (hs ▸ hrow) howned
      have hgiven : (course.world (k + 1)).revisions.row r =
          some (finalizeRevision current verdict) := by
        rw [hs']
        exact (Table.row_modify_self ..).trans (congrArg _ hrow)
      obtain ⟨i, hverdict⟩ :=
        hopened.verdictOf hk hby ⟨_, hthread⟩ (hs ▸ hrow) howned hexamined hgiven
      exact ⟨t, i, env, current, verdict, hverdict⟩
    | claim hrow hclaimable => exact absurd hjudges (not_judges_modifyRevision fun _ => rfl)
    | revert hrow howned => exact absurd hjudges (not_judges_modifyRevision fun _ => rfl)
    | time | refused | read | gone | kept | lost | record | skip | close =>
      exact absurd hjudges (not_judges_of_eq rfl)

/-- **What is under a worker's job** was claimed by it, and by no one since. -/
theorem Opened.not_reclaimed (hopened : Opened course) {i k : ℕ} {row : RevisionRow}
    (hk : k < course.length) (hi : i < k) (hclaimed : ClaimedAt course t i q)
    (hrow : (course.world k).revisions.row r = some row)
    (hjob : row.validationJob = some (jobOf t)) :
    ∀ j, i < j → j < k → ¬ Claims q (course.world j) (course.world (j + 1)) := by
  have hfenced := hopened.fenced k hk.le
  obtain ⟨-, i', hi', hclaimed', hlatest, -⟩ := hfenced.latest r row t hrow hjob
  obtain rfl := hfenced.once i hi i' hi' t q r hclaimed hclaimed'
  obtain ⟨p, job, heffect⟩ := hopened.effect (hi.trans hk)
  obtain rfl : q = r :=
    (heffect.claims hclaimed.2).1.trans (heffect.claims hclaimed'.2).1.symm
  exact hlatest

/-- **Who is fenced off**: a worker whose revision another claimed writes nothing more. -/
theorem Opened.reclaimed (hopened : Opened course) {i j k : ℕ} (hij : i < j) (hjk : j < k)
    (hk : k < course.length) (hclaimed : ClaimedAt course t i r)
    (hreclaimed : ClaimedAt course u j r) (hby : course.By t k) :
    (course.world (k + 1)).revisions = (course.world k).revisions ∧
        (course.world (k + 1)).files = (course.world k).files := by
  -- no row is under the worker's job any more, and each of its writes asks for one that is
  have howner : ∀ p row, (course.world k).revisions.row p = some row →
      row.validationJob ≠ some (jobOf t) := fun p row hrow hjob =>
    hopened.not_reclaimed hk (hij.trans hjk) hclaimed hrow hjob j hij hjk hreclaimed.2
  cases hopened.happens hk with
  | still hinert hunclaimed =>
    exact absurd hclaimed (hunclaimed t hby i (hij.trans hjk) r)
  | @moved v env p stage stage' hbyv hthread hfacts hmove =>
    obtain rfl := by_unique hby hbyv
    generalize hs : course.world k = s at hmove
    generalize hs' : course.world (k + 1) = s' at hmove
    cases hmove with
    | claim hrow hclaimable => exact absurd hclaimed (hfacts.1 i (hij.trans hjk) r)
    | @revert _ reason failure row hrow howned => exact absurd howned.2 (howner p row (hs ▸ hrow))
    | @judge _ row current verdict hrow howned =>
      exact absurd howned.2 (howner p current (hs ▸ hrow))
    | @record _ row verdict outcome rest file hfile hrecordable =>
      obtain ⟨recorded, m, -, hgave⟩ := hfacts
      have hjob : (finalizeRevision row verdict).validationJob = some (jobOf t) := hgave.owned.2
      exact absurd hjob (howner p _ hgave.after)
    | time | refused | read | gone | kept | lost | skip | close => exact ⟨rfl, rfl⟩

/-- **Who writes an outcome**: a worker, and one of the outcomes of the verdict it gave. -/
theorem Opened.writer (hopened : Opened course) {j : ℕ} (hj : j < course.length)
    (hwrites : Writes f r (course.world j) (course.world (j + 1))) {file : ScriptFileRow}
    (hfile : (course.world (j + 1)).files.row f = some file) :
    ∃ t i k env row verdict, VerdictOf course r t i k env row verdict ∧
      ∃ outcome ∈ verdict.persisted, outcome.1.scriptFile = f ∧
        outcomeOn file = (outcome.2.1, outcome.2.2, some r) := by
  obtain ⟨old, file', hold, hfile', hne, hlast⟩ := hwrites
  obtain rfl := Option.some.inj (hfile'.symm.trans hfile)
  have hkept : (course.world (j + 1)).files ≠ (course.world j).files := by
    intro heq
    rw [heq, hold] at hfile
    obtain rfl := Option.some.inj hfile
    exact hne rfl
  cases hopened.happens hj with
  | still hinert =>
    obtain ⟨file'', hfile'', hsame⟩ := hinert.kept f old hold
    obtain rfl := Option.some.inj (hfile.symm.trans hfile'')
    exact absurd hsame.outcome hne
  | @moved t env p stage stage' hby hthread hfacts hmove =>
    generalize hs : course.world j = s at hmove hold hkept
    generalize hs' : course.world (j + 1) = s' at hmove hfile hkept
    cases hmove with
    | @record _ row verdict outcome rest found hfound hrecordable =>
      obtain ⟨recorded, k, hsplit, hgave⟩ := hfacts
      obtain ⟨before, hbefore, rfl⟩ := Table.row_modify_eq_some hfile
      obtain rfl := Option.some.inj (hbefore.symm.trans hold)
      split_ifs at hne hlast ⊢ with hf
      · obtain rfl := Option.some.inj hlast
        obtain ⟨i, hverdict⟩ := hopened.verdictOf (hgave.lt.trans hj) hgave.acted hgave.worker
          hgave.before hgave.owned hgave.examined hgave.given
        refine ⟨t, i, k, env, row, verdict, hverdict, outcome, ?_, hf.symm, rfl⟩
        rw [hsplit]
        exact List.mem_append_right _ (List.mem_cons_self ..)
      · exact absurd rfl hne
    | time | claim | refused | read | gone | revert | kept | judge | lost | skip | close =>
      exact absurd rfl hkept

/-- **Where an outcome comes from**: it was there at the start, or it was written. -/
theorem Opened.outcome_origin (hopened : Opened course) : ∀ n ≤ course.length, ∀ f file q,
    (course.world n).files.row f = some file → file.lastDiscoveredRevision = some q →
      HoldsOutcome course f q file := by
  refine course.invariant (fun f file q hfile hlast => .inr ⟨hlast, file, hfile, rfl⟩) ?_
  intro n hn ih f file q hfile hlast
  obtain ⟨p, job, heffect⟩ := hopened.effect hn
  cases hold : (course.world n).files.row f with
  | none =>
    -- a row that is new has no outcome
    rw [heffect.file_new hold hfile] at hlast
    cases hlast
  | some old =>
    by_cases hsame : outcomeOn file = outcomeOn old
    · -- the outcome is the one before
      have hlast' : old.lastDiscoveredRevision = some q :=
        (congrArg (fun outcome => outcome.2.2) hsame).symm.trans hlast
      rcases ih f old q hold hlast' with
        ⟨t, i, k, env, row, verdict, hverdict, outcome, hmem, hf, heq⟩ | ⟨-, start, hstart, heq⟩
      · exact .inl ⟨t, i, k, env, row, verdict, hverdict, outcome, hmem, hf, hsame.trans heq⟩
      · exact .inr ⟨hlast, start, hstart, hsame.trans heq⟩
    · exact .inl (hopened.writer hn ⟨old, file, hold, hfile, hsame, hlast⟩ hfile)

/-- A run that returned its revision is at its end. -/
theorem ended_of_prog {job : Id} {stage : Stage}
    (h : stage.prog env r job = .done (.ok ())) : stage = .ended (.ok ()) := by
  cases stage with
  | fresh | timed now | claimed | closing => cases h
  | reverting reason failure =>
    replace h : (Lifecycle.revertToMaterialized r job reason).bind _ = _ := h
    unfold Lifecycle.revertToMaterialized at h
    split_ifs at h <;> cases h
  | judging row verdict =>
    replace h : (Lifecycle.finalize r job verdict).bind _ = _ := h
    unfold Lifecycle.finalize at h
    split_ifs at h <;> cases h
  | persisting row verdict outcome rest =>
    replace h : ((Lifecycle.persistResult r row outcome).bind _).bind _ = _ := h
    unfold Lifecycle.persistResult at h
    split_ifs at h <;> cases h
  | ended result =>
    replace h : Prog.done result = .done (.ok ()) := h
    cases h
    rfl

/-- **What was persisted stands**, or what a validation that started no earlier wrote over it. -/
theorem Opened.covered (hopened : Opened course) (hpersisted : Persisted course f r) :
    Covered (course.world course.length) f r := by
  rcases hpersisted with ⟨j, hj, hwrites⟩ | ⟨t, env, k, row, verdict, outcome, file, hthread, hk,
    hjudged, hrow, hexamined, hmem, rfl, hfile, hproject, hpath⟩
  · -- what was written covers the row right after, as the revision has its verdict by then
    obtain ⟨-, file, -, hfile, -, hlast⟩ := hwrites
    have hsettled := (hopened.fenced (j + 1) hj).grounded f file r hfile hlast
    refine hopened.covered_kept hsettled ?_ hj (Nat.le_refl _)
    obtain ⟨row, hrow, -, hsome⟩ := hsettled
    obtain ⟨a, ha⟩ := Option.isSome_iff_exists.mp hsome
    have hstarted : started (course.world (j + 1)) r = some a := by
      rw [started, hrow, Option.bind_some, ha]
    exact ⟨file, r, hfile, hlast, a, a, hstarted, hstarted, Nat.le_refl a⟩
  · -- a run that is over has been through all its outcomes
    obtain ⟨-, stage, hprog, hfacts⟩ :=
      (hopened.fenced course.length (Nat.le_refl _)).follows t _ hthread
    obtain rfl := ended_of_prog hprog.symm
    rcases hfacts with hunjudged | ⟨row', verdict', k', hgave⟩
    · exact absurd hjudged (hunjudged k hk r)
    · obtain ⟨rfl, -⟩ := hgave.only k hk r hjudged
      obtain rfl := Option.some.inj (hrow.symm.trans hgave.before)
      cases hexamined.symm.trans hgave.examined
      exact hgave.covered outcome hmem file hfile hproject hpath

/-- **For every course of workers and saves**: a revision has at most one verdict, of the worker
that claimed it last; a worker whose revision was claimed again writes nothing; and every Script
File ends with the outcome of the validation that started last. -/
theorem workers_settle (hopened : Opened course) : Settles course where
  once := by
    suffices h : ∀ i j, i < j → j < course.length → ∀ r,
        Judges r (course.world i) (course.world (i + 1)) →
          ¬ Judges r (course.world j) (course.world (j + 1)) by
      intro i hi j hj r hjudges hjudges'
      rcases Nat.lt_trichotomy i j with hlt | heq | hlt
      · exact absurd hjudges' (h i j hlt hj r hjudges)
      · exact heq
      · exact absurd hjudges (h j i hlt hi r hjudges')
    -- the first verdict still stands where the second is given
    rintro i j hij hj r ⟨-, row, -, hrow, -, hsettled⟩ ⟨row', -, hrow', -, hunsettled, -⟩
    have hkept := hopened.row_kept hrow hsettled hij hj.le
    obtain rfl := Option.some.inj (hkept.symm.trans hrow')
    rw [hsettled] at hunsettled
    cases hunsettled
  stands k n r hk hn := by
    rintro ⟨-, row, -, hrow, -, hsettled⟩
    exact (hopened.row_kept hrow hsettled hk hn).trans hrow.symm
  latest k hk r hjudges := hopened.judged hk hjudges
  reclaimed _ _ _ _ _ _ hij hjk hk hclaimed hreclaimed hby :=
    hopened.reclaimed hij hjk hk hclaimed hreclaimed hby
  outcome f r hpersisted := by
    obtain ⟨file, q, hfile, hlast, -⟩ := hopened.covered hpersisted
    refine ⟨file, q, hfile, hopened.outcome_origin _ (Nat.le_refl _) f file q hfile hlast, ?_⟩
    intro p hp
    obtain ⟨file', q', hfile', hlast', hle⟩ := hopened.covered hp
    obtain rfl := Option.some.inj (hfile.symm.trans hfile')
    obtain rfl := Option.some.inj (hlast.symm.trans hlast')
    exact hle

end Courses

/-! ## A worker that takes over a lease -/

section Takeover

omit [DecidableEq Cls] [Unicode] [Hashing]

/-- A revision whose worker is gone, at the end of its lease, and the Script File it declares. -/
def expiredWorld : World :=
  { vacantWorld with
    revisions := vacantWorld.revisions.insert
      { exampleRevision with
        status := .validating
        validationJob := some 0
        validationStarted := some 0 }
    files := vacantWorld.files.insert ⟨1, py "a.py", true, .pending, [], none⟩
    now := validationLeaseSeconds + 1 }

/-- The system, with its tables. -/
def exampleWorkers : System World Choice Failure (Work Unit) :=
  @workers Unit _ asciiUnicode (tableHashing validationTable)

/-- The worker with job 1. -/
def takeover : Work Unit :=
  .validate (exampleEnv (exampleFacts (py "S") (.ofString (py "always")))
    (.imported [()] (.ok []))) 1 1

/-- The pool when the worker has run to its end. -/
def takenOverPool : Pool World Choice Failure (Work Unit) :=
  ((Pool.start expiredWorld 0).spawn exampleWorkers takeover).drive exampleWorkers 0 .proceed 20

theorem takenOverPool_run : Run exampleWorkers (OwnJob Nat.succ) (Pool.start expiredWorld 0)
    takenOverPool := by
  have hspawned : Run exampleWorkers (OwnJob Nat.succ) (Pool.start expiredWorld 0)
      ((Pool.start expiredWorld 0).spawn exampleWorkers takeover) := by
    refine Run.spawn .refl fun env r job hevent => ?_
    injection hevent with hevent
    injection hevent with _ _ hjob
    exact hjob.symm
  exact hspawned.drive 20 fun pool env r job hevent => by cases hevent

theorem opened_expiredWorld {course : @Shift asciiUnicode (tableHashing validationTable) Unit _
    Nat.succ}
    (hstart : course.pool 0 = Pool.start expiredWorld 0) :
    @Opened Unit _ asciiUnicode (tableHashing validationTable) Nat.succ course := by
  have hworld : course.world 0 = expiredWorld := by
    unfold Course.world
    rw [hstart]
    rfl
  refine @Opened.mk Unit _ asciiUnicode (tableHashing validationTable) Nat.succ course
    Nat.succ_injective (fun t => ?_) (fun r row t hrow hjob => ?_) fun f file q hfile hlast => ?_
  · rw [hstart]
    rfl
  · rw [hworld] at hrow
    rcases Table.row_insert_eq_some hrow with ⟨-, rfl⟩ | hold
    · cases hjob
    · cases hold
  · rw [hworld] at hfile
    rcases Table.row_insert_eq_some hfile with ⟨-, rfl⟩ | hold
    · cases hlast
    · cases hold

/-- The worker that takes over the lease gives the verdict, and the Script File has its outcome. -/
theorem workers_settle_takeover : ∃ course : @Shift asciiUnicode (tableHashing validationTable) Unit
      _ Nat.succ,
    course.pool 0 = Pool.start expiredWorld 0 ∧ course.pool course.length = takenOverPool ∧
      (takenOverPool.world.revisions.row 1).map RevisionRow.status = some .valid ∧
      (takenOverPool.world.files.row 1).bind ScriptFileRow.lastDiscoveredRevision = some 1 ∧
      @Settles Unit _ asciiUnicode (tableHashing validationTable) Nat.succ course := by
  obtain ⟨course, hstart, hend⟩ := @Course.of_run _ _ _ _ _ _ _ _ takenOverPool_run
  have hrows : (takenOverPool.world.revisions.row 1).map RevisionRow.status = some .valid ∧
      (takenOverPool.world.files.row 1).bind ScriptFileRow.lastDiscoveredRevision = some 1 := by
    decide +kernel
  exact ⟨course, hstart, hend, hrows.1, hrows.2,
    @workers_settle Unit _ asciiUnicode (tableHashing validationTable) Nat.succ course
      (opened_expiredWorld hstart)⟩

end Takeover

end Workers

end NetBoxScripts
