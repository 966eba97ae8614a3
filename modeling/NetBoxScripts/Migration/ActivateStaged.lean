import NetBoxScripts.Services.Publication

/-!
# Activating the staged projects

`activate_staged` (`cutover.py`) puts every project of the migration into service, one after the
other. It can be run again, and nothing else writes meanwhile.

## Main definitions

* `chooseRevision`: what `_activate_project` decides on
* `activateNow`: what `activate_revision` does where nobody else writes
* `activateStagedProjects`: one run
* `Consistent`: a project serves an active revision of its own
* `SettledProject`: a visit of the project finds nothing to do

## Main results

* `activateRevision_alone`: `activateNow` does what the service does
* `synchronizeScripts_settled`: a table in line with the records is left as it is
* `settled_visit`: a visit that does not fail settles the project
* `activate_staged_runs`: what each run of a sequence does
-/

namespace NetBoxScripts

open Lifecycle (activateRevision eachStep_verifyRevisionTree pointer requireActivatable
  validatedRecords)
open Vanishing (rowManifest)

/-! ## Synchronizing again -/

section Again

variable {p r : Id} {table : Table ScriptRow} {record : ScriptRecord} {records : List ScriptRecord}
  {i : Id} {row : ScriptRow}

/-- A record whose row shows it is published without a change. -/
theorem publishScript_settled (hunique : UniqueScripts table) (h : table.row i = some row)
    (hproject : row.project = p) (hshows : ShowsRecord r record row) :
    publishScript p r table record = table := by
  have hsame : row.publish r record = row := by
    unfold ScriptRow.publish
    rw [← hshows.displayName, ← hshows.description, ← hshows.metadata, ← hshows.isRetired,
      ← hshows.lastSeenRevision]
  rcases publishScript_cases p r table record with ⟨j, a, ha, ha', hidentity, hpublished⟩ |
    ⟨hnone, -⟩
  · obtain rfl := hunique j i a row ha h (ha'.trans hproject.symm)
      (hidentity.trans hshows.identity.symm)
    obtain rfl : a = row := Option.some.inj (ha.symm.trans h)
    rw [hpublished]
    exact Table.modify_eq_self ha hsame
  · exact absurd hshows.identity (hnone i row h hproject)

/-- **A table in line with the records** is left as it is. -/
theorem synchronizeScripts_settled (hunique : UniqueScripts table)
    (h : Published table p r records) : synchronizeScripts p r records table = table := by
  have hfold : ∀ rest : List ScriptRecord, (∀ record ∈ rest, record ∈ records) →
      rest.foldl (publishScript p r) table = table := by
    intro rest
    induction rest with
    | nil => exact fun _ => rfl
    | cons record rest ih =>
      intro hsub
      obtain ⟨i, row, hrow, hproject, hshows⟩ := h.complete record (hsub record List.mem_cons_self)
      rw [List.foldl_cons, publishScript_settled hunique hrow hproject hshows]
      exact ih fun other hother => hsub other (List.mem_cons_of_mem _ hother)
  rw [synchronizeScripts, hfold records fun _ hmem => hmem]
  have hrow : ∀ k, (table.row k).map (fun row =>
      if row.project = p ∧ row.identity ∉ records.map ScriptRecord.identity then
        { row with isRetired := true } else row) = table.row k := by
    intro k
    cases hk : table.row k with
    | none => rfl
    | some row =>
      rw [Option.map_some]
      refine congrArg some ?_
      split_ifs with hunnamed
      · -- a row in service shows a record, so this one is retired already
        cases hretired : row.isRetired with
        | true => rw [← hretired]
        | false =>
          obtain ⟨record, hmem, hshows⟩ := h.sound k row hk hunnamed.1 hretired
          exact absurd (hshows.isNamed hunnamed.1 hmem).2 hunnamed.2
      · rfl
  cases table
  simpa only [Table.modifyAll, Table.mk.injEq, and_true] using funext hrow

end Again

/-! ## One project -/

/-- `order_by('-created').first()` -/
def newestOf (revisions : List (Id × RevisionRow)) : Option (Id × RevisionRow) :=
  revisions.foldl (fun newest revision =>
    if newest.all fun best => best.2.created ≤ revision.2.created then some revision
    else newest) none

/-- `project.revisions` -/
def projectRevisions (w : World) (p : Id) : List (Id × RevisionRow) :=
  w.revisions.entries.filter fun revision => revision.2.project = p

/-- The newest valid revision of a project. -/
def newestValid (w : World) (p : Id) : Option (Id × RevisionRow) :=
  newestOf ((projectRevisions w p).filter fun revision => revision.2.status = .valid)

/-- `accepted`: the latest accepted source, if it is valid. -/
def acceptedSource (w : World) (p : Id) : Option (Id × RevisionRow) :=
  (w.latestStoredRevision p).filter fun revision => revision.2.status = .valid

/-- What is reported of one project. -/
inductive StagedOutcome
  | holdsNone
  | noValid (newest : Id) (status : RevisionStatus)
  | activated (r : Id)
  | alreadyServing (r : Id)
  | keptServing (r : Id) (source : Option RevisionStatus)
  | failed (r : Id) (failure : Failure)

/-- What `_activate_project` decides on: a report with nothing to activate, or a revision and the
report of its activation. -/
def chooseRevision (w : World) (p : Id) (project : ProjectRow) :
    StagedOutcome ⊕ (Id × StagedOutcome) :=
  match newestOf (projectRevisions w p) with
  | none => .inl .holdsNone
  | some newest =>
    match project.activeRevision with
    | some active =>
      match acceptedSource w p with
      | some (r, _) => .inr (r, .activated r)
      | none =>
        -- never back to an older valid revision
        let source := w.latestStoredRevision p
        .inr (active, if source.all fun revision => revision.1 = active then .alreadyServing active
          else .keptServing active (source.map fun revision => revision.2.status))
    | none =>
      match (acceptedSource w p).or (newestValid w p) with
      | none => .inl (.noValid newest.1 newest.2.status)
      | some (r, _) => .inr (r, .activated r)

/-- What the storage and the checks of stored content answer in one run, and how many projects
the run gets through. -/
structure ActivationEnv where
  refuses : World → Id → Option Failure
  reached : ℕ

/-- The revision that a project stands down from is there. -/
def previousStored (w : World) (p : Id) (project : ProjectRow) : Bool :=
  project.activeRevision.all fun q => (w.revisions.row q).any fun previous => previous.project = p

/-- `activate_revision(revision, repair=…)` with no other writer: all its checks, then the
transaction. -/
def activateNow (env : ActivationEnv) (w : World) (r : Id) (isRepair : Bool) :
    Except Failure World :=
  match w.revisions.row r with
  | none => .error .revisionVanished
  | some row =>
    match w.projects.row row.project with
    | none => .error .projectVanished
    | some project =>
      match validatedRecords row, requireActivatable row
          (row.status = .active ∧ project.activeRevision = some r), env.refuses w r with
      | .error failure, _, _ => .error failure
      | _, .error failure, _ => .error failure
      | _, _, some failure => .error failure
      | .ok (), .ok (), none =>
        if isRepair ∧ project.activeRevision ≠ some r then .error .activationRefused
        else if ¬ (row.status = .active ∧ project.activeRevision = some r) ∧
            previousStored w row.project project = false then .error .revisionVanished
        else .ok (w.promote row.project r row project)

/-- `_activate_project(project)` -/
def visitProject (env : ActivationEnv) (w : World) (p : Id) : World × Option StagedOutcome :=
  match w.projects.row p with
  | none => (w, none)
  | some project =>
    match chooseRevision w p project with
    | .inl outcome => (w, some outcome)
    | .inr (r, outcome) =>
      match activateNow env w r (project.activeRevision = some r) with
      | .error failure => (w, some (.failed r failure))
      | .ok w' => (w', some outcome)

/-- The projects of the map, in the order of their keys. -/
def stagedProjects (keys : List PyStr) (w : World) : List Id :=
  ((w.projects.entries.filter fun project => project.2.key ∈ keys).insertionSort
    fun a b => a.2.key ≤ b.2.key).map Prod.fst

/-- The visits of some projects, with what is reported of each. -/
def visitProjects (env : ActivationEnv) : List Id → World → World × List (Id × StagedOutcome)
  | [], w => (w, [])
  | p :: rest, w =>
    let visit := visitProject env w p
    let later := visitProjects env rest visit.1
    (later.1, (visit.2.map fun outcome => (p, outcome)).toList ++ later.2)

/-- `activate_staged(run)` -/
def activateStagedProjects (keys : List PyStr) (env : ActivationEnv) (w : World) :
    World × List (Id × StagedOutcome) :=
  visitProjects env ((stagedProjects keys w).take env.reached) w

/-! ## What an activation does -/

section Visits

variable {env : ActivationEnv} {w w' : World} {p q r : Id} {row : RevisionRow}
  {project : ProjectRow} {outcome : StagedOutcome}

/-- What a consistent state is: a project serves a revision of its own that is active, and no two
script rows of a project have one identity. -/
structure Consistent (w : World) : Prop where
  unique : UniqueScripts w.scripts
  pointer : ∀ p project q, w.projects.row p = some project → project.activeRevision = some q →
    ∃ row, w.revisions.row q = some row ∧ row.project = p ∧ row.status = .active

/-- A successful activation is a promotion, and the revision can be activated or is active. -/
theorem activateNow_eq_ok {isRepair : Bool} (h : activateNow env w r isRepair = .ok w') :
    ∃ row project, w.revisions.row r = some row ∧ w.projects.row row.project = some project ∧
      w' = w.promote row.project r row project ∧
      (row.status.activatable = true ∨
        row.status = .active ∧ project.activeRevision = some r) ∧
      (row.discoveredScripts.map ScriptRecord.identity).Nodup := by
  unfold activateNow at h
  split at h
  · cases h
  next row hrow =>
    split at h
    · cases h
    next project hproject =>
      split at h
      · cases h
      · cases h
      · cases h
      next hrecords hactivatable _ =>
        split_ifs at h
        cases h
        refine ⟨row, project, hrow, hproject, rfl, ?_, ?_⟩
        · unfold requireActivatable at hactivatable
          split_ifs at hactivatable with hrefused
          by_contra hneither
          obtain ⟨hnot, hinactive⟩ := not_or.mp hneither
          exact hrefused ⟨decide_eq_false hinactive, Bool.eq_false_iff.mpr hnot⟩
        · unfold validatedRecords at hrecords
          split at hrecords
          next haccepted => exact ((validateDiscoveredScripts_toJson_iff _).mp haccepted).2
          next => cases hrecords

end Visits

/-! ## The service that nobody disturbs -/

section Undisturbed

variable {w s s' : World} {t : ThreadId} {p r : Id} {row : RevisionRow}
  {project : ProjectRow} {isRepair : Bool} {result : Except Failure Unit}

/-- The rows that an activation can write, and the clock, are the same. -/
structure SameTables (w s : World) : Prop where
  projects : s.projects = w.projects
  revisions : s.revisions = w.revisions
  scripts : s.scripts = w.scripts
  now : s.now = w.now

theorem SameTables.refl (w : World) : SameTables w w := ⟨rfl, rfl, rfl, rfl⟩

theorem SameTables.trans (h : SameTables w s) (h' : SameTables s s') : SameTables w s' :=
  ⟨h'.projects.trans h.projects, h'.revisions.trans h.revisions, h'.scripts.trans h.scripts,
    h'.now.trans h.now⟩

theorem SameTables.promote (h : SameTables w s) :
    SameTables (w.promote p r row project) (s.promote p r row project) := by
  refine ⟨?_, ?_, ?_, h.now⟩
  · rw [World.promote, World.promote, h.projects]
  · rw [World.promote, World.promote, h.revisions, h.now]
  · rw [World.promote, World.promote, h.scripts]

/-- The result and the state of the service are those of `activateNow`, for some answers of the
storage: both fail and nothing is written, or both leave the same rows. -/
def Agrees (w : World) (r : Id) (isRepair : Bool) (result : Except Failure Unit) (s : World) :
    Prop :=
  ∃ env, match activateNow env w r isRepair, result with
    | .ok w', .ok _ => SameTables w' s
    | .error _, .error _ => SameTables w s
    | _, _ => False

theorem Agrees.same (h : Agrees w r isRepair result s) (hsame : SameTables s s') :
    Agrees w r isRepair result s' := by
  obtain ⟨env, h⟩ := h
  refine ⟨env, ?_⟩
  cases hrun : activateNow env w r isRepair with
  | error failure =>
    cases result with
    | error failure' =>
      rw [hrun] at h
      exact SameTables.trans h hsame
    | ok u =>
      rw [hrun] at h
      exact h.elim
  | ok w' =>
    cases result with
    | error failure' =>
      rw [hrun] at h
      exact h.elim
    | ok u =>
      rw [hrun] at h
      exact SameTables.trans h hsame

/-- Any failure is one of `activateNow`, whose storage may refuse. -/
theorem agrees_error {failure : Failure} (h : SameTables w s) :
    Agrees w r isRepair (.error failure) s := by
  refine ⟨⟨fun _ _ => some failure, 0⟩, ?_⟩
  cases hrun : activateNow ⟨fun _ _ => some failure, 0⟩ w r isRepair with
  | error failure' => exact h
  | ok w' =>
    unfold activateNow at hrun
    split at hrun
    · cases hrun
    · split at hrun
      · cases hrun
      · split at hrun
        · cases hrun
        · cases hrun
        · cases hrun
        next hnone => cases hnone

/-- Where every check passes, the rows are those of a promotion. -/
theorem agrees_ok (hrow : w.revisions.row r = some row)
    (hproject : w.projects.row row.project = some project)
    (hrecords : validatedRecords row = .ok ())
    (hactivatable : requireActivatable row
      (row.status = .active ∧ project.activeRevision = some r) = .ok ())
    (hrepair : ¬ (isRepair = true ∧ project.activeRevision ≠ some r))
    (hprevious : ¬ (row.status = .active ∧ project.activeRevision = some r) →
      previousStored w row.project project = true)
    (h : SameTables (w.promote row.project r row project) s) :
    Agrees w r isRepair (.ok ()) s := by
  have hrun : activateNow ⟨fun _ _ => none, 0⟩ w r isRepair =
      .ok (w.promote row.project r row project) := by
    unfold activateNow
    simp only [hrow, hproject, hrecords, hactivatable, if_neg hrepair]
    refine if_neg fun hmissing => ?_
    rw [hprevious hmissing.1] at hmissing
    cases hmissing.2
  refine ⟨⟨fun _ _ => none, 0⟩, ?_⟩
  rw [hrun]
  exact h

variable [Unicode] [Hashing]

omit [Unicode] in
/-- The transaction of a promotion, on the rows it was called with. -/
theorem promote_alone (h : SameTables w s) (hrow : w.revisions.row r = some row) :
    wp Undisturbed t (fun _ _ => True) (Lifecycle.promote row r false isRepair)
      (Agrees w r isRepair) s := by
  intro s₁ hrely c answer s₂ hstep
  rw [rely_undisturbed hrely] at hstep
  refine ⟨trivial, ?_⟩
  change Agrees w r isRepair answer s₂
  dsimp only at hstep
  simp only [h.projects, h.revisions] at hstep
  cases hproject : w.projects.row row.project with
  | none =>
    simp only [hproject] at hstep
    cases hstep
    exact agrees_error h
  | some project =>
    simp only [hproject, hrow, ne_eq, not_true_eq_false, if_false, Bool.false_eq_true,
      false_and] at hstep
    rw [if_neg (not_not.mpr ⟨rfl, rfl, rfl, rfl, rfl⟩)] at hstep
    cases hactivatable : requireActivatable row
        (row.status = .active ∧ project.activeRevision = some r) with
    | error failure =>
      simp only [hactivatable] at hstep
      cases hstep
      exact agrees_error h
    | ok u =>
      simp only [hactivatable] at hstep
      by_cases hrepair : isRepair = true ∧ ¬ project.activeRevision = some r
      · rw [if_pos hrepair] at hstep
        cases hstep
        exact agrees_error h
      · rw [if_neg hrepair] at hstep
        cases hrecords : validatedRecords row with
        | error failure =>
          simp only [hrecords] at hstep
          cases hstep
          exact agrees_error h
        | ok u' =>
          simp only [hrecords] at hstep
          have hdone := fun hprevious => @agrees_ok w s₂ r row project isRepair hrow hproject
            hrecords hactivatable hrepair hprevious
          split_ifs at hstep with hfails halready
          · cases hstep
            exact agrees_error h
          · cases hstep
            exact hdone (fun hnot => absurd halready hnot) h.promote
          · cases hactive : project.activeRevision with
            | none =>
              simp only [hactive] at hstep
              cases hstep
              refine hdone (fun _ => ?_) h.promote
              rw [previousStored, hactive]
              rfl
            | some q =>
              simp only [hactive] at hstep
              cases hprevious : w.revisions.row q with
              | none =>
                simp only [hprevious] at hstep
                cases hstep
                exact agrees_error h
              | some previous =>
                simp only [hprevious] at hstep
                split_ifs at hstep with howner
                · cases hstep
                  refine hdone (fun _ => ?_) h.promote
                  rw [previousStored, hactive, Option.all_some, hprevious, Option.any_some]
                  exact decide_eq_true howner
                · cases hstep
                  exact agrees_error h

/-- **`activateNow` is the service**: whatever its storage answers, a call of `activate_revision`
that nobody disturbs ends as `activateNow` does. -/
theorem activateRevision_alone (hrow : w.revisions.row r = some row) :
    wp Undisturbed t (fun _ _ => True) (activateRevision r row false isRepair)
      (Agrees w r isRepair) w := by
  have hfailed : ∀ failure, Agrees w r isRepair (.error failure) w := fun failure =>
    agrees_error (.refl w)
  unfold activateRevision
  rw [wp_bind, wp_ofExcept]
  cases validatedRecords row with
  | error failure => exact hfailed failure
  | ok recorded =>
    rw [andThen_ok, wp_bind]
    refine wp_query_undisturbed (fun _ => trivial) ?_
    rw [hrow]
    simp only [wp_pure, andThen_ok]
    rw [wp_bind]
    refine wp_query_undisturbed (fun _ => trivial) ?_
    cases w.projects.row row.project with
    | none => exact hfailed _
    | some project =>
      simp only [wp_pure, andThen_ok]
      rw [wp_bind, wp_ofExcept]
      cases requireActivatable row
          (row.status = .active ∧ project.activeRevision = some r) with
      | error failure => exact hfailed failure
      | ok activatable =>
        rw [andThen_ok, wp_bind]
        cases validateScriptFileSnapshot
            (.arr (row.scriptFileSnapshot.map SnapshotEntry.toJson)) row.scriptFileDigest with
        | error failure => exact hfailed _
        | ok snapshot =>
          rw [check_ok, wp_pure, andThen_ok]
          refine wp_projectLock_undisturbed
            (fun _ _ _ _ h => h.same ⟨rfl, rfl, rfl, rfl⟩) fun owner => ?_
          have hs : SameTables w (w.setLock project.storageKey owner) := ⟨rfl, rfl, rfl, rfl⟩
          rw [wp_bind, wp_ofExcept]
          cases rowManifest row with
          | error failure => exact agrees_error hs
          | ok manifest =>
            rw [andThen_ok, wp_bind]
            -- reading the stored tree changes nothing
            refine wp_mono (fun result s₁ hs₁ => ?_)
              (eachStep_verifyRevisionTree.keeps (fun _ _ _ => trivial)
                (fun s s' heq hs => heq ▸ hs) (stable_undisturbed (SameTables w)) hs)
            cases result with
            | error failure => exact agrees_error hs₁
            | ok read => exact promote_alone hs₁ hrow

end Undisturbed

section Visits

variable {env : ActivationEnv} {w w' : World} {p q r : Id} {row : RevisionRow}
  {project : ProjectRow} {outcome : StagedOutcome}

/-- What a visit of one project keeps of another. -/
structure SameProject (p : Id) (w w' : World) : Prop where
  project : w'.projects.row p = w.projects.row p
  revisions : ∀ r, (w'.revisions.row r).filter (·.project = p) =
    (w.revisions.row r).filter (·.project = p)
  published : ∀ r records, Published w.scripts p r records → Published w'.scripts p r records

theorem SameProject.refl (p : Id) (w : World) : SameProject p w w :=
  ⟨rfl, fun _ => rfl, fun _ _ h => h⟩

theorem SameProject.trans {w'' : World} (h : SameProject p w w') (h' : SameProject p w' w'') :
    SameProject p w w'' :=
  ⟨h'.project.trans h.project, fun r => (h'.revisions r).trans (h.revisions r),
    fun q records hw => h'.published q records (h.published q records hw)⟩

/-- A revision of the project is as it was. -/
theorem SameProject.revision_row (h : SameProject p w w') (hrow : w.revisions.row r = some row)
    (hof : row.project = p) : w'.revisions.row r = some row := by
  have hsame := h.revisions r
  rw [hrow, Option.filter_some, if_pos (decide_eq_true hof)] at hsame
  exact (Option.filter_eq_some_iff.mp hsame).1

/-- What looks at revisions of the project only is told by those. -/
theorem bind_congr_of_filter {β : Type} {o o' : Option RevisionRow} {f : RevisionRow → Option β}
    (hf : ∀ row, row.project ≠ p → f row = none)
    (h : o'.filter (·.project = p) = o.filter (·.project = p)) : o'.bind f = o.bind f := by
  have hfilter : ∀ o : Option RevisionRow, o.bind f = (o.filter (·.project = p)).bind f := by
    intro o
    cases o with
    | none => rfl
    | some row =>
      by_cases hof : row.project = p
      · rw [Option.filter_some, if_pos (decide_eq_true hof)]
      · rw [Option.filter_some, if_neg (by simpa using hof), Option.bind_some, hf row hof]
        rfl
  rw [hfilter o', h, ← hfilter o]

theorem projectRevisions_congr (h : SameProject p w w') :
    projectRevisions w' p = projectRevisions w p := by
  have hlist : ∀ w : World, projectRevisions w p =
      w.revisions.entries.filterMap fun revision =>
        if revision.2.project = p then some revision else none := by
    intro w
    rw [projectRevisions, ← List.filterMap_eq_filter]
    refine congrArg (List.filterMap · _) (funext fun revision => ?_)
    simp [Option.guard]
  rw [hlist, hlist]
  refine Table.filterMap_entries_congr fun r => ?_
  exact bind_congr_of_filter (fun row hof => if_neg hof) (h.revisions r)

theorem latestStoredRevision_congr (h : SameProject p w w') :
    w'.latestStoredRevision p = w.latestStoredRevision p := by
  have hnewest : ∀ w : World, w.newestRevision p =
      newestOf ((projectRevisions w p).filter fun revision => revision.2.IsStoredSource p) := by
    intro w
    rw [World.newestRevision, newestOf, projectRevisions, List.filter_filter]
    congr 1
    refine List.filter_congr fun revision _ => ?_
    simp only [RevisionRow.IsStoredSource]
    grind
  have haccepted : w'.acceptedRevision p = w.acceptedRevision p := by
    simp only [World.acceptedRevision, h.project]
    refine congrArg _ (funext fun project => congrArg _ (funext fun r => ?_))
    exact bind_congr_of_filter (fun row hof => if_neg fun hstored => hof hstored.1)
      (h.revisions r)
  rw [World.latestStoredRevision, World.latestStoredRevision, haccepted, hnewest, hnewest,
    projectRevisions_congr h]

/-- The revision row after a promotion. -/
theorem revisions_promote (p : Id) (project : ProjectRow) (hrow : w.revisions.row r = some row) :
    ∃ row', (w.promote p r row project).revisions.row r = some row' ∧
      row'.project = row.project ∧ row'.status = .active ∧
        row'.discoveredScripts = row.discoveredScripts ∧ row'.digest = row.digest ∧
          row'.created = row.created := by
  unfold World.promote
  by_cases halready : row.status = .active ∧ project.activeRevision = some r
  · simp only [if_pos halready]
    exact ⟨row, hrow, rfl, halready.1, rfl, rfl, rfl⟩
  · simp only [if_neg halready, Table.row_modifyAll, hrow, Option.map_some, if_true]
    exact ⟨_, rfl, rfl, rfl, rfl, rfl, rfl⟩

/-- Another revision after a promotion is as it was, or was the project's and stands down. -/
theorem revisions_promote_of_ne (p : Id) (row : RevisionRow) (project : ProjectRow) (hne : q ≠ r)
    {other : RevisionRow} (hother : w.revisions.row q = some other) :
    (w.promote p r row project).revisions.row q = some other ∨
      project.activeRevision = some q ∧
        (w.promote p r row project).revisions.row q = some { other with status := .retired } := by
  unfold World.promote
  by_cases halready : row.status = .active ∧ project.activeRevision = some r
  · simp only [if_pos halready]
    exact .inl hother
  · simp only [if_neg halready, Table.row_modifyAll, hother, Option.map_some, if_neg hne]
    split_ifs with hactive
    · exact .inr ⟨hactive, rfl⟩
    · exact .inl rfl

/-- A promotion adds no revision. -/
theorem revisions_promote_none (p r : Id) (row : RevisionRow) (project : ProjectRow)
    (h : w.revisions.row q = none) : (w.promote p r row project).revisions.row q = none := by
  unfold World.promote
  split_ifs
  · exact h
  · simp only [Table.row_modifyAll, h, Option.map_none]

/-- **A promotion keeps the other projects.** -/
theorem sameProject_promote (hw : Consistent w) (hproject : w.projects.row p = some project)
    (hrow : w.revisions.row r = some row) (hof : row.project = p) (hne : q ≠ p) :
    SameProject q w (w.promote p r row project) where
  project := Table.row_modify_of_ne hne
  revisions k := by
    cases hk : w.revisions.row k with
    | none => rw [revisions_promote_none p r row project hk]
    | some other =>
      by_cases hother : other.project = q
      · -- neither the new revision nor the old one is of this project
        have hkr : k ≠ r := by
          rintro rfl
          rw [hrow, Option.some.injEq] at hk
          exact hne (hother.symm.trans (hk ▸ hof))
        rcases revisions_promote_of_ne p row project hkr hk with
          hsame | ⟨hactive, -⟩
        · rw [hsame]
        · obtain ⟨previous, hprevious, howner, -⟩ := hw.pointer p project k hproject hactive
          rw [hk, Option.some.injEq] at hprevious
          exact absurd (hother.symm.trans (hprevious ▸ howner)) hne
      · -- whatever the row became, it is still of another project
        have hnot : ∀ found, (w.promote p r row project).revisions.row k = some found →
            found.project = other.project := by
          intro found hfound
          by_cases hkr : k = r
          · subst hkr
            obtain ⟨row', hrow', howner, -⟩ := revisions_promote p project hrow
            rw [hrow] at hk
            obtain rfl := Option.some.inj hk
            rw [hrow', Option.some.injEq] at hfound
            exact hfound ▸ howner
          · rcases revisions_promote_of_ne p row project hkr hk with
              hsame | ⟨-, hretired⟩
            · rw [hsame, Option.some.injEq] at hfound
              exact hfound ▸ rfl
            · rw [hretired, Option.some.injEq] at hfound
              exact hfound ▸ rfl
        cases hfound : (w.promote p r row project).revisions.row k with
        | none => simp [Option.filter_some, hother]
        | some found => simp [Option.filter_some, hother, hnot found hfound]
  published k records h := h.synchronize_other hw.unique hne

/-- A promotion leaves a consistent state. -/
theorem Consistent.promote (hw : Consistent w) (hproject : w.projects.row p = some project)
    (hrow : w.revisions.row r = some row) (hof : row.project = p) :
    Consistent (w.promote p r row project) where
  unique := synchronizeScripts_unique hw.unique
  pointer q other k hother hactive := by
    by_cases hq : q = p
    · subst hq
      obtain ⟨project', hproject', hsame⟩ := Table.row_modify_eq_some hother
      rw [if_pos rfl] at hsame
      subst hsame
      obtain rfl : r = k := Option.some.inj hactive
      obtain ⟨row', hrow', howner, hstatus, -⟩ := revisions_promote q project hrow
      exact ⟨row', hrow', howner.trans hof, hstatus⟩
    · have hsame := sameProject_promote hw hproject hrow hof hq
      rw [hsame.project] at hother
      obtain ⟨row', hrow', howner, hstatus⟩ := hw.pointer q other k hother hactive
      exact ⟨row', hsame.revision_row hrow' howner, howner, hstatus⟩

/-! ## Visits -/

/-- A project that a visit finds nothing to do for: it holds no revision, or it serves none and
has none to serve, or it serves one that its rows are in line with and no valid source replaces. -/
inductive SettledProject (w : World) (p : Id) (project : ProjectRow) : Prop
  | empty (none : newestOf (projectRevisions w p) = none)
  | idle (active : project.activeRevision = none)
      (none : (acceptedSource w p).or (newestValid w p) = none)
  | serving {q : Id} {row : RevisionRow} (active : project.activeRevision = some q)
      (stored : w.revisions.row q = some row) (owner : row.project = p)
      (status : row.status = .active) (replaced : acceptedSource w p = none)
      (published : Published w.scripts p q row.discoveredScripts)
      (pending : (project.sourceActivationPending && project.sourceRevision != some q) =
        project.sourceActivationPending)

/-- Settled projects stay settled while others are visited. -/
theorem SettledProject.same (h : SettledProject w p project) (hsame : SameProject p w w') :
    SettledProject w' p project := by
  have hrevisions := projectRevisions_congr hsame
  have haccepted : acceptedSource w' p = acceptedSource w p := by
    unfold acceptedSource
    rw [latestStoredRevision_congr hsame]
  cases h with
  | empty hnone => exact .empty (by rw [hrevisions, hnone])
  | idle hactive hnone =>
    refine .idle hactive ?_
    rw [haccepted, newestValid, hrevisions]
    exact hnone
  | serving hactive hrow howner hstatus hreplaced hpublished hpending =>
    exact .serving hactive (hsame.revision_row hrow howner) howner hstatus
      (haccepted.trans hreplaced) (hsame.published _ _ hpublished) hpending

/-- **A visit of a settled project** changes nothing. -/
theorem SettledProject.visit (h : SettledProject w p project) (hw : Consistent w)
    (hproject : w.projects.row p = some project) : (visitProject env w p).1 = w := by
  unfold visitProject
  simp only [hproject]
  cases h with
  | empty hnone => simp only [chooseRevision, hnone]
  | idle hactive hnone =>
    unfold chooseRevision
    split
    next outcome hchosen => rfl
    next r outcome hchosen =>
      split at hchosen
      · cases hchosen
      · simp only [hactive, hnone] at hchosen
        cases hchosen
  | @serving q row hactive hrow howner hstatus hreplaced hpublished hpending =>
    have hsame : w.promote p q row project = w := by
      unfold World.promote
      rw [synchronizeScripts_settled hw.unique hpublished, if_pos ⟨hstatus, hactive⟩,
        Table.modify_eq_self hproject (by rw [hpending, ← hactive])]
    -- the revision in service is chosen again, to repair its rows
    unfold chooseRevision
    split
    next outcome hchosen => rfl
    next r outcome hchosen =>
      split at hchosen
      · cases hchosen
      · simp only [hactive, hreplaced] at hchosen
        cases hchosen
        cases hrun : activateNow env w q (decide (project.activeRevision = some q)) with
        | error failure => rfl
        | ok w' =>
          obtain ⟨row', project', hrow', hproject', rfl, -⟩ := activateNow_eq_ok hrun
          rw [hrow, Option.some.injEq] at hrow'
          subst hrow'
          rw [howner, hproject, Option.some.injEq] at hproject'
          subst hproject'
          rw [howner]
          exact hsame

/-- Why a revision is chosen. -/
inductive Chosen (w : World) (p : Id) (project : ProjectRow) (r : Id) : Prop
  | accepted {row : RevisionRow} (source : acceptedSource w p = some (r, row))
  | repaired (active : project.activeRevision = some r) (none : acceptedSource w p = none)
  | newest {row : RevisionRow} (active : project.activeRevision = none)
      (none : acceptedSource w p = none) (valid : newestValid w p = some (r, row))

theorem chooseRevision_cases (h : chooseRevision w p project = .inr (r, outcome)) :
    Chosen w p project r := by
  unfold chooseRevision at h
  split at h
  · cases h
  · cases hactive : project.activeRevision with
    | some active =>
      cases haccepted : acceptedSource w p with
      | some found =>
        simp only [hactive, haccepted] at h
        cases h
        exact .accepted haccepted
      | none =>
        simp only [hactive, haccepted] at h
        cases h
        exact .repaired hactive haccepted
    | none =>
      cases haccepted : acceptedSource w p with
      | some found =>
        simp only [hactive, haccepted, Option.some_or] at h
        cases h
        exact .accepted haccepted
      | none =>
        cases hvalid : newestValid w p with
        | none =>
          simp only [hactive, haccepted, hvalid, Option.none_or] at h
          cases h
        | some found =>
          simp only [hactive, haccepted, hvalid, Option.none_or] at h
          cases h
          exact .newest hactive haccepted hvalid

/-- What is reported of an activation is no failure. -/
theorem report_of_chosen (h : chooseRevision w p project = .inr (r, outcome)) (r' : Id)
    (failure : Failure) : outcome ≠ .failed r' failure := by
  unfold chooseRevision at h
  split at h
  · cases h
  · cases hactive : project.activeRevision with
    | some active =>
      cases haccepted : acceptedSource w p with
      | some found =>
        simp only [hactive, haccepted] at h
        cases h
        exact fun hfailed => by cases hfailed
      | none =>
        simp only [hactive, haccepted] at h
        obtain ⟨-, rfl⟩ := Prod.mk.inj (Sum.inr.inj h)
        split_ifs
        · exact fun hfailed => by cases hfailed
        · exact fun hfailed => by cases hfailed
    | none =>
      simp only [hactive] at h
      split at h
      · cases h
      · cases h
        exact fun hfailed => by cases hfailed

theorem mem_of_newestOf {revisions : List (Id × RevisionRow)} {found : Id × RevisionRow}
    (h : newestOf revisions = some found) : found ∈ revisions := by
  have hloop : ∀ (rest : List (Id × RevisionRow)) (best : Option (Id × RevisionRow)),
      rest.foldl (fun newest revision =>
          if newest.all fun best => best.2.created ≤ revision.2.created then some revision
          else newest) best = some found → best = some found ∨ found ∈ rest := by
    intro rest
    induction rest with
    | nil => exact fun _ h => .inl h
    | cons revision rest ih =>
      intro best h
      rcases ih _ h with h | h
      · dsimp only at h
        split_ifs at h
        · exact .inr (Option.some.inj h ▸ List.mem_cons_self)
        · exact .inl h
      · exact .inr (List.mem_cons_of_mem _ h)
  exact (hloop _ _ h).resolve_left (by simp)

/-- The chosen revision is one of the project. -/
theorem Chosen.owner (h : Chosen w p project r) (hw : Consistent w)
    (hproject : w.projects.row p = some project) (hrow : w.revisions.row r = some row) :
    row.project = p := by
  cases h with
  | accepted source =>
    obtain ⟨hlatest, -⟩ := Option.filter_eq_some_iff.mp source
    obtain ⟨hfound, hstored⟩ := latestStoredRevision_mem hlatest
    rw [hrow, Option.some.injEq] at hfound
    exact hfound ▸ hstored.1
  | repaired active none =>
    obtain ⟨found, hfound, howner, -⟩ := hw.pointer p project r hproject active
    rw [hrow, Option.some.injEq] at hfound
    exact hfound ▸ howner
  | newest active none valid =>
    obtain ⟨hin, -⟩ := List.mem_filter.mp (mem_of_newestOf valid)
    obtain ⟨hentry, howner⟩ := List.mem_filter.mp hin
    rw [Table.mem_entries, hrow, Option.some.injEq] at hentry
    rw [hentry]
    exact of_decide_eq_true howner

variable (env) in
/-- **A visit** by its outcomes: nothing to activate, a failure that changes nothing, or a
promotion of the chosen revision. -/
theorem visitProject_cases (hw : Consistent w) (hproject : w.projects.row p = some project) :
    ((visitProject env w p).1 = w ∧ ∃ outcome, chooseRevision w p project = .inl outcome) ∨
    ((visitProject env w p).1 = w ∧ ∃ r failure,
      (visitProject env w p).2 = some (.failed r failure)) ∨
    ∃ r row, Chosen w p project r ∧ w.revisions.row r = some row ∧ row.project = p ∧
      (visitProject env w p).1 = w.promote p r row project ∧
      (row.status.activatable = true ∨
        row.status = .active ∧ project.activeRevision = some r) ∧
      (row.discoveredScripts.map ScriptRecord.identity).Nodup := by
  unfold visitProject
  simp only [hproject]
  cases hchosen : chooseRevision w p project with
  | inl outcome => exact .inl ⟨rfl, outcome, rfl⟩
  | inr chosen =>
    obtain ⟨r, outcome⟩ := chosen
    simp only
    cases hrun : activateNow env w r (decide (project.activeRevision = some r)) with
    | error failure => exact .inr (.inl ⟨rfl, r, failure, rfl⟩)
    | ok w' =>
      obtain ⟨row, project', hrow, hproject', rfl, hactivatable, hnodup⟩ := activateNow_eq_ok hrun
      have hwhy := chooseRevision_cases hchosen
      have hof := hwhy.owner hw hproject hrow
      rw [hof, hproject, Option.some.injEq] at hproject'
      subst hproject'
      exact .inr (.inr ⟨r, row, hwhy, hrow, hof, by rw [hof], hactivatable, hnodup⟩)

/-- The project row after a promotion. -/
theorem projects_promote (hproject : w.projects.row p = some project) :
    (w.promote p r row project).projects.row p = some { project with
      activeRevision := some r
      sourceActivationPending :=
        project.sourceActivationPending && project.sourceRevision != some r } := by
  unfold World.promote
  rw [Table.row_modify_self, hproject]
  rfl

/-- **A promotion keeps the latest stored revision** of the project: active and retired revisions
are as stored as those that can be activated. -/
theorem latestStored_promote (hw : Consistent w) (hproject : w.projects.row p = some project)
    (hrow : w.revisions.row r = some row)
    (hactivatable : row.status.activatable = true ∨
      row.status = .active ∧ project.activeRevision = some r) :
    (w.latestStoredRevision p).map Prod.fst =
      ((w.promote p r row project).latestStoredRevision p).map Prod.fst := by
  obtain ⟨row', hrow', howner, hstatus, -, hdigest, hcreated⟩ := revisions_promote p project hrow
  refine latestStored_fst_congr ?_ fun k => ?_
  · rw [projects_promote hproject, hproject]
    rfl
  · cases hk : w.revisions.row k with
    | none => rw [revisions_promote_none p r row project hk]
    | some other =>
      by_cases hkr : k = r
      · subst hkr
        rw [hrow, Option.some.injEq] at hk
        subst hk
        rw [hrow', Option.bind_some, Option.bind_some]
        have hbefore : row.status.unstored = false := by
          rcases hactivatable with hstored | ⟨hstored, -⟩
          · cases hcase : row.status <;> rw [hcase] at hstored <;> first | rfl | cases hstored
          · rw [hstored]
            rfl
        have hafter : row'.status.unstored = false := by
          rw [hstatus]
          rfl
        simp only [storedSource, RevisionRow.IsStoredSource, howner, hdigest, hcreated,
          hbefore, hafter]
      · rcases revisions_promote_of_ne p row project hkr hk with hkept | ⟨hactive, hretired⟩
        · rw [hkept]
        · -- the revision that stands down was active, so it was stored before as well
          obtain ⟨previous, hprevious, -, hserved⟩ := hw.pointer p project k hproject hactive
          rw [hk, Option.some.injEq] at hprevious
          subst hprevious
          rw [hretired, Option.bind_some, Option.bind_some]
          simp only [storedSource, RevisionRow.IsStoredSource, hserved]
          rfl

/-- After the promotion of a chosen revision no valid source is left to activate. -/
theorem acceptedSource_promote (hw : Consistent w) (hproject : w.projects.row p = some project)
    (hrow : w.revisions.row r = some row) (hwhy : Chosen w p project r)
    (hactivatable : row.status.activatable = true ∨
      row.status = .active ∧ project.activeRevision = some r) :
    acceptedSource (w.promote p r row project) p = none := by
  obtain ⟨row', hrow', -, hstatus, -⟩ := revisions_promote p project hrow
  by_contra hsome
  obtain ⟨⟨s, found⟩, hfound⟩ := Option.ne_none_iff_exists'.mp hsome
  obtain ⟨hafter, hvalid⟩ := Option.filter_eq_some_iff.mp hfound
  have hvalid' : found.status = .valid := of_decide_eq_true hvalid
  have hlatest := latestStored_promote hw hproject hrow hactivatable
  rw [hafter, Option.map_some] at hlatest
  obtain ⟨⟨s', before⟩, hbefore, hs⟩ := Option.map_eq_some_iff.mp hlatest
  obtain rfl : s' = s := hs
  have hrowAfter := (latestStoredRevision_mem hafter).1
  have hrowBefore := (latestStoredRevision_mem hbefore).1
  by_cases hsr : s' = r
  · -- the promoted revision is active now
    subst hsr
    rw [hrow', Option.some.injEq] at hrowAfter
    rw [← hrowAfter, hstatus] at hvalid'
    cases hvalid'
  · -- another one would have been valid before, and chosen
    have hsame : before.status = .valid := by
      rcases revisions_promote_of_ne p row project hsr hrowBefore with hkept | ⟨-, hretired⟩
      · rw [hkept, Option.some.injEq] at hrowAfter
        exact hrowAfter ▸ hvalid'
      · rw [hretired, Option.some.injEq] at hrowAfter
        rw [← hrowAfter] at hvalid'
        cases hvalid'
    have haccepted : acceptedSource w p = some (s', before) := by
      rw [acceptedSource, hbefore, Option.filter_some, if_pos (decide_eq_true hsame)]
    cases hwhy with
    | accepted source =>
      rw [haccepted] at source
      cases source
      exact hsr rfl
    | repaired active none => cases haccepted.symm.trans none
    | newest active none valid => cases haccepted.symm.trans none

/-- What a promotion of a chosen revision leaves is settled. -/
theorem settled_promote (hw : Consistent w) (hproject : w.projects.row p = some project)
    (hrow : w.revisions.row r = some row) (hof : row.project = p)
    (hwhy : Chosen w p project r)
    (hactivatable : row.status.activatable = true ∨
      row.status = .active ∧ project.activeRevision = some r)
    (hnodup : (row.discoveredScripts.map ScriptRecord.identity).Nodup) :
    ∃ project', (w.promote p r row project).projects.row p = some project' ∧
      project'.activeRevision = some r ∧ SettledProject (w.promote p r row project) p project' := by
  obtain ⟨row', hrow', howner, hstatus, hscripts, -⟩ := revisions_promote p project hrow
  refine ⟨_, projects_promote hproject, rfl, ?_⟩
  refine .serving rfl hrow' (howner.trans hof) hstatus
    (acceptedSource_promote hw hproject hrow hwhy hactivatable) ?_ ?_
  · rw [hscripts]
    exact synchronizeScripts_published hw.unique hnodup
  · simp only
    cases project.sourceActivationPending <;> simp

variable (env) in
/-- A visit leaves a consistent state, and the other projects as they are. -/
theorem visit_keeps (hw : Consistent w) (p : Id) : Consistent (visitProject env w p).1 ∧
    (∀ q ≠ p, SameProject q w (visitProject env w p).1) ∧
      ∀ q, ((visitProject env w p).1.projects.row q).map ProjectRow.key =
        (w.projects.row q).map ProjectRow.key := by
  cases hproject : w.projects.row p with
  | none =>
    have hsame : (visitProject env w p).1 = w := by
      unfold visitProject
      simp only [hproject]
    rw [hsame]
    exact ⟨hw, fun q _ => .refl q w, fun _ => rfl⟩
  | some project =>
    rcases visitProject_cases env hw hproject with ⟨hsame, -⟩ | ⟨hsame, -⟩ |
      ⟨r, row, hwhy, hrow, hof, hafter, hactivatable, hnodup⟩
    · rw [hsame]
      exact ⟨hw, fun q _ => .refl q w, fun _ => rfl⟩
    · rw [hsame]
      exact ⟨hw, fun q _ => .refl q w, fun _ => rfl⟩
    · rw [hafter]
      refine ⟨hw.promote hproject hrow hof, fun q hne =>
        sameProject_promote hw hproject hrow hof hne, fun q => ?_⟩
      rcases eq_or_ne q p with rfl | hne
      · obtain ⟨project', hproject', -⟩ :=
          settled_promote hw hproject hrow hof hwhy hactivatable hnodup
        unfold World.promote
        rw [Table.row_modify_self, hproject]
        rfl
      · rw [(sameProject_promote hw hproject hrow hof hne).project]

/-- **A visit that does not fail** settles its project. -/
theorem settled_visit (hw : Consistent w) (hproject : w.projects.row p = some project)
    (hlives : ∀ r failure, (visitProject env w p).2 ≠ some (.failed r failure)) :
    ∃ project', (visitProject env w p).1.projects.row p = some project' ∧
      SettledProject (visitProject env w p).1 p project' := by
  rcases visitProject_cases env hw hproject with ⟨hsame, outcome, hchosen⟩ |
    ⟨-, r, failure, hfailed⟩ | ⟨r, row, hwhy, hrow, hof, hafter, hactivatable, hnodup⟩
  · rw [hsame]
    refine ⟨project, hproject, ?_⟩
    unfold chooseRevision at hchosen
    split at hchosen
    next hempty => exact .empty hempty
    next newest hnewest =>
      cases hactive : project.activeRevision with
      | some active =>
        simp only [hactive] at hchosen
        split at hchosen <;> cases hchosen
      | none =>
        simp only [hactive] at hchosen
        split at hchosen
        next hnone => exact .idle hactive hnone
        next => cases hchosen
  · exact absurd hfailed (hlives r failure)
  · rw [hafter]
    obtain ⟨project', hproject', -, hsettled⟩ :=
      settled_promote hw hproject hrow hof hwhy hactivatable hnodup
    exact ⟨project', hproject', hsettled⟩

variable (env) in
/-- Where one visit moves the pointer of its project. -/
theorem pointer_visit (hw : Consistent w) (hproject : w.projects.row p = some project) :
    pointer (visitProject env w p).1 p = project.activeRevision ∨
      (∃ r row, pointer (visitProject env w p).1 p = some r ∧
        acceptedSource w p = some (r, row)) ∨
      project.activeRevision = none ∧ acceptedSource w p = none ∧
        pointer (visitProject env w p).1 p = (newestValid w p).map Prod.fst := by
  rcases visitProject_cases env hw hproject with ⟨hsame, -⟩ | ⟨hsame, -⟩ |
    ⟨r, row, hwhy, hrow, hof, hafter, hactivatable, hnodup⟩
  · rw [hsame, pointer, hproject]
    exact .inl rfl
  · rw [hsame, pointer, hproject]
    exact .inl rfl
  · obtain ⟨project', hproject', hactive, -⟩ :=
      settled_promote hw hproject hrow hof hwhy hactivatable hnodup
    rw [hafter, pointer, hproject', Option.bind_some, hactive]
    cases hwhy with
    | accepted source => exact .inr (.inl ⟨r, _, rfl, source⟩)
    | repaired active none => exact .inl active.symm
    | newest active none valid =>
      exact .inr (.inr ⟨active, none, by rw [valid, Option.map_some]⟩)

/-- The revision that a project without one is given. -/
def candidate (w : World) (p : Id) : Option Id :=
  ((acceptedSource w p).or (newestValid w p)).map Prod.fst

theorem newestOf_eq_none {revisions : List (Id × RevisionRow)} (h : newestOf revisions = none) :
    revisions = [] := by
  have hsome : ∀ (rest : List (Id × RevisionRow)) (best : Id × RevisionRow),
      (rest.foldl (fun newest revision =>
          if newest.all fun best => best.2.created ≤ revision.2.created then some revision
          else newest) (some best)).isSome = true := by
    intro rest
    induction rest with
    | nil => exact fun _ => rfl
    | cons revision rest ih =>
      intro best
      rw [List.foldl_cons]
      split_ifs
      · exact ih revision
      · exact ih best
  cases revisions with
  | nil => rfl
  | cons first rest =>
    have hfound := hsome rest first
    have hsame : newestOf (first :: rest) = rest.foldl (fun newest revision =>
        if newest.all fun best => best.2.created ≤ revision.2.created then some revision
        else newest) (some first) := by
      rw [newestOf, List.foldl_cons]
      rfl
    rw [← hsame, h] at hfound
    cases hfound

/-- A project that holds no revision has none to be given. -/
theorem candidate_of_empty (h : newestOf (projectRevisions w p) = none) : candidate w p = none := by
  have hempty := newestOf_eq_none h
  have hvalid : newestValid w p = none := by
    rw [newestValid, hempty]
    rfl
  have haccepted : acceptedSource w p = none := by
    by_contra hsome
    obtain ⟨⟨r, row⟩, hfound⟩ := Option.ne_none_iff_exists'.mp hsome
    obtain ⟨hlatest, -⟩ := Option.filter_eq_some_iff.mp hfound
    obtain ⟨hrow, hstored⟩ := latestStoredRevision_mem hlatest
    have hmem : (r, row) ∈ projectRevisions w p :=
      List.mem_filter.mpr ⟨Table.mem_entries.mpr hrow, decide_eq_true hstored.1⟩
    rw [hempty] at hmem
    exact List.not_mem_nil hmem
  rw [candidate, haccepted, hvalid]
  rfl

/-- A visit that does not fail gives a project without a revision its candidate. -/
theorem pointer_visit_of_idle (hw : Consistent w) (hproject : w.projects.row p = some project)
    (hidle : project.activeRevision = none)
    (hlives : ∀ r failure, (visitProject env w p).2 ≠ some (.failed r failure)) :
    pointer (visitProject env w p).1 p = candidate w p := by
  rcases visitProject_cases env hw hproject with ⟨hsame, outcome, hchosen⟩ |
    ⟨-, r, failure, hfailed⟩ | ⟨r, row, hwhy, hrow, hof, hafter, hactivatable, hnodup⟩
  · rw [hsame, pointer, hproject, Option.bind_some, hidle]
    unfold chooseRevision at hchosen
    split at hchosen
    next hempty => exact (candidate_of_empty hempty).symm
    next newest hnewest =>
      simp only [hidle] at hchosen
      split at hchosen
      next hnone => rw [candidate, hnone, Option.map_none]
      next => cases hchosen
  · exact absurd hfailed (hlives r failure)
  · obtain ⟨project', hproject', hactive, -⟩ :=
      settled_promote hw hproject hrow hof hwhy hactivatable hnodup
    rw [hafter, pointer, hproject', Option.bind_some, hactive]
    cases hwhy with
    | accepted source => rw [candidate, source, Option.some_or, Option.map_some]
    | repaired active none => cases hidle.symm.trans active
    | newest active none valid => rw [candidate, none, valid, Option.none_or, Option.map_some]

end Visits

/-! ## Runs -/

section Runs

variable {env : ActivationEnv} {w w' : World} {p : Id} {ids : List Id} {keys : List PyStr}

variable (env) in
/-- What a row of visits leaves of the projects it does not visit. -/
theorem visitProjects_keeps (hw : Consistent w) (ids : List Id) :
    Consistent (visitProjects env ids w).1 ∧
      (∀ q ∉ ids, SameProject q w (visitProjects env ids w).1) ∧
        ∀ q, ((visitProjects env ids w).1.projects.row q).map ProjectRow.key =
          (w.projects.row q).map ProjectRow.key := by
  induction ids generalizing w with
  | nil => exact ⟨hw, fun q _ => .refl q w, fun _ => rfl⟩
  | cons p rest ih =>
    obtain ⟨hfirst, hothers, hkeys⟩ := visit_keeps env hw p
    obtain ⟨hrest, hstill, hkeys'⟩ := ih hfirst
    refine ⟨hrest, fun q hq => ?_, fun q => (hkeys' q).trans (hkeys q)⟩
    obtain ⟨hne, hnot⟩ := not_or.mp (fun hin => hq (List.mem_cons.mpr hin))
    exact (hothers q hne).trans (hstill q hnot)

variable (env) in
/-- The one visit of a project in a row of visits. -/
theorem visitProjects_at (hw : Consistent w) (hnodup : ids.Nodup) (hmem : p ∈ ids) :
    ∃ w₁, Consistent w₁ ∧ SameProject p w w₁ ∧
      SameProject p (visitProject env w₁ p).1 (visitProjects env ids w).1 ∧
        ∀ outcome, (p, outcome) ∈ (visitProjects env ids w).2 ↔
          (visitProject env w₁ p).2 = some outcome := by
  have helsewhere : ∀ (ids : List Id) (w : World) (outcome : StagedOutcome), p ∉ ids →
      (p, outcome) ∉ (visitProjects env ids w).2 := by
    intro ids
    induction ids with
    | nil => exact fun _ _ _ => List.not_mem_nil
    | cons first rest ih =>
      intro w outcome hnot hin
      obtain ⟨hne, hrest⟩ := not_or.mp (fun hin => hnot (List.mem_cons.mpr hin))
      rcases List.mem_append.mp hin with hnow | hlater
      · simp only [Option.mem_toList, Option.map_eq_some_iff, Prod.mk.injEq] at hnow
        obtain ⟨-, -, hsame, -⟩ := hnow
        exact hne hsame.symm
      · exact ih _ outcome hrest hlater
  induction ids generalizing w with
  | nil => cases hmem
  | cons first rest ih =>
    obtain ⟨hfresh, hrest⟩ := List.nodup_cons.mp hnodup
    obtain ⟨hfirst, hothers, -⟩ := visit_keeps env hw first
    by_cases hsame : p = first
    · subst hsame
      refine ⟨w, hw, .refl p w, (visitProjects_keeps env hfirst rest).2.1 p hfresh,
        fun outcome => ?_⟩
      rw [visitProjects]
      simp only [List.mem_append, Option.mem_toList, Option.map_eq_some_iff,
        Prod.mk.injEq, true_and, exists_eq_right]
      exact or_iff_left (helsewhere rest _ outcome hfresh)
    · obtain ⟨w₁, hw₁, hbefore, hafter, hreport⟩ :=
        ih hfirst hrest ((List.mem_cons.mp hmem).resolve_left hsame)
      refine ⟨w₁, hw₁, (hothers p hsame).trans hbefore, hafter, fun outcome => ?_⟩
      rw [← hreport, visitProjects]
      simp only [List.mem_append, Option.mem_toList, Option.map_eq_some_iff,
        Prod.mk.injEq]
      refine or_iff_right ?_
      rintro ⟨-, -, hfirst, -⟩
      exact hsame hfirst.symm

/-- The projects of a run: those there are with a key of the map, each once. -/
theorem mem_stagedProjects : p ∈ stagedProjects keys w ↔
    ∃ project, w.projects.row p = some project ∧ project.key ∈ keys := by
  simp only [stagedProjects, List.mem_map, List.mem_insertionSort, List.mem_filter,
    decide_eq_true_eq]
  constructor
  · rintro ⟨⟨i, project⟩, ⟨hentry, hkey⟩, rfl⟩
    exact ⟨project, Table.mem_entries.mp hentry, hkey⟩
  · rintro ⟨project, hrow, hkey⟩
    exact ⟨(p, project), ⟨Table.mem_entries.mpr hrow, hkey⟩, rfl⟩

theorem nodup_stagedProjects : (stagedProjects keys w).Nodup := by
  have hfiltered : ((w.projects.entries.filter fun project => project.2.key ∈ keys).map
      Prod.fst).Nodup := (List.filter_sublist.map _).nodup w.projects.nodup_entries
  exact ((List.perm_insertionSort _ _).map Prod.fst).nodup_iff.mpr hfiltered

/-- Visits of settled projects change nothing. -/
theorem visitProjects_settled (hw : Consistent w)
    (h : ∀ p ∈ ids, ∃ project, w.projects.row p = some project ∧ SettledProject w p project) :
    (visitProjects env ids w).1 = w := by
  induction ids with
  | nil => rfl
  | cons p rest ih =>
    obtain ⟨project, hproject, hsettled⟩ := h p List.mem_cons_self
    have hsame : (visitProject env w p).1 = w := hsettled.visit hw hproject
    rw [visitProjects]
    simp only
    rw [hsame]
    exact ih fun q hq => h q (List.mem_cons_of_mem _ hq)

theorem SameProject.pointer_eq (h : SameProject p w w') : pointer w' p = pointer w p := by
  rw [pointer, pointer, h.project]

theorem SameProject.accepted (h : SameProject p w w') :
    acceptedSource w' p = acceptedSource w p := by
  rw [acceptedSource, acceptedSource, latestStoredRevision_congr h]

theorem SameProject.candidate (h : SameProject p w w') : candidate w' p = candidate w p := by
  unfold NetBoxScripts.candidate
  rw [h.accepted, newestValid, newestValid, projectRevisions_congr h]

/-- The state after some runs. -/
def afterRuns (keys : List PyStr) (runs : List ActivationEnv) (w : World) : World :=
  runs.foldl (fun w env => (activateStagedProjects keys env w).1) w

theorem consistent_afterRuns (keys : List PyStr) (hw : Consistent w) (runs : List ActivationEnv) :
    Consistent (afterRuns keys runs w) := by
  induction runs generalizing w with
  | nil => exact hw
  | cons env runs ih => exact ih (visitProjects_keeps env hw _).1

/-- A failure changes nothing. -/
theorem visitProject_of_failed {failure : Failure}
    (hfailed : (visitProject env w p).2 = some (.failed r failure)) :
    (visitProject env w p).1 = w := by
  cases hproject : w.projects.row p with
  | none =>
    unfold visitProject
    simp only [hproject]
  | some project =>
    unfold visitProject at hfailed ⊢
    simp only [hproject] at hfailed ⊢
    split at hfailed
    next outcome hchosen => rfl
    next r' outcome hchosen =>
      split at hfailed
      next failure' hrun => rfl
      next w' hrun =>
        -- a visit that activates never reports a failure
        exact absurd (Option.some.inj hfailed) (report_of_chosen hchosen r failure)

/-- The visited projects of a run, each once. -/
theorem nodup_visited (keys : List PyStr) (w : World) (reached : ℕ) :
    ((stagedProjects keys w).take reached).Nodup :=
  (List.take_sublist _ _).nodup nodup_stagedProjects

/-- **A serving project** keeps what it serves, or gets its latest source if that is valid. -/
theorem pointer_run_of_serving (keys : List PyStr) (env : ActivationEnv) (hw : Consistent w)
    (hserving : pointer w p = some q) :
    pointer (activateStagedProjects keys env w).1 p = some q ∨
      ∃ r row, pointer (activateStagedProjects keys env w).1 p = some r ∧
        w.latestStoredRevision p = some (r, row) ∧ row.status = .valid := by
  by_cases hmem : p ∈ (stagedProjects keys w).take env.reached
  · obtain ⟨w₁, hw₁, hbefore, hafter, -⟩ :=
      visitProjects_at env hw (nodup_visited keys w env.reached) hmem
    rw [activateStagedProjects, hafter.pointer_eq]
    rw [← hbefore.pointer_eq] at hserving
    obtain ⟨project, hproject, hactive⟩ := Option.bind_eq_some_iff.mp hserving
    rcases pointer_visit env hw₁ hproject with hsame | ⟨r, row, hpointer, hsource⟩ | ⟨hnone, -⟩
    · exact .inl (hsame.trans hactive)
    · -- its source is what it was when the run began
      rw [hbefore.accepted] at hsource
      obtain ⟨hlatest, hvalid⟩ := Option.filter_eq_some_iff.mp hsource
      exact .inr ⟨r, row, hpointer, hlatest, of_decide_eq_true hvalid⟩
    · cases hnone.symm.trans hactive
  · -- the run did not get to it
    have hkeeps := visitProjects_keeps env hw ((stagedProjects keys w).take env.reached)
    exact .inl ((hkeeps.2.1 p hmem).pointer_eq.trans hserving)

/-- **A project that serves nothing** gets its candidate where its visit does not fail. -/
theorem pointer_run_of_idle {keys : List PyStr} (hw : Consistent w)
    (hmem : p ∈ (stagedProjects keys w).take env.reached) (hidle : pointer w p = none)
    (hlives : ∀ r failure, (p, .failed r failure) ∉ (activateStagedProjects keys env w).2) :
    pointer (activateStagedProjects keys env w).1 p = candidate w p := by
  obtain ⟨w₁, hw₁, hbefore, hafter, hreport⟩ :=
    visitProjects_at env hw (nodup_visited keys w env.reached) hmem
  obtain ⟨project, hproject, -⟩ := mem_stagedProjects.mp (List.mem_of_mem_take hmem)
  rw [activateStagedProjects, hafter.pointer_eq, ← hbefore.candidate]
  rw [← hbefore.project] at hproject
  have hnone : project.activeRevision = none := by
    rw [← hbefore.pointer_eq, pointer, hproject] at hidle
    exact hidle
  exact pointer_visit_of_idle hw₁ hproject hnone fun r failure hfailed =>
    hlives r failure ((hreport _).mpr hfailed)

/-- **A run after a run without failures** changes nothing. -/
theorem run_again {keys : List PyStr} (hw : Consistent w)
    (hall : (stagedProjects keys w).length ≤ env.reached)
    (hlives : ∀ p r failure, (p, .failed r failure) ∉ (activateStagedProjects keys env w).2)
    (next : ActivationEnv) :
    (activateStagedProjects keys next (activateStagedProjects keys env w).1).1 =
      (activateStagedProjects keys env w).1 := by
  have htake : (stagedProjects keys w).take env.reached = stagedProjects keys w :=
    List.take_of_length_le hall
  have hkeeps := visitProjects_keeps env hw ((stagedProjects keys w).take env.reached)
  refine visitProjects_settled hkeeps.1 fun p hmem => ?_
  obtain ⟨project', hproject', hkey⟩ := mem_stagedProjects.mp (List.mem_of_mem_take hmem)
  -- the keys are what they were, so the first run visited the project as well
  have hsameKey := hkeeps.2.2 p
  rw [activateStagedProjects] at hproject'
  rw [hproject', Option.map_some, eq_comm, Option.map_eq_some_iff] at hsameKey
  obtain ⟨project, hproject, hsame⟩ := hsameKey
  have hstaged : p ∈ (stagedProjects keys w).take env.reached := by
    rw [htake]
    exact mem_stagedProjects.mpr ⟨project, hproject, hsame ▸ hkey⟩
  obtain ⟨w₁, hw₁, hbefore, hafter, hreport⟩ :=
    visitProjects_at env hw (nodup_visited keys w env.reached) hstaged
  rw [← hbefore.project] at hproject
  obtain ⟨project₂, hproject₂, hsettled⟩ := settled_visit hw₁ hproject
    fun r failure hfailed => hlives p r failure ((hreport _).mpr hfailed)
  exact ⟨project₂, hafter.project.trans hproject₂, hsettled.same hafter⟩

/-- **Each run of a sequence**: a serving project keeps its revision or gets its valid latest
source; one that serves nothing and does not fail gets its accepted source or else its newest
valid revision; a failure changes nothing; and after a run without failures another changes
nothing. `activateNow` is the service that nobody disturbs (`activateRevision_alone`), and the runs
of the services keep the rows consistent (`consistent_run`). -/
theorem activate_staged_runs (keys : List PyStr) (hw : Consistent w)
    (earlier : List ActivationEnv) (env : ActivationEnv) :
    (∀ p q, pointer (afterRuns keys earlier w) p = some q →
      pointer (activateStagedProjects keys env (afterRuns keys earlier w)).1 p = some q ∨
      ∃ r row, pointer (activateStagedProjects keys env (afterRuns keys earlier w)).1 p = some r ∧
        (afterRuns keys earlier w).latestStoredRevision p = some (r, row) ∧
          row.status = .valid) ∧
    (∀ p ∈ (stagedProjects keys (afterRuns keys earlier w)).take env.reached,
      pointer (afterRuns keys earlier w) p = none →
      (∀ r failure, (p, .failed r failure) ∉
        (activateStagedProjects keys env (afterRuns keys earlier w)).2) →
      pointer (activateStagedProjects keys env (afterRuns keys earlier w)).1 p =
        candidate (afterRuns keys earlier w) p) ∧
    (∀ now p r failure, (visitProject env now p).2 = some (.failed r failure) →
      (visitProject env now p).1 = now) ∧
    ((stagedProjects keys (afterRuns keys earlier w)).length ≤ env.reached →
      (∀ p r failure, (p, .failed r failure) ∉
        (activateStagedProjects keys env (afterRuns keys earlier w)).2) →
      ∀ next, (activateStagedProjects keys next
        (activateStagedProjects keys env (afterRuns keys earlier w)).1).1 =
          (activateStagedProjects keys env (afterRuns keys earlier w)).1) := by
  have hstart := consistent_afterRuns keys hw earlier
  refine ⟨fun p q hserving => ?_, fun p hmem hidle hlives => ?_, fun now p r failure hfailed => ?_,
    fun hall hlives next => ?_⟩
  · exact pointer_run_of_serving keys env hstart hserving
  · exact pointer_run_of_idle hstart hmem hidle hlives
  · exact visitProject_of_failed hfailed
  · exact run_again hstart hall hlives next

/-- Every state that the services leave is consistent. -/
theorem consistent_run {Cls : Type} [DecidableEq Cls] [Unicode] [Hashing] {next : ThreadId}
    {pool : Pool World Choice Failure (Publication.Act Cls)} (hstart : Publication.Consistent w)
    (hrun : Run Publication.publication (fun _ _ => True) (Pool.start w next) pool) :
    Consistent pool.world := by
  have hagree : Publication.Consistent pool.world :=
    Publication.verified_publication.run_invariant (fun _ _ _ hcareful => hcareful.consistent)
      (.start fun _ _ => trivial) hstart hrun
  refine ⟨hagree.unique, fun p project q hproject hactive => ?_⟩
  have hserves : pointer pool.world p = some q := by
    rw [pointer, hproject]
    exact hactive
  obtain ⟨row, hrow, howner, hstatus, -⟩ := hagree.served p q hserves
  exact ⟨row, hrow, howner, hstatus⟩

end Runs

/-- A project that serves nothing, with a valid revision. -/
def validatedWorld : World :=
  { Vanishing.rejectedWorld with
    revisions := Vanishing.rejectedWorld.revisions.modify 1 fun row =>
      { row with status := .valid } }

/-- A project that serves nothing is given its one valid revision, and a second run changes
nothing. -/
theorem activate_staged_runs_of_one :
    let once := activateStagedProjects [py "p"] ⟨fun _ _ => none, 1⟩ validatedWorld
    pointer once.1 1 = some 1 ∧
      ∀ next, (activateStagedProjects [py "p"] next once.1).1 = once.1 := by
  intro once
  have hconsistent : Consistent validatedWorld := by
    refine ⟨fun i j a b ha => ?_, fun p project q hproject hactive => ?_⟩
    · cases ha
    · rcases Table.row_insert_eq_some hproject with ⟨-, rfl⟩ | hold
      · cases hactive
      · cases hold
  obtain ⟨-, hidle, -, hagain⟩ :=
    activate_staged_runs [py "p"] hconsistent [] ⟨fun _ _ => none, 1⟩
  have hreport : once.2 = [(1, .activated 1)] := rfl
  have hnone : ∀ p r failure, (p, StagedOutcome.failed r failure) ∉ once.2 := by
    intro p r failure hfailed
    rw [hreport] at hfailed
    obtain ⟨-, hsame⟩ := Prod.mk.inj (List.mem_singleton.mp hfailed)
    cases hsame
  exact ⟨hidle 1 (by decide) rfl (hnone 1), hagain (by decide) hnone⟩

end NetBoxScripts
