import NetBoxScripts.Concurrency.Course
import NetBoxScripts.Services.Requests

/-!
# Validation workers

Any number of validations and of saves of Script File instances that were loaded before, in any
interleaving. Where a validation stands is one of a few stages, and each of its statements is a move
from one stage to the next.

## Main definitions

* `Work`, `workers`: what is done, and the system of any number of it
* `Stage`, `Stage.prog`: where a validation stands, and what is left of it
* `Move`: the statements of a validation

## Main results

* `moves_prog`: each action of a validation is a move
* `eachStep_saveScriptFile`: a save leaves every outcome
-/

namespace NetBoxScripts

namespace Workers

open Lifecycle (claimValidation finalize revertToMaterialized persistResult
  corruptFailure updateWhere)
open Requests (saveScriptFile storeScriptFile)

/-! ## Calls -/

/-- A validation by one worker, or a full save of an instance that was loaded at any time before. -/
inductive Work (Cls : Type)
  | validate (env : ValidationEnv Cls) (r job : Id)
  | save (file : ScriptFileInstance)

variable {Cls : Type} [DecidableEq Cls] [Unicode] [Hashing]

/-- What is done. -/
def Work.body : Work Cls → Service Unit
  | .validate env r job => Lifecycle.validateRevision env r job
  | .save file => saveScriptFile file .all

/-- Any number of workers and saves, any of which may end at any point, while the clock goes on. -/
def workers : System World Choice Failure (Work Cls) where
  body := Work.body
  reap t s := s.reap t
  tick s := { s with now := s.now + 1 }

/-! ## Stages -/

/-- One outcome for a Script File. -/
abbrev Outcome := SnapshotEntry × FileDiscoveryStatus × PyStr

/-- Where a validation stands. -/
inductive Stage
  | fresh
  /-- It has read the clock. -/
  | timed (now : Time)
  | claimed
  /-- It gives the claim back, and then raises. -/
  | reverting (reason : PyStr) (failure : Failure)
  | judging (row : RevisionRow) (verdict : Verdict)
  /-- Its verdict stands, and these outcomes are left to record. -/
  | persisting (row : RevisionRow) (verdict : Verdict) (outcome : Outcome) (rest : List Outcome)
  /-- The row is read once more. -/
  | closing
  | ended (result : Except Failure Unit)

/-- The stage that gives the claim back. -/
def revertStage (reason : PyStr) (failure : Failure) : Stage :=
  if Plain (reason.take maxValidationFailureLength) then .reverting reason failure
  else .ended (.error .dataError)

/-- The stage after the claimed row was read. -/
def readStage (env : ValidationEnv Cls) (row : RevisionRow) : Stage :=
  match examineRevision env row with
  | .unguarded => .ended (.error .escaped)
  | .corrupt => revertStage [] (corruptFailure row)
  | .reverted reason => revertStage reason .escaped
  | .verdict verdict =>
    if verdict.Storable then .judging row verdict else .ended (.error .dataError)

/-- The stage with these outcomes left. -/
def persistStage (row : RevisionRow) (verdict : Verdict) : List Outcome → Stage
  | [] => .closing
  | outcome :: rest =>
    if Plain outcome.2.2 then .persisting row verdict outcome rest
    else .ended (.error .dataError)

section Programs

variable (env : ValidationEnv Cls) (r job : Id)

/-- The last statement of a validation. -/
def closeProg : Service Unit := do
  let _ ← getRevision r .doesNotExist

/-- What is left of a validation after its claim. -/
def claimedProg : Service Unit := do
  let row ← getRevision r .doesNotExist
  match examineRevision env row with
  | .unguarded => .raise .escaped
  | .corrupt => do
    let _ ← revertToMaterialized r job []
    .raise (corruptFailure row)
  | .reverted reason => do
    let _ ← revertToMaterialized r job reason
    .raise .escaped
  | .verdict verdict => do
    if ← finalize r job verdict then verdict.persisted.forM (persistResult r row)
    closeProg r

/-- What is left of a validation at a stage. -/
def Stage.prog : Stage → Service Unit
  | .fresh => Lifecycle.validateRevision env r job
  | .timed now => do
    if ← claimValidation r job now then claimedProg env r job else .raise .notClaimable
  | .claimed => claimedProg env r job
  | .reverting reason failure => do
    let _ ← revertToMaterialized r job reason
    .raise failure
  | .judging row verdict => do
    if ← finalize r job verdict then verdict.persisted.forM (persistResult r row)
    closeProg r
  | .persisting row _ outcome rest => do
    (outcome :: rest).forM (persistResult r row)
    closeProg r
  | .closing => closeProg r
  | .ended result => .done result

end Programs

/-! ## Moves -/

/-- The outcome on a row. -/
def outcomeOn (file : ScriptFileRow) : FileDiscoveryStatus × PyStr × Option Id :=
  (file.discoveryStatus, file.discoveryError, file.lastDiscoveredRevision)

/-- The filter of the update that records an outcome. -/
def Recordable (s : World) (r : Id) (row : RevisionRow) (outcome : Outcome) (file : ScriptFileRow) :
    Prop :=
  s.outcomeIsNewer file r row.validationStarted ∧ file.project = row.project ∧
    file.sourcePath = outcome.1.sourcePath

/-- The update that records an outcome. -/
def recordOutcome (s : World) (r : Id) (outcome : Outcome) : World :=
  { s with files := s.files.modify outcome.1.scriptFile fun file =>
      { file with
        discoveryStatus := outcome.2.1
        discoveryError := outcome.2.2
        lastDiscoveredRevision := some r } }

/-- **The statements of a validation**, by the stage before and after. -/
inductive Move (env : ValidationEnv Cls) (r job : Id) : Stage → World → Stage → World → Prop
  | time {s : World} : Move env r job .fresh s (.timed s.now) s
  | claim {s : World} {now : Time} {row : RevisionRow} (hrow : s.revisions.row r = some row)
      (h : Claimable row now) : Move env r job (.timed now) s .claimed
        (s.modifyRevision r fun row => claimRevision row job now)
  | refused {s : World} {now : Time} :
      Move env r job (.timed now) s (.ended (.error .notClaimable)) s
  | read {s : World} {row : RevisionRow} (hrow : s.revisions.row r = some row) :
      Move env r job .claimed s (readStage env row) s
  | gone {s : World} : Move env r job .claimed s (.ended (.error .doesNotExist)) s
  | revert {s : World} {reason : PyStr} {failure : Failure} {row : RevisionRow}
      (hrow : s.revisions.row r = some row) (h : OwnedBy row job) :
      Move env r job (.reverting reason failure) s (.ended (.error failure))
        (s.modifyRevision r fun row => revertRevision row reason)
  | kept {s : World} {reason : PyStr} {failure : Failure} :
      Move env r job (.reverting reason failure) s (.ended (.error failure)) s
  | judge {s : World} {row current : RevisionRow} {verdict : Verdict}
      (hrow : s.revisions.row r = some current) (h : OwnedBy current job) :
      Move env r job (.judging row verdict) s (persistStage row verdict verdict.persisted)
        (s.modifyRevision r fun row => finalizeRevision row verdict)
  | lost {s : World} {row : RevisionRow} {verdict : Verdict} :
      Move env r job (.judging row verdict) s .closing s
  | record {s : World} {row : RevisionRow} {verdict : Verdict} {outcome : Outcome}
      {rest : List Outcome} {file : ScriptFileRow}
      (hfile : s.files.row outcome.1.scriptFile = some file)
      (h : Recordable s r row outcome file) :
      Move env r job (.persisting row verdict outcome rest) s (persistStage row verdict rest)
        (recordOutcome s r outcome)
  | skip {s : World} {row : RevisionRow} {verdict : Verdict} {outcome : Outcome}
      {rest : List Outcome}
      (h : ∀ file, s.files.row outcome.1.scriptFile = some file →
        ¬ Recordable s r row outcome file) :
      Move env r job (.persisting row verdict outcome rest) s (persistStage row verdict rest) s
  | close {s : World} {result : Except Failure Unit} : Move env r job .closing s (.ended result) s

section Simulation

variable {env : ValidationEnv Cls} {r job : Id} {t : ThreadId} {c : Choice} {s s' : World}

/-- A program whose one next action is a move, and what is left after it a later stage's. -/
def Moves (env : ValidationEnv Cls) (r job : Id) (stage : Stage) (prog : Service Unit) : Prop :=
  match prog with
  | .done _ => True
  | .act step next => ∀ t c s b s', step t c s = some (b, s') →
      ∃ stage', Move env r job stage s stage' s' ∧ next b = stage'.prog env r job

theorem persistStage_prog (row : RevisionRow) (verdict : Verdict) (rest : List Outcome) :
    (persistStage row verdict rest).prog env r job = (do
      rest.forM (persistResult r row)
      closeProg r) := by
  cases rest with
  | nil => rfl
  | cons outcome rest =>
    by_cases htext : Plain outcome.2.2
    · rw [persistStage, if_pos htext]
      rfl
    · rw [persistStage, if_neg htext]
      show Prog.done _ = ((persistResult r row outcome).bind _).bind _
      rw [persistResult, if_neg htext]
      rfl

theorem moves_fresh : Moves env r job .fresh (Stage.fresh.prog env r job) := by
  intro t c s b s' hstep
  cases hstep
  exact ⟨.timed s.now, .time, rfl⟩

theorem moves_timed {now : Time} :
    Moves env r job (.timed now) ((Stage.timed now).prog env r job) := by
  intro t c s b s' hstep
  dsimp only at hstep
  split at hstep
  · cases hstep
    exact ⟨_, .refused, rfl⟩
  · next row hrow =>
    -- the filter compares the lease with the time read before, however late the update comes
    split_ifs at hstep with hclaimable
    · cases hstep
      exact ⟨_, .claim hrow (of_decide_eq_true hclaimable), rfl⟩
    · cases hstep
      exact ⟨_, .refused, rfl⟩

theorem revertStage_prog (reason : PyStr) (failure : Failure) :
    (revertStage reason failure).prog env r job = (do
      let _ ← revertToMaterialized r job reason
      .raise failure) := by
  by_cases htext : Plain (reason.take maxValidationFailureLength)
  · rw [revertStage, if_pos htext]
    rfl
  · rw [revertStage, if_neg htext, revertToMaterialized, if_neg htext]
    rfl

theorem claimedProg_eq : claimedProg env r job =
    getRevision r .doesNotExist >>= fun row => (readStage env row).prog env r job := by
  unfold claimedProg
  refine congrArg (getRevision r .doesNotExist >>= ·) (funext fun row => ?_)
  unfold readStage
  cases examineRevision env row with
  | unguarded => rfl
  | corrupt => exact (revertStage_prog [] (corruptFailure row)).symm
  | reverted reason => exact (revertStage_prog reason .escaped).symm
  | verdict verdict =>
    by_cases hstorable : verdict.Storable
    · simp only [if_pos hstorable]
      rfl
    · simp only [if_neg hstorable, finalize]
      rfl

theorem moves_claimed : Moves env r job .claimed (Stage.claimed.prog env r job) := by
  show Moves env r job .claimed (claimedProg env r job)
  rw [claimedProg_eq]
  intro t c s b s' hstep
  cases hstep
  dsimp only
  cases hrow : s.revisions.row r with
  | none => exact ⟨_, .gone, rfl⟩
  | some row => exact ⟨_, .read hrow, rfl⟩

theorem moves_closing : Moves env r job .closing (closeProg r) := by
  intro t c s b s' hstep
  cases hstep
  dsimp only
  cases s.revisions.row r with
  | none => exact ⟨.ended (.error .doesNotExist), .close, rfl⟩
  | some row => exact ⟨.ended (.ok ()), .close, rfl⟩

theorem moves_reverting {reason : PyStr} {failure : Failure} :
    Moves env r job (.reverting reason failure)
      ((Stage.reverting reason failure).prog env r job) := by
  show Moves env r job (.reverting reason failure) ((revertToMaterialized r job reason).bind _)
  unfold revertToMaterialized
  split_ifs with htext
  · intro t c s b s' hstep
    dsimp only at hstep
    split at hstep
    · cases hstep
      exact ⟨_, .kept, rfl⟩
    · next row hrow =>
      split_ifs at hstep with howned
      · cases hstep
        exact ⟨_, .revert hrow (of_decide_eq_true howned), rfl⟩
      · cases hstep
        exact ⟨_, .kept, rfl⟩
  · trivial

theorem moves_judging {row : RevisionRow} {verdict : Verdict} :
    Moves env r job (.judging row verdict) ((Stage.judging row verdict).prog env r job) := by
  show Moves env r job (.judging row verdict) ((finalize r job verdict).bind _)
  unfold finalize
  split_ifs with hstorable
  · intro t c s b s' hstep
    dsimp only at hstep
    split at hstep
    · cases hstep
      exact ⟨_, .lost, rfl⟩
    · next current hrow =>
      split_ifs at hstep with howned
      · cases hstep
        exact ⟨_, .judge hrow (of_decide_eq_true howned), (persistStage_prog ..).symm⟩
      · cases hstep
        exact ⟨_, .lost, rfl⟩
  · trivial

theorem moves_persisting {row : RevisionRow} {verdict : Verdict} {outcome : Outcome}
    {rest : List Outcome} : Moves env r job (.persisting row verdict outcome rest)
      ((Stage.persisting row verdict outcome rest).prog env r job) := by
  show Moves env r job (.persisting row verdict outcome rest)
    (((persistResult r row outcome).bind _).bind _)
  unfold persistResult
  split_ifs with htext
  · intro t c s b s' hstep
    dsimp only at hstep
    split at hstep
    · next hnone =>
      cases hstep
      refine ⟨_, .skip fun file hfile => ?_, (persistStage_prog row verdict rest).symm⟩
      rw [hnone] at hfile
      cases hfile
    · next file hfile =>
      split_ifs at hstep with hrecordable
      · cases hstep
        exact ⟨_, .record hfile hrecordable, (persistStage_prog row verdict rest).symm⟩
      · cases hstep
        refine ⟨_, .skip fun other hother => ?_, (persistStage_prog row verdict rest).symm⟩
        obtain rfl := Option.some.inj (hfile.symm.trans hother)
        exact hrecordable
  · trivial

/-- **Each action of a validation** is a move. -/
theorem moves_prog (stage : Stage) : Moves env r job stage (stage.prog env r job) := by
  cases stage with
  | fresh => exact moves_fresh
  | timed now => exact moves_timed
  | claimed => exact moves_claimed
  | reverting reason failure => exact moves_reverting
  | judging row verdict => exact moves_judging
  | persisting row verdict outcome rest => exact moves_persisting
  | closing => exact moves_closing
  | ended result => trivial

end Simulation

/-! ## What moves leave -/

/-- What a save keeps of a Script File row. -/
structure SameFile (file file' : ScriptFileRow) : Prop where
  project : file'.project = file.project
  sourcePath : file'.sourcePath = file.sourcePath
  outcome : outcomeOn file' = outcomeOn file

/-- What is done by all but the workers: no revision is written, and no outcome. -/
structure Inert (s s' : World) : Prop where
  revisions : s'.revisions = s.revisions
  kept : ∀ f file, s.files.row f = some file →
    ∃ file', s'.files.row f = some file' ∧ SameFile file file'
  new : ∀ f file', s.files.row f = none → s'.files.row f = some file' →
    file'.lastDiscoveredRevision = none

section Saves

omit [DecidableEq Cls] [Unicode] [Hashing]

variable {s s' : World}

theorem SameFile.refl (file : ScriptFileRow) : SameFile file file := ⟨rfl, rfl, rfl⟩

theorem Inert.of_eq (hrevisions : s'.revisions = s.revisions) (hfiles : s'.files = s.files) :
    Inert s s' where
  revisions := hrevisions
  kept f file hfile := ⟨file, hfiles ▸ hfile, .refl file⟩
  new f file' hnone hfile := by
    rw [hfiles, hnone] at hfile
    cases hfile

/-- **A full save** restores the outcome of the row it finds, and a new row has none. -/
theorem inert_saveDeclaration [Unicode] {file : ScriptFileInstance} {files : Table ScriptFileRow}
    (h : saveDeclaration s.files file .all = .ok files) : Inert s { s with files } := by
  unfold saveDeclaration at h
  split at h
  · cases h
  · split at h
    · cases h
    · split_ifs at h
      split at h
      · -- a new row
        unfold insertDeclaration at h
        split_ifs at h
        cases h
        refine ⟨rfl, fun f row hrow => ⟨row, Table.row_insert_of_row hrow, .refl row⟩, ?_⟩
        intro f row hnone hrow
        rcases Table.row_insert_eq_some hrow with ⟨-, rfl⟩ | hold
        · rfl
        · rw [hnone] at hold
          cases hold
      · next pk _ =>
        split at h
        · cases h
        · next original horiginal =>
          -- the identity is that of the row, and the outcome is written back as it was found
          split_ifs at h with hidentity
          rw [not_or, not_not, not_not] at hidentity
          cases h
          refine ⟨rfl, fun f row hrow => ?_, fun f row hnone hrow => ?_⟩
          · by_cases hf : f = pk
            · subst hf
              obtain rfl := Option.some.inj (horiginal.symm.trans hrow)
              refine ⟨_, (Table.row_modify_self ..).trans (congrArg _ horiginal), ?_⟩
              exact ⟨hidentity.1.symm, hidentity.2.symm, rfl⟩
            · exact ⟨row, (Table.row_modify_of_ne hf).trans hrow, .refl row⟩
          · obtain ⟨old, hold, -⟩ := Table.row_modify_eq_some hrow
            rw [hnone] at hold
            cases hold

theorem eachStep_statement {α : Type} {step : ThreadId → Choice → World →
      Option (Except Failure α × World)}
    (h : ∀ t c s answer s', step t c s = some (answer, s') →
      s'.revisions = s.revisions ∧ s'.files = s.files) :
    (Prog.stmt step : Service α).EachStep fun _ => Inert :=
  eachStep_stmt fun t c s answer s' hstep =>
    .of_eq (h t c s answer s' hstep).1 (h t c s answer s' hstep).2

/-- **A save** by its actions. -/
theorem eachStep_saveScriptFile [Unicode] {file : ScriptFileInstance} :
    (saveScriptFile file .all).EachStep fun _ => Inert := by
  have hproject : (getProject file.project .projectVanished).EachStep fun _ => Inert := by
    refine eachStep_bind (eachStep_query fun _ _ => .of_eq rfl rfl) fun answer => ?_
    split
    · exact eachStep_pure
    · exact eachStep_raise
  have hacquire : ∀ k, (acquireLock k).EachStep fun _ => Inert := by
    refine fun k => eachStep_statement fun t c s answer s' hstep => ?_
    split at hstep
    · cases hstep
      exact ⟨rfl, rfl⟩
    · split_ifs at hstep
      cases hstep
      exact ⟨rfl, rfl⟩
    · cases hstep
  have hrelease : ∀ k, (releaseLock k).EachStep fun _ => Inert := by
    refine fun k => eachStep_statement fun t c s answer s' hstep => ?_
    split at hstep
    · split_ifs at hstep
      all_goals
        cases hstep
        exact ⟨rfl, rfl⟩
    · cases hstep
      exact ⟨rfl, rfl⟩
  have hclose : closeTransaction.EachStep fun _ => Inert :=
    eachStep_statement fun t c s answer s' hstep => by cases hstep; exact ⟨rfl, rfl⟩
  -- the one statement that writes a Script File row
  have hstore : (storeScriptFile file .all).EachStep fun _ => Inert := by
    refine eachStep_stmt fun t c s answer s' hstep => ?_
    split at hstep
    · cases hstep
      exact .of_eq rfl rfl
    · next files hsave =>
      split_ifs at hstep
      · cases hstep
        exact .of_eq rfl rfl
      · cases hstep
        exact inert_saveDeclaration hsave
  refine eachStep_bind hproject fun project => ?_
  refine eachStep_bind (hacquire _) fun _ => eachStep_finallyDo ?_ (hrelease _)
  exact eachStep_finallyDo hstore hclose

end Saves

end Workers

end NetBoxScripts
