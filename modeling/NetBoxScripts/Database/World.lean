import NetBoxScripts.Concurrency.Program
import NetBoxScripts.Concurrency.Table
import NetBoxScripts.Storage.ManifestText
import NetBoxScripts.Storage.ScriptFiles

/-!
# The shared state

What all processes of a deployment share: the committed rows, the objects of the storage
backend, the project locks, the row locks and uncommitted deletions of open transactions, and
the clock. Beside it a record of what happened, which no code reads.

## Main definitions

* `ObjectKey`, `RowRef`, `CleanupJob`, `Deletion`
* `Record`: the record of what happened
* `World`
* `declarations`, `latestStoredRevision`: what the services ask the rows

## Main results

* `latestStored_fst_congr`: what tells the latest stored revision
* `latestStoredRevision_mem`: it is a stored source of its project
-/

namespace NetBoxScripts

/-- The name of a stored object: one under a revision's prefix, or one a backend made up. -/
inductive ObjectKey
  | revision (storageKey : StorageKey) (digest path : PyStr)
  | parked (n : ℕ)
  deriving DecidableEq, Repr

/-- A revision that `latest_stored_revision` takes into account. -/
def RevisionRow.IsStoredSource (row : RevisionRow) (p : Id) : Prop :=
  row.project = p ∧ row.digest.isSome ∧ row.status.unstored = false

instance (row : RevisionRow) (p : Id) : Decidable (row.IsStoredSource p) := by
  unfold RevisionRow.IsStoredSource
  infer_instance

/-- A row that a transaction can lock. -/
inductive RowRef
  | project (p : Id)
  | revision (r : Id)
  | file (f : Id)
  | script (i : Id)
  deriving DecidableEq, Repr

/-- What a cleanup has to remove. -/
structure CleanupPayload where
  storageKey : StorageKey
  digest : PyStr
  paths : List PyStr
  deriving DecidableEq, Repr

/-- A recorded `ProjectStorageCleanupJob`. -/
structure CleanupJob where
  payload : CleanupPayload
  /-- It finished successfully. -/
  completed : Bool
  /-- A run found the content referenced again, or removed it. Not a column: the status of the
  Job row follows later. -/
  settled : Bool
  deriving DecidableEq, Repr

/-- What an open transaction that deletes revisions did after its statement. -/
structure Deletion where
  /-- The storage keys and digests whose references it checked. -/
  checked : List (StorageKey × PyStr)
  /-- The cleanups it records with its commit. -/
  cleanups : List CleanupPayload
  deriving DecidableEq, Repr

/-- A transaction that has checked nothing. -/
def Deletion.empty : Deletion := ⟨[], []⟩

/-- One revision accepted as the source of a project. -/
structure Acceptance where
  project : Id
  revision : Id
  activateOnce : Bool
  deriving DecidableEq, Repr

/-- A source tree: the content at each path it has. -/
abbrev Tree := PyStr → Option Bytes

/-- What happened so far. -/
structure Record where
  /-- In the order in which they were committed. -/
  acceptances : List Acceptance
  /-- A reference check was made while another transaction held an uncommitted deletion of a
  revision with the same project and digest. -/
  overlapped : Bool

/-- The shared state. -/
structure World where
  projects : Table ProjectRow
  revisions : Table RevisionRow
  files : Table ScriptFileRow
  scripts : Table ScriptRow
  jobs : Table CleanupJob
  objects : ObjectKey → Option Bytes
  /-- Who holds each project's lock, and how many times. -/
  locks : StorageKey → Option (ThreadId × ℕ)
  rowLocks : RowRef → Option ThreadId
  /-- Who has deleted a revision in a transaction that is still open; others see it. -/
  deleting : Id → Option ThreadId
  deletion : ThreadId → Deletion
  now : Time
  record : Record

namespace World

variable (s : World)

/-- The thread holds a project's lock. -/
def Holds (t : ThreadId) (k : StorageKey) : Prop := ∃ n, s.locks k = some (t, n)

/-- No other transaction has locked the row. -/
def rowFree (t : ThreadId) (ref : RowRef) : Bool := (s.rowLocks ref).all (· == t)

/-- The storage key of the project of a revision. -/
def storageKeyOf (row : RevisionRow) : Option StorageKey :=
  (s.projects.row row.project).map ProjectRow.storageKey

/-- The row addresses this content: `filter(project__storage_key=storage_key, digest=digest)`. -/
def Addresses (row : RevisionRow) (k : StorageKey) (digest : PyStr) : Prop :=
  s.storageKeyOf row = some k ∧ row.digest = some digest

instance (row : RevisionRow) (k : StorageKey) (digest : PyStr) :
    Decidable (s.Addresses row k digest) := by
  unfold Addresses
  infer_instance

/-- The enabled Script File declarations of a project. -/
def declarations (p : Id) : List (Id × ScriptFileRow) :=
  s.files.entries.filter fun file => file.2.project == p && file.2.enabled

/-- The accepted source of a project, while it is stored. -/
def acceptedRevision (p : Id) : Option (Id × RevisionRow) := do
  let project ← s.projects.row p
  let r ← project.sourceRevision
  let row ← s.revisions.row r
  if row.IsStoredSource p then some (r, row) else none

/-- `order_by('-created').first()` of a project's stored revisions. -/
def newestRevision (p : Id) : Option (Id × RevisionRow) :=
  (s.revisions.entries.filter fun revision => revision.2.IsStoredSource p).foldl
    (fun newest revision =>
      if newest.all fun best => best.2.created ≤ revision.2.created then some revision
      else newest) none

/-- `latest_stored_revision()` -/
def latestStoredRevision (p : Id) : Option (Id × RevisionRow) :=
  (s.acceptedRevision p).or (s.newestRevision p)

end World

/-! ## The latest stored revision -/

/-- What `latestStoredRevision` looks at in one row. -/
def storedSource (p : Id) (r : Id) (row : RevisionRow) : Option (Id × Time) :=
  if row.IsStoredSource p then some (r, row.created) else none

section Sources

variable {s s' : World} {p : Id}

/-- The newest of a list of revisions is told by their numbers and creation times. -/
theorem newest_fst (revisions : List (Id × RevisionRow)) (best : Option (Id × RevisionRow)) :
    (revisions.foldl (fun newest revision =>
        if newest.all fun best => best.2.created ≤ revision.2.created then some revision
        else newest) best).map (fun revision => (revision.1, revision.2.created)) =
      (revisions.map fun revision => (revision.1, revision.2.created)).foldl (fun newest revision =>
        if newest.all fun best => best.2 ≤ revision.2 then some revision else newest)
        (best.map fun revision => (revision.1, revision.2.created)) := by
  induction revisions generalizing best with
  | nil => rfl
  | cons revision revisions ih =>
    rw [List.foldl_cons, ih, List.map_cons, List.foldl_cons]
    congr 1
    cases best with
    | none => rfl
    | some best =>
      simp only [Option.all_some, Option.map_some]
      split_ifs <;> rfl

theorem newestRevision_fst_congr
    (h : ∀ r, (s.revisions.row r).bind (storedSource p r) =
      (s'.revisions.row r).bind (storedSource p r)) :
    (s.newestRevision p).map Prod.fst = (s'.newestRevision p).map Prod.fst := by
  have hlist : ∀ w : World, ((w.revisions.entries.filter fun revision =>
      revision.2.IsStoredSource p).map fun revision => (revision.1, revision.2.created)) =
      w.revisions.entries.filterMap fun revision => storedSource p revision.1 revision.2 := by
    intro w
    rw [← List.filterMap_eq_map', List.filterMap_filter]
    refine congrArg (List.filterMap · _) (funext fun revision => ?_)
    simp only [storedSource, decide_eq_true_eq]
  have hfst : ∀ found : Option (Id × RevisionRow), found.map Prod.fst =
      (found.map fun revision => (revision.1, revision.2.created)).map Prod.fst := by
    intro found
    cases found <;> rfl
  rw [World.newestRevision, World.newestRevision, hfst, newest_fst, hlist,
    Table.filterMap_entries_congr h, ← hlist, ← newest_fst, ← hfst]

/-- The latest stored revision is told by the source of the project and by which revisions are
stored sources. -/
theorem latestStored_fst_congr
    (hsource : (s.projects.row p).bind ProjectRow.sourceRevision =
      (s'.projects.row p).bind ProjectRow.sourceRevision)
    (h : ∀ r, (s.revisions.row r).bind (storedSource p r) =
      (s'.revisions.row r).bind (storedSource p r)) :
    (s.latestStoredRevision p).map Prod.fst = (s'.latestStoredRevision p).map Prod.fst := by
  have haccepted : ∀ w : World, (w.acceptedRevision p).map Prod.fst =
      ((w.projects.row p).bind ProjectRow.sourceRevision).bind fun r =>
        ((w.revisions.row r).bind (storedSource p r)).map Prod.fst := by
    intro w
    simp only [World.acceptedRevision, Option.bind_eq_bind]
    cases w.projects.row p with
    | none => rfl
    | some project =>
      rw [Option.bind_some, Option.bind_some]
      cases project.sourceRevision with
      | none => rfl
      | some r =>
        rw [Option.bind_some, Option.bind_some]
        cases w.revisions.row r with
        | none => rfl
        | some row =>
          rw [Option.bind_some, Option.bind_some, storedSource]
          split_ifs <;> rfl
  rw [World.latestStoredRevision, World.latestStoredRevision, Option.map_or, Option.map_or,
    haccepted, haccepted, newestRevision_fst_congr h, hsource]
  congr 2
  exact funext fun r => by rw [h r]

/-- The latest stored revision is a stored source of the project. -/
theorem latestStoredRevision_mem {r : Id} {row : RevisionRow}
    (h : s.latestStoredRevision p = some (r, row)) :
    s.revisions.row r = some row ∧ row.IsStoredSource p := by
  have hnewest : ∀ (revisions : List (Id × RevisionRow)) (best : Option (Id × RevisionRow)),
      revisions.foldl (fun newest revision =>
          if newest.all fun best => best.2.created ≤ revision.2.created then some revision
          else newest) best = some (r, row) →
        best = some (r, row) ∨ (r, row) ∈ revisions := by
    intro revisions
    induction revisions with
    | nil => exact fun best h => .inl h
    | cons revision revisions ih =>
      intro best h
      rcases ih _ h with h | h
      · dsimp only at h
        split_ifs at h
        · cases h
          exact .inr List.mem_cons_self
        · exact .inl h
      · exact .inr (List.mem_cons_of_mem _ h)
  rw [World.latestStoredRevision, Option.or_eq_some_iff] at h
  rcases h with h | ⟨-, h⟩
  · simp only [World.acceptedRevision, Option.bind_eq_bind, Option.bind_eq_some_iff] at h
    obtain ⟨project, -, q, -, row', hrow', h⟩ := h
    split_ifs at h with hstored
    cases h
    exact ⟨hrow', hstored⟩
  · rcases hnewest _ _ h with h | h
    · cases h
    · obtain ⟨hmem, hstored⟩ := List.mem_filter.mp h
      exact ⟨Table.mem_entries.mp hmem, of_decide_eq_true hstored⟩

end Sources

end NetBoxScripts
