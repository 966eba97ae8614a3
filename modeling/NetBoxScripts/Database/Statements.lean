import NetBoxScripts.Concurrency.Alone
import NetBoxScripts.Database.Updates

/-!
# Statements and locks

The parts all services are made of: what can go wrong, reads, the project lock and transactions.

## Main definitions

* `Choice`, `Failure`, `Service`: the programs of the services
* `projectLock`, `projectWriteLock`, `transaction` (`storage/locks.py`)
* `World.Depth`: how often a thread holds a project's lock
-/

namespace NetBoxScripts

/-- What the outside answers where a step can go several ways. -/
inductive Choice
  | proceed
  /-- It raises, and nothing happened. -/
  | fail
  /-- It raises, and what was asked for happened. -/
  | failAfter
  /-- A backend takes a missing key for a present one. -/
  | mistaken
  /-- A backend cannot tell a size. -/
  | unsized
  /-- A write breaks off and leaves other bytes. -/
  | torn (content : Bytes)
  /-- A backend stores an object under a name of its own. -/
  | park (n : ℕ)
  /-- It raises, and leaves an object under a name of its own. -/
  | parkTorn (n : ℕ) (content : Bytes)
  deriving DecidableEq

/-- Why `_verify_tree` finds a stored revision corrupt. -/
inductive TreeReason
  | missing (path : PyStr)
  | sizeMismatch (path : PyStr)
  | checksumMismatch (path : PyStr)
  | prefixMissing
  deriving DecidableEq

/-- How a service raises. -/
inductive Failure
  | storage
  /-- `RevisionCorruptError` of a stored tree. -/
  | corruptTree (reasons : List TreeReason)
  /-- What `validate_manifest` raises. -/
  | manifest (failure : ManifestFailure)
  /-- `RevisionCorruptError` of a row whose counters do not summarize its manifest. -/
  | counterMismatch
  /-- What `validate_script_file_snapshot` raises. -/
  | snapshot (failure : SnapshotFailure)
  /-- What a path policy raises. -/
  | unsafePath (failure : PathFailure)
  | projectVanished
  | revisionVanished
  | activationRefused
  /-- `DoesNotExist` -/
  | doesNotExist
  /-- A constraint of the database. -/
  | integrity
  /-- A text the database refuses. -/
  | dataError
  /-- `ValueError` -/
  | valueError
  /-- `ValidationError` -/
  | validation
  | notClaimable
  /-- An exception of project code, or one nobody expects. -/
  | escaped
  | jobFailed
  deriving DecidableEq

/-- `isinstance(error, (OSError, StorageError))` -/
def Failure.isStorageError : Failure → Bool
  | .storage | .corruptTree _ | .manifest (.revisionCorrupt ..) | .counterMismatch
  | .snapshot (.revisionCorrupt ..) | .unsafePath (.unsafePath _) | .projectVanished
  | .revisionVanished | .activationRefused => true
  | _ => false

/-- A program of a service. -/
abbrev Service (α : Type) := Prog World Choice Failure α

/-- The result of a pure check, with its failure as the service's. -/
def check {ε α : Type} (failure : ε → Failure) (result : Except ε α) : Service α :=
  match result with
  | .ok a => pure a
  | .error e => .raise (failure e)

@[simp] theorem check_ok {ε α : Type} {failure : ε → Failure} {a : α} :
    check failure (.ok a) = pure a := rfl

/-! ## Locks -/

/-- `SELECT pg_advisory_lock(...)`: it waits while another session holds the lock. -/
def acquireLock (k : StorageKey) : Service Unit := .stmt fun t _ s =>
  match s.locks k with
  | none => some (.ok (), s.setLock k (some (t, 1)))
  | some (u, n + 1) => if u = t then some (.ok (), s.setLock k (some (t, n + 2))) else none
  | some (_, 0) => none

/-- `SELECT pg_advisory_unlock(...)` -/
def releaseLock (k : StorageKey) : Service Unit := .stmt fun t _ s =>
  match s.locks k with
  | some (u, n + 1) =>
    if u = t then some (.ok (), s.setLock k (if n = 0 then none else some (t, n)))
    else some (.ok (), s)
  | _ => some (.ok (), s)

/-- `with project_lock(storage_key)` -/
def projectLock {α : Type} (k : StorageKey) (body : Service α) : Service α := do
  acquireLock k
  body.finallyDo (releaseLock k)

/-- The end of a transaction: what it locked is free. -/
def closeTransaction : Service Unit := .stmt fun t _ s => some (.ok (), s.closeTransaction t)

/-- `with transaction.atomic()`, its writes being made by its last statement. -/
def transaction {α : Type} (body : Service α) : Service α := body.finallyDo closeTransaction

/-- `with project_write_lock(storage_key)`: the lock is held to the end of the transaction. -/
def projectWriteLock {α : Type} (k : StorageKey) (body : Service α) : Service α :=
  projectLock k (transaction body)

/-! ## Reads -/

/-- `timezone.now()` -/
def timezoneNow : Service Time := .query World.now

/-- One project row. -/
def getProject (p : Id) (failure : Failure) : Service ProjectRow := do
  match ← Prog.query fun s => s.projects.row p with
  | some project => pure project
  | none => .raise failure

/-- One revision row. -/
def getRevision (r : Id) (failure : Failure) : Service RevisionRow := do
  match ← Prog.query fun s => s.revisions.row r with
  | some row => pure row
  | none => .raise failure

/-! ## Depths -/

section Depths

variable {s : World} {t : ThreadId} {k : StorageKey} {n : ℕ}

/-- How often the thread holds the lock of a project. -/
def World.Depth (s : World) (t : ThreadId) (k : StorageKey) : ℕ → Prop
  | 0 => ¬ s.Holds t k
  | n + 1 => s.locks k = some (t, n + 1)

/-- The lock given back once. -/
def World.leave (s : World) (t : ThreadId) (k : StorageKey) (n : ℕ) : World :=
  s.setLock k (if n = 0 then none else some (t, n))

theorem World.depth_leave : (s.leave t k n).Depth t k n := by
  have hlock : (s.leave t k n).locks k = if n = 0 then none else some (t, n) :=
    Function.update_self ..
  cases n with
  | zero =>
    rintro ⟨m, hm⟩
    rw [hlock] at hm
    cases hm
  | succ n => exact hlock

theorem World.Depth.holds (h : s.Depth t k (n + 1)) : s.Holds t k := ⟨n + 1, h⟩

end Depths

/-! ## Calls that nobody disturbs -/

section Undisturbed

variable {β : Type} {t : ThreadId} {k : StorageKey} {w : World}

/-- **The project lock** makes no difference to a call that does not ask who holds it. -/
theorem wp_projectLock_undisturbed {body : Service β} {post : Except Failure β → World → Prop}
    (hpost : ∀ result w k owner, post result w → post result (w.setLock k owner))
    (h : ∀ owner, wp Undisturbed t (fun _ _ => True) body post (w.setLock k owner)) :
    wp Undisturbed t (fun _ _ => True) (projectLock k body) post w := by
  rw [projectLock, wp_bind]
  refine wp_act_undisturbed fun c answer w₁ hlock => ⟨trivial, ?_⟩
  obtain ⟨rfl, owner, rfl⟩ : answer = .ok () ∧ ∃ owner, w₁ = w.setLock k owner := by
    split at hlock
    · cases hlock
      exact ⟨rfl, _, rfl⟩
    · split_ifs at hlock
      cases hlock
      exact ⟨rfl, _, rfl⟩
    · cases hlock
  refine wp_finallyDo (wp_mono (fun result w₂ h₂ => ?_) (h owner))
  refine wp_act_undisturbed fun c answer w₃ hunlock => ⟨trivial, ?_⟩
  split at hunlock
  · split_ifs at hunlock
    all_goals cases hunlock
    · exact hpost result w₂ _ _ h₂
    · exact hpost result w₂ _ _ h₂
    · exact h₂
  · cases hunlock
    exact h₂

end Undisturbed

end NetBoxScripts
