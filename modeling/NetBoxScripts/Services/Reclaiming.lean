import NetBoxScripts.Services.Repair
import NetBoxScripts.Services.StoredTrees

/-!
# Reclaiming all that nobody names

A run of a cleanup may fail, be cut off, or never be made, and what it left stays recorded. Where
the store stands still and its backend does not fail, one more run of each cleanup reclaims all that
no revision names, and nothing else.

## Main definitions

* `runCleanups`: one run of each cleanup
* `Reclaims`: what such runs leave
* `Cleaned`: what a run that returned came to

## Main results

* `succeeds_deleteRevision`, `succeeds_runCleanup`, `succeeds_cleanupJob`: one cleanup
* `content_reclaimed`: all of them, from any state of the storehouse
-/

namespace NetBoxScripts

namespace Storehouse

open Lifecycle (keyOf)

/-- One run of each cleanup, whatever the others come to. -/
def runCleanups [Unicode] (jobs : List Id) : Service Unit :=
  jobs.forM fun j => do
    let _ ← (cleanupJob j).attempt
    pure ()

/-! ## What cleanups leave -/

section Reclaims

variable {t : ThreadId} {s₀ s s' : World} {k : StorageKey} {digest : PyStr} {j : Id}
  {payload : CleanupPayload}

/-- **What runs of cleanups leave**: the rows and what is to be cleaned up as they were, and of the
objects all but some that no revision names. -/
structure Reclaims (s s' : World) : Prop where
  revisions : s'.revisions = s.revisions
  projects : s'.projects = s.projects
  payloads : ∀ j, (s'.jobs.row j).map CleanupJob.payload = (s.jobs.row j).map CleanupJob.payload
  completed : ∀ j job job', s.jobs.row j = some job → s'.jobs.row j = some job' →
    job.completed = true → job'.completed = true
  objects : ∀ key, s'.objects key = s.objects key ∨ s'.objects key = none ∧
    ∃ k digest path, key = .revision k digest path ∧ Unreferenced k digest s

theorem Reclaims.of_eq (hrevisions : s'.revisions = s.revisions)
    (hprojects : s'.projects = s.projects) (hjobs : s'.jobs = s.jobs)
    (hobjects : s'.objects = s.objects) : Reclaims s s' where
  revisions := hrevisions
  projects := hprojects
  payloads j := by rw [hjobs]
  completed j job job' hjob hjob' hcompleted := by
    rw [hjobs, hjob] at hjob'
    exact Option.some.inj hjob' ▸ hcompleted
  objects key := .inl (by rw [hobjects])

theorem Reclaims.refl : Reclaims s s := .of_eq rfl rfl rfl rfl

/-- A revision names the content after if one did before. -/
theorem Reclaims.referenced_eq (h : Reclaims s s') :
    referenced s' payload = referenced s payload := by
  rw [Bool.eq_iff_iff, referenced_eq_true_iff, referenced_eq_true_iff]
  unfold World.Addresses World.storageKeyOf
  rw [h.revisions, h.projects]

theorem Reclaims.unreferenced (h : Reclaims s s') :
    Unreferenced k digest s' ↔ Unreferenced k digest s := by
  unfold Unreferenced keyOf
  rw [h.revisions, h.projects]

/-- A job is there before where it is there after. -/
theorem Reclaims.job {job' : CleanupJob} (h : Reclaims s s') (hjob' : s'.jobs.row j = some job') :
    ∃ job, s.jobs.row j = some job ∧ job.payload = job'.payload := by
  have hpayload := h.payloads j
  rw [hjob', Option.map_some] at hpayload
  obtain ⟨job, hjob, heq⟩ := Option.map_eq_some_iff.mp hpayload.symm
  exact ⟨job, hjob, heq⟩

theorem Reclaims.trans (h₀ : Reclaims s₀ s) (h : Reclaims s s') : Reclaims s₀ s' where
  revisions := h.revisions.trans h₀.revisions
  projects := h.projects.trans h₀.projects
  payloads j := (h.payloads j).trans (h₀.payloads j)
  completed j job job' hjob hjob' hcompleted := by
    obtain ⟨between, hbetween, -⟩ := h.job hjob'
    exact h.completed j between job' hbetween hjob' (h₀.completed j job between hjob hbetween
      hcompleted)
  objects key := by
    rcases h.objects key with hsame | ⟨hnone, k, digest, path, hkey, hunreferenced⟩
    · rcases h₀.objects key with hsame₀ | ⟨hnone, hnamed⟩
      · exact .inl (hsame.trans hsame₀)
      · exact .inr ⟨hsame.trans hnone, hnamed⟩
    · exact .inr ⟨hnone, k, digest, path, hkey, h₀.unreferenced.mp hunreferenced⟩

/-- An object that no revision names may go. -/
theorem Reclaims.drop (h : Reclaims s₀ s) (hunreferenced : Unreferenced k digest s₀)
    (path : PyStr) : Reclaims s₀ (s.setObject (.revision k digest path) none) where
  revisions := h.revisions
  projects := h.projects
  payloads := h.payloads
  completed := h.completed
  objects key := by
    by_cases hkey : key = .revision k digest path
    · subst hkey
      exact .inr ⟨Function.update_self .., k, digest, path, rfl, hunreferenced⟩
    · rw [show (s.setObject (.revision k digest path) none).objects key = s.objects key from
        Function.update_of_ne hkey ..]
      exact h.objects key

/-- A job that comes to its end keeps its payload, and stays completed. -/
theorem Reclaims.modify {change : CleanupJob → CleanupJob}
    (hpayload : ∀ job, (change job).payload = job.payload)
    (hcompleted : ∀ job, job.completed = true → (change job).completed = true) :
    Reclaims s { s with jobs := s.jobs.modify j change } where
  revisions := rfl
  projects := rfl
  payloads i := by
    by_cases hi : i = j
    · subst hi
      rw [Table.row_modify_self, Option.map_map]
      exact Option.map_congr fun job _ => hpayload job
    · rw [Table.row_modify_of_ne hi]
  completed i job job' hjob hjob' h := by
    by_cases hi : i = j
    · subst hi
      rw [Table.row_modify_self, hjob] at hjob'
      cases hjob'
      exact hcompleted job h
    · rw [Table.row_modify_of_ne hi, hjob] at hjob'
      cases hjob'
      exact h
  objects _ := .inl rfl

/-- What a run of a cleanup that returned came to: a revision names the content, or it is gone. -/
def Cleaned (payload : CleanupPayload) (s : World) : Prop :=
  referenced s payload = true ∨
    ∀ path ∈ payload.paths, s.objects (.revision payload.storageKey payload.digest path) = none

/-- It stays so. -/
theorem Reclaims.cleaned (h : Reclaims s s') (hs : Cleaned payload s) : Cleaned payload s' := by
  rcases hs with hnamed | hgone
  · exact .inl (h.referenced_eq.trans hnamed)
  · refine .inr fun path hpath => ?_
    rcases h.objects (.revision payload.storageKey payload.digest path) with hsame | ⟨hnone, -⟩
    · exact hsame.trans (hgone path hpath)
    · exact hnone

end Reclaims

/-! ## A cleanup that nothing hinders -/

section Runs

variable [Unicode] {t : ThreadId} {s : World} {k : StorageKey} {digest : PyStr} {j : Id}
  {payload : CleanupPayload}

/-- The payload names objects. -/
def Deletable (digest : PyStr) (paths : List PyStr) : Prop :=
  isHexDigest digest = true ∧ ∀ path ∈ paths, normalizeSourcePath path = .ok path

/-- **Removing content** that no revision names. -/
theorem succeeds_deleteRevision {paths : List PyStr} (hunreferenced : Unreferenced k digest s) :
    Succeeds t Choice.Healthy (deleteRevision k digest paths) (fun r s' =>
      (Reclaims s s' ∧ s'.locks = s.locks) ∧ (Deletable digest paths →
        r = .ok () ∧ ∀ path ∈ paths, s'.objects (.revision k digest path) = none)) s := by
  rw [deleteRevision, succeeds_bind]
  -- the paths that are done are gone, unless one was refused
  refine succeeds_foldlM (fun before after failed s' =>
    before ++ after = paths.insertionSort (· ≤ ·) ∧ (Reclaims s s' ∧ s'.locks = s.locks) ∧
      (Deletable digest paths → failed = [] ∧
        ∀ path ∈ before, s'.objects (.revision k digest path) = none)) ?_ ?_
    ⟨rfl, ⟨.refl, rfl⟩, fun _ => ⟨rfl, fun _ h => by cases h⟩⟩
  · rintro before path after failed s₁ ⟨hsplit, hs₁, hbefore⟩
    have hsplit' : before ++ [path] ++ after = paths.insertionSort (· ≤ ·) := by
      rw [List.append_assoc]
      exact hsplit
    have hpath : path ∈ paths := by
      refine (List.mem_insertionSort (· ≤ ·)).mp ?_
      rw [← hsplit]
      exact List.mem_append_right _ List.mem_cons_self
    rw [succeeds_bind, succeeds_attempt, succeeds_bind, revisionPrefix]
    split_ifs with hhex
    · rw [succeeds_pure, andThen_ok, succeeds_bind]
      cases hcanonical : normalizeSourcePath path with
      | error failure =>
        refine ⟨hsplit', hs₁, fun h => ?_⟩
        rw [h.2 path hpath] at hcanonical
        cases hcanonical
      | ok canonical =>
        rw [check_ok, succeeds_pure, andThen_ok, succeeds_bind]
        have hdelete : Succeeds t Choice.Healthy (storageDelete (.revision k digest canonical))
            (fun r s' => s' = s₁.setObject (.revision k digest canonical) none ∧
              ∃ existed, r = .ok existed) s₁ := by
          rintro c (rfl | rfl)
          · exact ⟨_, _, rfl, rfl, _, rfl⟩
          · exact ⟨_, _, rfl, rfl, _, rfl⟩
        refine Succeeds.mono ?_ hdelete
        rintro r s₂ ⟨rfl, existed, rfl⟩
        refine ⟨hsplit', ⟨hs₁.1.drop hunreferenced canonical, hs₁.2⟩, fun h => ?_⟩
        obtain ⟨hnil, hgone⟩ := hbefore h
        obtain rfl : path = canonical :=
          Except.ok.inj ((h.2 path hpath).symm.trans hcanonical)
        refine ⟨hnil, fun other hother => ?_⟩
        by_cases hsame : other = path
        · rw [hsame]
          exact Function.update_self ..
        · have hold : other ∈ before := by
            simpa [hsame] using hother
          refine (Function.update_of_ne (fun heq => hsame ?_) ..).trans (hgone other hold)
          injection heq
    · exact ⟨hsplit', hs₁, fun h => absurd h.1 hhex⟩
  · rintro failed s₁ ⟨-, hs₁, hdone⟩
    rw [andThen_ok]
    split_ifs with hfailed
    · exact ⟨hs₁, fun h => absurd (hdone h).1 hfailed⟩
    · exact ⟨hs₁, fun h => ⟨rfl, fun path hpath =>
        (hdone h).2 path ((List.mem_insertionSort _).mpr hpath)⟩⟩

omit [Unicode] in
/-- **A body under a lock** that is free. -/
theorem succeeds_projectLock {body : Service Unit} {post : Except Failure Unit → World → Prop}
    (hlock : s.locks k = none)
    (hstays : ∀ r s' s'', Reclaims s' s'' → post r s' → post r s'')
    (hbody : ∀ s₁, Reclaims s s₁ → Succeeds t Choice.Healthy body
      (fun r s' => (Reclaims s₁ s' ∧ s'.locks = s₁.locks) ∧ post r s') s₁) :
    Succeeds t Choice.Healthy (projectLock k body)
      (fun r s' => (Reclaims s s' ∧ s'.locks = s.locks) ∧ post r s') s := by
  have hacquire : Succeeds t Choice.Healthy (acquireLock k) (fun r s' => r = .ok () ∧
      Reclaims s s' ∧ s'.locks = Function.update s.locks k (some (t, 1))) s := by
    intro c _
    refine ⟨.ok (), s.setLock k (some (t, 1)), ?_, rfl,
      .of_eq rfl rfl rfl rfl, rfl⟩
    dsimp only
    rw [hlock]
  have hrelease : ∀ {s'}, s'.locks = Function.update s.locks k (some (t, 1)) →
      Succeeds t Choice.Healthy (releaseLock k)
        (fun r s'' => r = .ok () ∧ Reclaims s' s'' ∧ s''.locks = s.locks) s' := by
    intro s' hlocks c _
    have hheld : s'.locks k = some (t, 1) := by
      rw [hlocks]
      exact Function.update_self ..
    refine ⟨.ok (), s'.setLock k none, ?_, rfl, .of_eq rfl rfl rfl rfl, ?_⟩
    · dsimp only
      rw [hheld]
      simp
    · show Function.update s'.locks k none = s.locks
      rw [hlocks, Function.update_idem, ← hlock, Function.update_eq_self]
  rw [projectLock, succeeds_bind]
  refine Succeeds.mono ?_ hacquire
  rintro r s₁ ⟨rfl, h₁, hlocks₁⟩
  rw [andThen_ok, Prog.finallyDo, succeeds_bind, succeeds_attempt]
  refine Succeeds.mono ?_ (hbody s₁ h₁)
  rintro r s₂ ⟨⟨h₂, hlocks₂⟩, hpost⟩
  rw [andThen_ok, succeeds_bind]
  refine Succeeds.mono ?_ (hrelease (hlocks₂.trans hlocks₁))
  rintro r' s₃ ⟨rfl, h₃, hlocks₃⟩
  exact ⟨⟨(h₁.trans h₂).trans h₃, hlocks₃⟩, hstays r s₂ s₃ h₃ hpost⟩

/-- **A run of a cleanup** whose project nobody has locked. -/
theorem succeeds_runCleanup (hlock : s.locks payload.storageKey = none) :
    Succeeds t Choice.Healthy (runCleanup j payload) (fun r s' =>
      (Reclaims s s' ∧ s'.locks = s.locks) ∧ (Deletable payload.digest payload.paths →
        r = .ok () ∧ Cleaned payload s')) s := by
  have hsettle : ∀ s, Reclaims s (settle s j) := fun s => .modify (fun _ => rfl) fun _ h => h
  refine succeeds_projectLock hlock (fun r s' s'' h hdone hpayload =>
    ⟨(hdone hpayload).1, h.cleaned (hdone hpayload).2⟩) fun s₁ _ => ?_
  rw [succeeds_bind]
  refine fun c _ => ⟨_, _, rfl, ?_⟩
  cases hreferenced : referenced s₁ payload with
  | true =>
    exact ⟨⟨hsettle s₁, rfl⟩, fun _ => ⟨rfl,
      .inl ((hsettle s₁).referenced_eq.trans hreferenced)⟩⟩
  | false =>
    have hunreferenced := referenced_eq_false_iff.mp hreferenced
    show Succeeds t Choice.Healthy (_ >>= _) _ s₁
    rw [succeeds_bind, succeeds_attempt]
    refine Succeeds.mono (fun r s₂ h₂ => ?_) (succeeds_deleteRevision hunreferenced)
    obtain ⟨⟨hreclaims, hlocks⟩, hdone⟩ := h₂
    cases r with
    | ok u =>
      refine fun c _ => ⟨_, _, rfl, ⟨hreclaims.trans (hsettle s₂), hlocks⟩, fun h => ⟨rfl, ?_⟩⟩
      exact (hsettle s₂).cleaned (.inr (hdone h).2)
    | error e => exact ⟨⟨hreclaims, hlocks⟩, fun h => by cases (hdone h).1⟩

/-- The job is completed. -/
def Completed (j : Id) (s : World) : Prop :=
  ∃ job, s.jobs.row j = some job ∧ job.completed = true

omit [Unicode] in
/-- It stays so. -/
theorem Reclaims.stays {s' : World} (h : Reclaims s s') (hs : Completed j s) : Completed j s' := by
  obtain ⟨job, hjob, hcompleted⟩ := hs
  have hpayload := h.payloads j
  rw [hjob, Option.map_some] at hpayload
  obtain ⟨job', hjob', -⟩ := Option.map_eq_some_iff.mp hpayload
  exact ⟨job', hjob', h.completed j job job' hjob hjob' hcompleted⟩

/-- **A cleanup** whose project nobody has locked. -/
theorem succeeds_cleanupJob {job : CleanupJob} (hjob : s.jobs.row j = some job)
    (hlock : s.locks job.payload.storageKey = none) :
    Succeeds t Choice.Healthy (cleanupJob j) (fun _ s' => (Reclaims s s' ∧ s'.locks = s.locks) ∧
      (Deletable job.payload.digest job.payload.paths →
        Completed j s' ∧ Cleaned job.payload s')) s := by
  rw [cleanupJob, succeeds_bind]
  have hread : ∀ c, (fun _ _ s => some (.ok (s.jobs.row j), s) : ThreadId → Choice → World →
      Option (Except Failure (Option CleanupJob) × World)) t c s = some (.ok (some job), s) := by
    intro c
    rw [← hjob]
  refine fun c _ => ⟨.ok (some job), s, hread c, ?_⟩
  show Succeeds t Choice.Healthy (_ >>= _) _ s
  rw [succeeds_bind]
  refine Succeeds.mono (fun r s₁ h₁ => ?_) (succeeds_runCleanup hlock)
  obtain ⟨⟨hreclaims, hlocks⟩, hdone⟩ := h₁
  cases r with
  | error e => exact ⟨⟨hreclaims, hlocks⟩, fun h => by cases (hdone h).1⟩
  | ok u =>
    have hcomplete : Reclaims s₁ { s₁ with
        jobs := s₁.jobs.modify j fun job => { job with completed := true } } :=
      .modify (fun _ => rfl) fun _ _ => rfl
    refine fun c _ => ⟨_, _, rfl, ⟨hreclaims.trans hcomplete, hlocks⟩, fun h => ⟨?_,
      hcomplete.cleaned (hdone h).2⟩⟩
    have hpayload := hreclaims.payloads j
    rw [hjob, Option.map_some] at hpayload
    obtain ⟨job₁, hjob₁, -⟩ := Option.map_eq_some_iff.mp hpayload
    exact ⟨_, (Table.row_modify_self ..).trans (congrArg _ hjob₁), rfl⟩

/-- **All cleanups**, one after the other. -/
theorem succeeds_runCleanups
    (hlocks : ∀ j job, s.jobs.row j = some job → s.locks job.payload.storageKey = none) :
    Succeeds t Choice.Healthy (runCleanups (s.jobs.entries.map Prod.fst)) (fun _ s' =>
      Reclaims s s' ∧ ∀ j job, s.jobs.row j = some job →
        Deletable job.payload.digest job.payload.paths →
          Completed j s' ∧ Cleaned job.payload s') s := by
  refine succeeds_forM (fun before after s' => before ++ after = s.jobs.entries.map Prod.fst ∧
    (Reclaims s s' ∧ s'.locks = s.locks) ∧ ∀ j ∈ before, ∀ job, s.jobs.row j = some job →
      Deletable job.payload.digest job.payload.paths → Completed j s' ∧ Cleaned job.payload s')
    ?_ ?_ ⟨rfl, ⟨.refl, rfl⟩, fun _ h => by cases h⟩
  · rintro before j after s₁ ⟨hsplit, ⟨hreclaims, hsame⟩, hbefore⟩
    have hmem : j ∈ s.jobs.entries.map Prod.fst := by
      rw [← hsplit]
      exact List.mem_append_right _ List.mem_cons_self
    obtain ⟨⟨i, job⟩, hentry, rfl⟩ := List.mem_map.mp hmem
    have hjob := Table.mem_entries.mp hentry
    have hpayload := hreclaims.payloads i
    rw [hjob, Option.map_some] at hpayload
    obtain ⟨job₁, hjob₁, heq⟩ := Option.map_eq_some_iff.mp hpayload
    have hlock : s₁.locks job₁.payload.storageKey = none := by
      rw [hsame, heq]
      exact hlocks i job hjob
    rw [succeeds_bind, succeeds_attempt]
    refine Succeeds.mono (fun r s₂ h₂ => ?_) (succeeds_cleanupJob hjob₁ hlock)
    obtain ⟨⟨hreclaims₂, hlocks₂⟩, hdone⟩ := h₂
    rw [heq] at hdone
    refine ⟨?_, ⟨hreclaims.trans hreclaims₂, hlocks₂.trans hsame⟩, fun q hq other hother h => ?_⟩
    · rw [List.append_assoc]
      exact hsplit
    · rcases List.mem_append.mp hq with hold | hnew
      · obtain ⟨hcompleted, hcleaned⟩ := hbefore q hold other hother h
        exact ⟨hreclaims₂.stays hcompleted, hreclaims₂.cleaned hcleaned⟩
      · obtain rfl := List.mem_singleton.mp hnew
        obtain rfl := Option.some.inj (hjob.symm.trans hother)
        exact hdone h
  · rintro s₁ ⟨-, ⟨hreclaims, -⟩, hdone⟩
    exact ⟨hreclaims, fun j job hjob =>
      hdone j (List.mem_map_of_mem (Table.mem_entries.mpr hjob)) job hjob⟩

end Runs

/-! ## The storehouse -/

section System

variable [Unicode] [Hashing] {Cls : Type} [DecidableEq Cls]

/-- **What is left when all is reclaimed**: what revisions name is as it was, each object is a file
of one, and the cleanups of content that can be stored are completed. -/
structure Reclaimed (s₀ s : World) : Prop where
  revisions : s.revisions = s₀.revisions
  kept : ∀ r row k digest path, s.revisions.row r = some row → s.Addresses row k digest →
    s.objects (.revision k digest path) = s₀.objects (.revision k digest path)
  named : ∀ k digest path, s.objects (.revision k digest path) ≠ none →
    ∃ r row, s.revisions.row r = some row ∧ s.Addresses row k digest ∧
      path ∈ row.manifest.map ManifestEntry.path
  completed : ∀ j job, s.jobs.row j = some job → isHexDigest job.payload.digest = true →
    job.completed = true

omit [DecidableEq Cls] in
/-- What a cleanup is recorded with names objects. -/
theorem Inventory.deletable {payload : CleanupPayload} (h : Inventory payload)
    (hhex : isHexDigest payload.digest = true) : Deletable payload.digest payload.paths := by
  obtain ⟨manifest, -, hcanonical, -, hpaths⟩ := h
  refine ⟨hhex, fun path hpath => ?_⟩
  rw [hpaths] at hpath
  obtain ⟨entry, hentry, rfl⟩ := List.mem_map.mp hpath
  exact hcanonical entry hentry

/-- **Content is reclaimed.** In whatever state an interleaving without overlapping reference checks
has left the store, and whatever runs of cleanups failed or were cut off before, one run of each
cleanup on a backend that does not fail leaves exactly the content of the revisions that are
there. Database routes are safe throughout, and an object that a backend parked under another name is
not counted. -/
theorem content_reclaimed {pool : Pool World Choice Failure (Task Cls)} {s₀ : World}
    {next t : ThreadId} (hfree : CollisionFree) (hstart : Safekept s₀)
    (hidle : ∀ r, s₀.deleting r = none) (haccounted : Accounted s₀)
    (hrun : Run storehouse (fun _ _ => True) (Pool.start s₀ next) pool)
    (hquiet : pool.world.record.overlapped = false)
    (hlocks : ∀ j job, pool.world.jobs.row j = some job →
      pool.world.locks job.payload.storageKey = none) :
    Succeeds t Choice.Healthy (runCleanups (pool.world.jobs.entries.map Prod.fst))
      (fun _ => Reclaimed pool.world) pool.world := by
  obtain ⟨hkept, hs⟩ := accounted_of_run hfree hstart hidle haccounted hrun
  refine Succeeds.mono ?_ (succeeds_runCleanups hlocks)
  rintro result s ⟨hreclaims, hdone⟩
  have haddresses : ∀ {row k digest}, s.Addresses row k digest ↔
      pool.world.Addresses row k digest := by
    intro row k digest
    unfold World.Addresses World.storageKeyOf
    rw [hreclaims.projects]
  refine ⟨hreclaims.revisions, ?_, ?_, ?_⟩
  · intro r row k digest path hrow hnames
    rcases hreclaims.objects (.revision k digest path) with
      hsame | ⟨-, k', digest', path', hkey, hunreferenced⟩
    · exact hsame
    · cases hkey
      rw [hreclaims.revisions] at hrow
      obtain ⟨hhome, hdigest⟩ := haddresses.mp hnames
      exact absurd hdigest (hunreferenced r row hrow hhome)
  · intro k digest path hobject
    have hbefore : pool.world.objects (.revision k digest path) ≠ none := by
      rcases hreclaims.objects (.revision k digest path) with hsame | ⟨hnone, -⟩
      · rwa [hsame] at hobject
      · exact absurd hnone hobject
    have hlisted := hs.listed k digest path hbefore
    rcases hs.accounts hkept hfree hquiet hbefore with
      ⟨r, row, hrow, hnames, hpath⟩ | ⟨j, job, hjob, -, rfl, rfl, hpath⟩
    · exact ⟨r, row, hreclaims.revisions ▸ hrow, haddresses.mpr hnames, hpath⟩
    · obtain ⟨-, hnamed | hgone⟩ := hdone j job hjob ((hs.payloads j job hjob).deletable hlisted.1)
      · -- a revision came to name the content again
        obtain ⟨r, row, hrow, hnames⟩ := referenced_eq_true_iff.mp hnamed
        have hrow' := hreclaims.revisions ▸ hrow
        obtain ⟨hmanifest, hreadable⟩ := hkept.addressed r row hrow' _ hnames.2
        refine ⟨r, row, hrow, hnames, ?_⟩
        exact hlisted.mem hfree hreadable hmanifest
      · exact absurd (hgone path hpath) hobject
  · intro j job' hjob' hhex
    obtain ⟨job, hjob, heq⟩ := hreclaims.job hjob'
    rw [← heq] at hhex
    obtain ⟨other, hother, hcompleted⟩ := (hdone j job hjob ((hs.payloads j job hjob).deletable
      hhex)).1
    obtain rfl := Option.some.inj (hjob'.symm.trans hother)
    exact hcompleted

end System

section Deleted

/-- Once the cleanup of a deleted revision has run, nothing is left of its content. -/
theorem content_reclaimed_deleted :
    (deletedPool.world.jobs.row (1 : Id)).map (fun job => (deletedPool.world.objects
      (.revision 0 job.payload.digest (py "a.py"))).isSome) = some true ∧
    ∃ r s, (@runCleanups asciiUnicode [1]).runWith 9 (fun _ => .proceed) deletedPool.world =
      some (r, s) ∧ ∀ k digest path, s.objects (.revision k digest path) = none := by
  have hends : deletedPool.world.revisions.entries.isEmpty = true ∧
      deletedPool.world.record.overlapped = false ∧
      (deletedPool.world.jobs.row (1 : Id)).map (fun job => (deletedPool.world.objects
        (.revision 0 job.payload.digest (py "a.py"))).isSome) = some true ∧
      deletedPool.world.jobs.entries.map Prod.fst = [1] ∧
      (deletedPool.world.jobs.entries.all fun job =>
        (deletedPool.world.locks job.2.payload.storageKey).isNone) = true := by
    decide +kernel
  -- nothing below evaluates the pool
  have hdeleted := deletedPool_run
  generalize deletedPool = pool at hends hdeleted ⊢
  obtain ⟨hnone, hquiet, hstored, hjobs, hfree⟩ := hends
  refine ⟨hstored, ?_⟩
  have hlocks : ∀ j job, pool.world.jobs.row j = some job →
      pool.world.locks job.payload.storageKey = none := fun j job hjob =>
    Option.isNone_iff_eq_none.mp
      (List.all_eq_true.mp hfree (j, job) (Table.mem_entries.mpr hjob))
  have hreclaimed : Succeeds 9 Choice.Healthy
      (@runCleanups asciiUnicode (pool.world.jobs.entries.map Prod.fst))
      (fun _ => Reclaimed pool.world) pool.world :=
    @content_reclaimed asciiUnicode writtenHashing Unit _ pool unstagedWorld 0 9
      collisionFree_writtenHashing safekept_unstagedWorld (fun _ => rfl) accounted_unstagedWorld
      hdeleted hquiet hlocks
  rw [hjobs] at hreclaimed
  have hhealthy : ∀ i : ℕ, Choice.Healthy ((fun _ => Choice.proceed) i) := fun _ => .inl rfl
  obtain ⟨r, s, hrun, hs⟩ := hreclaimed.runWith hhealthy
  refine ⟨r, s, hrun, fun k digest path => ?_⟩
  by_contra hobject
  obtain ⟨q, row, hrow, -⟩ := hs.named k digest path hobject
  rw [hs.revisions] at hrow
  have hmem := Table.mem_entries.mpr hrow
  rw [List.isEmpty_iff.mp hnone] at hmem
  cases hmem

end Deleted

end Storehouse

end NetBoxScripts
