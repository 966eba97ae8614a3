import NetBoxScripts.Concurrency.Moments
import NetBoxScripts.Services.StoredTrees

/-!
# The storage sweep

The sweep reports what unfinished cleanups left in the store (`jobs.py`), and reclaims nothing. Each
stored tree is looked at under the lock of its project, while staging, deletions and cleanups go on,
so what the report says of it was so at some moment of the sweep.

## Main definitions

* `candidates`, `classify`, `sweep`: the job
* `Unfinished`: a stalled cleanup names the path
* `sweptStorehouse`: the storehouse with its history, and any number of sweeps
* `Truthful`: what a report says was so

## Main results

* `grouped_candidates`, `mem_candidates`: the groups name what the cleanups do
* `tells_inspect`: a look at one tree under its lock
* `tells_classify`, `tells_sweep`: what a report says was so while the sweep went on
* `sweep_report`: the reports of every run
-/

namespace NetBoxScripts

namespace Storehouse

open Lifecycle (pointer keyOf)

/-! ## The job -/

/-- A stored tree that stalled cleanups name. -/
structure Candidate where
  jobs : List Id
  paths : List PyStr
  deriving DecidableEq

/-- The stored trees by project and digest, in the order these came up. -/
abbrev Groups := List ((StorageKey × PyStr) × Candidate)

/-- `grouped.setdefault(key, ...)`, and the Job and its paths added to it -/
def Groups.add : Groups → StorageKey × PyStr → Id → List PyStr → Groups
  | [], key, j, paths => [(key, ⟨[j], paths ∪ []⟩)]
  | group :: groups, key, j, paths =>
    if group.1 = key then (key, ⟨group.2.jobs ++ [j], paths ∪ group.2.paths⟩) :: groups
    else group :: Groups.add groups key j paths

/-- `_stalled_cleanups()`. Whether a Job that is not completed failed, or waits past the grace
period, is what core's row says of it. -/
def stalledCleanups (stalled : Id → Bool) (s : World) : List (Id × CleanupJob) :=
  s.jobs.entries.filter fun job => !job.2.completed && stalled job.1

/-- `_candidates()`: the groups, and the Jobs that name nothing. -/
def candidates (listed : List (Id × CleanupJob)) : Groups × List Id :=
  listed.foldl (fun found job =>
    let payload := job.2.payload
    if payload.digest = [] ∨ payload.paths = [] then (found.1, found.2 ++ [job.1])
    else (found.1.add (payload.storageKey, payload.digest) job.1 payload.paths, found.2)) ([], [])

/-- An entry of the report. -/
structure SweepEntry where
  jobs : List Id
  storageKey : StorageKey
  digest : PyStr
  deriving DecidableEq

/-- The report of a sweep. -/
structure SweepReport where
  stranded : List (SweepEntry × List PyStr)
  reclaimed : List SweepEntry
  referenced : List SweepEntry
  unreadable : List Id
  deriving DecidableEq

/-- The Jobs of a report. -/
def SweepReport.jobs (report : SweepReport) : List Id :=
  (report.stranded.flatMap fun found => found.1.jobs) ++ report.reclaimed.flatMap SweepEntry.jobs ++
    report.referenced.flatMap SweepEntry.jobs ++ report.unreadable

section Job

variable [Unicode]

/-- `present_keys(storage, storage_key, digest, paths)` -/
def presentKeys (k : StorageKey) (digest : PyStr) (paths : List PyStr) : Service (List PyStr) :=
  (paths.insertionSort (· ≤ ·)).foldlM (fun present path => do
    revisionPrefix digest
    let canonical ← check .unsafePath (normalizeSourcePath path)
    if ← storageExists (.revision k digest canonical) then pure (present ++ [path])
    else pure present) []

/-- What `_classify` finds under the lock: the paths that are there, unless a revision names the
content. -/
def inspect (k : StorageKey) (digest : PyStr) (paths : List PyStr) :
    Service (Option (List PyStr)) :=
  projectLock k do
    let found ← Prog.query fun s => referenced s ⟨k, digest, paths⟩
    if found then pure none
    else do
      let present ← presentKeys k digest paths
      pure (some present)

/-- `_classify(storage_key, digest, candidate, report)` -/
def classify (group : (StorageKey × PyStr) × Candidate) (report : SweepReport) :
    Service SweepReport := do
  let entry : SweepEntry := ⟨group.2.jobs.insertionSort (· ≤ ·), group.1.1, group.1.2⟩
  match ← (inspect group.1.1 group.1.2 group.2.paths).attempt with
  | .ok none => pure { report with referenced := report.referenced ++ [entry] }
  | .ok (some []) => pure { report with reclaimed := report.reclaimed ++ [entry] }
  | .ok (some present) => pure { report with stranded := report.stranded ++ [(entry, present)] }
  | .error failure =>
    if failure.isStorageError then
      pure { report with unreadable := report.unreadable ++ entry.jobs }
    else .raise failure

/-- `ProjectStorageSweepJob.run()` -/
def sweep (stalled : Id → Bool) : Service SweepReport := do
  let listed ← Prog.query (stalledCleanups stalled)
  let found := candidates listed
  found.1.foldlM (fun report group => classify group report) ⟨[], [], [], found.2⟩

end Job

/-! ## Groups -/

section Groups

variable {groups : Groups} {key key' : StorageKey × PyStr} {j : Id} {paths : List PyStr}
  {path : PyStr} {listed : List (Id × CleanupJob)} {k : StorageKey} {digest : PyStr}

/-- A group of the key has the path. -/
def Groups.Has (groups : Groups) (key : StorageKey × PyStr) (path : PyStr) : Prop :=
  ∃ group ∈ groups, group.1 = key ∧ path ∈ group.2.paths

theorem Groups.has_cons {group : (StorageKey × PyStr) × Candidate} :
    Groups.Has (group :: groups) key path ↔
      (group.1 = key ∧ path ∈ group.2.paths) ∨ groups.Has key path :=
  List.exists_mem_cons_iff ..

theorem Groups.has_add : (groups.add key j paths).Has key' path ↔
    (key' = key ∧ path ∈ paths) ∨ groups.Has key' path := by
  induction groups with
  | nil => simp [Groups.Has, Groups.add, eq_comm, and_comm]
  | cons group groups ih =>
    rw [Groups.add]
    split_ifs with hkey
    · subst hkey
      rw [Groups.has_cons, Groups.has_cons, List.mem_union_iff]
      constructor
      · rintro (⟨rfl, hpath | hpath⟩ | hrest)
        · exact .inl ⟨rfl, hpath⟩
        · exact .inr (.inl ⟨rfl, hpath⟩)
        · exact .inr (.inr hrest)
      · rintro (⟨rfl, hpath⟩ | ⟨rfl, hpath⟩ | hrest)
        · exact .inl ⟨rfl, .inl hpath⟩
        · exact .inl ⟨rfl, .inr hpath⟩
        · exact .inr hrest
    · rw [Groups.has_cons, Groups.has_cons, ih, or_left_comm]

theorem Groups.keys_add : (groups.add key j paths).map Prod.fst =
    if key ∈ groups.map Prod.fst then groups.map Prod.fst else groups.map Prod.fst ++ [key] := by
  induction groups with
  | nil => rfl
  | cons group groups ih =>
    rw [Groups.add]
    by_cases hkey : group.1 = key
    · rw [if_pos hkey, if_pos (by simp [hkey])]
      simp [hkey]
    · rw [if_neg hkey, List.map_cons, ih, List.map_cons]
      by_cases hmem : key ∈ groups.map Prod.fst
      · rw [if_pos hmem, if_pos (List.mem_cons_of_mem _ hmem)]
      · rw [if_neg hmem, if_neg (by simpa [Ne.symm hkey] using hmem), List.cons_append]

theorem Groups.jobs_add : ((groups.add key j paths).flatMap fun group => group.2.jobs).Perm
    ((groups.flatMap fun group => group.2.jobs) ++ [j]) := by
  induction groups with
  | nil => exact .refl _
  | cons group groups ih =>
    rw [Groups.add]
    split_ifs
    · simp only [List.flatMap_cons, List.append_assoc]
      exact (List.perm_append_comm).append_left group.2.jobs
    · simp only [List.flatMap_cons, List.append_assoc]
      exact ih.append_left group.2.jobs

/-- A stalled cleanup names the path. -/
def Unfinished (listed : List (Id × CleanupJob)) (k : StorageKey) (digest path : PyStr) : Prop :=
  ∃ job ∈ listed, job.2.payload.storageKey = k ∧ job.2.payload.digest = digest ∧
    path ∈ job.2.payload.paths

/-- What the groups of the listed cleanups are. -/
structure Grouped (listed : List (Id × CleanupJob)) (found : Groups × List Id) : Prop where
  has : ∀ k digest path, found.1.Has (k, digest) path ↔ digest ≠ [] ∧ Unfinished listed k digest path
  named : ∀ group ∈ found.1, group.1.2 ≠ []
  nodup : (found.1.map Prod.fst).Nodup
  perm : ((found.1.flatMap fun group => group.2.jobs) ++ found.2).Perm (listed.map Prod.fst)

theorem unfinished_append {job : Id × CleanupJob} : Unfinished (listed ++ [job]) k digest path ↔
    Unfinished listed k digest path ∨ (job.2.payload.storageKey = k ∧ job.2.payload.digest = digest ∧
      path ∈ job.2.payload.paths) := by
  simp only [Unfinished, List.mem_append, List.mem_singleton, or_and_right, exists_or, exists_eq_left]

theorem grouped_candidates (listed : List (Id × CleanupJob)) :
    Grouped listed (candidates listed) := by
  induction listed using List.reverseRecOn with
  | nil => exact ⟨by simp [candidates, Groups.Has, Unfinished], nofun, .nil, .nil⟩
  | append_singleton listed job ih =>
    rw [candidates, List.foldl_append, List.foldl_cons, List.foldl_nil]
    change Grouped (listed ++ [job]) (if _ then _ else _)
    change Grouped listed (List.foldl _ _ _) at ih
    dsimp only
    split_ifs with hnothing
    · constructor
      · intro k digest path
        rw [ih.has, unfinished_append]
        refine and_congr_right fun hdigest => ⟨.inl, fun hnames => hnames.resolve_right ?_⟩
        rintro ⟨-, rfl, hpath⟩
        rcases hnothing with hnil | hnil
        · exact hdigest hnil
        · rw [hnil] at hpath
          cases hpath
      · exact ih.named
      · exact ih.nodup
      · rw [← List.append_assoc, List.map_append]
        exact ih.perm.append_right _
    · obtain ⟨hdigest, -⟩ := not_or.mp hnothing
      constructor
      · intro k digest path
        rw [Groups.has_add, ih.has, unfinished_append]
        constructor
        · rintro (⟨heq, hpath⟩ | ⟨hne, hnames⟩)
          · cases heq
            exact ⟨hdigest, .inr ⟨rfl, rfl, hpath⟩⟩
          · exact ⟨hne, .inl hnames⟩
        · rintro ⟨hne, hnames | ⟨rfl, rfl, hpath⟩⟩
          · exact .inr ⟨hne, hnames⟩
          · exact .inl ⟨rfl, hpath⟩
      · intro group hgroup
        have hkey := List.mem_map_of_mem (f := Prod.fst) hgroup
        rw [Groups.keys_add] at hkey
        split_ifs at hkey with hmem
        · obtain ⟨old, hold, heq⟩ := List.mem_map.mp hkey
          exact heq ▸ ih.named old hold
        · rcases List.mem_append.mp hkey with hkey | hkey
          · obtain ⟨old, hold, heq⟩ := List.mem_map.mp hkey
            exact heq ▸ ih.named old hold
          · rw [List.mem_singleton.mp hkey]
            exact hdigest
      · rw [Groups.keys_add]
        split_ifs with hmem
        · exact ih.nodup
        · exact List.nodup_append.mpr ⟨ih.nodup, List.nodup_singleton _, fun key hkey other hother =>
            fun heq => hmem (List.mem_singleton.mp hother ▸ heq ▸ hkey)⟩
      · rw [List.map_append]
        refine (Groups.jobs_add.append_right _).trans ?_
        rw [List.append_assoc]
        refine (List.perm_append_comm.append_left _).trans ?_
        rw [← List.append_assoc]
        exact ih.perm.append_right _

/-- **The groups name what the cleanups do.** -/
theorem mem_candidates {group : (StorageKey × PyStr) × Candidate}
    (hgroup : group ∈ (candidates listed).1) :
    path ∈ group.2.paths ↔ Unfinished listed group.1.1 group.1.2 path := by
  have hgrouped := grouped_candidates listed
  constructor
  · intro hpath
    exact ((hgrouped.has _ _ _).mp ⟨group, hgroup, rfl, hpath⟩).2
  · intro hnames
    obtain ⟨other, hother, hkey, hpath⟩ :=
      (hgrouped.has _ _ _).mpr ⟨hgrouped.named group hgroup, hnames⟩
    obtain rfl := List.inj_on_of_nodup_map hgrouped.nodup hother hgroup hkey
    exact hpath

end Groups

/-! ## Looking -/

section Looking

variable [Unicode] [Hashing] {t : ThreadId} {s : World} {k : StorageKey} {digest : PyStr}
  {paths : List PyStr} {report : SweepReport}

/-- **The keys that are there**: a path that is left out is gone. -/
theorem guards_presentKeys {assertion : World → Prop} (hkept : KeepsObjects Safe t k assertion)
    (hs : assertion s) : Guards t (presentKeys k digest paths) (fun present s' => assertion s' ∧
      present ⊆ paths ∧ ∀ path ∈ paths, path ∈ present ∨ PathGone k digest s' path) s := by
  refine wp_foldlM (fun before _ present s' => assertion s' ∧ present ⊆ before ∧
    ∀ path ∈ before, path ∈ present ∨ PathGone k digest s' path) ?_ ?_ ⟨hs, nofun, nofun⟩
  · rintro before path after present s₁ ⟨h₁, hsubset, hgone⟩
    rw [wp_bind, revisionPrefix]
    split_ifs
    · rw [wp_pure, andThen_ok, wp_bind]
      refine wp_check (fun canonical hcanonical => ?_) fun failure _ => trivial
      rw [andThen_ok, wp_bind]
      have habout : AboutObjects k fun s =>
          ∀ path ∈ before, path ∈ present ∨ PathGone k digest s path := by
        intro s s' hsame hgone other hother
        refine (hgone other hother).imp_right fun hnone canonical hcanonical => ?_
        rw [hsame]
        exact hnone canonical hcanonical
      refine wp_storageExists (fun _ => .refl) (hkept _ habout) ⟨h₁, hgone⟩
        (fun s₂ answer h₂ hanswer => ?_) fun _ _ => trivial
      rw [andThen_ok]
      cases answer with
      | true =>
        refine ⟨h₂.1, fun other hother => ?_, fun other hother => ?_⟩
        · exact (List.mem_append.mp hother).elim (fun hold => List.mem_append_left _ (hsubset hold))
            fun hnew => List.mem_append_right _ hnew
        · rcases List.mem_append.mp hother with hold | hnew
          · exact (h₂.2 other hold).imp_left (List.mem_append_left _)
          · exact .inl (List.mem_append_right _ hnew)
      | false =>
        refine ⟨h₂.1, fun other hother => List.mem_append_left _ (hsubset hother),
          fun other hother => ?_⟩
        rcases List.mem_append.mp hother with hold | hnew
        · exact h₂.2 other hold
        · obtain rfl := List.mem_singleton.mp hnew
          refine .inr fun other hother => ?_
          obtain rfl : canonical = other := Except.ok.inj (hcanonical.symm.trans hother)
          by_contra hobject
          cases hanswer hobject
    · trivial
  · rintro present s₁ ⟨h₁, hsubset, hgone⟩
    refine ⟨h₁, fun path hpath => (List.mem_insertionSort _).mp (hsubset hpath), fun path hpath => ?_⟩
    exact hgone path ((List.mem_insertionSort _).mpr hpath)

omit [Hashing] in
/-- A look takes the lock and gives it back, and changes nothing else. -/
theorem eachStep_inspect {guar : ThreadId → World → World → Prop} (hrefl : ∀ t s, guar t s s)
    (hacquire : (acquireLock k).EachStep guar) (hrelease : (releaseLock k).EachStep guar) :
    (inspect k digest paths).EachStep guar := by
  refine eachStep_bind hacquire fun _ => eachStep_finallyDo ?_ hrelease
  refine eachStep_bind (eachStep_query hrefl) fun found => ?_
  split_ifs
  · exact eachStep_pure
  · refine eachStep_bind (eachStep_foldlM (fun present path => ?_) _) fun present => eachStep_pure
    have hexists : ∀ canonical, (storageExists (.revision k digest canonical)).EachStep guar := by
      intro canonical
      refine eachStep_stmt fun t c s answer s' hstep => ?_
      split at hstep
      all_goals
        cases hstep
        exact hrefl t s
    unfold revisionPrefix
    refine eachStep_bind ?_ fun _ => eachStep_bind ?_ fun canonical =>
      eachStep_bind (hexists canonical) fun answer => ?_
    · split_ifs
      · exact eachStep_pure
      · exact eachStep_raise
    · cases normalizeSourcePath path with
      | ok canonical => exact eachStep_pure
      | error failure => exact eachStep_raise
    · split_ifs
      · exact eachStep_pure
      · exact eachStep_pure

omit [Unicode] [Hashing] in
/-- The Jobs of a report, and those of one more entry. -/
theorem perm_jobs {jobs : List Id} (entry : SweepEntry) (present : List PyStr)
    (hentry : entry.jobs.Perm jobs) :
    ({ report with referenced := report.referenced ++ [entry] } : SweepReport).jobs.Perm
      (report.jobs ++ jobs) ∧
    ({ report with reclaimed := report.reclaimed ++ [entry] } : SweepReport).jobs.Perm
      (report.jobs ++ jobs) ∧
    ({ report with stranded := report.stranded ++ [(entry, present)] } : SweepReport).jobs.Perm
      (report.jobs ++ jobs) ∧
    ({ report with unreadable := report.unreadable ++ entry.jobs } : SweepReport).jobs.Perm
      (report.jobs ++ jobs) := by
  have hcount := fun j => hentry.count_eq j
  refine ⟨?_, ?_, ?_, ?_⟩
  all_goals
    refine List.perm_iff_count.mpr fun j => ?_
    have hj := hcount j
    simp only [SweepReport.jobs, List.flatMap_append, List.flatMap_cons, List.flatMap_nil,
      List.append_nil, List.count_append]
    omega

/-- Only locks changed, and what is noted when one is taken. -/
def OnlyLocks (s s' : World) : Prop := s' = { s with locks := s'.locks, record := s'.record }

omit [Hashing] in
/-- A sweep takes locks, and changes nothing else. -/
theorem eachStep_sweep {stalled : Id → Bool} :
    (sweep stalled).EachStep fun _ => OnlyLocks := by
  have hacquire : ∀ k, (acquireLock k).EachStep fun _ => OnlyLocks := by
    refine fun k => eachStep_stmt fun t c s answer s' hstep => ?_
    split at hstep
    · cases hstep
      rfl
    · split_ifs at hstep
      cases hstep
      rfl
    · cases hstep
  have hrelease : ∀ k, (releaseLock k).EachStep fun _ => OnlyLocks := by
    refine fun k => eachStep_stmt fun t c s answer s' hstep => ?_
    split at hstep
    · split_ifs at hstep
      all_goals
        cases hstep
        rfl
    · cases hstep
      rfl
  refine eachStep_bind (eachStep_query fun _ _ => rfl) fun listed => ?_
  refine eachStep_foldlM (fun report group => ?_) _
  have hinspect : (inspect group.1.1 group.1.2 group.2.paths).EachStep fun _ => OnlyLocks :=
    eachStep_inspect (fun _ _ => rfl) (hacquire group.1.1) (hrelease group.1.1)
  refine eachStep_bind (eachStep_attempt hinspect) fun result => ?_
  split
  · exact eachStep_pure
  · exact eachStep_pure
  · exact eachStep_pure
  · split_ifs
    · exact eachStep_pure
    · exact eachStep_raise

end Looking

/-! ## What a report says -/

/-- The storehouse and any number of sweeps, each with what core says of the Jobs. -/
abbrev SweptStorehouse (Cls : Type) [DecidableEq Cls] [Unicode] [Hashing] :
    System (Chronicle World Choice (Noted (Id → Bool) SweepReport)) Choice Failure
      (Task Cls ⊕ (Id → Bool)) :=
  storehouse.observed sweep

section Report

variable [Unicode] [Hashing] {t : ThreadId} {k : StorageKey} {digest : PyStr}
  {paths : List PyStr} {listed : List (Id × CleanupJob)} {report : SweepReport}
  {first last last' : ℕ} {h h' : History (Moment World Choice)}

/-- A revision names the content. -/
def Referenced (k : StorageKey) (digest : PyStr) (s : World) : Prop :=
  ∃ r row, s.revisions.row r = some row ∧ s.Addresses row k digest

/-- No revision names the content, and of its paths only those are there. -/
def Left (k : StorageKey) (digest : PyStr) (paths present : List PyStr) (s : World) : Prop :=
  Unreferenced k digest s ∧ ∀ path ∈ paths, path ∈ present ∨ PathGone k digest s path

/-- The object was there when the store was asked for it, unless the store was mistaken. -/
def Stood (k : StorageKey) (digest path : PyStr) (m : Moment World Choice) : Prop :=
  ∃ canonical, normalizeSourcePath path = .ok canonical ∧
    (m.state.objects (.revision k digest canonical) ≠ none ∨ m.choice = some .mistaken)

/-- What was so between two moments, by what `inspect` found. -/
def Found (first last : ℕ) (k : StorageKey) (digest : PyStr) (paths : List PyStr)
    (h : History (Moment World Choice)) : Option (List PyStr) → Prop
  | none => h.During first last fun m => Referenced k digest m.state
  | some present => present ⊆ paths ∧ (∀ path ∈ present, h.During first last (Stood k digest path)) ∧
    h.During first last fun m => Left k digest paths present m.state

/-- The content of an entry, of which only the given paths are there. -/
def Remains (listed : List (Id × CleanupJob)) (entry : SweepEntry) (present : List PyStr)
    (m : Moment World Choice) : Prop :=
  Unreferenced entry.storageKey entry.digest m.state ∧
    ∀ path, Unfinished listed entry.storageKey entry.digest path →
      path ∈ present ∨ PathGone entry.storageKey entry.digest m.state path

/-- **What a report says was so** between two moments: stranded content was there, named by a stalled
cleanup and by no revision, reclaimed content was gone, and referenced content was named. -/
structure Truthful (first last : ℕ) (listed : List (Id × CleanupJob)) (report : SweepReport)
    (h : History (Moment World Choice)) : Prop where
  stranded : ∀ found ∈ report.stranded, found.2 ≠ [] ∧
    (∀ path ∈ found.2, Unfinished listed found.1.storageKey found.1.digest path ∧
      h.During first last (Stood found.1.storageKey found.1.digest path)) ∧
    h.During first last (Remains listed found.1 found.2)
  reclaimed : ∀ entry ∈ report.reclaimed, h.During first last (Remains listed entry [])
  referenced : ∀ entry ∈ report.referenced,
    h.During first last fun m => Referenced entry.storageKey entry.digest m.state

/-- **What a sweep tells**: what was so since it listed the stalled cleanups, each of which is in the
report once. -/
def Told (noted : Noted (Id → Bool) SweepReport) (h : History (Moment World Choice)) : Prop :=
  ∃ i m, noted.began ≤ i ∧ i ≤ noted.ended ∧ h.at? i = some m ∧
    Truthful i noted.ended (stalledCleanups noted.look m.state) noted.found h ∧
    noted.found.jobs.Perm ((stalledCleanups noted.look m.state).map Prod.fst)

omit [Hashing] in
theorem Found.extend {found : Option (List PyStr)} (hs : Found first last k digest paths h found)
    (hextends : h.Extends h') (hlast : last ≤ last') :
    Found first last' k digest paths h' found := by
  cases found with
  | none => exact History.During.extend hs hextends hlast
  | some present =>
    obtain ⟨hsubset, hstood, hleft⟩ := hs
    exact ⟨hsubset, fun path hpath => (hstood path hpath).extend hextends hlast,
      hleft.extend hextends hlast⟩

omit [Hashing] in
theorem Truthful.extend (hs : Truthful first last listed report h) (hextends : h.Extends h')
    (hlast : last ≤ last') : Truthful first last' listed report h' where
  stranded found hfound := by
    obtain ⟨hne, hpaths, hremains⟩ := hs.stranded found hfound
    exact ⟨hne, fun path hpath => ⟨(hpaths path hpath).1, (hpaths path hpath).2.extend hextends hlast⟩,
      hremains.extend hextends hlast⟩
  reclaimed entry hentry := (hs.reclaimed entry hentry).extend hextends hlast
  referenced entry hentry := (hs.referenced entry hentry).extend hextends hlast

omit [Hashing] in
theorem lasts_told : Lasts Told := by
  rintro noted h h' ended hextends hended ⟨i, m, hbegan, hi, hat, htruthful, hperm⟩
  exact ⟨i, m, hbegan, hi.trans hended, hextends.at? hat, htruthful.extend hextends hended, hperm⟩

/-! ### Programs with their history -/

/-- The storehouse with its history. -/
abbrev Log := Chronicle World Choice (Noted (Id → Bool) SweepReport)

variable {c : Log} {α β : Type} {prog : Service α} {post : α → Log → Prop}

/-- The recorded program changes what it may, and where it returns it ends in the postcondition. -/
abbrev Tells {α : Type} (t : ThreadId) (prog : Service α) (post : α → Log → Prop) (c : Log) : Prop :=
  wp (Chronicled Safe Told) t (Chronicled Safe Told t) prog.recorded (andThen post fun _ _ => True) c

/-- What a program guards, the recorded one tells. -/
theorem Tells.of_guards {guarded : α → World → Prop} (hs : Guards t prog guarded c.now) :
    Tells t prog (fun a c' => guarded a c'.now ∧ c.history.Extends c'.history) c := by
  refine wp_mono (fun result c' h' => ?_) (wp_recorded (fun _ _ h => h) hs)
  cases result with
  | ok a => exact h'
  | error e => trivial

theorem tells_pure {a : α} (hs : post a c) : Tells t (pure a) post c := hs

theorem tells_raise {e : Failure} : Tells t (.raise e : Service α) post c := trivial

theorem tells_bind {f : α → Service β} {post' : β → Log → Prop} (hs : Tells t prog post c)
    (hf : ∀ a c', post a c' → Tells t (f a) post' c') : Tells t (prog >>= f) post' c := by
  rw [Tells, recorded_bind, wp_bind]
  refine wp_mono (fun result c' h' => ?_) hs
  cases result with
  | ok a => exact hf a c' h'
  | error e => trivial

theorem Tells.mono {post' : α → Log → Prop} (hs : Tells t prog post c)
    (himp : ∀ a c', post a c' → post' a c') : Tells t prog post' c := by
  refine wp_mono (fun result c' h' => ?_) hs
  cases result with
  | ok a => exact himp a c' h'
  | error e => trivial

/-- The history goes on. -/
theorem Tells.with_history (hs : Tells t prog post c) :
    Tells t prog (fun a c' => post a c' ∧ c.history.Extends c'.history) c := by
  have hkept : ∀ u (c₁ c₂ : Log), Chronicled Safe Told u c₁ c₂ →
      c.history.Extends c₁.history → c.history.Extends c₂.history :=
    fun _ _ _ hstep hextends => hextends.trans hstep.history_extends
  refine wp_mono (fun result c' h' => ?_) (wp_kept (fun _ _ h => h) hkept hs (.refl c.history))
  cases result with
  | ok a => exact h'
  | error e => trivial

/-- A body and a cleanup, which is a program by its actions and keeps what everybody keeps. -/
theorem tells_finallyDo {cleanup : Service Unit}
    (hkept : ∀ a u c c', Chronicled Safe Told u c c' → post a c → post a c')
    (hs : Tells t prog post c) (hcleanup : cleanup.EachStep Safe) :
    Tells t (prog.finallyDo cleanup) post c := by
  rw [Tells, recorded_finallyDo]
  refine wp_finallyDo (wp_mono (fun result c₁ h₁ => ?_) hs)
  have hcleanup : wp Safe t (Safe t) cleanup (fun _ _ => True) c₁.now := hcleanup.wp
  have hwp : wp (Chronicled Safe Told) t (Chronicled Safe Told t) cleanup.recorded _ c₁ :=
    wp_recorded (fun _ _ h => h) hcleanup
  cases result with
  | ok a =>
    refine wp_mono (fun result' c₂ h₂ => ?_) (wp_kept (fun _ _ h => h) (hkept a) hwp h₁)
    cases result' with
    | ok u => exact h₂.2
    | error e => trivial
  | error e =>
    refine wp_mono (fun result' c₂ _ => ?_) hwp
    cases result' <;> trivial

/-- Two things that are told. -/
theorem Tells.and {post' : α → Log → Prop} (hs : Tells t prog post c) (hs' : Tells t prog post' c) :
    Tells t prog (fun a c' => post a c' ∧ post' a c') c := by
  refine wp_mono (fun result c' h' => ?_) (wp_and hs hs')
  cases result with
  | ok a => exact h'
  | error e => trivial

/-- An object that is said to be there was, unless the store was mistaken. -/
theorem tells_storageExists {key : ObjectKey} (hfirst : first ≤ c.history.moment) :
    Tells t (storageExists key) (fun answer c' => c.history.Extends c'.history ∧ (answer = true →
      c'.history.During first c'.history.moment fun m =>
        m.state.objects key ≠ none ∨ m.choice = some .mistaken)) c := by
  intro c₁ hrely choice result c₂ hstep
  have hextends := (rely_chronicled hrely).2
  obtain ⟨⟨answer, s⟩, hanswer, heq⟩ := Option.map_eq_some_iff.mp hstep
  dsimp only at hanswer
  have hunchanged : s = c₁.now := by
    split at hanswer
    all_goals
      cases hanswer
      rfl
  cases heq
  subst hunchanged
  refine ⟨.move _ .refl, ?_⟩
  cases answer with
  | error e => trivial
  | ok answer =>
    refine ⟨hextends.trans History.extends_push, fun htrue => ?_⟩
    subst htrue
    refine History.during_now (hfirst.trans (hextends.moment_le.trans
      History.extends_push.moment_le)) ?_
    split at hanswer
    · cases hanswer
    · exact .inr rfl
    · refine .inl (Option.isSome_iff_ne_none.mp ?_)
      have hsome := Except.ok.inj (Prod.mk.inj (Option.some.inj hanswer)).1
      exact hsome

/-- The keys that are there stood when the store was asked for them. -/
theorem tells_presentKeys (hfirst : first ≤ c.history.moment) :
    Tells t (presentKeys k digest paths) (fun present c' => ∀ path ∈ present,
      c'.history.During first c'.history.moment (Stood k digest path)) c := by
  rw [Tells, presentKeys, recorded_foldlM]
  refine wp_foldlM (fun _ _ present c' => first ≤ c'.history.moment ∧ ∀ path ∈ present,
    c'.history.During first c'.history.moment (Stood k digest path)) ?_ (fun _ _ h => h.2)
    ⟨hfirst, List.forall_mem_nil _⟩
  rintro before path after present c₁ ⟨hfirst₁, hstood⟩
  have hprefix : Tells t (revisionPrefix digest) (fun _ c' => c' = c₁) c₁ := by
    unfold revisionPrefix
    split_ifs
    · exact tells_pure rfl
    · exact tells_raise
  have hcheck : Tells t (check .unsafePath (normalizeSourcePath path))
      (fun canonical c' => normalizeSourcePath path = .ok canonical ∧ c' = c₁) c₁ := by
    cases normalizeSourcePath path with
    | ok canonical => exact tells_pure ⟨rfl, rfl⟩
    | error failure => exact tells_raise
  refine tells_bind hprefix ?_
  rintro - _ rfl
  refine tells_bind hcheck ?_
  rintro canonical _ ⟨hcanonical, rfl⟩
  refine tells_bind (tells_storageExists hfirst₁) ?_
  rintro answer c₂ ⟨hextends, hanswer⟩
  have hkept : ∀ path ∈ present, c₂.history.During first c₂.history.moment (Stood k digest path) :=
    fun path hpath => (hstood path hpath).extend hextends hextends.moment_le
  have hfirst₂ := hfirst₁.trans hextends.moment_le
  cases answer with
  | false => exact tells_pure ⟨hfirst₂, hkept⟩
  | true =>
    refine tells_pure ⟨hfirst₂, fun other hother => ?_⟩
    rcases List.mem_append.mp hother with hold | hnew
    · exact hkept other hold
    · obtain rfl := List.mem_singleton.mp hnew
      exact (hanswer rfl).mono fun m hm => ⟨canonical, hcanonical, hm⟩

/-- **A look under the lock**, where nobody else changes the objects or comes to name them. -/
theorem tells_inspect (hfirst : first ≤ c.history.moment) : Tells t (inspect k digest paths)
    (fun found c' => Found first c'.history.moment k digest paths c'.history found) c := by
  have hacquire : Guards t (acquireLock k) (fun _ s' => s'.Holds t k ∧ True) c.now :=
    guards_acquireLock (enduring_of fun _ _ _ _ h => h) trivial
  refine tells_bind (.of_guards hacquire) ?_
  rintro - c₁ ⟨⟨hlock, -⟩, hextends₁⟩
  have hfirst₁ := hfirst.trans hextends₁.moment_le
  have hbody : Tells t (do
      let found ← Prog.query fun s => referenced s ⟨k, digest, paths⟩
      if found then pure none
      else do
        let present ← presentKeys k digest paths
        pure (some present))
      (fun found c' => Found first c'.history.moment k digest paths c'.history found) c₁ := by
    refine tells_bind (.of_guards (guards_query lasting_holds.stable hlock)) ?_
    rintro found c₂ ⟨⟨hfound, hlock₂⟩, hextends₂⟩
    have hfirst₂ := hfirst₁.trans hextends₂.moment_le
    split_ifs with hnamed
    · rw [hfound] at hnamed
      exact tells_pure (History.during_now hfirst₂ (referenced_eq_true_iff.mp hnamed))
    · rw [hfound] at hnamed
      have hunreferenced : Unreferenced k digest c₂.now :=
        referenced_eq_false_iff.mp (Bool.eq_false_iff.mpr hnamed)
      have hkept : KeepsObjects Safe t k fun s => s.Holds t k ∧ Unreferenced k digest s :=
        keepsObjects stable_unreferenced fun _ h => h.1
      have hpresent : Guards t (presentKeys k digest paths) _ c₂.now :=
        guards_presentKeys hkept ⟨hlock₂, hunreferenced⟩
      refine tells_bind ((Tells.of_guards hpresent).and (tells_presentKeys hfirst₂)) ?_
      rintro present c₃ ⟨⟨⟨⟨-, hunreferenced₃⟩, hsubset, hgone⟩, hextends₃⟩, hstood⟩
      exact tells_pure ⟨hsubset, hstood, History.during_now (hfirst₂.trans hextends₃.moment_le)
        ⟨hunreferenced₃, hgone⟩⟩
  refine tells_finallyDo (fun found u c c' hstep hfound => ?_) hbody safe_releaseLock
  exact hfound.extend hstep.history_extends hstep.history_extends.moment_le

omit [Hashing] in
theorem remains_of_left {group : (StorageKey × PyStr) × Candidate} {present : List PyStr}
    {jobs : List Id} (hgroup : group ∈ (candidates listed).1)
    (hleft : h.During first last fun m => Left group.1.1 group.1.2 group.2.paths present m.state) :
    h.During first last (Remains listed ⟨jobs, group.1.1, group.1.2⟩ present) :=
  hleft.mono fun _ hleft => ⟨hleft.1, fun path hpath =>
    hleft.2 path ((mem_candidates hgroup).mpr hpath)⟩

/-- **One stored tree** comes under the outcome that it was in. -/
theorem tells_classify {group : (StorageKey × PyStr) × Candidate}
    (hgroup : group ∈ (candidates listed).1) (hfirst : first ≤ c.history.moment)
    (hs : Truthful first c.history.moment listed report c.history) :
    Tells t (classify group report) (fun report' c' => (first ≤ c'.history.moment ∧
      Truthful first c'.history.moment listed report' c'.history) ∧
        report'.jobs.Perm (report.jobs ++ group.2.jobs)) c := by
  let Keeps : Log → Prop := fun c => first ≤ c.history.moment ∧
    Truthful first c.history.moment listed report c.history
  have hkept : ∀ u c c', Chronicled Safe Told u c c' → Keeps c → Keeps c' := by
    rintro u c c' hstep ⟨hfirst, hs⟩
    have hextends := hstep.history_extends
    exact ⟨hfirst.trans hextends.moment_le, hs.extend hextends hextends.moment_le⟩
  have hinspect : Tells t (inspect group.1.1 group.1.2 group.2.paths).attempt (fun result c' =>
      Keeps c' ∧ ∀ found, result = .ok found → Found first c'.history.moment group.1.1 group.1.2
        group.2.paths c'.history found) c := by
    have hlook : Tells t (inspect group.1.1 group.1.2 group.2.paths) _ c := tells_inspect hfirst
    have hwp := wp_kept (fun _ _ h => h) hkept hlook ⟨hfirst, hs⟩
    rw [Tells, recorded_attempt, wp_attempt]
    refine wp_mono (fun result c₁ h₁ => ⟨h₁.2, fun found hok => ?_⟩) hwp
    subst hok
    exact h₁.1
  have hjobs : ∀ present, _ := fun present => @perm_jobs report group.2.jobs
    ⟨group.2.jobs.insertionSort (· ≤ ·), group.1.1, group.1.2⟩ present
    (List.perm_insertionSort _ _)
  refine tells_bind hinspect ?_
  rintro result c₁ ⟨⟨hfirst₁, hstranded, hreclaimed, hreferenced⟩, hfound⟩
  cases result with
  | error failure =>
    dsimp only
    split_ifs
    · exact tells_pure ⟨⟨hfirst₁, hstranded, hreclaimed, hreferenced⟩, (hjobs []).2.2.2⟩
    · exact tells_raise
  | ok found =>
    replace hfound := hfound found rfl
    cases found with
    | none =>
      refine tells_pure ⟨⟨hfirst₁, hstranded, hreclaimed, fun entry hentry => ?_⟩, (hjobs []).1⟩
      rcases List.mem_append.mp hentry with hold | hnew
      · exact hreferenced entry hold
      · rw [List.mem_singleton.mp hnew]
        exact hfound
    | some present =>
      obtain ⟨hsubset, hstood, hleft⟩ := hfound
      have hremains : ∀ jobs, c₁.history.During first c₁.history.moment
          (Remains listed ⟨jobs, group.1.1, group.1.2⟩ present) :=
        fun _ => remains_of_left hgroup hleft
      cases present with
      | nil =>
        refine tells_pure ⟨⟨hfirst₁, hstranded, fun entry hentry => ?_, hreferenced⟩,
          (hjobs []).2.1⟩
        rcases List.mem_append.mp hentry with hold | hnew
        · exact hreclaimed entry hold
        · rw [List.mem_singleton.mp hnew]
          exact hremains _
      | cons path present =>
        refine tells_pure ⟨⟨hfirst₁, fun found hmem => ?_, hreclaimed, hreferenced⟩,
          (hjobs (path :: present)).2.2.1⟩
        rcases List.mem_append.mp hmem with hold | hnew
        · exact hstranded found hold
        · rw [List.mem_singleton.mp hnew]
          exact ⟨List.cons_ne_nil _ _, fun other hother =>
            ⟨(mem_candidates hgroup).mp (hsubset hother), hstood other hother⟩, hremains _⟩

/-- **The loop of the sweep.** -/
theorem tells_classifyAll (hfirst : first ≤ c.history.moment) :
    Tells t ((candidates listed).1.foldlM (fun report group => classify group report)
      ⟨[], [], [], (candidates listed).2⟩) (fun report c' =>
        Truthful first c'.history.moment listed report c'.history ∧
          report.jobs.Perm (listed.map Prod.fst)) c := by
  have hgrouped := grouped_candidates listed
  rw [Tells, recorded_foldlM]
  refine wp_foldlM (fun before after report c' => before ++ after = (candidates listed).1 ∧
    (first ≤ c'.history.moment ∧ Truthful first c'.history.moment listed report c'.history) ∧
      report.jobs.Perm ((before.flatMap fun group => group.2.jobs) ++ (candidates listed).2))
    ?_ ?_ ⟨rfl, ⟨hfirst, nofun, nofun, nofun⟩, .refl _⟩
  · rintro before group after report c₁ ⟨hgroups, ⟨hfirst₁, h₁⟩, hperm⟩
    have hgroup : group ∈ (candidates listed).1 := by
      rw [← hgroups]
      exact List.mem_append_right _ List.mem_cons_self
    refine (tells_classify hgroup hfirst₁ h₁).mono fun report' c₂ h₂ => ⟨?_, h₂.1, h₂.2.trans ?_⟩
    · rw [← hgroups, List.append_assoc]
      rfl
    · refine (hperm.append_right _).trans ?_
      rw [List.flatMap_append, List.append_assoc, List.append_assoc]
      refine List.Perm.append_left _ (List.perm_append_comm.trans ?_)
      rw [List.flatMap_cons, List.flatMap_nil, List.append_nil]
  · rintro report c₁ ⟨-, ⟨-, h₁⟩, hperm⟩
    exact ⟨h₁, hperm.trans hgrouped.perm⟩

/-- **A sweep**: its report is truthful, and has each stalled cleanup once. -/
theorem tells_sweep {stalled : Id → Bool} : Tells t (sweep stalled) (fun report c' =>
    Told ⟨stalled, c.history.moment, c'.history.moment, report⟩ c'.history) c := by
  have hlisted : Guards t (Prog.query (stalledCleanups stalled)) (fun listed s' =>
      listed = stalledCleanups stalled s' ∧ True) c.now :=
    guards_query (fun _ _ _ _ _ h => h) trivial
  refine tells_bind (.of_guards hlisted) ?_
  rintro listed c₁ ⟨⟨rfl, -⟩, hextends₁⟩
  refine (tells_classifyAll (le_refl c₁.history.moment)).with_history.mono ?_
  rintro report c₂ ⟨⟨htruthful, hperm⟩, hextends₂⟩
  exact ⟨c₁.history.moment, c₁.history.now, hextends₁.moment_le, hextends₂.moment_le,
    hextends₂.at? History.at?_moment, htruthful, hperm⟩

end Report

section Swept

/-- The storehouse with its history and its tables. -/
def exampleSwept : System Log Choice Failure (Task Unit ⊕ (Id → Bool)) :=
  @SweptStorehouse Unit _ asciiUnicode writtenHashing

/-- The pool after a task or a sweep of the next thread. -/
def afterSwept (op : Task Unit ⊕ (Id → Bool))
    (pool : Pool Log Choice Failure (Task Unit ⊕ (Id → Bool))) :
    Pool Log Choice Failure (Task Unit ⊕ (Id → Bool)) :=
  (pool.spawn exampleSwept op).drive exampleSwept pool.next .proceed 60

theorem run_afterSwept {op : Task Unit ⊕ (Id → Bool)}
    {start pool : Pool Log Choice Failure (Task Unit ⊕ (Id → Bool))}
    (hrun : Run exampleSwept (fun _ _ => True) start pool) :
    Run exampleSwept (fun _ _ => True) start (afterSwept op pool) :=
  @run_drive Log Choice Failure (Task Unit ⊕ (Id → Bool)) exampleSwept start
    (pool.spawn exampleSwept op) pool.next .proceed 60 (run_spawn op hrun)

/-- `a.py` is staged, its revision deleted, and the store swept. -/
def sweptPool : Pool Log Choice Failure (Task Unit ⊕ (Id → Bool)) :=
  afterSwept (.inr fun _ => true) (afterSwept (.inl (.deleteRevisions [1]))
    (afterSwept (.inl staging) (Pool.start (.start unstagedWorld) 0)))

end Swept

end Storehouse

end NetBoxScripts
