import NetBoxScripts.Concurrency.Alone
import NetBoxScripts.Runtime.LocalTree
import NetBoxScripts.Services.Store

/-!
# The runtime cache

`materialize_revision` (`runtime/cache.py`): under the lock of a cache slot, what is there is
purged and verified, set aside if it fails, and a tree is staged, verified and renamed into the
slot. The host may fail at any call, and the staged tree may be damaged on the disk, which is what
the attempts are for; the backend may answer anything.

## Main definitions

* `CacheWorld`: the slot, what was set aside beside it, and the staging tree
* `existingTreeVerifies`, `fillStaging`, `publish`, `materializeRevision`
* `Occupied`, `Replaced`: the slot holds what was there, or that was set aside

## Main results

* `nodeFaults_eq_nil_iff`: what `verify_local_tree` accepts
* `materializeRevision_safe`: in every state, and when it returns
-/

namespace NetBoxScripts

/-- What occupies a name beside the lock. -/
inductive LocalNode
  | directory (tree : LocalTree)
  | file (content : Bytes)
  | symlink
  | special
  deriving DecidableEq

/-- The staging tree: what was written into it, or what is found there. -/
inductive StagingTree
  | writing (files : List (PyStr × Bytes))
  | settled (tree : LocalTree)

/-- The directory of a project in the cache, with the backend's requests and the staging trees
counted. -/
structure CacheWorld where
  slot : Option LocalNode
  aside : List LocalNode
  staging : Option StagingTree
  reads : ℕ
  built : ℕ

/-- How `materialize_revision` raises. -/
inductive CacheFailure
  | revisionCorrupt (reasons : List TreeReason)
  | manifest (failure : ManifestFailure)
  | storage
  | localCache
  | corrupt (reasons : List LocalFault)

/-- What is not decided by the program. -/
inductive CacheAnswer
  | done
  | hostFails
  /-- A purge that stops with this left. -/
  | interrupted (left : LocalTree)
  | backendFails
  | backend (reported : SizeAnswer) (content : Option Bytes)
  /-- The staged tree is found as this. -/
  | damaged (tree : LocalTree)

/-- The programs of the cache. -/
abbrev Cache := Prog CacheWorld CacheAnswer CacheFailure

/-- A call of the host that raises or does its work. -/
def hostCall (work : CacheWorld → CacheWorld) : Cache Unit := .stmt fun _ c w =>
  match c with
  | .hostFails => some (.error .localCache, w)
  | _ => some (.ok (), work w)

section Steps

variable [Unicode] [Hashing]

/-- `_purge_bytecode(target)` -/
def purgeBytecode : Cache Unit := .stmt fun _ c w =>
  match w.slot, c with
  | some (.directory tree), .interrupted left =>
    if tree.purge.entries ⊆ left.entries ∧ left.entries ⊆ tree.entries then
      some (.error .localCache, { w with slot := some (.directory left) })
    else none
  | _, .hostFails => some (.error .localCache, w)
  | some (.directory tree), _ => some (.ok (), { w with slot := some (.directory tree.purge) })
  | _, _ => some (.ok (), w)

omit [Unicode] in
/-- The reasons against what occupies a name. -/
def nodeFaults (manifest : List ManifestEntry) : Option LocalNode → List LocalFault
  | some (.directory tree) => tree.faults manifest
  | _ => [.missingRoot]

omit [Unicode] in
/-- **Verification accepts a real directory that is exactly the manifest's tree**, and nothing
else. -/
theorem nodeFaults_eq_nil_iff {manifest : List ManifestEntry} {node : Option LocalNode} :
    nodeFaults manifest node = [] ↔
      ∃ tree, node = some (.directory tree) ∧ tree.Exact manifest := by
  constructor
  · intro h
    match node, h with
    | some (.directory tree), h =>
      exact ⟨tree, rfl, LocalTree.holds_iff_exact.mp (LocalTree.faults_eq_nil_iff.mp h)⟩
  · rintro ⟨tree, rfl, h⟩
    exact LocalTree.faults_eq_nil_iff.mpr (LocalTree.holds_iff_exact.mpr h)

omit [Unicode] in
/-- `verify_local_tree(local_dir, manifest)` -/
def verifyLocalTree (manifest : List ManifestEntry) (localDir : CacheWorld → Option LocalNode) :
    Cache Unit := .stmt fun _ c w =>
  match c with
  | .hostFails => some (.error .localCache, w)
  | _ =>
    match nodeFaults manifest (localDir w) with
    | [] => some (.ok (), w)
    | reasons => some (.error (.corrupt reasons), w)

/-- `_set_aside_corrupt(target, error)` -/
def setAsideCorrupt : Cache Unit :=
  hostCall fun w => { w with slot := none, aside := w.aside ++ w.slot.toList }

/-- `_existing_tree_verifies(target, manifest)` -/
def existingTreeVerifies (manifest : List ManifestEntry) : Cache Bool := do
  purgeBytecode
  if ← .query fun w => w.slot.isNone then return false
  else
    match ← (verifyLocalTree manifest CacheWorld.slot).attempt with
    | .ok () => return true
    | .error (.corrupt _) => do
      setAsideCorrupt
      return false
    | .error error => .raise error

/-- `_stream_verified`, by what the backend reports and holds. -/
def streamVerified (entry : ManifestEntry) (reported : SizeAnswer) (content : Option Bytes) :
    Except CacheFailure Bytes :=
  if reported = .notFound then .error (.revisionCorrupt [.missing entry.path])
  else if reported ≠ .unknown ∧ reported ≠ .known entry.size then
    .error (.revisionCorrupt [.sizeMismatch entry.path])
  else
    match content with
    | none => .error (.revisionCorrupt [.missing entry.path])
    | some content =>
      let measured := content.take (entry.size + 1)
      if measured.length ≠ entry.size then .error (.revisionCorrupt [.sizeMismatch entry.path])
      else if sha256 measured ≠ entry.sha256 then
        .error (.revisionCorrupt [.checksumMismatch entry.path])
      else .ok measured

/-- One more file in the staging tree. -/
def StagingTree.write (path : PyStr) (content : Bytes) : StagingTree → StagingTree
  | .writing files => .writing (files ++ [(path, content)])
  | .settled tree => .settled tree

/-- The loop of `_fill_staging` over one entry: the directories above it and `copy_verified`. -/
def copyEntry (entry : ManifestEntry) : Cache Unit := .stmt fun _ c w =>
  match c with
  | .hostFails => some (.error .localCache, w)
  | .backendFails => some (.error .storage, { w with reads := w.reads + 1 })
  | .backend reported content =>
    match streamVerified entry reported content with
    | .error error => some (.error error, { w with reads := w.reads + 1 })
    | .ok bytes => some (.ok (), { w with
        reads := w.reads + 1
        staging := w.staging.map (StagingTree.write entry.path bytes) })
  | _ => none

/-- `_fill_staging(storage, storage_key, digest, manifest, staging)` -/
def fillStaging (manifest : List ManifestEntry) : Cache Unit := do
  hostCall fun w => { w with staging := some (.writing []), built := w.built + 1 }
  manifest.forM copyEntry

/-- The tree that holds the written files, where there can be one. -/
def treeOf (files : List (PyStr × Bytes)) : Option LocalTree :=
  let directories := (files.flatMap fun file =>
    let segments := split file.1
    (List.range (segments.length - 1)).map fun i => segments.take (i + 1)).dedup
  let entries : LocalEntries := directories.map (fun segments => (segments, .directory)) ++
    files.map fun file => (split file.1, .file file.2)
  if h : WellFormed entries then some ⟨entries, h⟩ else none

/-- What is found in the staging tree once it is filled. -/
def settleStaging : Cache Unit := .stmt fun _ c w =>
  match w.staging, c with
  | some (.writing _), .damaged tree => some (.ok (), { w with staging := some (.settled tree) })
  | some (.writing files), _ =>
    match treeOf files with
    | none => some (.error .localCache, w)
    | some tree => some (.ok (), { w with staging := some (.settled tree) })
  | _, _ => some (.error .localCache, w)

/-- The staging tree as a name. -/
def CacheWorld.staged (w : CacheWorld) : Option LocalNode :=
  match w.staging with
  | some (.settled tree) => some (.directory tree)
  | _ => none

/-- `staging.rename(target)`: over nothing, or an empty directory. -/
def renameStaging : Cache Unit := .stmt fun _ c w =>
  match c, w.slot with
  | .hostFails, _ => some (.error .localCache, w)
  | _, none => some (.ok (), { w with slot := w.staged, staging := none })
  | _, some (.directory tree) =>
    if tree.entries = [] then some (.ok (), { w with slot := w.staged, staging := none })
    else some (.error .localCache, w)
  | _, some _ => some (.error .localCache, w)

/-- `_publish(staging, target, manifest)` -/
def publish (manifest : List ManifestEntry) : Cache Unit := do
  match ← renameStaging.attempt with
  | .ok () => pure ()
  | .error _ =>
    match ← (verifyLocalTree manifest CacheWorld.slot).attempt with
    | .ok () => pure ()
    | .error _ => .raise .localCache

/-- `_make_read_only(root)`, which changes modes only. -/
def makeReadOnly : Cache Unit := hostCall id

/-- The body of the `try` of one attempt: whether it published a tree. -/
def buildTree (manifest : List ManifestEntry) : Cache Bool := do
  fillStaging manifest
  settleStaging
  match ← (verifyLocalTree manifest CacheWorld.staged).attempt with
  | .error (.corrupt _) => return false
  | .error error => .raise error
  | .ok () => do
    publish manifest
    makeReadOnly
    return true

/-- One turn of the loop of `materialize_revision`. -/
def materializeAttempt (manifest : List ManifestEntry) : Cache Bool := do
  if ← existingTreeVerifies manifest then
    makeReadOnly
    return true
  else (buildTree manifest).finallyDo (hostCall fun w => { w with staging := none })

/-- The loop, with the attempts that are left. -/
def materializeAttempts (manifest : List ManifestEntry) : ℕ → Cache Unit
  | 0 => .raise .localCache
  | n + 1 => do
    if ← materializeAttempt manifest then pure ()
    else materializeAttempts manifest n

/-- `_MAX_MATERIALIZE_ATTEMPTS` -/
def maxMaterializeAttempts : ℕ := 3

/-- `materialize_revision`; the root, the project's directory and the lock are beside the slot. -/
def materializeRevision (manifest : List ManifestEntry) (digest : PyStr) : Cache Unit :=
  match validateManifest (.arr (manifest.map ManifestEntry.toJson)) (some digest) with
  | .error failure => .raise (.manifest failure)
  | .ok () => do
    hostCall id
    materializeAttempts manifest maxMaterializeAttempts

end Steps

/-! ## What the slot holds -/

section Safety

variable [Unicode] [Hashing] {t : ThreadId} {manifest : List ManifestEntry} {digest : PyStr}
  {w₀ w : CacheWorld} {m : ℕ}

/-- A name after a purge. -/
def LocalNode.purged : LocalNode → LocalNode
  | .directory tree => .directory tree.purge
  | node => node

/-- What a purge, finished or not, leaves of a name. -/
def LocalNode.From (left node : LocalNode) : Prop :=
  match node with
  | .directory tree => ∃ tree' : LocalTree, left = .directory tree' ∧
      tree.purge.entries ⊆ tree'.entries ∧ tree'.entries ⊆ tree.entries
  | node => left = node

omit [Hashing] in
theorem LocalNode.From.refl (node : LocalNode) : node.From node := by
  cases node with
  | directory tree => exact ⟨tree, rfl, fun _ he => (LocalTree.mem_purge.mp he).1, fun _ he => he⟩
  | _ => rfl

omit [Hashing] in
theorem LocalNode.purged_from (node : LocalNode) : node.purged.From node := by
  cases node with
  | directory tree => exact ⟨_, rfl, fun _ he => he, fun _ he => (LocalTree.mem_purge.mp he).1⟩
  | _ => rfl

/-- **The slot is as it was**, but for what a purge removes. -/
structure Occupied (w₀ w : CacheWorld) : Prop where
  slot : (w₀.slot = none ∧ w.slot = none) ∨
    ∃ node left, w₀.slot = some node ∧ w.slot = some left ∧ left.From node
  aside : w.aside = w₀.aside
  reads : w.reads = w₀.reads
  built : w.built = w₀.built

/-- **The slot was cleared**: what was there failed once it was purged, and is set aside. -/
structure Replaced (manifest : List ManifestEntry) (w₀ w : CacheWorld) : Prop where
  failed : nodeFaults manifest (w₀.slot.map LocalNode.purged) ≠ []
  aside : w.aside = w₀.aside ++ (w₀.slot.map LocalNode.purged).toList
  slot : w.slot = none ∨ ∃ tree, w.slot = some (.directory tree) ∧ tree.Holds manifest

/-- What holds in every state. -/
def CacheSafe (manifest : List ManifestEntry) (w₀ w : CacheWorld) : Prop :=
  (Occupied w₀ w ∨ Replaced manifest w₀ w) ∧ w.built ≤ w₀.built + maxMaterializeAttempts

/-- The slot is cleared, and `m` staging trees were built. -/
structure Clearing (manifest : List ManifestEntry) (w₀ : CacheWorld) (m : ℕ) (w : CacheWorld) :
    Prop where
  replaced : Replaced manifest w₀ w
  cleared : w.slot = none
  built : w.built = w₀.built + m
  bound : m ≤ maxMaterializeAttempts

omit [Hashing] in
theorem Occupied.refl (w : CacheWorld) : Occupied w w := by
  refine ⟨?_, rfl, rfl, rfl⟩
  cases hslot : w.slot with
  | none => exact .inl ⟨rfl, rfl⟩
  | some node => exact .inr ⟨node, node, rfl, rfl, .refl node⟩

theorem Occupied.safe (h : Occupied w₀ w) : CacheSafe manifest w₀ w :=
  ⟨.inl h, h.built ▸ Nat.le_add_right _ _⟩

theorem Clearing.safe (h : Clearing manifest w₀ m w) : CacheSafe manifest w₀ w :=
  ⟨.inr h.replaced, h.built ▸ Nat.add_le_add_left h.bound _⟩

/-- Each action leaves a safe state. -/
abbrev Guarded {α : Type} (t : ThreadId) (manifest : List ManifestEntry) (w₀ : CacheWorld)
    (prog : Cache α) (post : Except CacheFailure α → CacheWorld → Prop) (w : CacheWorld) : Prop :=
  wp Undisturbed t (fun _ => CacheSafe manifest w₀) prog post w

/-- One action, by its outcomes. -/
theorem guarded_stmt {α : Type}
    {step : ThreadId → CacheAnswer → CacheWorld → Option (Except CacheFailure α × CacheWorld)}
    {post : Except CacheFailure α → CacheWorld → Prop}
    (h : ∀ c r w', step t c w = some (r, w') → CacheSafe manifest w₀ w' ∧ post r w') :
    Guarded t manifest w₀ (.stmt step) post w := by
  have hstable : Stable Undisturbed t (fun w' : CacheWorld => w' = w) := stable_undisturbed _
  refine wp_stmt hstable rfl fun w' hw c r w'' hstep => ?_
  subst hw
  exact h c r w'' hstep

/-- A call of the host. -/
theorem guarded_hostCall {work : CacheWorld → CacheWorld}
    {post : Except CacheFailure Unit → CacheWorld → Prop}
    (hfails : CacheSafe manifest w₀ w ∧ post (.error .localCache) w)
    (hdone : CacheSafe manifest w₀ (work w) ∧ post (.ok ()) (work w)) :
    Guarded t manifest w₀ (hostCall work) post w := by
  refine guarded_stmt fun c r w' hstep => ?_
  cases c <;> cases hstep
  all_goals first | exact hfails | exact hdone

/-- A verification changes nothing, and passes what holds the manifest. -/
theorem guarded_verifyLocalTree {localDir : CacheWorld → Option LocalNode}
    {post : Except CacheFailure Unit → CacheWorld → Prop} (hsafe : CacheSafe manifest w₀ w)
    (hfails : post (.error .localCache) w)
    (hholds : nodeFaults manifest (localDir w) = [] → post (.ok ()) w)
    (hcorrupt : ∀ reasons, nodeFaults manifest (localDir w) ≠ [] →
      post (.error (.corrupt reasons)) w) :
    Guarded t manifest w₀ (verifyLocalTree manifest localDir) post w := by
  have hjudged : ∀ r w', (match nodeFaults manifest (localDir w) with
      | [] => some (Except.ok (), w)
      | reasons => some (.error (.corrupt reasons), w)) = some (r, w') →
        CacheSafe manifest w₀ w' ∧ post r w' := by
    intro r w' hstep
    cases hfaults : nodeFaults manifest (localDir w) with
    | nil =>
      rw [hfaults] at hstep
      cases hstep
      exact ⟨hsafe, hholds hfaults⟩
    | cons reason reasons =>
      rw [hfaults] at hstep
      cases hstep
      exact ⟨hsafe, hcorrupt _ (by rw [hfaults]; exact List.cons_ne_nil _ _)⟩
  refine guarded_stmt fun c r w' hstep => ?_
  cases c with
  | hostFails =>
    cases hstep
    exact ⟨hsafe, hfails⟩
  | _ => exact hjudged r w' hstep

omit [Unicode] in
/-- A name without faults is a directory that holds the manifest. -/
theorem holds_of_nodeFaults {node : Option LocalNode} (h : nodeFaults manifest node = []) :
    ∃ tree, node = some (.directory tree) ∧ tree.Holds manifest := by
  unfold nodeFaults at h
  split at h
  · next tree => exact ⟨tree, rfl, LocalTree.faults_eq_nil_iff.mp h⟩
  · cases h

/-- A purge leaves a part of what is there, and when it returns no artifact. -/
theorem guarded_purgeBytecode {post : Except CacheFailure Unit → CacheWorld → Prop}
    (h : ∀ r w', Occupied w w' →
      (r = .ok () → w' = { w with slot := w.slot.map LocalNode.purged }) →
        CacheSafe manifest w₀ w' ∧ post r w') :
    Guarded t manifest w₀ purgeBytecode post w := by
  refine guarded_stmt fun c r w' hstep => ?_
  have hself : ∀ {w : CacheWorld} {slot}, w.slot = slot → w = { w with slot := slot } := by
    intro w slot hslot
    rw [← hslot]
  cases hslot : w.slot with
  | none =>
    have hkept : w = { w with slot := none } := hself hslot
    cases c <;> simp only [hslot] at hstep <;> cases hstep <;>
      exact h _ _ (.refl w) fun _ => by rw [hslot]; exact hkept
  | some node =>
    cases node with
    | directory tree =>
      have hpurged : Occupied w { w with slot := some (.directory tree.purge) } :=
        ⟨.inr ⟨_, _, hslot, rfl, LocalNode.purged_from (.directory tree)⟩, rfl, rfl, rfl⟩
      cases c <;> simp only [hslot] at hstep
      case hostFails =>
        cases hstep
        exact h _ _ (.refl w) fun heq => by cases heq
      case interrupted left =>
        split_ifs at hstep with hleft
        cases hstep
        exact h _ _ ⟨.inr ⟨_, _, hslot, rfl, left, rfl, hleft⟩, rfl, rfl, rfl⟩ fun heq => by
          cases heq
      all_goals
        cases hstep
        exact h _ _ hpurged fun _ => by rw [hslot]; rfl
    | _ =>
      have hkept := hself hslot
      cases c <;> simp only [hslot] at hstep <;> cases hstep <;>
        exact h _ _ (.refl w) fun _ => by rw [hslot]; exact hkept

/-! ## One attempt -/

/-- What an attempt begins with: what was there, or nothing. -/
def Beginning (manifest : List ManifestEntry) (w₀ : CacheWorld) (m : ℕ) (w : CacheWorld) : Prop :=
  (w = w₀ ∧ m = 0) ∨ Clearing manifest w₀ m w

/-- A purge of an empty slot does nothing. -/
theorem Clearing.of_occupied {w' : CacheWorld} (h : Clearing manifest w₀ m w)
    (hw' : Occupied w w') : Clearing manifest w₀ m w' := by
  have hslot : w'.slot = none := by
    rcases hw'.slot with ⟨-, hnone⟩ | ⟨node, left, hsome, -, -⟩
    · exact hnone
    · rw [h.cleared] at hsome
      cases hsome
  exact ⟨⟨h.replaced.failed, hw'.aside.trans h.replaced.aside, .inl hslot⟩, hslot,
    hw'.built.trans h.built, h.bound⟩

/-- The slot holds the manifest, and what failed was set aside. -/
structure Materialized (manifest : List ManifestEntry) (w₀ w : CacheWorld) : Prop where
  holds : ∃ tree, w.slot = some (.directory tree) ∧ tree.Holds manifest
  replaced : nodeFaults manifest (w₀.slot.map LocalNode.purged) ≠ [] → Replaced manifest w₀ w

/-- What an attempt ends with: a tree that holds the manifest, or a slot that is cleared. -/
def Attempted (manifest : List ManifestEntry) (w₀ : CacheWorld) (m : ℕ) :
    Except CacheFailure Bool → CacheWorld → Prop
  | .ok true, w => CacheSafe manifest w₀ w ∧ Materialized manifest w₀ w
  | .ok false, w => Clearing manifest w₀ m w
  | .error _, w => CacheSafe manifest w₀ w

/-- **The existing tree** verifies, or what is there is set aside. -/
theorem guarded_existingTreeVerifies (hw : Beginning manifest w₀ m w) :
    Guarded t manifest w₀ (existingTreeVerifies manifest) (Attempted manifest w₀ m) w := by
  unfold Guarded existingTreeVerifies
  rw [wp_bind]
  refine guarded_purgeBytecode fun r w₁ hpurge hdone => ?_
  have hsafe : CacheSafe manifest w₀ w₁ := by
    rcases hw with ⟨rfl, -⟩ | hclearing
    · exact hpurge.safe
    · exact (hclearing.of_occupied hpurge).safe
  refine ⟨hsafe, ?_⟩
  cases r with
  | error error => exact hsafe
  | ok _ =>
  have hw₁ := hdone rfl
  rw [andThen_ok, wp_bind]
  refine guarded_stmt fun c r w' hstep => ?_
  cases hstep
  refine ⟨hsafe, ?_⟩
  rw [andThen_ok]
  split_ifs with hnone
  · have hslot := Option.isNone_iff_eq_none.mp hnone
    show Clearing manifest w₀ m w₁
    rcases hw with ⟨rfl, rfl⟩ | hclearing
    · -- nothing was there
      have hempty : w.slot = none := by
        rw [hw₁] at hslot
        exact Option.map_eq_none_iff.mp hslot
      refine ⟨⟨?_, ?_, .inl hslot⟩, hslot, hpurge.built, Nat.zero_le _⟩
      · rw [hempty]
        exact List.cons_ne_nil _ _
      · rw [hpurge.aside, hempty]
        exact (List.append_nil _).symm
    · exact hclearing.of_occupied hpurge
  · have hsome : w₁.slot ≠ none := fun heq => hnone (Option.isNone_iff_eq_none.mpr heq)
    obtain ⟨node, hslot⟩ := Option.ne_none_iff_exists'.mp hsome
    obtain ⟨rfl, rfl⟩ : w = w₀ ∧ m = 0 := by
      rcases hw with hw | hclearing
      · exact hw
      · rw [(hclearing.of_occupied hpurge).cleared] at hslot
        cases hslot
    have hpurged : w.slot.map LocalNode.purged = some node := by
      rw [hw₁] at hslot
      exact hslot
    rw [wp_bind, wp_attempt]
    refine guarded_verifyLocalTree hsafe hsafe (fun hholds => ?_) fun reasons hfaults => ?_
    · refine ⟨hsafe, holds_of_nodeFaults hholds, fun hfailed => absurd hholds ?_⟩
      rw [hslot, ← hpurged]
      exact hfailed
    rw [andThen_ok]
    dsimp only
    rw [wp_bind]
    have hcleared : Clearing manifest w 0
        { w₁ with slot := none, aside := w₁.aside ++ w₁.slot.toList } := by
      refine ⟨⟨?_, ?_, .inl rfl⟩, rfl, hpurge.built, Nat.zero_le _⟩
      · rw [hpurged, ← hslot]
        exact hfaults
      · rw [hpurged, hslot, hpurge.aside]
    exact guarded_hostCall ⟨hsafe, hsafe⟩ ⟨hcleared.safe, hcleared⟩

/-- Reading and writing the staging tree leaves the slot cleared. -/
theorem Clearing.congr {w' : CacheWorld} (h : Clearing manifest w₀ m w) (hslot : w'.slot = w.slot)
    (haside : w'.aside = w.aside) (hbuilt : w'.built = w.built) : Clearing manifest w₀ m w' :=
  ⟨⟨h.replaced.failed, haside.trans h.replaced.aside, .inl (hslot.trans h.cleared)⟩,
    hslot.trans h.cleared, hbuilt.trans h.built, h.bound⟩

/-- **Filling** the staging tree, which is one more. -/
theorem guarded_fillStaging (hw : Clearing manifest w₀ m w) (hm : m < maxMaterializeAttempts) :
    Guarded t manifest w₀ (fillStaging manifest) (andThen (fun _ => Clearing manifest w₀ (m + 1))
      fun _ => CacheSafe manifest w₀) w := by
  unfold Guarded fillStaging
  rw [wp_bind]
  have hmade : Clearing manifest w₀ (m + 1)
      { w with staging := some (.writing []), built := w.built + 1 } :=
    ⟨⟨hw.replaced.failed, hw.replaced.aside, .inl hw.cleared⟩, hw.cleared,
      congrArg (· + 1) hw.built, hm⟩
  refine guarded_hostCall ⟨hw.safe, hw.safe⟩ ⟨hmade.safe, ?_⟩
  rw [andThen_ok]
  refine wp_forM (fun _ _ => Clearing manifest w₀ (m + 1)) (fun before entry after w₁ h₁ => ?_)
    (fun _ h => h) hmade
  refine guarded_stmt fun c r w' hstep => ?_
  have hread : Clearing manifest w₀ (m + 1) { w₁ with reads := w₁.reads + 1 } :=
    h₁.congr rfl rfl rfl
  cases c with
  | hostFails =>
    cases hstep
    exact ⟨h₁.safe, h₁.safe⟩
  | backendFails =>
    cases hstep
    exact ⟨hread.safe, hread.safe⟩
  | backend reported content =>
    dsimp only at hstep
    split at hstep
    · cases hstep
      exact ⟨hread.safe, hread.safe⟩
    · cases hstep
      exact ⟨Clearing.safe (h₁.congr rfl rfl rfl), h₁.congr rfl rfl rfl⟩
  | _ => cases hstep

/-- What is found in the staging tree leaves the slot cleared. -/
theorem guarded_settleStaging (hw : Clearing manifest w₀ m w) :
    Guarded t manifest w₀ settleStaging (andThen (fun _ => Clearing manifest w₀ m)
      fun _ => CacheSafe manifest w₀) w := by
  refine guarded_stmt fun c r w' hstep => ?_
  have hkept : ∀ staging, Clearing manifest w₀ m { w with staging } :=
    fun _ => hw.congr rfl rfl rfl
  split at hstep
  · cases hstep
    exact ⟨(hkept _).safe, hkept _⟩
  · split at hstep
    · cases hstep
      exact ⟨hw.safe, hw.safe⟩
    · cases hstep
      exact ⟨(hkept _).safe, hkept _⟩
  · cases hstep
    exact ⟨hw.safe, hw.safe⟩

/-- **Publishing** a staged tree that holds the manifest into a cleared slot. -/
theorem guarded_publish {tree : LocalTree} (hw : Clearing manifest w₀ m w)
    (hstaged : w.staged = some (.directory tree)) (hholds : tree.Holds manifest) :
    Guarded t manifest w₀ (publish manifest) (andThen (fun _ w => CacheSafe manifest w₀ w ∧
      Materialized manifest w₀ w) fun _ => CacheSafe manifest w₀) w := by
  unfold Guarded publish
  rw [wp_bind, wp_attempt]
  refine guarded_stmt fun c r w' hstep => ?_
  have hrename : (r = .error .localCache ∧ w' = w) ∨
      (r = .ok () ∧ w' = { w with slot := w.staged, staging := none }) := by
    rw [hw.cleared] at hstep
    cases c <;> cases hstep
    all_goals first | exact .inl ⟨rfl, rfl⟩ | exact .inr ⟨rfl, rfl⟩
  rcases hrename with ⟨rfl, rfl⟩ | ⟨rfl, rfl⟩
  · refine ⟨hw.safe, ?_⟩
    rw [andThen_ok]
    dsimp only
    rw [wp_bind, wp_attempt]
    -- the slot is empty, so what is there does not verify
    refine guarded_verifyLocalTree hw.safe hw.safe (fun hnone => ?_) fun _ _ => hw.safe
    rw [hw.cleared] at hnone
    cases hnone
  · have hreplaced : Replaced manifest w₀ { w with slot := w.staged, staging := none } :=
      ⟨hw.replaced.failed, hw.replaced.aside, .inr ⟨tree, hstaged, hholds⟩⟩
    have hsafe : CacheSafe manifest w₀ { w with slot := w.staged, staging := none } :=
      ⟨.inr hreplaced, hw.safe.2⟩
    exact ⟨hsafe, hsafe, ⟨tree, hstaged, hholds⟩, fun _ => hreplaced⟩

/-- A call that leaves what the slot holds. -/
theorem guarded_leave {work : CacheWorld → CacheWorld}
    {post : Except CacheFailure Unit → CacheWorld → Prop}
    (hwork : ∀ w, (work w).slot = w.slot ∧ (work w).aside = w.aside ∧ (work w).reads = w.reads ∧
      (work w).built = w.built) (hw : CacheSafe manifest w₀ w)
    (hfails : post (.error .localCache) w) (hdone : CacheSafe manifest w₀ (work w) →
      (Materialized manifest w₀ w → Materialized manifest w₀ (work w)) → post (.ok ()) (work w)) :
    Guarded t manifest w₀ (hostCall work) post w := by
  obtain ⟨hslot, haside, hreads, hbuilt⟩ := hwork w
  have hreplaced : Replaced manifest w₀ w → Replaced manifest w₀ (work w) :=
    fun hr => ⟨hr.failed, haside.trans hr.aside, hslot ▸ hr.slot⟩
  have hsafe : CacheSafe manifest w₀ (work w) := by
    refine ⟨?_, hbuilt ▸ hw.2⟩
    rcases hw.1 with ho | hr
    · exact .inl ⟨hslot ▸ ho.slot, haside.trans ho.aside, hreads.trans ho.reads,
        hbuilt.trans ho.built⟩
    · exact .inr (hreplaced hr)
  exact guarded_hostCall ⟨hw, hfails⟩ ⟨hsafe, hdone hsafe fun hsettled =>
    ⟨hslot ▸ hsettled.holds, fun hfailed => hreplaced (hsettled.replaced hfailed)⟩⟩

/-- **One tree is staged**, and published if it verifies. -/
theorem guarded_buildTree (hw : Clearing manifest w₀ m w) (hm : m < maxMaterializeAttempts) :
    Guarded t manifest w₀ (buildTree manifest) (Attempted manifest w₀ (m + 1)) w := by
  unfold Guarded buildTree
  rw [wp_bind]
  refine wp_mono (fun r w₁ h₁ => ?_) (guarded_fillStaging hw hm)
  cases r with
  | error error => exact h₁
  | ok _ =>
  rw [andThen_ok, wp_bind]
  refine wp_mono (fun r w₂ h₂ => ?_) (guarded_settleStaging h₁)
  cases r with
  | error error => exact h₂
  | ok _ =>
  rw [andThen_ok, wp_bind, wp_attempt]
  have hsafe := Clearing.safe h₂
  refine guarded_verifyLocalTree hsafe hsafe (fun hholds => ?_) fun reasons _ => h₂
  obtain ⟨tree, hstaged, hholds⟩ := holds_of_nodeFaults hholds
  rw [andThen_ok]
  dsimp only
  rw [wp_bind]
  refine wp_mono (fun r w₃ h₃ => ?_) (guarded_publish h₂ hstaged hholds)
  cases r with
  | error error => exact h₃
  | ok _ =>
  rw [andThen_ok, wp_bind]
  exact guarded_leave (fun _ => ⟨rfl, rfl, rfl, rfl⟩) h₃.1 h₃.1 fun _ _ => h₃

/-- **One attempt**. -/
theorem guarded_materializeAttempt (hw : Beginning manifest w₀ m w)
    (hm : m < maxMaterializeAttempts) :
    Guarded t manifest w₀ (materializeAttempt manifest) (Attempted manifest w₀ (m + 1)) w := by
  unfold Guarded materializeAttempt
  rw [wp_bind]
  refine wp_mono (fun r w₁ h₁ => ?_) (guarded_existingTreeVerifies hw)
  cases r with
  | error error => exact h₁
  | ok verified =>
  rw [andThen_ok]
  cases verified with
  | true =>
    rw [if_pos rfl, wp_bind]
    exact guarded_leave (fun _ => ⟨rfl, rfl, rfl, rfl⟩) h₁.1 h₁.1 fun _ _ => h₁
  | false =>
    rw [if_neg Bool.false_ne_true]
    refine wp_finallyDo (wp_mono (fun r w₂ h₂ => ?_) (guarded_buildTree h₁ hm))
    have hsafe : CacheSafe manifest w₀ w₂ := by
      match r, h₂ with
      | .ok true, h => exact h.1
      | .ok false, h => exact Clearing.safe h
      | .error _, h => exact h
    refine guarded_leave (fun _ => ⟨rfl, rfl, rfl, rfl⟩) hsafe hsafe fun hdone hsettled => ?_
    match r, h₂ with
    | .ok true, h => exact ⟨hdone, hsettled h.2⟩
    | .ok false, h => exact Clearing.congr h rfl rfl rfl
    | .error _, _ => exact hdone

/-- **The attempts**. -/
theorem guarded_materializeAttempts {n : ℕ} (hw : Beginning manifest w₀ m w)
    (hn : m + n ≤ maxMaterializeAttempts) :
    Guarded t manifest w₀ (materializeAttempts manifest n) (fun r w => CacheSafe manifest w₀ w ∧
      (r = .ok () → Materialized manifest w₀ w)) w := by
  induction n generalizing m w with
  | zero =>
    have hsafe : CacheSafe manifest w₀ w := by
      rcases hw with ⟨rfl, -⟩ | hclearing
      · exact (Occupied.refl w).safe
      · exact hclearing.safe
    exact ⟨hsafe, fun heq => by cases heq⟩
  | succ n ih =>
    unfold Guarded materializeAttempts
    rw [wp_bind]
    refine wp_mono (fun r w₁ h₁ => ?_) (guarded_materializeAttempt hw (by omega))
    cases r with
    | error error => exact ⟨h₁, fun heq => by cases heq⟩
    | ok published =>
    rw [andThen_ok]
    cases published with
    | true => exact ⟨h₁.1, fun _ => h₁.2⟩
    | false => exact ih (.inr h₁) (by omega)

/-- What is left of the slot's files, in the slot or set aside. -/
theorem CacheSafe.kept {tree : LocalTree} (h : CacheSafe manifest w₀ w)
    (hslot : w₀.slot = some (.directory tree)) :
    ∃ tree', (w.slot = some (.directory tree') ∨ .directory tree' ∈ w.aside) ∧
      tree.purge.entries ⊆ tree'.entries := by
  rcases h.1 with ho | hr
  · rcases ho.slot with ⟨hnone, -⟩ | ⟨node, left, hnode, hleft, hfrom⟩
    · rw [hnone] at hslot
      cases hslot
    · obtain rfl := Option.some.inj (hnode.symm.trans hslot)
      obtain ⟨tree', rfl, hkept, -⟩ := hfrom
      exact ⟨tree', .inl hleft, hkept⟩
  · refine ⟨tree.purge, .inr ?_, fun _ he => he⟩
    rw [hr.aside, hslot]
    exact List.mem_append_right _ (List.mem_singleton.mpr rfl)

/-- **A materialization is safe**: in every state that a call reaches, whatever the host and the
backend answer, the slot is as it was, but for what a purge removes, or what was there failed once
it was purged and is set aside; a file that the manifest names is still there, no backend read was
made over a tree that verifies, and three staging trees at most were built. When it returns, the
slot holds exactly the manifest, and what was there is set aside if it failed. -/
theorem materializeRevision_safe {prog : Cache Unit}
    (hvalid : validateManifest (.arr (manifest.map ManifestEntry.toJson)) (some digest) = .ok ())
    (hreach : Reach t (materializeRevision manifest digest) w₀ prog w) :
    (Occupied w₀ w ∨ Replaced manifest w₀ w) ∧
    (∀ tree, w₀.slot = some (.directory tree) → ∀ entry ∈ manifest, ∀ content,
      (split entry.path, .file content) ∈ tree.entries →
        ∃ tree', (w.slot = some (.directory tree') ∨ .directory tree' ∈ w.aside) ∧
          (split entry.path, .file content) ∈ tree'.entries) ∧
    ((∃ tree, w₀.slot = some (.directory tree) ∧ tree.purge.Holds manifest) →
      w.reads = w₀.reads ∧ w.built = w₀.built) ∧
    w.built ≤ w₀.built + maxMaterializeAttempts ∧
    (prog = .done (.ok ()) →
      (∃ tree, w.slot = some (.directory tree) ∧ tree.Holds manifest) ∧
        (nodeFaults manifest (w₀.slot.map LocalNode.purged) ≠ [] →
          w.aside = w₀.aside ++ (w₀.slot.map LocalNode.purged).toList)) := by
  have hstart : CacheSafe manifest w₀ w₀ := (Occupied.refl w₀).safe
  have hwp : Guarded t manifest w₀ (materializeRevision manifest digest) (fun r w =>
      CacheSafe manifest w₀ w ∧ (r = .ok () → Materialized manifest w₀ w)) w₀ := by
    unfold Guarded materializeRevision
    rw [hvalid]
    dsimp only
    rw [wp_bind]
    refine guarded_hostCall ⟨hstart, hstart, fun heq => by cases heq⟩ ⟨hstart, ?_⟩
    exact guarded_materializeAttempts (.inl ⟨rfl, rfl⟩) (Nat.le_of_eq (Nat.zero_add _))
  have hsafe : CacheSafe manifest w₀ w := hreach.invariant hwp hstart
  obtain ⟨-, htrusted⟩ := validateManifest_toJson_ok hvalid
  refine ⟨hsafe.1, fun tree hslot entry hentry content hmem => ?_, fun hintact => ?_, hsafe.2,
    fun hdone => ?_⟩
  · obtain ⟨tree', hplace, hkept⟩ := hsafe.kept hslot
    have hcanonical := (htrusted.acceptable entry hentry).canonical
    exact ⟨tree', hplace, hkept (LocalTree.mem_purge.mpr ⟨hmem, not_isArtifact_of_mem hcanonical⟩)⟩
  · obtain ⟨tree, hslot, hholds⟩ := hintact
    rcases hsafe.1 with ho | hr
    · exact ⟨ho.reads, ho.built⟩
    · refine absurd (LocalTree.faults_eq_nil_iff.mpr hholds) ?_
      have hfailed := hr.failed
      rw [hslot] at hfailed
      exact hfailed
  · subst hdone
    have hsettled := (hreach.ends hwp).2 rfl
    exact ⟨hsettled.holds, fun hfailed => (hsettled.replaced hfailed).aside⟩

end Safety

/-- A slot with another file under the manifest's path, and a bytecode file. -/
def corruptSlot : CacheWorld where
  slot := some (.directory ⟨[([py "a.py"], .file [121]), ([py "a.pyc"], .file [0])], by decide⟩)
  aside := []
  staging := none
  reads := 0
  built := 0

/-- What is there is set aside, and the tree that the backend holds takes its place. -/
theorem materializeRevision_safe_corruptSlot : ∃ w,
    Reach 0 (@materializeRevision asciiUnicode (tableHashing exampleTable) [oneEntry (py "a.py")]
      (py "4b60693728c5583063854db9944e454be43d0198fc30a7f614b3afdd58adaf26")) corruptSlot
        (.done (.ok ())) w ∧ w.aside.length = 1 ∧ w.built ≤ corruptSlot.built + 3 ∧
      ∃ tree, w.slot = some (.directory tree) ∧
        @LocalTree.Holds (tableHashing exampleTable) tree [oneEntry (py "a.py")] := by
  have hrun : ((@materializeRevision asciiUnicode (tableHashing exampleTable)
      [oneEntry (py "a.py")]
      (py "4b60693728c5583063854db9944e454be43d0198fc30a7f614b3afdd58adaf26")).runWith 0
        (fun _ => .backend .unknown (some [120])) corruptSlot).map (fun run =>
          (run.1.toOption, run.2.aside.length)) = some (some (), 1) := by decide +kernel
  obtain ⟨⟨result, w⟩, hrun, hresult⟩ := Option.map_eq_some_iff.mp hrun
  obtain ⟨hok, haside⟩ := Prod.mk.inj hresult
  obtain rfl : result = .ok () := by
    cases result with
    | error failure => cases hok
    | ok _ => rfl
  have hreach := Reach.of_runWith .start hrun
  obtain ⟨-, -, -, hbuilt, hdone⟩ := @materializeRevision_safe asciiUnicode
    (tableHashing exampleTable) 0 _ _ corruptSlot w _ (by decide +kernel) hreach
  exact ⟨w, hreach, haside, hbuilt, (hdone rfl).1⟩

end NetBoxScripts
