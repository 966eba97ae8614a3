import NetBoxScripts.Models.Projects
import NetBoxScripts.Services.Lifecycle

/-!
# What a project publishes

The pointer of a project, the statuses of its revisions and its Script rows are three records of one
thing. Activations and deactivations write all of them under the project lock; a save of an instance
that was loaded before restores what it does not own (`ScriptProject.save` in `models/projects.py`,
`NetBoxScript.save` in `models/scripts.py`).

## Main definitions

* `saveProject`, `editScript`: the saves of instances loaded before
* `Act`, `publication`: the calls and saves, and the system of any number of them
* `Consistent`: the three records agree
* `Careful`: what a thread may change

## Main results

* `Consistent.promote`, `Consistent.deactivate`: the transactions keep the records in agreement
* `Act.body_careful`: every action of every call and save is careful
* `publication_consistent`: in every committed state the records agree
-/

namespace NetBoxScripts

namespace Publication

open Lifecycle

/-! ## Saves -/

section Saves

/-- The write of `_save_project` over the row read under the lock. -/
def storeProject (p : Id) (fields : ProjectRow) (authorized : Option (List GatedField))
    (updateFields : Option (List ProjectField)) (original : Option ProjectRow) : Service Unit :=
  .stmt fun _ c s =>
    match NetBoxScripts.saveProject s.projects s.revisions ⟨some p, fields, authorized⟩ original
        updateFields with
    | .error _ => some (.error .validation, s)
    | .ok projects =>
      if c = .fail then some (.error .escaped, s) else some (.ok (), { s with projects })

/-- `ScriptProject.save(update_fields=…)` of an instance of a stored project. -/
def saveProject (p : Id) (fields : ProjectRow) (authorized : Option (List GatedField))
    (updateFields : Option (List ProjectField)) : Service Unit := do
  -- read outside, because the lock is derived from it and it is immutable
  let stored ← Prog.query fun s => s.projects.row p
  projectWriteLock ((stored.map ProjectRow.storageKey).getD fields.storageKey) do
    let original ← Prog.query fun s => s.projects.row p
    storeProject p fields authorized updateFields original

/-- What is done to a loaded Script: anything but to what identifies it. -/
structure ScriptEdit where
  apply : ScriptRow → ScriptRow
  project : ∀ row, (apply row).project = row.project
  identity : ∀ row, (apply row).identity = row.identity

/-- The instance with the `PUBLISHED_SCRIPT_FIELDS` of the row. -/
def restorePublished (stale row : ScriptRow) : ScriptRow :=
  { stale with
    description := row.description
    displayName := row.displayName
    isRetired := row.isRetired
    lastSeenRevision := row.lastSeenRevision
    metadata := row.metadata }

/-- `NetBoxScript.save()`, naming no fields. The row is locked as it is read, so that the transaction
is one step. -/
def saveScript (i : Id) (stale : ScriptRow) : Service Unit := .stmt fun _ c s =>
  match s.scripts.row i with
  -- no request deletes a row
  | none => some (.error .doesNotExist, s)
  | some row =>
    if c = .fail then some (.error .escaped, s)
    else some (.ok (), { s with scripts := s.scripts.modify i fun _ => restorePublished stale row })

/-- A Script is loaded, changed in memory, and saved at any later time. -/
def editScript (i : Id) (edit : ScriptEdit) : Service Unit := do
  match ← Prog.query fun s => s.scripts.row i with
  | none => .raise .doesNotExist
  | some row => saveScript i (edit.apply row)

end Saves

/-! ## Calls and saves -/

/-- A call of a service, or a save. A partial save of a project does not name its pointer. -/
inductive Act (Cls : Type)
  | service (call : Call Cls)
  | save (p : Id) (fields : ProjectRow) (authorized : Option (List GatedField))
    (updateFields : Option (List ProjectField))
    (h : ∀ named, updateFields = some named → ProjectField.activeRevision ∉ named)
  | edit (i : Id) (change : ScriptEdit)

variable {Cls : Type} [DecidableEq Cls] [Unicode] [Hashing]

/-- What is done. -/
def Act.body : Act Cls → Service Unit
  | .service call => call.body
  | .save p fields authorized updateFields _ => saveProject p fields authorized updateFields
  | .edit i change => editScript i change

/-- Any number of calls and saves, any of which may end at any point, while the clock goes on. -/
def publication : System World Choice Failure (Act Cls) where
  body := Act.body
  reap t s := s.reap t
  tick s := { s with now := s.now + 1 }

/-! ## Agreement -/

/-- **The three records agree**: a pointer is to the project's active revision, whose scripts are in
service, an active revision is pointed to, and without a pointer no script is in service. -/
structure Consistent (s : World) : Prop where
  served : ∀ p r, pointer s p = some r → ∃ row, s.revisions.row r = some row ∧ row.project = p ∧
    row.status = .active ∧ Vanishing.hasDigest row = true ∧
    Published s.scripts p r row.discoveredScripts
  pointed : ∀ r row, s.revisions.row r = some row → row.status = .active →
    pointer s row.project = some r
  idle : ∀ i script, s.scripts.row i = some script → pointer s script.project = none →
    script.isRetired = true
  unique : UniqueScripts s.scripts

section Agreement

omit [DecidableEq Cls] [Unicode] [Hashing]

variable {t : ThreadId} {s s' : World} {p r : Id}

/-- Where nothing is published the records go on to agree. -/
theorem Consistent.quiet (h : Consistent s) (hquiet : Quiet t s s') : Consistent s' where
  served p r hpointer := by
    rw [hquiet.pointer] at hpointer
    obtain ⟨row, hrow, howner, hstatus, hdigest, hpublished⟩ := h.served p r hpointer
    exact ⟨row, (hquiet.active r row hstatus).mpr hrow, howner, hstatus, hdigest,
      hquiet.scripts ▸ hpublished⟩
  pointed r row hrow hstatus := by
    rw [hquiet.pointer]
    exact h.pointed r row ((hquiet.active r row hstatus).mp hrow) hstatus
  idle i script hscript hpointer := by
    rw [hquiet.pointer] at hpointer
    rw [hquiet.scripts] at hscript
    exact h.idle i script hscript hpointer
  unique := by
    rw [hquiet.scripts]
    exact h.unique

/-- A save of a Script that changes nothing that is published. -/
theorem Consistent.modifyScript (h : Consistent s) {i : Id} {row new : ScriptRow}
    (hrow : s.scripts.row i = some row) (hsame : SamePublished row new) :
    Consistent { s with scripts := s.scripts.modify i fun _ => new } := by
  have hforth : ∀ j a, s.scripts.row j = some a →
      ∃ b, (s.scripts.modify i fun _ => new).row j = some b ∧ SamePublished a b := by
    intro j a ha
    by_cases hj : j = i
    · subst hj
      obtain rfl := Option.some.inj (hrow.symm.trans ha)
      exact ⟨new, by rw [Table.row_modify_self, hrow, Option.map_some], hsame⟩
    · exact ⟨a, by rw [Table.row_modify_of_ne hj, ha], .refl a⟩
  have hback : ∀ j b, (s.scripts.modify i fun _ => new).row j = some b →
      ∃ a, s.scripts.row j = some a ∧ SamePublished a b := by
    intro j b hb
    obtain ⟨a, ha, rfl⟩ := Table.row_modify_eq_some hb
    refine ⟨a, ha, ?_⟩
    split_ifs with hj
    · subst hj
      obtain rfl := Option.some.inj (hrow.symm.trans ha)
      exact hsame
    · exact .refl a
  refine ⟨fun p r hpointer => ?_, h.pointed, fun j b hb hpointer => ?_, fun j k b c hb hc => ?_⟩
  · obtain ⟨row, hrow, howner, hstatus, hdigest, hpublished⟩ := h.served p r hpointer
    exact ⟨row, hrow, howner, hstatus, hdigest,
      hpublished.of_same (fun j a ha _ => hforth j a ha) fun j b hb _ => hback j b hb⟩
  · obtain ⟨a, ha, hsame⟩ := hback j b hb
    rw [hsame.isRetired]
    exact h.idle j a ha (hsame.project ▸ hpointer)
  · obtain ⟨b', hb', hsame⟩ := hback j b hb
    obtain ⟨c', hc', hsame'⟩ := hback k c hc
    intro hproject hidentity
    rw [hsame.project, hsame'.project] at hproject
    rw [hsame.identity, hsame'.identity] at hidentity
    exact h.unique j k b' c' hb' hc' hproject hidentity

theorem pointer_promote {row : RevisionRow} {project : ProjectRow}
    (hproject : s.projects.row p = some project) (q : Id) :
    pointer (s.promote p r row project) q = if q = p then some r else pointer s q := by
  unfold pointer
  show ((s.projects.modify p _).row q).bind _ = _
  split_ifs with hq
  · subst hq
    rw [Table.row_modify_self, hproject]
    rfl
  · rw [Table.row_modify_of_ne hq]

theorem keyOf_promote {row : RevisionRow} {project : ProjectRow} :
    keyOf (s.promote p r row project) = keyOf s := by
  funext q
  unfold keyOf
  show ((s.projects.modify p _).row q).map _ = _
  by_cases hq : q = p
  · subst hq
    rw [Table.row_modify_self, Option.map_map]
    rfl
  · rw [Table.row_modify_of_ne hq]

theorem pointer_deactivate (q : Id) :
    pointer (s.deactivate p r) q = if q = p then none else pointer s q := by
  unfold pointer
  show ((s.projects.modify p _).row q).bind _ = _
  split_ifs with hq
  · subst hq
    rw [Table.row_modify_self]
    cases s.projects.row q <;> rfl
  · rw [Table.row_modify_of_ne hq]

theorem keyOf_deactivate : keyOf (s.deactivate p r) = keyOf s := by
  funext q
  unfold keyOf
  show ((s.projects.modify p _).row q).map _ = _
  by_cases hq : q = p
  · subst hq
    rw [Table.row_modify_self, Option.map_map]
    rfl
  · rw [Table.row_modify_of_ne hq]

/-- **A promotion** moves the pointer, the statuses and the rows together. -/
theorem Consistent.promote (h : Consistent s) {row : RevisionRow} {project : ProjectRow}
    (hproject : s.projects.row p = some project) (hrow : s.revisions.row r = some row)
    (howner : row.project = p) (hdigest : Vanishing.hasDigest row = true)
    (hnodup : (row.discoveredScripts.map ScriptRecord.identity).Nodup) :
    Consistent (s.promote p r row project) := by
  have hpointer : pointer s p = project.activeRevision := by
    rw [pointer, hproject]
    rfl
  have hpublished : Published (s.promote p r row project).scripts p r row.discoveredScripts :=
    synchronizeScripts_published h.unique hnodup
  -- the revision is active afterwards, the one served before is not, and all others are as before
  obtain ⟨hactive, hother, hback⟩ : (∃ row', (s.promote p r row project).revisions.row r = some row' ∧
        row'.project = p ∧ row'.status = .active ∧ Vanishing.hasDigest row' = true ∧
        row'.discoveredScripts = row.discoveredScripts) ∧
      (∀ q other, s.revisions.row q = some other → other.project ≠ p →
        (s.promote p r row project).revisions.row q = some other) ∧
      ∀ q other, (s.promote p r row project).revisions.row q = some other →
        other.status = .active → other.project = p ∧ q = r ∨
          s.revisions.row q = some other ∧ pointer s p ≠ some q := by
    by_cases halready : row.status = .active ∧ project.activeRevision = some r
    · have hrevisions : (s.promote p r row project).revisions = s.revisions := if_pos halready
      rw [hrevisions]
      refine ⟨⟨row, hrow, howner, halready.1, hdigest, rfl⟩, fun _ _ hq _ => hq,
        fun q other hq hstatus => ?_⟩
      by_cases hqr : q = r
      · subst hqr
        obtain rfl := Option.some.inj (hrow.symm.trans hq)
        exact .inl ⟨howner, rfl⟩
      · refine .inr ⟨hq, fun hserves => hqr ?_⟩
        rw [hpointer, halready.2] at hserves
        exact (Option.some.inj hserves).symm
    · have hrows := row_promote (s := s) (p := p) halready
      refine ⟨⟨{ row with status := .active, activated := some s.now }, ?_, howner, rfl, hdigest,
        rfl⟩, fun q other hq hne => ?_, fun q other hq hstatus => ?_⟩
      · rw [hrows, hrow, Option.map_some, if_pos rfl]
      · have hqr : q ≠ r := by
          rintro rfl
          obtain rfl := Option.some.inj (hq.symm.trans hrow)
          exact hne howner
        have hprevious : project.activeRevision ≠ some q := by
          intro hserves
          obtain ⟨previous, hprevious, howner', -⟩ := h.served p q (hpointer.trans hserves)
          obtain rfl := Option.some.inj (hq.symm.trans hprevious)
          exact hne howner'
        rw [hrows, hq, Option.map_some, if_neg hqr, if_neg hprevious]
      · rw [hrows] at hq
        obtain ⟨old, hold, rfl⟩ := Option.map_eq_some_iff.mp hq
        split_ifs at hstatus ⊢ with hqr hserves
        · subst hqr
          obtain rfl := Option.some.inj (hold.symm.trans hrow)
          exact .inl ⟨howner, rfl⟩
        · exact .inr ⟨hold, hpointer ▸ hserves⟩
  refine ⟨fun q r' hq => ?_, fun q other hq hstatus => ?_, fun i script hscript hnone => ?_, ?_⟩
  · rw [pointer_promote hproject] at hq
    split_ifs at hq with heq
    · obtain ⟨row', hrow', howner', hstatus, hdigest', hscripts⟩ := hactive
      obtain rfl := Option.some.inj hq
      exact ⟨row', hrow', howner'.trans heq.symm, hstatus, hdigest', hscripts ▸ heq ▸ hpublished⟩
    · obtain ⟨other, hrow', howner', hstatus, hdigest', hscripts⟩ := h.served q r' hq
      exact ⟨other, hother r' other hrow' (howner' ▸ heq), howner', hstatus, hdigest',
        hscripts.synchronize_other h.unique heq⟩
  · rw [pointer_promote hproject]
    rcases hback q other hq hstatus with ⟨howner', rfl⟩ | ⟨hold, hne⟩
    · rw [if_pos howner']
    · have hserves := h.pointed q other hold hstatus
      rw [if_neg, hserves]
      intro heq
      exact hne (heq ▸ hserves)
  · rw [pointer_promote hproject] at hnone
    split_ifs at hnone with heq
    exact h.idle i script ((synchronizeScripts_foreign h.unique heq).mp hscript) hnone
  · exact synchronizeScripts_unique h.unique

/-- **A deactivation** clears the pointer, and retires the revision and the rows. -/
theorem Consistent.deactivate (h : Consistent s) (hserves : pointer s p = some r) :
    Consistent (s.deactivate p r) := by
  have hpublished : Published (s.deactivate p r).scripts p r [] :=
    synchronizeScripts_published h.unique List.nodup_nil
  obtain ⟨row, hrow, howner, -⟩ := h.served p r hserves
  have hother : ∀ q, q ≠ r → (s.deactivate p r).revisions.row q = s.revisions.row q :=
    fun q hq => Table.row_modify_of_ne hq
  refine ⟨fun q r' hq => ?_, fun q other hq hstatus => ?_, fun i script hscript hnone => ?_, ?_⟩
  · rw [pointer_deactivate] at hq
    split_ifs at hq with heq
    obtain ⟨other, hrow', howner', hstatus, hdigest, hscripts⟩ := h.served q r' hq
    have hne : r' ≠ r := by
      rintro rfl
      obtain rfl := Option.some.inj (hrow.symm.trans hrow')
      exact heq (howner'.symm.trans howner)
    exact ⟨other, (hother r' hne).trans hrow', howner', hstatus, hdigest,
      hscripts.synchronize_other h.unique heq⟩
  · by_cases hqr : q = r
    · subst hqr
      obtain ⟨old, -, rfl⟩ := Table.row_modify_eq_some hq
      rw [if_pos rfl] at hstatus
      cases hstatus
    · rw [hother q hqr] at hq
      have hpointed := h.pointed q other hq hstatus
      rw [pointer_deactivate, if_neg, hpointed]
      intro heq
      rw [heq, hserves] at hpointed
      exact hqr (Option.some.inj hpointed).symm
  · rw [pointer_deactivate] at hnone
    by_cases heq : script.project = p
    · by_contra hretired
      obtain ⟨record, hmem, -⟩ := hpublished.sound i script hscript heq
        (Bool.eq_false_iff.mpr hretired)
      cases hmem
    · rw [if_neg heq] at hnone
      exact h.idle i script ((synchronizeScripts_foreign h.unique heq).mp hscript) hnone
  · exact synchronizeScripts_unique h.unique

end Agreement

/-! ## Careful changes -/

/-- **What a thread may change**: the pointer of a project only under its lock. -/
structure Careful (t : ThreadId) (s s' : World) : Prop where
  keyOf : keyOf s' = keyOf s
  pointer : ∀ p, pointer s' p ≠ pointer s p → ∃ k, Lifecycle.keyOf s p = some k ∧ s.Holds t k
  scripts : ∀ i row, s.scripts.row i = some row → ∃ row', s'.scripts.row i = some row' ∧
    row'.project = row.project ∧ row'.identity = row.identity
  locks : OwnLocks t s s'
  consistent : Consistent s → Consistent s'

section Careful

omit [DecidableEq Cls]

variable {t : ThreadId} {s s' : World} {p r i : Id} {k : StorageKey}

omit [Unicode] [Hashing] in
theorem careful_quiet (h : Quiet t s s') : Careful t s s' where
  keyOf := h.keyOf
  pointer p hne := absurd (congrFun h.pointer p) hne
  scripts _ row hrow := ⟨row, h.scripts ▸ hrow, rfl, rfl⟩
  locks := h.locks
  consistent hs := hs.quiet h

omit [Unicode] [Hashing] in
theorem careful_modifyScript {row new : ScriptRow} (hrow : s.scripts.row i = some row)
    (hsame : SamePublished row new) :
    Careful t s { s with scripts := s.scripts.modify i fun _ => new } where
  keyOf := rfl
  pointer _ hne := absurd rfl hne
  scripts j a ha := by
    by_cases hj : j = i
    · subst hj
      obtain rfl := Option.some.inj (hrow.symm.trans ha)
      exact ⟨new, by rw [Table.row_modify_self, hrow, Option.map_some], hsame.project,
        hsame.identity⟩
    · exact ⟨a, by rw [Table.row_modify_of_ne hj, ha], rfl, rfl⟩
  locks := .refl
  consistent hs := hs.modifyScript hrow hsame

omit [Unicode] [Hashing] in
/-- A promotion under the lock of the project. -/
theorem careful_promotion (hkey : keyOf s p = some k) (hlock : s.Holds t k)
    (h : Promotion p r s s') : Careful t s s' := by
  cases h with
  | refused => exact careful_quiet .refl
  | @done project row hproject hrow howner _ hdigest hrecords =>
    refine ⟨keyOf_promote, fun q hne => ?_, fun _ _ => synchronizeScripts_keeps, .refl,
      fun hs => hs.promote hproject hrow howner hdigest ?_⟩
    · rw [pointer_promote hproject] at hne
      split_ifs at hne with hq
      · exact ⟨k, hq ▸ hkey, hlock⟩
      · exact absurd rfl hne
    · unfold validatedRecords at hrecords
      split at hrecords
      · next haccepted => exact ((validateDiscoveredScripts_toJson_iff _).mp haccepted).2
      · cases hrecords

omit [Unicode] [Hashing] in
/-- A deactivation under the lock of the project. -/
theorem careful_deactivation (hkey : keyOf s p = some k) (hlock : s.Holds t k)
    (h : Deactivation p r s s') : Careful t s s' := by
  cases h with
  | refused => exact careful_quiet .refl
  | @done project hproject hactive =>
    refine ⟨keyOf_deactivate, fun q hne => ?_, fun _ _ => synchronizeScripts_keeps, .refl,
      fun hs => hs.deactivate ?_⟩
    · rw [pointer_deactivate] at hne
      split_ifs at hne with hq
      · exact ⟨k, hq ▸ hkey, hlock⟩
      · exact absurd rfl hne
    · rw [Lifecycle.pointer, hproject]
      exact hactive

/-! ## What others leave alone -/

omit [Unicode] [Hashing] in
theorem stable_keyOf {key : Option StorageKey} : Stable Careful t fun s => keyOf s p = key :=
  fun _ _ _ _ h hs => (congrFun h.keyOf p).trans hs

omit [Unicode] [Hashing] in
theorem stable_holds : Stable Careful t fun s => s.Holds t k := by
  rintro u s s' hne h ⟨n, hlock⟩
  exact ⟨n, (h.locks k t n (Ne.symm hne)).mpr hlock⟩

omit [Unicode] [Hashing] in
/-- A thread that holds the lock of a project finds its key and its pointer as they were. -/
theorem stable_pointer {served : Option Id} : Stable Careful t fun s =>
    (keyOf s p = some k ∧ s.Holds t k) ∧ pointer s p = served := by
  rintro u s s' hne h ⟨⟨hkey, hlock⟩, hpointer⟩
  refine ⟨⟨stable_keyOf u s s' hne h hkey, stable_holds u s s' hne h hlock⟩, ?_⟩
  by_contra hchanged
  rw [← hpointer] at hchanged
  obtain ⟨k', hkey', n, hlock'⟩ := h.pointer p hchanged
  obtain rfl := Option.some.inj (hkey.symm.trans hkey')
  obtain ⟨m, hlock⟩ := hlock
  rw [hlock] at hlock'
  cases hlock'
  exact hne rfl

omit [Unicode] [Hashing] in
theorem stable_script {project : Id} {identity : ScriptIdentity} : Stable Careful t fun s =>
    ∃ row, s.scripts.row i = some row ∧ row.project = project ∧ row.identity = identity := by
  rintro u s s' hne h ⟨row, hrow, rfl, rfl⟩
  exact h.scripts i row hrow

/-! ## Programs -/

/-- Every action of the program is careful. -/
abbrev Keeps {α : Type} (t : ThreadId) (prog : Service α) (s : World) : Prop :=
  wp Careful t (Careful t) prog (fun _ _ => True) s

omit [Unicode] [Hashing] in
theorem keeps_quiet {α : Type} {prog : Service α} (h : prog.EachStep Quiet) : Keeps t prog s :=
  (h.mono fun _ _ _ => careful_quiet).wp

omit [Unicode] [Hashing] in
theorem keeps_bind {α β : Type} {prog : Service α} {f : α → Service β}
    (found : α → World → Prop)
    (h : wp Careful t (Careful t) prog (andThen found fun _ _ => True) s)
    (hf : ∀ a s, found a s → Keeps t (f a) s) : Keeps t (prog >>= f) s := by
  rw [Keeps, wp_bind]
  refine wp_mono (fun result s₁ h₁ => ?_) h
  cases result with
  | ok a => exact hf a s₁ h₁
  | error e => trivial

omit [Unicode] [Hashing] in
/-- What comes before a part does not matter to it. -/
theorem keeps_after {α β : Type} {prog : Service α} {f : α → Service β} (h : Keeps t prog s)
    (hf : ∀ a s, Keeps t (f a) s) : Keeps t (prog >>= f) s := by
  refine keeps_bind (fun _ _ => True) (wp_mono (fun result s₁ _ => ?_) h) fun a s₁ _ => hf a s₁
  cases result with
  | ok a => exact trivial
  | error e => exact trivial

omit [Unicode] [Hashing] in
/-- A read, of which an assertion tells that others keep. -/
theorem wp_read {α : Type} {read : World → α} {assertion : World → Prop}
    (hkept : Stable Careful t assertion) (hs : assertion s) :
    wp Careful t (Careful t) (.query read : Service α)
      (andThen (fun a s' => a = read s' ∧ assertion s') fun _ _ => True) s :=
  wp_query (fun _ => careful_quiet .refl) hkept hs fun _ hs' => ⟨rfl, hs'⟩

omit [Unicode] [Hashing] in
/-- **A body under the lock** of a project whose storage key was read before. -/
theorem keeps_projectLock {body : Service Unit} {key : Option StorageKey} (hkey : keyOf s p = key)
    (hbody : ∀ s, keyOf s p = key → s.Holds t k → Keeps t body s) :
    Keeps t (projectLock k body) s := by
  have hacquire : wp Careful t (Careful t) (acquireLock k)
      (andThen (fun _ s' => keyOf s' p = key ∧ s'.Holds t k) fun _ _ => True) s := by
    refine wp_stmt stable_keyOf hkey fun s' hs' c result s'' hstep => ?_
    refine ⟨careful_quiet (eachStep_acquireLock.1 t c s' result s'' hstep), ?_⟩
    split at hstep
    · cases hstep
      exact ⟨hs', 1, Function.update_self ..⟩
    · next u n hlock =>
      split_ifs at hstep with hu
      cases hstep
      exact ⟨hs', n + 2, Function.update_self ..⟩
    · cases hstep
  refine keeps_bind _ hacquire fun _ s₁ h₁ => ?_
  refine wp_finallyDo (wp_mono (fun result s₂ _ => ?_) (hbody s₁ h₁.1 h₁.2))
  refine wp_mono (fun result' s₃ _ => ?_) (keeps_quiet (t := t) (s := s₂) eachStep_releaseLock)
  cases result' with
  | ok _ => exact trivial
  | error _ => exact trivial

omit [Unicode] [Hashing] in
theorem keeps_getProject {β : Type} {failure : Failure} {f : ProjectRow → Service β}
    (hf : ∀ project s, keyOf s p = some project.storageKey → Keeps t (f project) s) :
    Keeps t (getProject p failure >>= f) s := by
  refine keeps_bind (fun project s' => keyOf s' p = some project.storageKey) ?_ hf
  rw [getProject, wp_bind]
  refine wp_mono (fun answer s' hanswer => ?_) (wp_read (Stable.const True) trivial)
  cases answer with
  | error e => trivial
  | ok answer =>
    obtain ⟨rfl, -⟩ := hanswer
    rw [andThen_ok]
    split
    · next project hproject =>
      show keyOf s' p = some project.storageKey
      rw [keyOf, hproject]
      rfl
    · exact trivial

omit [Unicode] [Hashing] in
theorem keeps_ofExcept {α β : Type} {result : Except Failure α} {f : α → Service β}
    (hf : ∀ a, Keeps t (f a) s) : Keeps t (Prog.ofExcept result >>= f) s := by
  rw [Keeps, wp_bind, wp_ofExcept]
  cases result with
  | ok a => exact hf a
  | error e => trivial

omit [Unicode] [Hashing] in
theorem keeps_check {ε α β : Type} {failure : ε → Failure} {result : Except ε α}
    {f : α → Service β} (hf : ∀ a, Keeps t (f a) s) : Keeps t (check failure result >>= f) s := by
  cases result with
  | ok a => exact hf a
  | error e => trivial

omit [Unicode] [Hashing] in
/-- After a part that changes nothing an assertion holds that others keep. -/
theorem keeps_unchanged {α β : Type} {prog : Service α} {f : α → Service β}
    {assertion : World → Prop} (h : prog.EachStep fun _ s s' => s' = s)
    (hkept : Stable Careful t assertion) (hs : assertion s)
    (hf : ∀ a s, assertion s → Keeps t (f a) s) : Keeps t (prog >>= f) s := by
  refine keeps_bind (fun _ => assertion) (wp_mono (fun result s₁ h₁ => ?_) (h.keeps
    (fun s s' heq => heq ▸ careful_quiet .refl) (fun s s' heq hs => heq ▸ hs) hkept hs)) hf
  cases result with
  | ok a => exact h₁
  | error e => trivial

omit [Unicode] [Hashing] in
theorem keeps_transaction {body : Service Unit} (h : Keeps t body s) :
    Keeps t (transaction body) s := by
  refine wp_finallyDo (wp_mono (fun result s₁ _ => ?_) h)
  have hclose : closeTransaction.EachStep Quiet := by
    refine eachStep_stmt fun t c s answer s' hstep => ?_
    cases hstep
    exact .of_rows_eq rfl rfl rfl .refl
  refine wp_mono (fun result' s₂ _ => ?_) (keeps_quiet (t := t) (s := s₁) hclose)
  cases result' with
  | ok _ => exact trivial
  | error _ => exact trivial

/-- **An activation**: the promotion is made under the lock of the revision's project. -/
theorem keeps_activateRevision {revision : RevisionRow} {automatic isRepair : Bool} :
    Keeps t (activateRevision r revision automatic isRepair) s := by
  refine keeps_ofExcept fun _ => ?_
  refine keeps_after (keeps_quiet eachStep_getRevision) fun snapshot _ => ?_
  refine keeps_getProject fun project s₁ hkey => ?_
  refine keeps_ofExcept fun _ => keeps_check fun _ => ?_
  refine keeps_projectLock hkey fun s₂ hkey₂ hlock₂ => keeps_ofExcept fun _ => ?_
  refine keeps_unchanged eachStep_verifyRevisionTree (stable_keyOf.and stable_holds)
    ⟨hkey₂, hlock₂⟩ fun _ s₃ hs₃ => ?_
  refine wp_stmt (stable_keyOf.and stable_holds) hs₃ fun s' hs' c result s'' hstep => ?_
  exact ⟨careful_promotion hs'.1 hs'.2 (eachStep_promote.1 t c s' result s'' hstep), trivial⟩

omit [Unicode] [Hashing] in
/-- **A deactivation** is made under the lock of the project. -/
theorem keeps_deactivateRevision : Keeps t (deactivateRevision p r) s := by
  refine keeps_getProject fun project s₁ hkey => ?_
  refine keeps_projectLock hkey fun s₂ hkey₂ hlock₂ => ?_
  refine wp_stmt (stable_keyOf.and stable_holds) ⟨hkey₂, hlock₂⟩
    fun s' hs' c result s'' hstep => ?_
  exact ⟨careful_deactivation hs'.1 hs'.2 (eachStep_deactivate.1 t c s' result s'' hstep), trivial⟩

omit [Unicode] [Hashing] in
/-- What a save leaves of the row it was compared with: the pointer and the storage key. -/
theorem overwrite_restored {revisions : Table RevisionRow} {project : ProjectInstance}
    {row read : ProjectRow} {updateFields : Option (List ProjectField)}
    (hfields : ∀ named, updateFields = some named → ProjectField.activeRevision ∉ named)
    (hrefusal : saveRefusal revisions project (project.restored read updateFields) read
      updateFields = none)
    (hkey : row.storageKey = read.storageKey) (hpointer : row.activeRevision = read.activeRevision) :
    (row.overwrite (project.restored read updateFields) updateFields).activeRevision =
        row.activeRevision ∧
      (row.overwrite (project.restored read updateFields) updateFields).storageKey =
        row.storageKey := by
  have hrestored : read.storageKey = (project.restored read updateFields).storageKey := by
    by_contra hne
    rw [saveRefusal, if_pos (.inr (.inr hne))] at hrefusal
    cases hrefusal
  constructor
  · cases updateFields with
    | none => exact hpointer.symm
    | some named =>
      have hwrites : writes (some named) .activeRevision = false :=
        decide_eq_false (hfields named rfl)
      rw [ProjectRow.overwrite, hwrites]
      rfl
  · show (if writes updateFields .storageKey then _ else _) = _
    split_ifs
    · exact hrestored.symm.trans hkey.symm
    · rfl

omit [Unicode] [Hashing] in
/-- **A save of a project** writes back the pointer that the row has. -/
theorem keeps_saveProject {fields : ProjectRow} {authorized : Option (List GatedField)}
    {updateFields : Option (List ProjectField)}
    (hfields : ∀ named, updateFields = some named → ProjectField.activeRevision ∉ named) :
    Keeps t (saveProject p fields authorized updateFields) s := by
  refine keeps_bind _ (wp_read (Stable.const True) trivial) fun stored s₁ hstored => ?_
  obtain ⟨rfl, -⟩ := hstored
  refine keeps_projectLock (show keyOf s₁ p = keyOf s₁ p from rfl) fun s₂ hkey₂ hlock₂ =>
    keeps_transaction ?_
  refine keeps_bind _ (wp_read (stable_keyOf.and stable_holds) ⟨hkey₂, hlock₂⟩)
    fun original s₃ h₃ => ?_
  obtain ⟨rfl, hkey₃, hlock₃⟩ := h₃
  cases hread : s₃.projects.row p with
  | none =>
    refine wp_stmt (Stable.const True) trivial fun s' _ c result s'' hstep => ?_
    split at hstep
    · cases hstep
      exact ⟨careful_quiet .refl, trivial⟩
    · next projects hsave =>
      obtain ⟨_, read, -, heq, -⟩ := saveProject_ok rfl hsave
      cases heq
  | some read =>
    -- the lock is that of the row, whose key no one changes
    have hread_key : keyOf s₃ p = some read.storageKey := by
      rw [keyOf, hread]
      rfl
    have hlock_key : ((s₁.projects.row p).map ProjectRow.storageKey).getD fields.storageKey =
        read.storageKey := by
      show (keyOf s₁ p).getD _ = _
      rw [← hkey₃, hread_key, Option.getD_some]
    rw [hlock_key] at hlock₃
    refine wp_stmt stable_pointer ⟨⟨hread_key, hlock₃⟩, rfl⟩ fun s' hs' c result s'' hstep => ?_
    obtain ⟨⟨hkey', -⟩, hpointer'⟩ := hs'
    split at hstep
    · cases hstep
      exact ⟨careful_quiet .refl, trivial⟩
    · next projects hsave =>
      split_ifs at hstep
      · cases hstep
        exact ⟨careful_quiet .refl, trivial⟩
      · cases hstep
        obtain ⟨row, read', hrow, heq, hrefusal, rfl⟩ := saveProject_ok rfl hsave
        obtain rfl := Option.some.inj heq
        have hkey : row.storageKey = read.storageKey := by
          rw [keyOf, hrow] at hkey'
          exact Option.some.inj hkey'
        have hpointer : row.activeRevision = read.activeRevision := by
          rw [pointer, pointer, hrow, hread] at hpointer'
          exact hpointer'
        refine ⟨careful_quiet (Quiet.modifyProject fun project hproject => ?_), trivial⟩
        obtain rfl := Option.some.inj (hrow.symm.trans hproject)
        exact overwrite_restored hfields hrefusal hkey hpointer

omit [Unicode] [Hashing] in
/-- **A save of a Script** writes back the published fields that the row has. -/
theorem keeps_editScript {edit : ScriptEdit} : Keeps t (editScript i edit) s := by
  refine keeps_bind _ (wp_read (Stable.const True) trivial) fun loaded s₁ hloaded => ?_
  obtain ⟨rfl, -⟩ := hloaded
  cases hrow : s₁.scripts.row i with
  | none => trivial
  | some row =>
    refine wp_stmt stable_script ⟨row, hrow, rfl, rfl⟩ fun s' hs' c result s'' hstep => ?_
    obtain ⟨row', hrow', hproject, hidentity⟩ := hs'
    rw [hrow'] at hstep
    dsimp only at hstep
    split_ifs at hstep
    · cases hstep
      exact ⟨careful_quiet .refl, trivial⟩
    · cases hstep
      exact ⟨careful_modifyScript hrow' ⟨(edit.project row).trans hproject.symm,
        (edit.identity row).trans hidentity.symm, rfl, rfl, rfl, rfl, rfl⟩, trivial⟩

end Careful

/-! ## Runs -/

/-- **Every call and save** is careful. -/
theorem Act.body_careful (act : Act Cls) (t : ThreadId) (s : World) : Keeps t act.body s := by
  cases act with
  | service call =>
    cases call with
    | stage project files limits activateOnce now turns =>
      exact keeps_quiet (eachStep_bind obeys_stageRevision fun _ => eachStep_pure)
    | refresh project pk now =>
      exact keeps_quiet (eachStep_bind obeys_refreshRevisionScriptFiles fun _ => eachStep_pure)
    | validate env r job => exact keeps_quiet eachStep_validateRevision
    | activate r revision automatic isRepair => exact keeps_activateRevision
    | deactivate project r => exact keeps_deactivateRevision
  | save p fields authorized updateFields hfields => exact keeps_saveProject hfields
  | edit i change => exact keeps_editScript

omit [DecidableEq Cls] [Unicode] [Hashing] in
theorem quiet_reap {t : ThreadId} {s : World} : Quiet t s (s.reap t) := by
  refine .of_rows_eq rfl rfl rfl fun k u n hne => ?_
  show (if (s.locks k).any (·.1 == t) then none else s.locks k) = some (u, n) ↔ _
  split_ifs with hown
  · refine iff_of_false nofun fun hlock => hne ?_
    rw [hlock] at hown
    simpa using hown
  · rfl

theorem verified_publication : (publication : System World Choice Failure (Act Cls)).Verified
    Careful (fun _ => Careful) (fun _ _ => True) where
  body act t s _ := act.body_careful t s
  fresh_stable _ _ _ _ _ _ _ := trivial
  guar_change h := h
  reap _ _ := careful_quiet quiet_reap
  tick _ _ := careful_quiet (.of_rows_eq rfl rfl rfl .refl)

/-- The revision is the one and only active one of the project. -/
def OnlyActive (s : World) (p r : Id) : Prop :=
  (∃ row, s.revisions.row r = some row ∧ row.project = p ∧ row.status = .active) ∧
    ∀ q row, s.revisions.row q = some row → row.project = p → row.status = .active → q = r

omit [DecidableEq Cls] [Unicode] [Hashing] in
/-- Where the records agree, the pointer is to the one active revision. -/
theorem Consistent.pointer_eq_iff {s : World} (h : Consistent s) {p r : Id} :
    pointer s p = some r ↔ OnlyActive s p r := by
  constructor
  · intro hserves
    obtain ⟨row, hrow, howner, hstatus, -⟩ := h.served p r hserves
    refine ⟨⟨row, hrow, howner, hstatus⟩, fun q other hq howner' hstatus' => ?_⟩
    have hpointed := h.pointed q other hq hstatus'
    rw [howner', hserves] at hpointed
    exact (Option.some.inj hpointed).symm
  · rintro ⟨⟨row, hrow, rfl, hstatus⟩, -⟩
    exact h.pointed r row hrow hstatus

section Runs

variable {pool : Pool World Choice Failure (Act Cls)} {s₀ : World} {next : ThreadId}

/-- No run removes a project. -/
theorem exists_project_run (hrun : Run publication (fun _ _ => True) (Pool.start s₀ next) pool)
    (p : Id) (hproject : (s₀.projects.row p).isSome = true) :
    ∃ project, pool.world.projects.row p = some project := by
  have hstart : Sound Careful (fun _ => Careful) (fun _ _ => True)
      (Pool.start s₀ next : Pool World Choice Failure (Act Cls)) := .start fun _ _ => trivial
  refine verified_publication.run_induction
    (motive := fun q => ∃ project, q.world.projects.row p = some project) hstart
    (Option.isSome_iff_exists.mp hproject) (fun q event q' _ hq _ _ hchange => ?_) hrun
  rcases hchange.world_change verified_publication with heq | ⟨t, hcareful⟩
  · exact heq ▸ hq
  · obtain ⟨project, hrow⟩ := hq
    have hkey : keyOf q'.world p = some project.storageKey := by
      rw [hcareful.keyOf, keyOf, hrow]
      rfl
    obtain ⟨project', hrow', -⟩ := Option.map_eq_some_iff.mp hkey
    exact ⟨project', hrow'⟩

/-- **In every committed state** the pointer of a project is to its one active revision, which has a
digest and whose records are the Script rows in service; without a pointer none is in service. -/
theorem publication_consistent (hstart : Consistent s₀)
    (hrun : Run publication (fun _ _ => True) (Pool.start s₀ next) pool) :
    ∀ p project, pool.world.projects.row p = some project →
      (∀ r, project.activeRevision = some r ↔ OnlyActive pool.world p r) ∧
      (∀ r, project.activeRevision = some r → ∃ row, pool.world.revisions.row r = some row ∧
        Vanishing.hasDigest row = true ∧
        Published pool.world.scripts p r row.discoveredScripts) ∧
      (project.activeRevision = none → ∀ i script, pool.world.scripts.row i = some script →
        script.project = p → script.isRetired = true) := by
  have hs : Consistent pool.world := verified_publication.run_invariant
    (fun _ _ _ hcareful => hcareful.consistent) (.start fun _ _ => trivial) hstart hrun
  intro p project hproject
  have hpointer : pointer pool.world p = project.activeRevision := by
    rw [pointer, hproject]
    rfl
  rw [← hpointer]
  refine ⟨fun r => hs.pointer_eq_iff, fun r hserves => ?_, fun hnone i script hscript howner => ?_⟩
  · obtain ⟨row, hrow, -, -, hdigest, hpublished⟩ := hs.served p r hserves
    exact ⟨row, hrow, hdigest, hpublished⟩
  · exact hs.idle i script hscript (howner ▸ hnone)

end Runs

omit [DecidableEq Cls] [Unicode] [Hashing] in
theorem consistent_rejectedWorld : Consistent Vanishing.rejectedWorld := by
  have hnone : ∀ p, pointer Vanishing.rejectedWorld p = none := by
    intro p
    unfold pointer
    cases hrow : Vanishing.rejectedWorld.projects.row p with
    | none => rfl
    | some row =>
      rcases Table.row_insert_eq_some hrow with ⟨-, rfl⟩ | hold
      · rfl
      · cases hold
  have hrejected : Vanishing.rejectedRow.status = .invalid := rfl
  refine ⟨fun p r hserves => ?_, fun r row hrow hstatus => ?_, fun i script hscript => ?_,
    fun i j a b ha => ?_⟩
  · rw [hnone] at hserves
    cases hserves
  · rcases Table.row_insert_eq_some hrow with ⟨-, rfl⟩ | hold
    · rw [hrejected] at hstatus
      cases hstatus
    · cases hold
  · cases hscript
  · cases ha

omit [DecidableEq Cls] [Unicode] [Hashing] in
/-- A project without a revision in service is staged, and saved with a pointer of the caller's. -/
theorem publication_consistent_staged :
    let S := @publication Unit _ asciiUnicode (tableHashing exampleTable)
    let start : Pool World Choice Failure (Act Unit) := Pool.start Vanishing.rejectedWorld 1
    let stage := Act.service (.stage 1 (oneFile (py "a.py")) ⟨10, 10, 10⟩ false 0 1)
    let stale : ProjectRow := ⟨py "p", 0, .upload, none, [], .manual, some 1, none, false, false⟩
    let save := Act.save 1 stale none none nofun
    let staged := (start.spawn S stage).drive S 1 .proceed 20
    let pool := (staged.spawn S save).drive S 2 .proceed 20
    ∃ project, pool.world.projects.row 1 = some project ∧
      (∀ r, project.activeRevision = some r ↔ OnlyActive pool.world 1 r) ∧
      (∀ r, project.activeRevision = some r → ∃ row, pool.world.revisions.row r = some row ∧
        Vanishing.hasDigest row = true ∧
        Published pool.world.scripts 1 r row.discoveredScripts) ∧
      (project.activeRevision = none → ∀ i script, pool.world.scripts.row i = some script →
        script.project = 1 → script.isRetired = true) := by
  intro S start stage stale save staged pool
  have hstaged : Run S (fun _ _ => True) start staged :=
    @run_drive World Choice Failure (Act Unit) S start (start.spawn S stage) 1 .proceed 20
      (run_spawn stage .refl)
  have hrun : Run S (fun _ _ => True) start pool :=
    @run_drive World Choice Failure (Act Unit) S start (staged.spawn S save) 2 .proceed 20
      (run_spawn save hstaged)
  obtain ⟨project, hproject⟩ := @exists_project_run Unit _ asciiUnicode (tableHashing exampleTable)
    pool Vanishing.rejectedWorld 1 hrun (1 : ℕ) rfl
  exact ⟨project, hproject, @publication_consistent Unit _ asciiUnicode
    (tableHashing exampleTable) pool Vanishing.rejectedWorld 1 consistent_rejectedWorld hrun 1
    project hproject⟩

end Publication

end NetBoxScripts
