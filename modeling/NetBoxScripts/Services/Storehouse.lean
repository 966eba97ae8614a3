import NetBoxScripts.Services.Accounting

/-!
# What a task leaves of the store

Validations, deactivations and saves leave what is stored whatever they find. An activation knows
that the revisions it writes are stored, a deletion that it has checked each of its rows, and a
cleanup that no revision addresses what it removes.

## Main definitions

* `Guards`: what has to hold for a program to change only what it may
* `Promotable`, `Comparable`, `Deleting`, `Unreferenced`: what the tasks know

## Main results

* `safe_validateRevision`, `safe_deactivateRevision`: by their actions
* `guards_projectLock`: the rule of a body under the project lock
* `guards_activateRevision`, `guards_saveProject`, `guards_deleteCollected`, `guards_cleanupJob`: by
  what they know
-/

namespace NetBoxScripts

namespace Storehouse

open Lifecycle (pointer keyOf)

/-! ## Programs by their actions -/

section Actions

variable [Unicode] [Hashing] {p q r job : Id} {k : StorageKey} {α : Type} {body : Service α}

theorem safe_unchanged (h : body.EachStep fun _ s s' => s' = s) : body.EachStep Safe := by
  refine h.mono fun t s s' heq => ?_
  rw [heq]
  exact .refl

theorem safe_query {read : World → α} : (Prog.query read : Service α).EachStep Safe :=
  eachStep_query fun _ _ => .refl

theorem safe_getProject {failure : Failure} : (getProject p failure).EachStep Safe := by
  refine eachStep_bind safe_query fun answer => ?_
  split
  · exact eachStep_pure
  · exact eachStep_raise

theorem safe_getRevision {failure : Failure} : (getRevision r failure).EachStep Safe := by
  refine eachStep_bind safe_query fun answer => ?_
  split
  · exact eachStep_pure
  · exact eachStep_raise

theorem safe_acquireLock : (acquireLock k).EachStep Safe := by
  refine eachStep_stmt fun t c s answer s' hstep => ?_
  have hlocks := (Lifecycle.eachStep_acquireLock.1 t c s answer s' hstep).locks
  split at hstep
  · cases hstep
    exact .of_eq hlocks rfl rfl rfl rfl
  · split_ifs at hstep
    cases hstep
    exact .of_eq hlocks rfl rfl rfl rfl
  · cases hstep

theorem safe_releaseLock : (releaseLock k).EachStep Safe := by
  refine eachStep_stmt fun t c s answer s' hstep => ?_
  have hlocks := (Lifecycle.eachStep_releaseLock.1 t c s answer s' hstep).locks
  split at hstep
  · split_ifs at hstep
    all_goals
      cases hstep
      exact .of_eq hlocks rfl rfl rfl rfl
  · cases hstep
    exact .refl

theorem safe_transaction (h : body.EachStep Safe) : (transaction body).EachStep Safe := by
  refine eachStep_finallyDo h (eachStep_stmt fun t c s answer s' hstep => ?_)
  cases hstep
  exact .close .refl rfl

theorem safe_projectLock (h : body.EachStep Safe) : (projectLock k body).EachStep Safe :=
  eachStep_bind safe_acquireLock fun _ => eachStep_finallyDo h safe_releaseLock

/-- A conditional update of a row whose content is written and stays so. -/
theorem safe_updateWhere {found : RevisionRow → Bool} {change : RevisionRow → RevisionRow}
    (hfound : ∀ row, found row = true → row.status.unstored = false)
    (h : ∀ row, found row = true → Continues row (change row)) :
    (Lifecycle.updateWhere r found change).EachStep Safe := by
  refine eachStep_stmt fun t c s answer s' hstep => ?_
  split at hstep
  · cases hstep
    exact .refl
  · next row hrow =>
    split_ifs at hstep with hmet
    · cases hstep
      refine .modify fun row' hrow' => ?_
      obtain rfl := Option.some.inj (hrow.symm.trans hrow')
      refine ⟨h row hmet, fun _ htree => .inl ⟨hfound row hmet, ?_⟩⟩
      rw [← (h row hmet).digest]
      exact htree.2
    · cases hstep
      exact .refl

/-! ### Validations -/

theorem safe_claimValidation {now : Time} : (Lifecycle.claimValidation r job now).EachStep Safe := by
  refine safe_updateWhere (fun row hfound => ?_) fun row hfound => ⟨rfl, rfl, rfl, fun _ => rfl⟩
  have hclaimable : Claimable row now := of_decide_eq_true hfound
  rcases hclaimable with hstatus | ⟨hstatus, -⟩
  · rw [hstatus]
    rfl
  · rw [hstatus]
    rfl

theorem safe_owned {change : RevisionRow → RevisionRow} (h : ∀ row, Continues row (change row)) :
    (Lifecycle.updateWhere r (fun row => OwnedBy row job) change).EachStep Safe := by
  refine safe_updateWhere (fun row hfound => ?_) fun row _ => h row
  have howned : OwnedBy row job := of_decide_eq_true hfound
  rw [howned.1]
  rfl

theorem safe_finalize {verdict : Verdict}
    (hverdict : verdict.status = .valid ∨ verdict.status = .invalid) :
    (Lifecycle.finalize r job verdict).EachStep Safe := by
  unfold Lifecycle.finalize
  split_ifs
  · refine safe_owned fun row => ⟨rfl, rfl, rfl, fun _ => ?_⟩
    show verdict.status.unstored = false
    rcases hverdict with hstatus | hstatus
    · rw [hstatus]
      rfl
    · rw [hstatus]
      rfl
  · exact eachStep_raise

theorem safe_revertToMaterialized {reason : PyStr} :
    (Lifecycle.revertToMaterialized r job reason).EachStep Safe := by
  unfold Lifecycle.revertToMaterialized
  split_ifs
  · exact safe_owned fun row => ⟨rfl, rfl, rfl, fun _ => rfl⟩
  · exact eachStep_raise

theorem safe_persistResult {row : RevisionRow}
    {result : SnapshotEntry × FileDiscoveryStatus × PyStr} :
    (Lifecycle.persistResult r row result).EachStep Safe := by
  unfold Lifecycle.persistResult
  split_ifs
  · refine eachStep_stmt fun t c s answer s' hstep => ?_
    split at hstep
    · cases hstep
      exact .refl
    · split_ifs at hstep
      all_goals
        cases hstep
        exact .of_eq .refl rfl rfl rfl rfl
  · exact eachStep_raise

/-- **A validation** takes rows whose content is written, and leaves it written. -/
theorem safe_validateRevision {Cls : Type} [DecidableEq Cls] {env : ValidationEnv Cls} :
    (Lifecycle.validateRevision env r job).EachStep Safe := by
  refine eachStep_bind safe_query fun now => ?_
  refine eachStep_bind safe_claimValidation fun claimed => ?_
  split_ifs
  · refine eachStep_bind safe_getRevision fun row => ?_
    split
    · exact eachStep_raise
    · exact eachStep_bind safe_revertToMaterialized fun _ => eachStep_raise
    · exact eachStep_bind safe_revertToMaterialized fun _ => eachStep_raise
    · next verdict hverdict =>
      have hlast : (do
          let _ ← getRevision r .doesNotExist
          pure () : Service Unit).EachStep Safe :=
        eachStep_bind safe_getRevision fun _ => eachStep_pure
      refine eachStep_bind (safe_finalize (Lifecycle.examineRevision_status hverdict)) fun owned => ?_
      dsimp only
      split_ifs
      · exact eachStep_bind (eachStep_forM fun _ => safe_persistResult) fun _ => hlast
      · exact hlast
  · exact eachStep_raise

/-! ### Rows beside -/

theorem safe_acceptSource {row : RevisionRow} {activateOnce : Bool} :
    (Requests.acceptSource r row activateOnce).EachStep Safe := by
  unfold Requests.acceptSource
  split_ifs
  · refine eachStep_bind safe_query fun answer => ?_
    split
    · exact eachStep_raise
    · refine eachStep_stmt fun t c s result s' hstep => ?_
      split at hstep
      · cases hstep
        exact .refl
      · split_ifs at hstep
        · cases hstep
          exact .refl
        · cases hstep
          exact .of_project rfl rfl rfl rfl .refl fun project _ => ⟨rfl, fun _ hq => .inl hq⟩
  · exact eachStep_pure

/-- A deactivation retires what the project serves, whose content is written. -/
theorem safe_deactivateRevision : (Lifecycle.deactivateRevision p r).EachStep Safe := by
  refine eachStep_bind safe_getProject fun project => safe_projectLock ?_
  refine Lifecycle.eachStep_deactivate.mono fun t s s' h => ?_
  cases h with
  | refused => exact .refl
  | done hproject hactive =>
    have hpointer : pointer s p = some r := by
      rw [pointer, hproject]
      exact hactive
    have hkeys : keyOf (s.deactivate p r) = keyOf s := Publication.keyOf_deactivate
    refine .of_leaves ⟨rfl, fun q row hrow => ?_, fun q k hkey => hkeys ▸ hkey⟩ .refl
      (fun q k hkey => hkeys ▸ hkey) rfl rfl (fun q row' hrow' => ?_) fun q i hq _ => ?_
    · by_cases hqr : q = r
      · subst hqr
        exact ⟨_, (Table.row_modify_self ..).trans (congrArg _ hrow), rfl, rfl⟩
      · exact ⟨row, (Table.row_modify_of_ne hqr).trans hrow, rfl, rfl⟩
    · obtain ⟨row, hrow, rfl⟩ := Table.row_modify_eq_some hrow'
      refine ⟨row, hrow, ?_⟩
      split_ifs with hqr
      · subst hqr
        refine ⟨⟨rfl, rfl, rfl, fun _ => rfl⟩, fun hs htree => .inl ⟨?_, htree.2⟩⟩
        exact (hs.finished p q hpointer).2 row hrow
      · exact ⟨.refl, fun _ htree => .inl htree⟩
    · rw [Publication.pointer_deactivate] at hq
      split_ifs at hq
      exact .inl hq

theorem safe_saveScriptFile {file : ScriptFileInstance} {fields : SavedFields} :
    (Requests.saveScriptFile file fields).EachStep Safe := by
  refine eachStep_bind safe_getProject fun project => safe_projectLock (safe_transaction ?_)
  refine eachStep_stmt fun t c s answer s' hstep => ?_
  split at hstep
  · cases hstep
    exact .refl
  · split_ifs at hstep
    all_goals
      cases hstep
      exact .of_eq .refl rfl rfl rfl rfl

theorem safe_deleteScriptFile {f : Id} : (Requests.deleteScriptFile p f).EachStep Safe := by
  refine eachStep_bind safe_query fun answer => ?_
  split
  · exact eachStep_pure
  · refine safe_projectLock (safe_transaction (eachStep_stmt fun t c s answer s' hstep => ?_))
    split at hstep
    · cases hstep
      exact .refl
    · split_ifs at hstep
      all_goals
        cases hstep
        exact .of_eq .refl rfl rfl rfl rfl

end Actions

/-! ## Programs by what they know -/

section Rules

variable [Unicode] [Hashing] {t : ThreadId} {s : World} {p r : Id} {k : StorageKey} {α β : Type}
  {prog : Service α} {post : α → World → Prop} {assertion : World → Prop}

/-- The program changes what it may, and where it returns it ends in the postcondition. -/
abbrev Guards {α : Type} (t : ThreadId) (prog : Service α) (post : α → World → Prop) (s : World) :
    Prop :=
  wp Safe t (Safe t) prog (andThen post fun _ _ => True) s

theorem Guards.mono {post' : α → World → Prop} (h : Guards t prog post s)
    (himp : ∀ a s, post a s → post' a s) : Guards t prog post' s := by
  refine wp_mono (fun result s₁ h₁ => ?_) h
  cases result with
  | ok a => exact himp a s₁ h₁
  | error e => trivial

theorem guards_pure {a : α} (h : post a s) : Guards t (pure a : Service α) post s := h

theorem guards_raise {e : Failure} : Guards t (.raise e : Service α) post s := trivial

theorem guards_bind {f : α → Service β} {post' : β → World → Prop} (h : Guards t prog post s)
    (hf : ∀ a s', post a s' → Guards t (f a) post' s') : Guards t (prog >>= f) post' s := by
  rw [Guards, wp_bind]
  refine wp_mono (fun result s₁ h₁ => ?_) h
  cases result with
  | ok a => exact hf a s₁ h₁
  | error e => trivial

/-- One action, under an assertion that lasts. -/
theorem guards_act {γ : Type} {step : ThreadId → Choice → World → Option (γ × World)}
    {next : γ → Service α} (hstable : Stable Safe t assertion) (hs : assertion s)
    (h : ∀ s', assertion s' → ∀ c b s'', step t c s' = some (b, s'') →
      Safe t s' s'' ∧ Guards t (next b) post s'') : Guards t (.act step next) post s :=
  fun s' hrely c b s'' hstep => h s' (hstable.rely hrely hs) c b s'' hstep

theorem guards_query {read : World → α} (hstable : Stable Safe t assertion) (hs : assertion s) :
    Guards t (.query read) (fun a s' => a = read s' ∧ assertion s') s := by
  refine guards_act hstable hs fun s' hs' c result s'' hstep => ?_
  cases hstep
  exact ⟨.refl, guards_pure ⟨rfl, hs'⟩⟩

/-- A program by its actions. -/
theorem guards_each (h : prog.EachStep Safe) : Guards t prog (fun _ _ => True) s := by
  refine wp_mono (fun result s₁ _ => ?_) h.wp
  cases result <;> trivial

/-- A program by its actions keeps what everybody keeps. -/
theorem guards_keeps (h : prog.EachStep Safe)
    (hkept : ∀ u s s', Safe u s s' → assertion s → assertion s') (hs : assertion s) :
    Guards t prog (fun _ => assertion) s := by
  refine wp_mono (fun result s₁ h₁ => ?_) (h.keeps (fun _ _ h => h) (hkept t)
    (lasting_of hkept).stable hs)
  cases result with
  | ok a => exact h₁
  | error e => trivial

theorem guards_getProject {failure : Failure} (hlasting : Lasting t assertion)
    (hs : assertion s) : Guards t (getProject p failure)
      (fun project s' => s'.projects.row p = some project ∧ assertion s') s := by
  refine guards_bind (guards_query hlasting.stable hs) ?_
  rintro answer s' ⟨rfl, hs'⟩
  split
  · next hproject => exact guards_pure ⟨hproject, hs'⟩
  · exact guards_raise

theorem guards_getRevision {failure : Failure} (hlasting : Lasting t assertion)
    (hs : assertion s) : Guards t (getRevision r failure)
      (fun row s' => s'.revisions.row r = some row ∧ assertion s') s := by
  refine guards_bind (guards_query hlasting.stable hs) ?_
  rintro answer s' ⟨rfl, hs'⟩
  split
  · next hrow => exact guards_pure ⟨hrow, hs'⟩
  · exact guards_raise

/-- A body and a cleanup, which is a program by its actions and keeps what everybody keeps. -/
theorem guards_finallyDo {body : Service α} {cleanup : Service Unit} {after : α → World → Prop}
    (hafter : ∀ a u s s', Safe u s s' → after a s → after a s') (h : Guards t body after s)
    (hcleanup : cleanup.EachStep Safe) : Guards t (body.finallyDo cleanup) after s := by
  refine wp_finallyDo (wp_mono (fun result s₁ h₁ => ?_) h)
  cases result with
  | ok a =>
    refine wp_mono (fun result' s₂ h₂ => ?_) (guards_keeps hcleanup (hafter a) h₁)
    cases result' with
    | ok u => exact h₂
    | error e => trivial
  | error e =>
    refine wp_mono (fun result' s₂ _ => ?_) hcleanup.wp
    cases result' <;> trivial

theorem guards_transaction {body : Service α} (h : Guards t body (fun _ _ => True) s) :
    Guards t (transaction body) (fun _ _ => True) s := by
  refine guards_finallyDo (fun _ _ _ _ _ h => h) h (eachStep_stmt fun t c s answer s' hstep => ?_)
  cases hstep
  exact .close .refl rfl

/-- What a thread can rely on until it deletes or cleans up something itself. -/
def Enduring (t : ThreadId) (assertion : World → Prop) : Prop :=
  ∀ u s s', Safe u s s' → (u = t → ledger s' = ledger s) → assertion s → assertion s'

theorem Enduring.lasting (h : Enduring t assertion) : Stable Safe t assertion :=
  fun u s s' hne hsafe => h u s s' hsafe fun heq => absurd heq hne

theorem enduring_of (h : ∀ u s s', Safe u s s' → assertion s → assertion s') :
    Enduring t assertion := fun u s s' hsafe _ => h u s s' hsafe

/-- What endures does so until the lock is held. -/
theorem guards_acquireLock (henduring : Enduring t assertion) (hs : assertion s) :
    Guards t (acquireLock k) (fun _ s' => s'.Holds t k ∧ assertion s') s := by
  refine guards_act henduring.lasting hs fun s' hs' c answer s'' hstep => ?_
  have hsafe := safe_acquireLock.1 t c s' answer s'' hstep
  refine ⟨hsafe, ?_⟩
  have hassertion := fun hledger => henduring t s' s'' hsafe (fun _ => hledger) hs'
  split at hstep
  · cases hstep
    exact guards_pure ⟨⟨1, Function.update_self ..⟩, hassertion rfl⟩
  · split_ifs at hstep
    cases hstep
    exact guards_pure ⟨⟨_, Function.update_self ..⟩, hassertion rfl⟩
  · cases hstep

/-- **The project lock**, and a body under it. -/
theorem guards_locked {body : Service α} {after : α → World → Prop}
    (henduring : Enduring t assertion)
    (hafter : ∀ a u s s', Safe u s s' → after a s → after a s') (hs : assertion s)
    (h : ∀ s', s'.Holds t k → assertion s' → Guards t body after s') :
    Guards t (projectLock k body) after s := by
  refine guards_bind (guards_acquireLock henduring hs) fun _ s₁ h₁ => ?_
  exact guards_finallyDo hafter (h s₁ h₁.1 h₁.2) safe_releaseLock

theorem guards_projectLock {body : Service α}
    (hkept : ∀ u s s', Safe u s s' → assertion s → assertion s') (hs : assertion s)
    (h : ∀ s', s'.Holds t k → assertion s' → Guards t body (fun _ _ => True) s') :
    Guards t (projectLock k body) (fun _ _ => True) s :=
  guards_locked (enduring_of hkept) (fun _ _ _ _ _ h => h) hs h

end Rules

/-! ## Activations and saves -/

section Pointers

variable [Unicode] [Hashing] {t : ThreadId} {s s' : World} {p r : Id} {k : StorageKey}
  {snapshot locked revision : RevisionRow} {project : ProjectRow} {automatic isRepair : Bool}

/-- What a promotion knows of the revisions that it writes. -/
def Promotable (r : Id) (project : ProjectRow) (locked : RevisionRow) (s : World) : Prop :=
  (∀ q ∈ project.activeRevision, Finished q s) ∧ (locked.status.unstored = false → Finished r s)

theorem Safe.promotable (h : Safe t s s') (hs : Promotable r project locked s) :
    Promotable r project locked s' :=
  ⟨fun q hq => h.finished (hs.1 q hq), fun hstored => h.finished (hs.2 hstored)⟩

/-- **A promotion** activates and retires revisions whose content is written. -/
theorem safe_promotion (hs : Promotable r project locked s)
    (hstored : locked.status.unstored = false) :
    Safe t s (s.promote p r locked project) := by
  have hr := hs.2 hstored
  have hrows : ∀ q row', (s.promote p r locked project).revisions.row q = some row' →
      ∃ row, s.revisions.row q = some row ∧ Continues row row' ∧
        (row'.HasTree → row.HasTree) := by
    intro q row' hrow'
    by_cases halready : locked.status = .active ∧ project.activeRevision = some r
    · have hrevisions : (s.promote p r locked project).revisions = s.revisions := if_pos halready
      exact ⟨row', hrevisions ▸ hrow', .refl, id⟩
    · rw [Lifecycle.row_promote halready] at hrow'
      obtain ⟨row, hrow, rfl⟩ := Option.map_eq_some_iff.mp hrow'
      refine ⟨row, hrow, ?_⟩
      split_ifs with hqr hserves
      · subst hqr
        exact ⟨⟨rfl, rfl, rfl, fun _ => rfl⟩, fun htree => ⟨hr.2 row hrow, htree.2⟩⟩
      · exact ⟨⟨rfl, rfl, rfl, fun _ => rfl⟩,
          fun htree => ⟨(hs.1 q hserves).2 row hrow, htree.2⟩⟩
      · exact ⟨.refl, id⟩
  have hkeys : keyOf (s.promote p r locked project) = keyOf s := Publication.keyOf_promote
  refine .of_leaves ⟨rfl, fun q row hrow => ?_, fun q k hkey => hkeys ▸ hkey⟩ .refl
    (fun q k hkey => hkeys ▸ hkey) rfl ?_ (fun q row' hrow' => ?_) fun q i hi _ => ?_
  · by_cases halready : locked.status = .active ∧ project.activeRevision = some r
    · have hrevisions : (s.promote p r locked project).revisions = s.revisions := if_pos halready
      exact ⟨row, hrevisions ▸ hrow, rfl, rfl⟩
    · refine ⟨_, (Lifecycle.row_promote halready q).trans (congrArg _ hrow), ?_⟩
      split_ifs
      · exact ⟨rfl, rfl⟩
      · exact ⟨rfl, rfl⟩
      · exact ⟨rfl, rfl⟩
  · show (ite _ _ _ : Table RevisionRow).next = _
    split_ifs <;> rfl
  · obtain ⟨row, hrow, hsame, htree⟩ := hrows q row' hrow'
    exact ⟨row, hrow, hsame, fun _ h => .inl (htree h)⟩
  · obtain ⟨project', hproject', hactive⟩ := Option.bind_eq_some_iff.mp hi
    obtain ⟨old, hold, rfl⟩ := Table.row_modify_eq_some hproject'
    split_ifs at hactive
    · cases hactive
      exact .inr hr
    · refine .inl ?_
      rw [pointer, hold]
      exact hactive

omit [Unicode] [Hashing] in
/-- A revision whose content is not written is not promoted. -/
theorem eachStep_commitPromotion_unstored (hunstored : locked.status.unstored = true) :
    (Requests.commitPromotion snapshot r project locked isRepair).EachStep
      fun _ s s' => s' = s := by
  have hactive : ¬ (locked.status = .active ∧ project.activeRevision = some r) := by
    rintro ⟨hstatus, -⟩
    rw [hstatus] at hunstored
    cases hunstored
  have hactivatable : locked.status.activatable = false := by
    revert hunstored
    cases locked.status <;> simp [RevisionStatus.unstored, RevisionStatus.activatable]
  have hrefused : Lifecycle.requireActivatable locked
      (decide (locked.status = .active ∧ project.activeRevision = some r)) =
        .error .activationRefused := if_pos ⟨decide_eq_false hactive, hactivatable⟩
  refine eachStep_stmt fun t c s answer s' hstep => ?_
  by_cases hinputs : Lifecycle.SameInputs locked snapshot
  · rw [if_neg (not_not_intro hinputs)] at hstep
    dsimp only at hstep
    rw [hrefused] at hstep
    cases hstep
    rfl
  · rw [if_pos hinputs] at hstep
    cases hstep
    rfl

theorem guards_commitPromotion (hs : Promotable r project locked s) :
    Guards t (Requests.commitPromotion snapshot r project locked isRepair) (fun _ _ => True) s := by
  by_cases hstored : locked.status.unstored = false
  · refine guards_act (lasting_of fun _ _ _ h => h.promotable).stable hs
      fun s' hs' c answer s'' hstep => ⟨?_, guards_each eachStep_ofExcept⟩
    cases Requests.eachStep_commitPromotion.1 t c s' answer s'' hstep with
    | refused => exact .refl
    | done => exact safe_promotion hs' hstored
  · rw [Bool.not_eq_false] at hstored
    exact guards_each (safe_unchanged (eachStep_commitPromotion_unstored hstored))

theorem guards_promote (hs : Safekept s) :
    Guards t (Requests.promote snapshot r automatic isRepair) (fun _ _ => True) s := by
  refine guards_bind (guards_getProject lasting_safekept hs) ?_
  rintro project s₁ ⟨hproject, h₁⟩
  have hactive : ∀ q ∈ project.activeRevision, Finished q s₁ := by
    intro q hq
    refine h₁.finished snapshot.project q ?_
    rw [pointer, hproject]
    exact hq
  have hlasting : Lasting t fun s => ∀ q ∈ project.activeRevision, Finished q s :=
    lasting_of fun _ _ _ hsafe h q hq => hsafe.finished (h q hq)
  refine guards_bind (guards_getRevision hlasting hactive) ?_
  rintro locked s₂ ⟨hrow, h₂⟩
  have hpromotable : Promotable r project locked s₂ := by
    refine ⟨h₂, fun hstored => ⟨Table.lt_next_of_row hrow, fun row hrow' => ?_⟩⟩
    obtain rfl := Option.some.inj (hrow.symm.trans hrow')
    exact hstored
  have hcommit : ∀ (current : Bool) s₃, Promotable r project locked s₃ →
      Guards t (if current then Requests.commitPromotion snapshot r project locked isRepair
        else pure ()) (fun _ _ => True) s₃ := by
    intro current s₃ h₃
    split_ifs
    · exact guards_commitPromotion h₃
    · exact guards_pure trivial
  have hcurrent : (Requests.isCurrent r project locked).EachStep Safe := by
    unfold Requests.isCurrent
    split_ifs
    · exact eachStep_pure
    · exact eachStep_pure
    · exact eachStep_bind safe_query fun _ => eachStep_pure
  split_ifs
  · exact guards_raise
  · exact guards_bind (guards_keeps hcurrent (fun _ _ _ h => h.promotable) hpromotable) hcommit
  · exact hcommit true s₂ hpromotable

theorem guards_activateRevision (hs : Safekept s) :
    Guards t (Requests.activateRevision r revision automatic isRepair) (fun _ _ => True) s := by
  have hkept : ∀ u s s', Safe u s s' → Safekept s → Safekept s' := fun _ _ _ h => h.safekept
  refine guards_bind (guards_keeps eachStep_ofExcept hkept hs) fun _ s₁ h₁ => ?_
  refine guards_bind (guards_keeps safe_getRevision hkept h₁) fun snapshot s₂ h₂ => ?_
  refine guards_bind (guards_keeps safe_getProject hkept h₂) fun project s₃ h₃ => ?_
  refine guards_bind (guards_keeps eachStep_ofExcept hkept h₃) fun _ s₄ h₄ => ?_
  refine guards_bind (guards_keeps ?_ hkept h₄) fun _ s₅ h₅ => ?_
  · cases validateScriptFileSnapshot (.arr (snapshot.scriptFileSnapshot.map SnapshotEntry.toJson))
        snapshot.scriptFileDigest with
    | ok u => exact eachStep_pure
    | error failure => exact eachStep_raise
  refine guards_projectLock hkept h₅ fun s₆ _ h₆ => ?_
  refine guards_bind (guards_keeps eachStep_ofExcept hkept h₆) fun _ s₇ h₇ => ?_
  have hverify : (verifyRevisionTree project.storageKey (snapshot.digest.getD [])
      snapshot.manifest).EachStep Safe := safe_unchanged Lifecycle.eachStep_verifyRevisionTree
  refine guards_bind (guards_keeps hverify hkept h₇) fun _ s₈ h₈ => ?_
  exact guards_transaction (guards_promote h₈)

theorem guards_validationJob {Cls : Type} [DecidableEq Cls] {env : ValidationEnv Cls} {job : Id}
    (hs : Safekept s) : Guards t (Requests.validationJob env r job) (fun _ _ => True) s := by
  have hkept : ∀ u s s', Safe u s s' → Safekept s → Safekept s' := fun _ _ _ h => h.safekept
  have hactivate : ∀ s, Safekept s → Guards t (do
      let revision ← getRevision r .doesNotExist
      if revision.status = .invalid then pure ()
      else Requests.activateRevision r revision true false : Service Unit) (fun _ _ => True) s := by
    intro s hs
    refine guards_bind (guards_keeps safe_getRevision hkept hs) fun revision s₁ h₁ => ?_
    split_ifs
    · exact guards_pure trivial
    · exact guards_activateRevision h₁
  refine guards_bind (guards_keeps safe_query hkept hs) fun answer s₁ h₁ => ?_
  split
  · exact guards_pure trivial
  · dsimp only
    split_ifs
    · exact guards_bind (guards_keeps safe_validateRevision hkept h₁) fun _ => hactivate
    · exact hactivate s₁ h₁

/-- What a save knows of the row that it was compared with. -/
def Comparable (p : Id) (read : ProjectRow) (s : World) : Prop :=
  Homed p read.storageKey s ∧ ∀ q ∈ read.activeRevision, Finished q s

/-- **A save of a project** writes back the pointer that the row has, or had. -/
theorem guards_storeProject {fields read : ProjectRow} {authorized : Option (List GatedField)}
    {updateFields : Option (List ProjectField)}
    (hfields : ∀ named, updateFields = some named → ProjectField.activeRevision ∉ named)
    (hs : Comparable p read s) :
    Guards t (Publication.storeProject p fields authorized updateFields (some read))
      (fun _ _ => True) s := by
  have hlasting : Lasting t (Comparable p read) :=
    lasting_of fun _ _ _ hsafe h => ⟨hsafe.homed h.1, fun q hq => hsafe.finished (h.2 q hq)⟩
  refine guards_act hlasting.stable hs fun s' hs' c answer s'' hstep =>
    ⟨?_, guards_each eachStep_ofExcept⟩
  split at hstep
  · cases hstep
    exact .refl
  · next projects hsave =>
    split_ifs at hstep
    · cases hstep
      exact .refl
    · cases hstep
      obtain ⟨row, read', hrow, heq, hrefusal, rfl⟩ := saveProject_ok rfl hsave
      obtain rfl := Option.some.inj heq
      have hkey : row.storageKey = read.storageKey := by
        refine hs'.1 _ ?_
        rw [keyOf, hrow]
        rfl
      refine .of_project rfl rfl rfl rfl .refl fun project hproject => ?_
      obtain rfl := Option.some.inj (hrow.symm.trans hproject)
      refine ⟨?_, fun q hq => ?_⟩
      · have hrestored : read.storageKey =
            (ProjectInstance.restored ⟨some p, fields, authorized⟩ read updateFields).storageKey := by
          by_contra hne
          rw [saveRefusal, if_pos (.inr (.inr hne))] at hrefusal
          cases hrefusal
        show (if writes updateFields .storageKey then _ else _) = _
        split_ifs
        · exact hrestored.symm.trans hkey.symm
        · rfl
      · cases updateFields with
        | none => exact .inr (hs'.2 q hq)
        | some named =>
          have hwrites : writes (some named) .activeRevision = false :=
            decide_eq_false (hfields named rfl)
          rw [ProjectRow.overwrite, hwrites] at hq
          exact .inl hq

theorem guards_saveProject {fields : ProjectRow} {authorized : Option (List GatedField)}
    {updateFields : Option (List ProjectField)}
    (hfields : ∀ named, updateFields = some named → ProjectField.activeRevision ∉ named)
    (hs : Safekept s) : Guards t (Publication.saveProject p fields authorized updateFields)
      (fun _ _ => True) s := by
  have hkept : ∀ u s s', Safe u s s' → Safekept s → Safekept s' := fun _ _ _ h => h.safekept
  refine guards_bind (guards_keeps safe_query hkept hs) fun stored s₁ h₁ => ?_
  refine guards_projectLock hkept h₁ fun s₂ _ h₂ => guards_transaction ?_
  refine guards_bind (guards_query lasting_safekept.stable h₂) ?_
  rintro original s₃ ⟨rfl, h₃⟩
  cases hread : s₃.projects.row p with
  | none =>
    refine guards_each (eachStep_stmt fun t c s answer s' hstep => ?_)
    split at hstep
    · cases hstep
      exact .refl
    · next projects hsave =>
      obtain ⟨_, read, -, heq, -⟩ := saveProject_ok rfl hsave
      cases heq
  | some read =>
    refine guards_storeProject hfields ⟨fun k' hkey => ?_, fun q hq => ?_⟩
    · rw [keyOf, hread] at hkey
      exact (Option.some.inj hkey).symm
    · refine h₃.finished p q ?_
      rw [pointer, hread]
      exact hq

end Pointers

/-! ## Deletions -/

section Deletions

variable [Unicode] [Hashing] {t u : ThreadId} {s s' : World} {p q r : Id} {project : Option Id}
  {found : Option Captured} {captured done : List (Id × Option Captured)} {rows : List Id}

/-- The thread deletes nothing. -/
def Idle (t : ThreadId) (s : World) : Prop := Safekept s ∧ ∀ r, s.deleting r ≠ some t

theorem enduring_idle : Enduring t (Idle t) := by
  rintro u s s' hsafe hown ⟨hkept, hidle⟩
  refine ⟨hsafe.safekept hkept, fun r hr => hidle r ?_⟩
  by_cases hu : u = t
  · have hdeleting : s'.deleting = s.deleting := congrArg (fun parts => parts.2.1) (hown hu)
    rwa [hdeleting] at hr
  · exact ((hsafe.orderly hkept).deleting r t (Ne.symm hu)).mp hr

/-- What was captured of a row, if it is still there. -/
def Seen (r : Id) (found : Option Captured) (s : World) : Prop :=
  r < s.revisions.next ∧ ∀ row k digest, s.revisions.row r = some row → s.Addresses row k digest →
    found = some ⟨some digest, k, row.manifest⟩

theorem Safe.seen (h : Safe u s s') (hs : Seen r found s) : Seen r found s' := by
  refine ⟨Nat.lt_of_lt_of_le hs.1 h.next, fun row' k digest hrow' haddresses => ?_⟩
  rcases h.rows r row' hrow' with ⟨row, hrow, hsame⟩ | ⟨hnew, -⟩
  · have hkey := h.keys row'.project k haddresses.1
    rw [hsame.project] at hkey
    rw [hsame.manifest]
    exact hs.2 row k digest hrow ⟨hkey, hsame.digest.symm.trans haddresses.2⟩
  · exact absurd hs.1 (Nat.not_lt.mpr hnew)

/-- The entries of what was captured with a digest can be read back. -/
def Legible (found : Option Captured) : Prop :=
  ∀ content ∈ found, ∀ digest ∈ content.digest, ∀ entry ∈ content.manifest, entry.Readable

/-- What a deletion knows before it marks its rows. -/
def Capturing (t : ThreadId) (captured : List (Id × Option Captured)) (s : World) : Prop :=
  Idle t s ∧ ∀ found ∈ captured, Seen found.1 found.2 s ∧ Legible found.2

theorem enduring_capturing : Enduring t (Capturing t captured) :=
  fun u s s' hsafe hown hs => ⟨enduring_idle u s s' hsafe hown hs.1,
    fun found hmem => ⟨hsafe.seen (hs.2 found hmem).1, (hs.2 found hmem).2⟩⟩

/-- The rows were created. -/
def Issued (rows : List Id) (s : World) : Prop := ∀ r ∈ rows, r < s.revisions.next

theorem Safe.issued (h : Safe u s s') (hs : Issued rows s) : Issued rows s' :=
  fun r hr => Nat.lt_of_lt_of_le (hs r hr) h.next

theorem guards_capture (hs : Capturing t captured s ∧ Issued (r :: rows) s) :
    Guards t (capture r) (fun found s' => Capturing t (captured ++ [(r, found)]) s' ∧
      Issued rows s') s := by
  have hstable : Stable Safe t fun s => Capturing t captured s ∧ Issued (r :: rows) s :=
    fun u s s' hne hsafe h =>
      ⟨enduring_capturing.lasting u s s' hne hsafe h.1, hsafe.issued h.2⟩
  refine (guards_query hstable hs).mono ?_
  rintro found s' ⟨hfound, ⟨hidle, hcaptured⟩, hissued⟩
  refine ⟨⟨hidle, fun other hother => ?_⟩, fun q hq => hissued q (List.mem_cons_of_mem _ hq)⟩
  rcases List.mem_append.mp hother with hold | hnew
  · exact hcaptured other hold
  · obtain rfl := List.mem_singleton.mp hnew
    refine ⟨⟨hissued r List.mem_cons_self, fun row k digest hrow haddresses => ?_⟩, ?_⟩
    · have hkey : s'.storageKeyOf row = some k := haddresses.1
      have hdigest : row.digest = some digest := haddresses.2
      simp [hfound, hrow, hkey, hdigest]
    · intro content hcontent digest hdigest
      have hread := hfound.symm.trans hcontent
      obtain ⟨row, hrow, hread⟩ := Option.bind_eq_some_iff.mp hread
      obtain ⟨k, -, heq⟩ := Option.bind_eq_some_iff.mp hread
      cases heq
      exact (hidle.1.addressed r row hrow digest hdigest).2

/-- What a deletion knows once its rows are marked, some of which it has checked. -/
structure Deleting (t : ThreadId) (captured done : List (Id × Option Captured)) (s : World) :
    Prop where
  kept : Safekept s
  found : ∀ found ∈ captured, Seen found.1 found.2 s ∧ Legible found.2
  marked : ∀ r, s.deleting r = some t → r ∈ captured.map Prod.fst
  subset : done ⊆ captured
  checked : ∀ found ∈ done, Checked t found.1 s

theorem stable_deleting : Stable Safe t (Deleting t captured done) := by
  intro u s s' hne hsafe hs
  constructor
  · exact hsafe.safekept hs.kept
  · exact fun found hmem => ⟨hsafe.seen (hs.found found hmem).1, (hs.found found hmem).2⟩
  · exact fun r hr => hs.marked r (((hsafe.orderly hs.kept).deleting r t hne.symm).mp hr)
  · exact hs.subset
  · exact fun found hmem =>
      (hs.checked found hmem).step hsafe hs.kept hne (hs.found found (hs.subset hmem)).1.1

/-- One more row is checked. -/
theorem Deleting.check (hs : Deleting t captured done s) (hmem : (r, found) ∈ captured)
    (h : Checked t r s) : Deleting t captured (done ++ [(r, found)]) s := by
  refine ⟨hs.kept, hs.found, hs.marked, ?_, fun other hother => ?_⟩
  · exact List.append_subset.mpr ⟨hs.subset, List.cons_subset.mpr ⟨hmem, List.nil_subset _⟩⟩
  · rcases List.mem_append.mp hother with hold | hnew
    · exact hs.checked other hold
    · obtain rfl := List.mem_singleton.mp hnew
      exact h

theorem guards_deleteRows (hrows : captured.map Prod.fst = rows) (hs : Capturing t captured s) :
    Guards t (deleteRows rows) (fun _ => Deleting t captured []) s := by
  refine guards_act enduring_capturing.lasting hs fun s' hs' c answer s'' hstep => ?_
  obtain ⟨⟨hkept, hidle⟩, hfound⟩ := hs'
  split_ifs at hstep with hfree hfail
  · cases hstep
    exact ⟨.refl, trivial⟩
  · cases hstep
    have hsafe : Safe t s' (markDeleted t rows s') :=
      .deleteRows fun r hr => List.all_eq_true.mp hfree r hr
    refine ⟨hsafe, guards_pure ⟨hsafe.safekept hkept, fun found hmem =>
      ⟨hsafe.seen (hfound found hmem).1, (hfound found hmem).2⟩, fun r hr => ?_,
        List.nil_subset _, nofun⟩⟩
    change (if r ∈ rows then some t else s'.deleting r) = some t at hr
    split_ifs at hr with hmem
    · rwa [hrows]
    · exact absurd hr (hidle r)

/-- **The check of one row.** -/
theorem guards_recordCleanup {payload : CleanupPayload} {manifest : List ManifestEntry}
    (hinventory : Inventory payload)
    (hmem : (r, some ⟨some payload.digest, payload.storageKey, manifest⟩) ∈ captured)
    (hs : Deleting t captured done s) : Guards t (recordCleanup r payload) (fun _ =>
      Deleting t captured (done ++ [(r, some ⟨some payload.digest, payload.storageKey,
        manifest⟩)])) s := by
  refine guards_act stable_deleting hs fun s' hs' c answer s'' hstep => ?_
  split_ifs at hstep
  · cases hstep
    exact ⟨.refl, trivial⟩
  · cases hstep
    have hsafe : Safe t s' (checkReferences t r payload s') := .checkReferences hinventory
    have hkept : Deleting t captured done (checkReferences t r payload s') :=
      ⟨hsafe.safekept hs'.kept, fun found hmem =>
        ⟨hsafe.seen (hs'.found found hmem).1, (hs'.found found hmem).2⟩, hs'.marked, hs'.subset,
        fun found hmem => (hs'.checked found hmem).checkReferences⟩
    refine ⟨hsafe, guards_pure (hkept.check hmem ?_)⟩
    refine checked_checkReferences fun row k digest hrow haddresses => ?_
    have hfound := (hs'.found _ hmem).1.2 row k digest hrow haddresses
    injection Option.some.inj hfound with hdigest hkey
    exact ⟨hkey, Option.some.inj hdigest⟩

/-- **The cleanup of one row**, if it has content. -/
theorem guards_cleanupRevisionStorage (hfree : CollisionFree) (hmem : (r, found) ∈ captured)
    (hs : Deleting t captured done s) : Guards t (cleanupRevisionStorage r found)
      (fun _ => Deleting t captured (done ++ [(r, found)])) s := by
  have hseen := (hs.found _ hmem).1.2
  cases found with
  | none =>
    refine guards_pure (hs.check hmem fun row k digest path hrow _ haddresses _ => ?_)
    cases hseen row k digest hrow haddresses
  | some content =>
    obtain ⟨digest, k, manifest⟩ := content
    cases digest with
    | none =>
      refine guards_pure (hs.check hmem fun row k digest path hrow _ haddresses _ => ?_)
      cases hseen row k digest hrow haddresses
    | some digest =>
      have hreadable := (hs.found _ hmem).2 _ rfl digest rfl
      have hdigest : ∀ row k' digest', s.revisions.row r = some row →
          s.Addresses row k' digest' → digest' = digest := by
        intro row k' digest' hrow haddresses
        injection Option.some.inj (hseen row k' digest' hrow haddresses) with hdigest
        exact (Option.some.inj hdigest).symm
      have hmanifest : Guards t (requireManifest manifest digest) (fun _ s' => s' = s ∧
          digest = manifestDigest manifest ∧ Trusted manifest) s :=
        wp_requireManifest (fun hdigest htrusted => ⟨rfl, hdigest, htrusted⟩) fun _ => trivial
      dsimp only [cleanupRevisionStorage]
      by_cases hnil : digest = []
      · rw [if_pos hnil]
        refine guards_pure (hs.check hmem fun row k' digest' path hrow _ haddresses hpath => ?_)
        obtain rfl := hdigest row k' digest' hrow haddresses
        rw [Listed, hnil] at hpath
        cases hpath.1
      · rw [if_neg hnil]
        refine guards_bind hmanifest ?_
        rintro - s' ⟨rfl, hdigest_eq, htrusted⟩
        by_cases hempty : manifest = []
        · -- no path is listed under the digest of an empty manifest
          rw [if_pos hempty]
          refine guards_pure (hs.check hmem fun row k' digest' path hrow _ haddresses hpath => ?_)
          obtain rfl := hdigest row k' digest' hrow haddresses
          have hlisted := hpath.mem hfree hreadable hdigest_eq
          rw [hempty] at hlisted
          cases hlisted
        · rw [if_neg hempty]
          refine guards_recordCleanup ⟨manifest, hreadable, fun entry hentry => ?_, hdigest_eq,
            rfl⟩ hmem hs
          exact (htrusted.acceptable entry hentry).canonical

theorem guards_commitDelete (hs : Deleting t captured captured s) :
    Guards t (commitDelete project) (fun _ _ => True) s := by
  refine guards_act stable_deleting hs fun s' hs' c answer s'' hstep => ?_
  split_ifs at hstep with hfail hnew
  · cases hstep
    exact ⟨.refl, trivial⟩
  · cases hstep
    exact ⟨.refl, trivial⟩
  · cases hstep
    refine ⟨.commitDeletion ⟨fun r row hrow howner => ?_, fun r => ?_⟩, guards_pure trivial⟩
    · by_contra hstays
      refine hnew (List.any_eq_true.mpr ⟨(r, row), Table.mem_entries.mpr hrow, ?_⟩)
      simp [howner, hstays]
    · intro row k digest path hrow hdeleting
      obtain ⟨found, hmem, rfl⟩ := List.mem_map.mp (hs'.marked r hdeleting)
      exact hs'.checked found hmem row k digest path hrow hdeleting

/-- **A deletion** checks each of its rows before it takes them away. -/
theorem guards_deleteCollected (hfree : CollisionFree) (hs : Idle t s ∧ Issued rows s) :
    Guards t (deleteCollected rows project) (fun _ _ => True) s := by
  have hcapture : Guards t (rows.foldlM (fun captured r => do
      let found ← capture r
      pure (captured ++ [(r, found)])) ([] : List (Id × Option Captured)))
        (fun captured s' => captured.map Prod.fst = rows ∧ Capturing t captured s') s := by
    refine wp_foldlM (fun before after captured s' => captured.map Prod.fst = before ∧
      Capturing t captured s' ∧ Issued after s') ?_ (fun captured s' h => ⟨h.1, h.2.1⟩)
      ⟨rfl, ⟨hs.1, nofun⟩, hs.2⟩
    rintro before r after captured s₁ ⟨hbefore, h₁⟩
    refine guards_bind (guards_capture h₁) fun found s₂ h₂ => guards_pure ⟨?_, h₂⟩
    rw [List.map_append, hbefore]
    rfl
  refine guards_bind hcapture fun captured s₁ h₁ => ?_
  refine guards_bind (guards_deleteRows h₁.1 h₁.2) fun _ s₂ h₂ => ?_
  have hcheck : Guards t (captured.forM fun found => cleanupRevisionStorage found.1 found.2)
      (fun _ => Deleting t captured captured) s₂ := by
    refine wp_forM (fun before after s' => before ++ after = captured ∧
      Deleting t captured before s') ?_ (fun s' h => h.2) ⟨rfl, h₂⟩
    rintro before found after s' ⟨hcaptured, h'⟩
    refine (guards_cleanupRevisionStorage hfree ?_ h').mono
      fun _ s'' h'' => ⟨?_, h''⟩
    · rw [← hcaptured]
      exact List.mem_append_right _ List.mem_cons_self
    · rw [← hcaptured, List.append_assoc]
      rfl
  exact guards_bind hcheck fun _ s₃ h₃ => guards_commitDelete h₃

theorem guards_deleteRevisions (hfree : CollisionFree) (hs : Idle t s) :
    Guards t (deleteRevisions rows) (fun _ _ => True) s := by
  refine guards_bind (guards_query enduring_idle.lasting hs) ?_
  rintro found s₁ ⟨rfl, h₁⟩
  refine guards_transaction (guards_deleteCollected hfree ⟨h₁, fun r hr => ?_⟩)
  obtain ⟨row, hrow⟩ := Option.isSome_iff_exists.mp (List.mem_filter.mp hr).2
  exact Table.lt_next_of_row hrow

theorem guards_deleteProject (hfree : CollisionFree) (hs : Idle t s) :
    Guards t (deleteProject p) (fun _ _ => True) s := by
  refine guards_bind (guards_query enduring_idle.lasting hs) ?_
  rintro answer s₁ ⟨-, h₁⟩
  split
  · exact guards_pure trivial
  · next owner =>
    refine guards_bind (guards_query enduring_idle.lasting h₁) ?_
    rintro rows s₂ ⟨hrows, h₂⟩
    have hissued : Issued rows s₂ := by
      intro r hr
      rw [hrows] at hr
      obtain ⟨revision, hmem, rfl⟩ := List.mem_map.mp hr
      exact Table.lt_next_of_row (Table.mem_entries.mp (List.mem_filter.mp hmem).1)
    have henduring : Enduring t fun s => Idle t s ∧ Issued rows s :=
      fun u s s' hsafe hown h => ⟨enduring_idle u s s' hsafe hown h.1, hsafe.issued h.2⟩
    refine guards_bind (guards_query henduring.lasting ⟨h₂, hissued⟩) ?_
    rintro declared s₃ ⟨-, h₃⟩
    split_ifs
    · refine guards_locked henduring (fun _ _ _ _ _ h => h) h₃ fun s₄ _ h₄ => ?_
      exact guards_transaction (guards_deleteCollected hfree h₄)
    · exact guards_transaction (guards_deleteCollected hfree h₃)

end Deletions

/-! ## Reclaiming -/

section Reclaiming

variable [Unicode] [Hashing] {t u : ThreadId} {s s' : World} {k : StorageKey} {digest : PyStr}

/-- No revision addresses the content. -/
def Unreferenced (k : StorageKey) (digest : PyStr) (s : World) : Prop :=
  ∀ r row, s.revisions.row r = some row → keyOf s row.project = some k → row.digest ≠ some digest

omit [Unicode] [Hashing] in
/-- The references that a cleanup finds. -/
theorem referenced_eq_true_iff {payload : CleanupPayload} : referenced s payload = true ↔
    ∃ r row, s.revisions.row r = some row ∧
      s.Addresses row payload.storageKey payload.digest := by
  simp only [referenced, List.any_eq_true, Prod.exists, Table.mem_entries, decide_eq_true_eq]

omit [Unicode] [Hashing] in
theorem referenced_eq_false_iff {payload : CleanupPayload} : referenced s payload = false ↔
    Unreferenced payload.storageKey payload.digest s := by
  rw [Bool.eq_false_iff, ne_eq, referenced_eq_true_iff]
  constructor
  · intro h r row hrow hkey hdigest
    exact h ⟨r, row, hrow, hkey, hdigest⟩
  · rintro h ⟨r, row, hrow, hkey, hdigest⟩
    exact h r row hrow hkey hdigest

/-- Under the lock of a project no revision comes to address content of it. -/
theorem stable_unreferenced : Stable Safe t fun s => s.Holds t k ∧ Unreferenced k digest s := by
  rintro u s s' hne hsafe ⟨⟨n, hlock⟩, hs⟩
  refine ⟨lasting_holds.stable u s s' hne hsafe ⟨n, hlock⟩, fun r row' hrow' hkey hdigest => ?_⟩
  have hkey' := hsafe.keys _ _ hkey
  rcases hsafe.rows r row' hrow' with ⟨row, hrow, hsame⟩ | ⟨-, hlocked⟩
  · exact hs r row hrow (hsame.project ▸ hkey') (hsame.digest ▸ hdigest)
  · obtain ⟨k', hk', m, hother⟩ := hlocked (by rw [hdigest]; rfl)
    obtain rfl := Option.some.inj (hkey'.symm.trans hk')
    rw [hlock] at hother
    cases hother
    exact hne rfl

/-- A job is recorded with the payload. -/
def Recorded (j : Id) (payload : CleanupPayload) (s : World) : Prop :=
  Safekept s ∧ ∃ job, s.jobs.row j = some job ∧ job.payload = payload

theorem Safe.recorded {j : Id} {payload : CleanupPayload} (h : Safe u s s')
    (hs : Recorded j payload s) : Recorded j payload s' := by
  obtain ⟨hkept, job, hjob, hpayload⟩ := hs
  obtain ⟨job', hjob', heq, -⟩ := (h.orderly hkept).jobs j job hjob
  exact ⟨h.safekept hkept, job', hjob', heq.trans hpayload⟩

/-- A run of the job came to its end. -/
def Settled (j : Id) (s : World) : Prop :=
  Safekept s ∧ ∃ job, s.jobs.row j = some job ∧ job.settled = true

theorem Safe.settled {j : Id} (h : Safe u s s') (hs : Settled j s) : Settled j s' := by
  obtain ⟨hkept, job, hjob, hsettled⟩ := hs
  obtain ⟨job', hjob', -, hmono⟩ := (h.orderly hkept).jobs j job hjob
  exact ⟨h.safekept hkept, job', hjob', hmono hsettled⟩

omit [Unicode] [Hashing] in
theorem row_settle {j : Id} {job : CleanupJob} (h : s.jobs.row j = some job) :
    (settle s j).jobs.row j = some { job with settled := true } :=
  (Table.row_modify_self ..).trans (congrArg _ h)

/-- What a cleanup found removed stays so under the lock. -/
theorem stable_removed {paths : List PyStr} : Stable Safe t fun s =>
    s.Holds t k ∧ ∀ path ∈ paths, PathGone k digest s path := by
  rintro u s s' hne hsafe ⟨hlock, hs⟩
  refine ⟨lasting_holds.stable u s s' hne hsafe hlock, fun path hpath canonical hcanonical => ?_⟩
  rw [hsafe.objects_of_holds hne hlock]
  exact hs path hpath canonical hcanonical

/-- The end of a run of a cleanup, under the lock. -/
theorem guards_settle {j : Id} {payload : CleanupPayload} (hfree : CollisionFree)
    (hs : (s.Holds t payload.storageKey ∧
      ∀ path ∈ payload.paths, PathGone payload.storageKey payload.digest s path) ∧
        Recorded j payload s) :
    Guards t (.stmt fun _ _ s => some (.ok (), settle s j) : Service Unit) (fun _ => Settled j)
      s := by
  have hstable : Stable Safe t fun s => (s.Holds t payload.storageKey ∧
      ∀ path ∈ payload.paths, PathGone payload.storageKey payload.digest s path) ∧
        Recorded j payload s :=
    fun u s s' hne hsafe h => ⟨stable_removed u s s' hne hsafe h.1, hsafe.recorded h.2⟩
  refine guards_act hstable hs fun s' hs' c answer s'' hstep => ?_
  cases hstep
  obtain ⟨⟨hlock, hgone⟩, hkept, job, hjob, hpayload⟩ := hs'
  have hsafe : Safe t s' (settle s' j) := by
    refine .settle hfree hlock (fun other hother => ?_) (.inr hgone)
    obtain rfl := Option.some.inj (hjob.symm.trans hother)
    exact hpayload
  exact ⟨hsafe, guards_pure ⟨hsafe.safekept hkept, _, row_settle hjob, rfl⟩⟩

/-- **A cleanup** removes content that no revision addresses. -/
theorem guards_runCleanup {j : Id} {payload : CleanupPayload} (hfree : CollisionFree)
    (hs : Recorded j payload s) : Guards t (runCleanup j payload) (fun _ => Settled j) s := by
  refine guards_locked (enduring_of fun _ _ _ h => h.recorded) (fun _ _ _ _ h => h.settled) hs
    fun s₁ hlock₁ h₁ => ?_
  have hstable : Stable Safe t fun s => s.Holds t payload.storageKey ∧ Recorded j payload s :=
    fun u s s' hne hsafe h => ⟨lasting_holds.stable u s s' hne hsafe h.1, hsafe.recorded h.2⟩
  have hcheck : Guards t (.stmt fun _ _ s => some (.ok (referenced s payload),
      if referenced s payload then settle s j else s) : Service Bool) (fun found s' =>
        if found then Settled j s' else
          (s'.Holds t payload.storageKey ∧ Unreferenced payload.storageKey payload.digest s') ∧
            Recorded j payload s') s₁ := by
    refine guards_act hstable ⟨hlock₁, h₁⟩ fun s' hs' c answer s'' hstep => ?_
    cases hstep
    obtain ⟨hlock, hkept, job, hjob, hpayload⟩ := hs'
    by_cases hreferenced : referenced s' payload = true
    · rw [if_pos hreferenced, hreferenced]
      have hsafe : Safe t s' (settle s' j) := by
        refine .settle hfree hlock (fun other hother => ?_)
          (.inl (referenced_eq_true_iff.mp hreferenced))
        obtain rfl := Option.some.inj (hjob.symm.trans hother)
        exact hpayload
      exact ⟨hsafe, guards_pure ⟨hsafe.safekept hkept, _, row_settle hjob, rfl⟩⟩
    · have hfalse := Bool.eq_false_iff.mpr hreferenced
      rw [if_neg hreferenced, hfalse]
      exact ⟨.refl, guards_pure ⟨⟨hlock, referenced_eq_false_iff.mp hfalse⟩, hkept, job, hjob,
        hpayload⟩⟩
  refine guards_bind hcheck fun found s₂ h₂ => ?_
  cases found with
  | true => exact guards_pure h₂
  | false =>
    have hstable : Stable Safe t fun s => (s.Holds t payload.storageKey ∧
        Unreferenced payload.storageKey payload.digest s) ∧ Recorded j payload s :=
      fun u s s' hne hsafe h => ⟨stable_unreferenced u s s' hne hsafe h.1, hsafe.recorded h.2⟩
    have hattempt : Guards t (deleteRevision payload.storageKey payload.digest
        payload.paths).attempt (fun removed s' => removed = .ok () →
          (s'.Holds t payload.storageKey ∧
            ∀ path ∈ payload.paths, PathGone payload.storageKey payload.digest s' path) ∧
              Recorded j payload s') s₂ := by
      rw [Guards, wp_attempt]
      refine wp_mono (fun removed s' h' hok => ⟨⟨h'.1.1.1, h'.2 hok⟩, h'.1.2⟩)
        (wp_deleteRevision (fun _ => .refl) (keepsObjects hstable fun _ h => h.1.1) h₂
          fun s path hs => ?_)
      have hsafe : Safe t s (s.setObject (.revision payload.storageKey payload.digest path)
          none) := by
        refine .setObject hs.1.1 none (fun _ r row hrow _ hkey hdigest => ?_)
          fun hne => absurd rfl hne
        exact absurd hdigest (hs.1.2 r row hrow hkey)
      exact ⟨hsafe, hs.1, hsafe.recorded hs.2⟩
    refine guards_bind hattempt fun removed s₃ h₃ => ?_
    split
    · exact guards_settle hfree (h₃ rfl)
    · exact guards_raise

theorem guards_cleanupJob {j : Id} (hfree : CollisionFree) (hs : Safekept s) :
    Guards t (cleanupJob j) (fun _ _ => True) s := by
  refine guards_bind (guards_query lasting_safekept.stable hs) ?_
  rintro answer s₁ ⟨hjob, h₁⟩
  split
  · exact guards_pure trivial
  · next job =>
    refine guards_bind (guards_runCleanup hfree ⟨h₁, job, hjob.symm, rfl⟩) fun _ s₂ h₂ => ?_
    have hstable : Stable Safe t (Settled j) := fun _ _ _ _ h => h.settled
    refine guards_act hstable h₂ fun s' hs' c answer s'' hstep => ?_
    cases hstep
    obtain ⟨-, job', hjob', hsettled⟩ := hs'
    refine ⟨.complete fun other hother => ?_, guards_pure trivial⟩
    obtain rfl := Option.some.inj (hjob'.symm.trans hother)
    exact hsettled

end Reclaiming

end Storehouse

end NetBoxScripts
