import NetBoxScripts.Services.Requests

/-!
# Activations that were requested

Every action of every request is mindful: it changes a project, its declarations and its active
revision under the project lock only, where what it read before still stands. So whatever is done
meanwhile, an automatic activation finds the ground on which it was decided.

## Main definitions

* `Minds`: what has to hold for a program to be mindful and to return in a postcondition
* `Returned`: what staging returns

## Main results

* `minds_locked`: the rule of a body under the project lock
* `minds_stageRevision`, `minds_activateRevision`: the services
* `activations_requested`: automatic activations in any interleaving
-/

namespace NetBoxScripts

namespace Requests

open Lifecycle (pointer keyOf OwnLocks Quiet Orderly Settles eachStep_acquireLock
  eachStep_releaseLock quiet_execute status_storedRow eachStep_verifyRevisionTree)

/-! ## Programs -/

section Rules

variable [Hashing] {t : ThreadId} {s : World} {p r : Id} {k : StorageKey} {n : ℕ}
  {automatic : Bool} {α β : Type} {prog : Service α} {post : α → World → Prop}
  {assertion : World → Prop}

/-- The program does what it may, and where it returns it ends in the postcondition. -/
abbrev Minds {α : Type} (automatic : Bool) (t : ThreadId) (prog : Service α)
    (post : α → World → Prop) (s : World) : Prop :=
  wp Mindful t (Keeps automatic t) prog (andThen post fun _ _ => True) s

theorem Minds.mono {post' : α → World → Prop} (h : Minds automatic t prog post s)
    (himp : ∀ a s, post a s → post' a s) : Minds automatic t prog post' s := by
  refine wp_mono (fun result s₁ h₁ => ?_) h
  cases result with
  | ok a => exact himp a s₁ h₁
  | error e => trivial

theorem minds_pure {a : α} (h : post a s) : Minds automatic t (pure a : Service α) post s := h

theorem minds_raise {e : Failure} : Minds automatic t (.raise e : Service α) post s := trivial

theorem minds_ofExcept {result : Except Failure α} (h : ∀ a, result = .ok a → post a s) :
    Minds automatic t (.ofExcept result) post s := by
  cases result with
  | ok a => exact h a rfl
  | error e => trivial

theorem minds_bind {f : α → Service β} {post' : β → World → Prop}
    (h : Minds automatic t prog post s)
    (hf : ∀ a s', post a s' → Minds automatic t (f a) post' s') :
    Minds automatic t (prog >>= f) post' s := by
  rw [Minds, wp_bind]
  refine wp_mono (fun result s₁ h₁ => ?_) h
  cases result with
  | ok a => exact hf a s₁ h₁
  | error e => trivial

/-- One action, under an assertion that lasts. -/
theorem minds_act {γ : Type} {step : ThreadId → Choice → World → Option (γ × World)}
    {next : γ → Service α} (hlasting : Lasting t assertion) (hs : assertion s)
    (h : ∀ s', assertion s' → ∀ c b s'', step t c s' = some (b, s'') →
      Keeps automatic t s' s'' ∧ Minds automatic t (next b) post s'') :
    Minds automatic t (.act step next) post s :=
  fun s' hrely c b s'' hstep => h s' (hlasting.others.rely hrely hs) c b s'' hstep

/-- One statement, under an assertion that lasts. -/
theorem minds_stmt {step : ThreadId → Choice → World → Option (Except Failure α × World)}
    (hlasting : Lasting t assertion) (hs : assertion s)
    (h : ∀ s', assertion s' → ∀ c result s'', step t c s' = some (result, s'') →
      Keeps automatic t s' s'' ∧ ∀ a, result = .ok a → post a s'') :
    Minds automatic t (.stmt step) post s := by
  refine minds_act hlasting hs fun s' hs' c result s'' hstep => ?_
  obtain ⟨hkeeps, hpost⟩ := h s' hs' c result s'' hstep
  exact ⟨hkeeps, minds_ofExcept hpost⟩

theorem minds_query {read : World → α} (hlasting : Lasting t assertion) (hs : assertion s) :
    Minds automatic t (.query read) (fun a s' => a = read s' ∧ assertion s') s := by
  refine minds_stmt hlasting hs fun s' hs' c result s'' hstep => ?_
  cases hstep
  refine ⟨Beside.refl.1.keeps, fun a heq => ?_⟩
  cases heq
  exact ⟨rfl, hs'⟩

/-- **What no activation depends on** keeps what lasts. -/
theorem minds_beside (h : prog.EachStep Beside) (hlasting : Lasting t assertion)
    (hs : assertion s) : Minds automatic t prog (fun _ => assertion) s := by
  refine wp_mono (fun result s₁ h₁ => ?_) (h.keeps (fun s s' hbeside => hbeside.1.keeps)
    (fun s s' => hlasting.own s s') hlasting.others hs)
  cases result with
  | ok a => exact h₁
  | error e => trivial

theorem minds_getProject {failure : Failure} (hlasting : Lasting t assertion) (hs : assertion s) :
    Minds automatic t (getProject p failure)
      (fun project s' => s'.projects.row p = some project ∧ assertion s') s := by
  refine minds_bind (minds_query hlasting hs) ?_
  rintro answer s' ⟨rfl, hs'⟩
  split
  · next hproject => exact minds_pure ⟨hproject, hs'⟩
  · exact minds_raise

theorem minds_getRevision {failure : Failure} (hlasting : Lasting t assertion)
    (hs : assertion s) : Minds automatic t (getRevision r failure)
      (fun row s' => s'.revisions.row r = some row ∧ assertion s') s := by
  refine minds_bind (minds_query hlasting hs) ?_
  rintro answer s' ⟨rfl, hs'⟩
  split
  · next hrow => exact minds_pure ⟨hrow, hs'⟩
  · exact minds_raise

/-- The rows are the same. -/
structure SameRows (s s' : World) : Prop where
  projects : s'.projects = s.projects
  revisions : s'.revisions = s.revisions
  files : s'.files = s.files

/-- The assertion is about the rows. -/
def AboutRows (assertion : World → Prop) : Prop :=
  ∀ s s', SameRows s s' → assertion s → assertion s'

/-- A lock is taken or given back, so that it is held so many times. -/
structure Turns (t : ThreadId) (k : StorageKey) (n : ℕ) (s s' : World) : Prop where
  aside : Aside t s s'
  rows : SameRows s s'
  depth : s'.Depth t k n

omit [Hashing] in
theorem Turns.under {s' : World} {m : ℕ} (h : Turns t k m s s') (hs : Under t p k n s) :
    Under t p k m s' := ⟨(congrFun h.aside.1.keyOf p).trans hs.1, h.depth⟩

/-- A lock is taken or given back, under an assertion about the rows. -/
theorem minds_turn {γ : Type} {step : ThreadId → Choice → World → Option (γ × World)}
    {next : γ → Service Unit} {m : ℕ}
    (hlasting : Lasting t fun s => Under t p k n s ∧ assertion s) (hrows : AboutRows assertion)
    (hs : Under t p k n s ∧ assertion s)
    (h : ∀ s' c b s'', s'.Depth t k n → step t c s' = some (b, s'') →
      Turns t k m s' s'' ∧ next b = pure ()) :
    Minds automatic t (.act step next) (fun _ s' => Under t p k m s' ∧ assertion s') s := by
  refine minds_act hlasting hs fun s' hs' c b s'' hstep => ?_
  obtain ⟨hturns, hnext⟩ := h s' c b s'' hs'.1.2 hstep
  refine ⟨hturns.aside.keeps, ?_⟩
  rw [hnext]
  exact minds_pure ⟨hturns.under hs'.1, hrows s' s'' hturns.rows hs'.2⟩

/-- **A body under the project lock**, which is taken once more and given back. -/
theorem minds_locked {acquire release : Service Unit} {body : Service α} {before : World → Prop}
    {inside : α → World → Prop}
    (hacquire : Minds automatic t acquire (fun _ s' => Under t p k (n + 1) s' ∧ before s') s)
    (hbody : ∀ s', Under t p k (n + 1) s' → before s' →
      Minds automatic t body (fun a s'' => Under t p k (n + 1) s'' ∧ inside a s'') s')
    (hrelease : ∀ a s', Under t p k (n + 1) s' → inside a s' →
      Minds automatic t release (fun _ s'' => Under t p k n s'' ∧ inside a s'') s')
    (hend : release.EachStep Aside) :
    Minds automatic t (acquire >>= fun _ => body.finallyDo release)
      (fun a s' => Under t p k n s' ∧ inside a s') s := by
  refine minds_bind hacquire fun _ s₁ h₁ => ?_
  refine wp_finallyDo (wp_mono (fun result s₂ h₂ => ?_) (hbody s₁ h₁.1 h₁.2))
  cases result with
  | ok a =>
    refine wp_mono (fun result' s₃ h₃ => ?_) (hrelease a s₂ h₂.1 h₂.2)
    cases result' with
    | ok _ => exact h₃
    | error _ => trivial
  | error e =>
    -- after a failure only that the lock is given back mindfully matters
    refine wp_mono (fun result' s₃ _ => ?_) (hend.mono fun _ _ _ => Aside.keeps).wp
    cases result' <;> trivial

omit [Hashing] in
theorem turns_acquire {s' : World} (hlocks : s'.locks = Function.update s.locks k (some (t, n + 1)))
    (hrows : SameRows s s') (haside : Aside t s s') : Turns t k (n + 1) s s' :=
  ⟨haside, hrows, (congrFun hlocks k).trans (Function.update_self ..)⟩

omit [Hashing] in
theorem aside_acquireLock : (acquireLock k).EachStep Aside := by
  refine eachStep_stmt fun t c s result s' hstep =>
    ⟨eachStep_acquireLock.1 t c s result s' hstep, ?_⟩
  split at hstep
  · cases hstep
    exact .of_eq rfl rfl rfl
  · split_ifs at hstep
    cases hstep
    exact .of_eq rfl rfl rfl
  · cases hstep

omit [Hashing] in
theorem aside_releaseLock : (releaseLock k).EachStep Aside := by
  refine eachStep_stmt fun t c s result s' hstep =>
    ⟨eachStep_releaseLock.1 t c s result s' hstep, ?_⟩
  split at hstep
  · split_ifs at hstep
    all_goals
      cases hstep
      exact .of_eq rfl rfl rfl
  · cases hstep
    exact .of_eq rfl rfl rfl

/-- **The project lock** of a service. -/
theorem minds_projectLock {body : Service α} {inside : α → World → Prop} (before : World → Prop)
    (hunder : Under t p k n s) (hbefore : Lasting t fun s => Under t p k n s ∧ before s)
    (hbefore' : AboutRows before) (hs : before s)
    (hbody : ∀ s', Under t p k (n + 1) s' → before s' →
      Minds automatic t body (fun a s'' => Under t p k (n + 1) s'' ∧ inside a s'') s')
    (hinside : ∀ a, Lasting t fun s => Under t p k (n + 1) s ∧ inside a s)
    (hinside' : ∀ a, AboutRows (inside a)) :
    Minds automatic t (projectLock k body) (fun a s' => Under t p k n s' ∧ inside a s') s := by
  refine minds_locked (minds_turn hbefore hbefore' ⟨hunder, hs⟩ fun s' c b s'' hdepth hstep => ?_)
    hbody (fun a s₁ hunder₁ h₁ => minds_turn (hinside a) (hinside' a) ⟨hunder₁, h₁⟩
      fun s' c b s'' hdepth hstep => ?_) aside_releaseLock
  · have haside := aside_acquireLock.1 t c s' b s'' hstep
    split at hstep
    · next hlock =>
      cases hstep
      cases n with
      | zero => exact ⟨turns_acquire rfl ⟨rfl, rfl, rfl⟩ haside, rfl⟩
      | succ n => cases hlock.symm.trans hdepth
    · next u m hlock =>
      split_ifs at hstep with hu
      subst hu
      cases hstep
      cases n with
      | zero => exact (hdepth ⟨m + 1, hlock⟩).elim
      | succ n =>
        cases hlock.symm.trans hdepth
        exact ⟨turns_acquire rfl ⟨rfl, rfl, rfl⟩ haside, rfl⟩
    · cases hstep
  · have haside := aside_releaseLock.1 t c s' b s'' hstep
    have hlock : s'.locks k = some (t, n + 1) := hdepth
    rw [hlock] at hstep
    dsimp only at hstep
    rw [if_pos rfl] at hstep
    cases hstep
    exact ⟨⟨haside, ⟨rfl, rfl, rfl⟩, World.depth_leave⟩, rfl⟩

end Rules

/-! ## Staging and refreshing -/

/-- What staging returns that can be accepted: a revision of the project, and whether it is
active. -/
def Returned (p : Id) (staged : StagedRevision × RevisionRow) (s : World) : Prop :=
  Vanishing.hasDigest staged.2 = true →
    staged.2.project = p ∧ Known p staged.1.revision (staged.2.status = .active) s

/-- A statement that no activation depends on, and that takes no lock. -/
def Leaves : Vanishing.Statement → Prop
  | .lock _ | .unlock _ | .acceptSource .. => False
  | statement => Orderly statement

section Sessions

theorem project_storedRow {row stored : RevisionRow} (h : Vanishing.storedRow row = some stored) :
    stored.project = row.project := by
  obtain ⟨manifest, -, h⟩ := Option.bind_eq_some_iff.mp h
  obtain ⟨errors, -, rfl⟩ := Option.map_eq_some_iff.mp h
  rfl

variable [Hashing] {t : ThreadId} {s : World} {p r : Id} {k : StorageKey} {n : ℕ}
  {automatic : Bool} {α β : Type} {prog : Vanishing.Session α} {post : α → World → Prop}
  {assertion : World → Prop}

/-- The same of a program of a session. -/
abbrev Asks {α : Type} (automatic : Bool) (t : ThreadId) (prog : Vanishing.Session α)
    (post : α → World → Prop) (s : World) : Prop :=
  Minds automatic t (prog.prog Vanishing.execute) post s

theorem asks_pure {a : α} (h : post a s) : Asks automatic t (pure a) post s := h

theorem asks_raise {e : Failure} : Asks automatic t (Labelled.raise e) post s := trivial

theorem asks_bind {f : α → Vanishing.Session β} {post' : β → World → Prop}
    (h : Asks automatic t prog post s)
    (hf : ∀ a s', post a s' → Asks automatic t (f a) post' s') :
    Asks automatic t (prog >>= f) post' s := by
  rw [Asks, Labelled.prog_bind]
  exact minds_bind h hf

omit [Hashing] in
/-- **Each statement** that leaves activations alone. -/
theorem beside_execute {statement : Vanishing.Statement} (hleaves : Leaves statement) {c : Choice}
    {s s' : World} {b : Vanishing.Answer statement}
    (h : Vanishing.execute t statement c s = some (b, s')) : Beside t s s' := by
  have hupdate : ∀ {q : Id} {found : RevisionStatus → Bool} {change : RevisionRow → RevisionRow},
      Steady s (Vanishing.updateRevision q found change s).2 ∧
        (Vanishing.updateRevision q found change s).2.locks = s.locks := by
    intro q found change
    unfold Vanishing.updateRevision
    split
    · exact ⟨.of_eq rfl rfl rfl, rfl⟩
    · split_ifs
      all_goals exact ⟨.of_eq rfl rfl rfl, rfl⟩
  have hsteady : Orderly statement ∧ Steady s s' ∧ s'.locks = s.locks := by
    cases statement with
    | lock | unlock | acceptSource => exact absurd hleaves id
    | project p | previousSource p | revision r | declarations p | find row =>
      cases h
      exact ⟨hleaves, .of_eq rfl rfl rfl, rfl⟩
    | insert row =>
      rw [Vanishing.execute] at h
      obtain rfl : (Vanishing.insertRevision row s).2 = s' := congrArg Prod.snd (Option.some.inj h)
      refine ⟨hleaves, ?_⟩
      unfold Vanishing.insertRevision
      split
      · exact ⟨.of_eq rfl rfl rfl, rfl⟩
      · split_ifs
        all_goals exact ⟨.of_eq rfl rfl rfl, rfl⟩
    | claim r =>
      rw [Vanishing.execute] at h
      obtain rfl := congrArg Prod.snd (Option.some.inj h)
      exact ⟨hleaves, hupdate⟩
    | settle r found status errors =>
      cases h
      exact ⟨hleaves, hupdate⟩
  exact ⟨⟨quiet_execute hsteady.1 h, hsteady.2.1⟩, hsteady.2.2⟩

/-- A statement that leaves activations alone, and what is known of its answer. -/
theorem asks_ask {statement : Vanishing.Statement}
    {post : Vanishing.Answer statement → World → Prop}
    (hleaves : Leaves statement) (hlasting : Lasting t assertion) (hs : assertion s)
    (h : ∀ s' c b s'', assertion s' → assertion s'' →
      Vanishing.execute t statement c s' = some (b, s'') → post b s'') :
    Asks automatic t (Vanishing.ask statement) post s := by
  refine minds_act hlasting hs fun s' hs' c b s'' hstep => ?_
  have hbeside := beside_execute hleaves hstep
  exact ⟨hbeside.1.keeps, h s' c b s'' hs' (hlasting.own s' s'' hbeside hs') hstep⟩

/-- A statement that leaves activations alone. -/
theorem asks_leaves {statement : Vanishing.Statement} (hleaves : Leaves statement)
    (hlasting : Lasting t assertion) (hs : assertion s) :
    Asks automatic t (Vanishing.ask statement) (fun _ => assertion) s :=
  asks_ask hleaves hlasting hs fun _ _ _ _ _ h _ => h

omit [Hashing] in
theorem beside_store {program : Service α} :
    ((Vanishing.store program).prog Vanishing.execute).EachStep Beside := by
  induction program with
  | done result => trivial
  | act step next ih =>
    refine ⟨fun t c s b s' h => ?_, ih⟩
    obtain ⟨answer, -, heq⟩ := Option.map_eq_some_iff.mp h
    cases heq
    exact ⟨⟨.of_rows_eq rfl rfl rfl .refl, .of_eq rfl rfl rfl⟩, rfl⟩

theorem asks_store {program : Service α} (hlasting : Lasting t assertion) (hs : assertion s) :
    Asks automatic t (Vanishing.store program) (fun _ => assertion) s :=
  minds_beside beside_store hlasting hs

theorem asks_projectOrVanished (hlasting : Lasting t assertion) (hs : assertion s) :
    Asks automatic t (Vanishing.projectOrVanished p)
      (fun project s' => keyOf s' p = some project.storageKey ∧ assertion s') s := by
  have hread : Asks automatic t (Vanishing.ask (.project p))
      (fun answer s' => s'.projects.row p = answer ∧ assertion s') s := by
    refine asks_ask trivial hlasting hs fun s' c b s'' _ hs'' hstep => ?_
    cases hstep
    exact ⟨rfl, hs''⟩
  refine asks_bind hread fun answer s' hanswer => ?_
  split
  · next project =>
    refine asks_pure ⟨?_, hanswer.2⟩
    rw [keyOf, hanswer.1]
    rfl
  · exact asks_raise

/-- A revision of the project that is read under its lock. -/
theorem asks_revisionOrVanished {active : Prop}
    (hs : Under t p k (n + 1) s ∧ Known p r active s) :
    Asks automatic t (Vanishing.revisionOrVanished r) (fun row s' => Under t p k (n + 1) s' ∧
      row.project = p ∧ Known p r (row.status = .active) s') s := by
  have hread : Asks automatic t (Vanishing.ask (.revision r)) (fun answer s' =>
      s'.revisions.row r = answer ∧ Under t p k (n + 1) s' ∧ Known p r active s') s := by
    refine asks_ask trivial lasting_known hs fun s' c b s'' _ hs'' hstep => ?_
    cases hstep
    exact ⟨rfl, hs''⟩
  refine asks_bind hread fun answer s' hanswer => ?_
  obtain ⟨hread, hunder, row, hrow, howner, -⟩ := hanswer
  obtain rfl := hread.symm.trans hrow
  exact asks_pure ⟨hunder, howner, row, hrow, howner, .rfl⟩

theorem asks_createRevision {row : RevisionRow} (hstatus : row.status ≠ .active)
    (hs : Under t p k n s) : Asks automatic t (Vanishing.createRevision row)
      (fun created s' => Under t p k n s' ∧ created.2 = row) s := by
  refine asks_bind (asks_leaves hstatus lasting_under hs) fun answer s₁ h₁ => ?_
  split
  · exact asks_pure ⟨h₁, rfl⟩
  · exact asks_raise

/-- **The row of an identity**, found or created under the lock of its project. -/
theorem asks_getOrCreate {row : RevisionRow} (hproject : row.project = p)
    (hstatus : row.status ≠ .active) (hs : Under t p k (n + 1) s) :
    Asks automatic t (Vanishing.getOrCreate row) (fun found s' => Under t p k (n + 1) s' ∧
      found.2.1.project = p ∧ Known p found.1 (found.2.1.status = .active) s') s := by
  have hfind : ∀ {s : World}, Under t p k (n + 1) s → Asks automatic t (Vanishing.ask (.find row))
      (fun answer s' => Under t p k (n + 1) s' ∧ ∀ found ∈ answer, found.2.project = p ∧
        Known p found.1 (found.2.status = .active) s') s := by
    intro s hs
    refine asks_ask trivial lasting_under hs fun s' c b s'' _ hs'' hstep => ?_
    cases hstep
    refine ⟨hs'', fun found hfound => ?_⟩
    have hrow := Table.mem_entries.mp (List.mem_of_find?_eq_some hfound)
    have hsame := List.find?_some hfound
    have howner : found.2.project = p := (of_decide_eq_true hsame).1.trans hproject
    exact ⟨howner, found.2, hrow, howner, .rfl⟩
  have hinsert : ∀ {s : World}, Under t p k (n + 1) s →
      Asks automatic t (Vanishing.ask (.insert row)) (fun answer s' => Under t p k (n + 1) s' ∧
        ∀ r, answer = .ok r → Known p r (row.status = .active) s') s := by
    intro s hs
    refine asks_ask hstatus lasting_under hs fun s' c b s'' _ hs'' hstep => ⟨hs'', ?_⟩
    rintro r rfl
    rw [Vanishing.execute, Vanishing.insertRevision] at hstep
    split at hstep
    · cases hstep
    · next stored hstored =>
      split_ifs at hstep
      · cases hstep
      · cases hstep
      · cases hstep
        exact ⟨stored, Table.row_insert_next, (project_storedRow hstored).trans hproject,
          by rw [status_storedRow hstored]⟩
  refine asks_bind (hfind hs) ?_
  rintro answer s₁ ⟨h₁, hfound⟩
  cases answer with
  | some found => exact asks_pure ⟨h₁, hfound found rfl⟩
  | none =>
    refine asks_bind (hinsert h₁) ?_
    rintro answer s₂ ⟨h₂, hinserted⟩
    split
    · next r => exact asks_pure ⟨h₂, hproject, hinserted r rfl⟩
    · refine asks_bind (hfind h₂) ?_
      rintro answer s₃ ⟨h₃, hfound⟩
      cases answer with
      | some found => exact asks_pure ⟨h₃, hfound found rfl⟩
      | none => exact asks_raise
    · exact asks_raise

theorem asks_beside (h : (prog.prog Vanishing.execute).EachStep Beside)
    (hlasting : Lasting t assertion) (hs : assertion s) :
    Asks automatic t prog (fun _ => assertion) s := minds_beside h hlasting hs

/-- What follows the claim of a row. -/
theorem asks_writeClaimed [Unicode] {row : RevisionRow} {files : SourceFiles} {created : Bool}
    {active : Prop} (hs : Under t p k (n + 1) s ∧ Known p r active s) :
    Asks automatic t (Vanishing.writeClaimed k files r row created)
      (fun staged s' => Under t p k (n + 1) s' ∧ Returned p staged s') s := by
  have hwrite : ((do
      Labelled.ofExcept (Vanishing.rowManifest row)
      Vanishing.store (writeRevision k (row.digest.getD []) files row.manifest) :
        Vanishing.Session Unit).attempt.prog Vanishing.execute).EachStep Beside := by
    rw [Labelled.prog_attempt, Labelled.prog_bind]
    exact eachStep_attempt (eachStep_bind trivial fun _ => beside_store)
  refine asks_bind (asks_beside hwrite lasting_known hs) fun written s₁ h₁ => ?_
  split
  · split_ifs
    · exact asks_bind (asks_leaves Settles.failed lasting_known h₁) fun _ _ _ => asks_raise
    · exact asks_raise
  · refine asks_bind (asks_leaves Settles.written lasting_known h₁) fun _ s₂ h₂ => ?_
    refine asks_bind (asks_revisionOrVanished h₂) fun row s₃ h₃ => ?_
    exact asks_pure ⟨h₃.1, fun _ => h₃.2⟩

/-- **The loop of staging.** -/
theorem asks_settleLoop [Unicode] {row : RevisionRow} {files : SourceFiles} {created : Bool}
    {turns : ℕ} (howner : row.project = p)
    (hs : Under t p k (n + 1) s ∧ Known p r (row.status = .active) s) :
    Asks automatic t (Vanishing.settleLoop k files r created turns row)
      (fun staged s' => Under t p k (n + 1) s' ∧ Returned p staged s') s := by
  induction turns generalizing row s with
  | zero => exact asks_raise
  | succ turns ih =>
    unfold Vanishing.settleLoop
    split_ifs
    · refine asks_bind (asks_beside trivial lasting_known hs) fun _ s₁ h₁ => ?_
      refine asks_bind (asks_store lasting_known h₁) fun _ s₂ h₂ => ?_
      exact asks_pure ⟨h₂.1, fun _ => ⟨howner, h₂.2⟩⟩
    · exact asks_pure ⟨hs.1, fun _ => ⟨howner, hs.2⟩⟩
    · refine asks_bind (asks_leaves trivial lasting_known hs) fun claimed s₁ h₁ => ?_
      cases claimed with
      | true => exact asks_writeClaimed h₁
      | false =>
        refine asks_bind (asks_revisionOrVanished h₁) fun row s₂ h₂ => ?_
        exact ih h₂.2.1 ⟨h₂.1, h₂.2.2⟩

/-- **The project lock** of a session. -/
theorem asks_projectLock {inside : α → World → Prop} (hs : Under t p k n s)
    (hbody : ∀ s', Under t p k (n + 1) s' →
      Asks automatic t prog (fun a s'' => Under t p k (n + 1) s'' ∧ inside a s'') s')
    (hinside : ∀ a, Lasting t fun s => Under t p k (n + 1) s ∧ inside a s)
    (hinside' : ∀ a, AboutRows (inside a)) :
    Asks automatic t (Vanishing.projectLock k prog)
      (fun a s' => Under t p k n s' ∧ inside a s') s := by
  have hlock : ∀ t c s b s', Vanishing.execute t (.lock k) c s = some (b, s') → Aside t s s' := by
    intro t c s b s' h
    refine ⟨@quiet_execute (.lock k) trivial _ _ _ _ _ h, ?_⟩
    rw [Vanishing.execute] at h
    split at h
    · cases h
      exact .of_eq rfl rfl rfl
    · split_ifs at h
      cases h
      exact .of_eq rfl rfl rfl
    · cases h
  have hunlock : ∀ t c s b s', Vanishing.execute t (.unlock k) c s = some (b, s') →
      Aside t s s' := by
    intro t c s b s' h
    refine ⟨@quiet_execute (.unlock k) trivial _ _ _ _ _ h, ?_⟩
    rw [Vanishing.execute] at h
    split at h
    · split_ifs at h
      all_goals
        cases h
        exact .of_eq rfl rfl rfl
    · cases h
      exact .of_eq rfl rfl rfl
  have hbefore : Lasting t fun s => Under t p k n s ∧ True := lasting_under.and (lasting_const _)
  rw [Asks, Vanishing.projectLock, Labelled.prog_bind]
  simp only [Labelled.prog_finallyDo]
  refine minds_locked (minds_turn hbefore (fun _ _ _ h => h) ⟨hs, trivial⟩
    fun s' c b s'' hdepth hstep => ?_) (fun s' h _ => hbody s' h)
    (fun a s₁ hunder₁ h₁ => minds_turn (hinside a) (hinside' a) ⟨hunder₁, h₁⟩
      fun s' c b s'' hdepth hstep => ?_) (Labelled.eachStep_ask hunlock)
  · have haside := hlock t c s' b s'' hstep
    rw [Vanishing.execute] at hstep
    split at hstep
    · next hlock =>
      cases hstep
      cases n with
      | zero => exact ⟨turns_acquire rfl ⟨rfl, rfl, rfl⟩ haside, rfl⟩
      | succ n => cases hlock.symm.trans hdepth
    · next u m hlock =>
      split_ifs at hstep with hu
      subst hu
      cases hstep
      cases n with
      | zero => exact (hdepth ⟨m + 1, hlock⟩).elim
      | succ n =>
        cases hlock.symm.trans hdepth
        exact ⟨turns_acquire rfl ⟨rfl, rfl, rfl⟩ haside, rfl⟩
    · cases hstep
  · have haside := hunlock t c s' b s'' hstep
    have hlock : s'.locks k = some (t, n + 1) := hdepth
    rw [Vanishing.execute, hlock] at hstep
    dsimp only at hstep
    rw [if_pos rfl] at hstep
    cases hstep
    exact ⟨⟨haside, ⟨rfl, rfl, rfl⟩, World.depth_leave⟩, rfl⟩

omit [Hashing] in
theorem aboutRows_known {active : Prop} : AboutRows (Known p r active) := by
  rintro s s' h ⟨row, hrow, hknown⟩
  exact ⟨row, h.revisions ▸ hrow, hknown⟩

omit [Hashing] in
theorem aboutRows_returned {staged : StagedRevision × RevisionRow} :
    AboutRows (Returned p staged) :=
  fun s s' h hs hdigest => (hs hdigest).imp_right (aboutRows_known s s' h)

omit [Hashing] in
theorem lasting_returned {staged : StagedRevision × RevisionRow} :
    Lasting t fun s => Under t p k (n + 1) s ∧ Returned p staged s := by
  refine lasting_imp ⟨fun u s s' hne h hs => ?_, fun s s' h hs => ?_⟩
  · obtain ⟨hunder, hknown⟩ := lasting_known.others u s s' hne h ⟨hs.1, hs.2.2⟩
    exact ⟨hunder, hs.2.1, hknown⟩
  · obtain ⟨hunder, hknown⟩ := lasting_known.own s s' h ⟨hs.1, hs.2.2⟩
    exact ⟨hunder, hs.2.1, hknown⟩

/-- **Staging** under the lock of the project. -/
theorem asks_stageLocked [Unicode] {files : SourceFiles} {limits : StorageLimits} {now : Time}
    {turns : ℕ} (hs : Under t p k (n + 1) s) :
    Asks automatic t (Vanishing.stageLocked p files limits now turns)
      (fun staged s' => Under t p k (n + 1) s' ∧ Returned p staged s') s := by
  unfold Vanishing.stageLocked
  split
  · exact asks_raise
  · refine asks_bind (asks_leaves trivial lasting_under hs) fun snapshot s₁ h₁ => ?_
    dsimp only
    split_ifs
    · -- rejected content has no digest
      refine asks_bind (asks_createRevision (by simp [stagedRow]) h₁) ?_
      rintro created s₂ ⟨h₂, hrow⟩
      refine asks_pure ⟨h₂, fun hdigest => ?_⟩
      rw [hrow] at hdigest
      cases hdigest
    · refine asks_bind (asks_projectOrVanished lasting_under h₁) fun key s₂ h₂ => ?_
      obtain ⟨hkey, h₂⟩ := h₂
      obtain rfl := Option.some.inj (h₂.1.symm.trans hkey)
      refine asks_projectLock h₂ (fun s₃ h₃ => ?_) (fun _ => lasting_returned)
        fun _ => aboutRows_returned
      refine asks_bind (asks_getOrCreate rfl (by simp) h₃) fun found s₄ h₄ => ?_
      exact asks_settleLoop h₄.2.1 ⟨h₄.1, h₄.2.2⟩

/-- **Refreshing** under the lock of the project. -/
theorem asks_refreshLocked [Unicode] {pk : Id} {now : Time} {active : Prop}
    (hs : Under t p k (n + 1) s ∧ Known p pk active s) :
    Asks automatic t (Vanishing.refreshLocked pk now)
      (fun staged s' => Under t p k (n + 1) s' ∧ Returned p staged s') s := by
  refine asks_bind (asks_revisionOrVanished hs) ?_
  rintro source s₁ ⟨h₁, rfl, -⟩
  split_ifs
  · exact asks_raise
  · refine asks_bind (asks_beside trivial lasting_under h₁) fun _ s₂ h₂ => ?_
    refine asks_bind (asks_leaves trivial lasting_under h₂) fun snapshot s₃ h₃ => ?_
    refine asks_bind (asks_projectOrVanished lasting_under h₃) fun key s₄ h₄ => ?_
    obtain ⟨hkey, h₄⟩ := h₄
    obtain rfl := Option.some.inj (h₄.1.symm.trans hkey)
    refine asks_projectLock h₄ (fun s₅ h₅ => ?_) (fun _ => lasting_returned)
      fun _ => aboutRows_returned
    refine asks_bind (asks_store lasting_under h₅) fun _ s₆ h₆ => ?_
    refine asks_bind (asks_getOrCreate rfl (by simp) h₆) fun found s₇ h₇ => ?_
    dsimp only
    split_ifs
    · refine asks_bind (asks_leaves Settles.refreshed lasting_known ⟨h₇.1, h₇.2.2⟩)
        fun _ s₈ h₈ => ?_
      refine asks_bind (asks_revisionOrVanished h₈) fun row s₉ h₉ => ?_
      exact asks_pure ⟨h₉.1, fun _ => h₉.2⟩
    · exact asks_pure ⟨h₇.1, fun _ => h₇.2⟩

end Sessions

/-! ## Changes of a project -/

section Projects

variable [Hashing] {t : ThreadId} {s s' : World} {p r : Id} {k : StorageKey} {n : ℕ}
  {automatic : Bool}

omit [Hashing] in
/-- **A change of a project** under its lock. -/
theorem Mindful.of_project {change : ProjectRow → ProjectRow} (hlocked : Locked t s p)
    (hprojects : s'.projects = s.projects.modify p change)
    (hkey : ∀ project, s.projects.row p = some project →
      (change project).storageKey = project.storageKey)
    (hfiles : s'.files = s.files) (hlocks : s'.locks = s.locks)
    (hrevision : ∀ r row, s.revisions.row r = some row → ∃ row', s'.revisions.row r = some row' ∧
      row'.project = row.project ∧ row'.scriptFileDigest = row.scriptFileDigest ∧
        ((row'.status = .active ↔ row.status = .active) ∨ row.project = p))
    (hwarranted : Warranted s → Warranted s') : Mindful t s s' where
  keyOf := by
    funext q
    rw [Lifecycle.keyOf, Lifecycle.keyOf, hprojects]
    by_cases hq : q = p
    · subst hq
      rw [Table.row_modify_self, Option.map_map]
      cases hproject : s.projects.row q with
      | none => rfl
      | some project => exact congrArg some (hkey project hproject)
    · rw [Table.row_modify_of_ne hq]
  locks k u n _ := by rw [hlocks]
  project q hne := by
    by_cases hq : q = p
    · exact hq ▸ hlocked
    · exact absurd (by rw [hprojects, Table.row_modify_of_ne hq]) hne
  selection q hne := absurd (selection_congr (by rw [hfiles])) hne
  revision r row hrow := by
    obtain ⟨row', hrow', hproject, hdigest, hactive⟩ := hrevision r row hrow
    refine ⟨row', hrow', hproject, hdigest, hactive.imp_right fun howner => ?_⟩
    rwa [howner]
  warranted := hwarranted

/-- What is not automatic needs no ground. -/
theorem Mindful.keeps (h : Mindful t s s') : Keeps false t s s' := ⟨h, fun h => by cases h⟩

omit [Hashing] in
/-- **An acceptance** of a revision of the project. -/
theorem mindful_accept {project : ProjectRow} {row : RevisionRow} {activateOnce pending : Bool}
    (hlocked : Locked t s p) (hproject : s.projects.row p = some project)
    (hrow : s.revisions.row r = some row) (howner : row.project = p)
    (hpending : pending = true → row.status ≠ .active ∧ (activateOnce = true ∨
      project.sourceRevision = some r ∧ project.sourceActivationPending = true)) :
    Mindful t s (accept s p r activateOnce pending) :=
  .of_project hlocked rfl (fun _ _ => rfl) rfl rfl
    (fun _ row hrow => ⟨row, hrow, rfl, rfl, .inl .rfl⟩)
    fun hs => hs.accept hproject hrow howner hpending

/-- **A promotion** under the lock of the project. -/
theorem keeps_promote {project : ProjectRow} {row locked : RevisionRow}
    (hlocked : Locked t s p) (hproject : s.projects.row p = some project)
    (hrow : s.revisions.row r = some row) (howner : row.project = p)
    (hprevious : ¬ (locked.status = .active ∧ project.activeRevision = some r) →
      ∀ q ∈ project.activeRevision, ∃ previous, s.revisions.row q = some previous ∧
        previous.project = p)
    (hground : automatic = true → AutomaticGround s p r row project) :
    Keeps automatic t s (s.promote p r locked project) := by
  refine ⟨.of_project hlocked rfl (fun _ _ => rfl) rfl rfl (fun q other hother => ?_)
    fun hs => hs.promote hrow howner, fun hautomatic q r' hmoved hne => ?_⟩
  · by_cases halready : locked.status = .active ∧ project.activeRevision = some r
    · have hrevisions : (s.promote p r locked project).revisions = s.revisions := if_pos halready
      exact ⟨other, hrevisions ▸ hother, rfl, rfl, .inl .rfl⟩
    · refine ⟨_, (Lifecycle.row_promote halready q).trans (congrArg _ hother), ?_⟩
      split_ifs with hq hserves
      · subst hq
        obtain rfl := Option.some.inj (hrow.symm.trans hother)
        exact ⟨rfl, rfl, .inr howner⟩
      · obtain ⟨previous, hold, howner'⟩ := hprevious halready q hserves
        obtain rfl := Option.some.inj (hold.symm.trans hother)
        exact ⟨rfl, rfl, .inr howner'⟩
      · exact ⟨rfl, rfl, .inl .rfl⟩
  · rw [Publication.pointer_promote hproject] at hmoved
    split_ifs at hmoved with hq
    · subst hq
      obtain rfl := Option.some.inj hmoved
      exact ⟨project, row, hproject, hrow, hground hautomatic⟩
    · exact absurd hmoved hne

omit [Hashing] in
/-- **A deactivation** under the lock of the project. -/
theorem mindful_deactivate {row : RevisionRow} (hlocked : Locked t s p)
    (hrow : s.revisions.row r = some row) (howner : row.project = p) :
    Mindful t s (s.deactivate p r) := by
  refine .of_project hlocked rfl (fun _ _ => rfl) rfl rfl (fun q other hother => ?_)
    Warranted.deactivate
  by_cases hq : q = r
  · subst hq
    obtain rfl := Option.some.inj (hrow.symm.trans hother)
    exact ⟨_, (Table.row_modify_self ..).trans (congrArg _ hother), rfl, rfl, .inr howner⟩
  · exact ⟨other, (Table.row_modify_of_ne hq).trans hother, rfl, rfl, .inl .rfl⟩

end Projects

/-! ## Services -/

section Services

variable [Hashing] {t : ThreadId} {s : World} {p r : Id} {k : StorageKey} {n : ℕ}
  {automatic : Bool} {α : Type} {post : α → World → Prop}

/-- **Accepting a source** under the lock of its project. -/
theorem minds_acceptSource {row : RevisionRow} {activateOnce : Bool}
    (hs : Under t p k (n + 1) s) (hrow : Vanishing.hasDigest row = true →
      row.project = p ∧ Known p r (row.status = .active) s) :
    Minds false t (acceptSource r row activateOnce) (fun _ => Under t p k (n + 1)) s := by
  unfold acceptSource
  split_ifs with hstored
  · obtain ⟨rfl, hknown⟩ := hrow hstored.1
    refine minds_bind (minds_query lasting_known ⟨hs, hknown⟩) ?_
    rintro answer s₁ ⟨rfl, h₁⟩
    cases hprevious : s₁.projects.row row.project with
    | none => exact minds_raise
    | some previous =>
      -- the row of the project stays until it is written
      refine minds_stmt (lasting_known.and lasting_project) ⟨h₁, h₁.1, hprevious⟩
        fun s' hs' c result s'' hstep => ?_
      obtain ⟨⟨hunder, found, hfound, howner, hactive⟩, -, hproject⟩ := hs'
      rw [hproject, hfound] at hstep
      cases hstep
      have hmindful : Mindful t s' (accept s' row.project r activateOnce
          ((activateOnce || (decide (previous.sourceRevision = some r) &&
            previous.sourceActivationPending)) && decide (row.status ≠ .active))) := by
        refine mindful_accept hunder.locked hproject hfound howner fun hpending => ?_
        simp only [Bool.and_eq_true, Bool.or_eq_true, decide_eq_true_eq] at hpending
        exact ⟨fun hstatus => hpending.2 (hactive.mp hstatus), hpending.1⟩
      exact ⟨hmindful.keeps, fun _ _ => ⟨(congrFun hmindful.keyOf _).trans hunder.1, hunder.2⟩⟩
  · exact minds_pure hs

/-- A project that is read before its lock is taken. -/
theorem minds_getKey {failure : Failure} (hs : Free t s) :
    Minds automatic t (getProject p failure)
      (fun project s' => Under t p project.storageKey 0 s') s := by
  refine (minds_getProject lasting_free hs).mono fun project s' h => ⟨?_, h.2 _⟩
  rw [keyOf, h.1]
  rfl

omit [Hashing] in
theorem lasting_under_and (c : Prop) : Lasting t fun s => Under t p k n s ∧ c :=
  lasting_under.and (lasting_const c)

/-- A body under the project lock, of which nothing is asked but that it gives its locks back. -/
theorem minds_held {body : Service α} (hs : Under t p k n s)
    (hbody : ∀ s', Under t p k (n + 1) s' →
      Minds automatic t body (fun _ => Under t p k (n + 1)) s') :
    Minds automatic t (projectLock k body) (fun _ => Under t p k n) s := by
  refine (minds_projectLock (fun _ => True) hs (lasting_under_and True) (fun _ _ _ h => h) trivial
    (fun s' h _ => (hbody s' h).mono fun _ _ h => ⟨h, trivial⟩)
    (fun _ => lasting_under_and True) fun _ _ _ _ h => h).mono fun _ _ h => h.1

theorem minds_stageRevision [Unicode] {files : SourceFiles} {limits : StorageLimits}
    {activateOnce : Bool} {now : Time} {turns : ℕ} (hs : Free t s) :
    Minds false t (stageRevision p files limits activateOnce now turns) (fun _ _ => True) s := by
  refine minds_bind (minds_getKey hs) fun key s₁ h₁ => ?_
  refine (minds_held h₁ fun s₂ h₂ => ?_).mono fun _ _ _ => trivial
  exact minds_bind (asks_stageLocked h₂) fun staged s₃ h₃ => minds_acceptSource h₃.1 h₃.2

/-- **A refresh** under the lock of the project. -/
theorem minds_refreshRevisionScriptFiles [Unicode] {pk : Id} {now : Time} {active : Prop}
    (hs : Under t p k (n + 1) s ∧ Known p pk active s) :
    Minds false t (refreshRevisionScriptFiles p pk now) (fun _ => Under t p k (n + 1)) s := by
  refine minds_bind (minds_getProject lasting_known hs) ?_
  rintro key s₁ ⟨hkey, h₁⟩
  have hkey' : keyOf s₁ p = some key.storageKey := by
    rw [keyOf, hkey]
    rfl
  obtain rfl := Option.some.inj (h₁.1.1.symm.trans hkey')
  refine (minds_projectLock _ h₁.1 lasting_known aboutRows_known h₁.2 (fun s₂ h₂ hknown => ?_)
    (fun _ => lasting_under_and True) fun _ _ _ _ h => h).mono fun _ _ h => h.1
  refine minds_bind (asks_refreshLocked ⟨h₂, hknown⟩) fun staged s₃ h₃ => ?_
  exact (minds_acceptSource h₃.1 h₃.2).mono fun _ _ h => ⟨h, trivial⟩

theorem minds_refreshSource [Unicode] {now : Time} (hs : Free t s) :
    Minds false t (refreshSource p now) (fun _ _ => True) s := by
  refine minds_bind (minds_query lasting_free hs) ?_
  rintro answer s₁ ⟨rfl, h₁⟩
  cases hproject : s₁.projects.row p with
  | none => exact minds_pure trivial
  | some project =>
    have hunder : Under t p project.storageKey 0 s₁ := by
      refine ⟨?_, h₁ _⟩
      rw [keyOf, hproject]
      rfl
    refine (minds_held hunder fun s₂ h₂ => ?_).mono fun _ _ _ => trivial
    refine minds_bind (minds_query lasting_under h₂) ?_
    rintro answer s₃ ⟨rfl, h₃⟩
    cases hlatest : s₃.latestStoredRevision p with
    | none => exact minds_pure h₃
    | some latest =>
      obtain ⟨pk, source⟩ := latest
      obtain ⟨hrow, howner, -⟩ := latestStoredRevision_mem hlatest
      obtain rfl := howner
      exact minds_refreshRevisionScriptFiles ⟨h₃, source, hrow, rfl, .rfl⟩

omit [Hashing] in
theorem beside_closeTransaction : closeTransaction.EachStep Beside := by
  refine eachStep_stmt fun t c s result s' hstep => ?_
  cases hstep
  exact ⟨⟨.of_rows_eq rfl rfl rfl .refl, .of_eq rfl rfl rfl⟩, rfl⟩

/-- A transaction, whose end concerns nobody else. -/
theorem minds_transaction {body : Service α} (hlasting : ∀ a, Lasting t (post a))
    (h : Minds automatic t body post s) : Minds automatic t (transaction body) post s := by
  refine wp_finallyDo (wp_mono (fun result s₁ h₁ => ?_) h)
  cases result with
  | ok a =>
    refine wp_mono (fun result' s₂ h₂ => ?_) (minds_beside beside_closeTransaction (hlasting a) h₁)
    cases result' with
    | ok _ => exact h₂
    | error _ => trivial
  | error e =>
    refine wp_mono (fun result' s₂ _ => ?_)
      (minds_beside beside_closeTransaction (lasting_const True) trivial)
    cases result' <;> trivial

end Services

/-! ## Activations -/

section Activations

variable [Hashing] {t : ThreadId} {s : World} {p r : Id} {k : StorageKey} {n : ℕ}
  {automatic isRepair : Bool} {snapshot locked : RevisionRow} {project : ProjectRow}

/-- Under the lock of a project its declarations keep their digest. -/
theorem lasting_digest {digest : PyStr} :
    Lasting t fun s => Under t p k (n + 1) s ∧ snapshotDigest (selection s p) = digest where
  others := by
    rintro u s s' hne h ⟨hunder, hdigest⟩
    refine ⟨lasting_under.others u s s' hne h hunder, ?_⟩
    have hkept : selection s' p = selection s p := by
      by_contra hchanged
      exact hunder.not_locked hne (h.selection p hchanged)
    rwa [hkept]
  own s s' h hs := ⟨lasting_under.own s s' h hs.1, by rw [h.1.2.selection, hs.2]⟩

/-- What the question of an automatic activation comes to, for the project row it was asked of. -/
structure Permitted (r : Id) (project : ProjectRow) : Prop where
  source : project.sourceRevision = some r
  permitted : project.sourceActivationPending = true ∨ project.activationPolicy = .automaticIfValid

/-- What a promotion stands on when it commits. -/
def Standing (t : ThreadId) (k : StorageKey) (n : ℕ) (automatic : Bool) (r : Id)
    (project : ProjectRow) (locked : RevisionRow) (s : World) : Prop :=
  (Under t locked.project k n s ∧ s.projects.row locked.project = some project) ∧
    Frozen locked.project r locked.scriptFileDigest s ∧
      Under t locked.project k n s ∧ (automatic = true →
        snapshotDigest (selection s locked.project) = locked.scriptFileDigest)

theorem lasting_standing : Lasting t (Standing t k (n + 1) automatic r project locked) :=
  lasting_project.and (lasting_frozen.and (lasting_imp lasting_digest))

/-- **The question of an automatic activation**, asked under the lock. -/
theorem minds_isCurrent (hs : (Under t locked.project k (n + 1) s ∧
      s.projects.row locked.project = some project) ∧
        Frozen locked.project r locked.scriptFileDigest s) :
    Minds true t (isCurrent r project locked) (fun current s' =>
      Under t locked.project k (n + 1) s' ∧ (current = true →
        Permitted r project ∧ Standing t k (n + 1) true r project locked s')) s := by
  unfold isCurrent
  split_ifs with hsource hpermitted
  · exact minds_pure ⟨hs.1.1, fun h => by cases h⟩
  · exact minds_pure ⟨hs.1.1, fun h => by cases h⟩
  · refine minds_bind (minds_query (lasting_project.and lasting_frozen) hs) ?_
    rintro entries s₁ ⟨rfl, h₁⟩
    refine minds_pure ⟨h₁.1.1, fun hdigest => ⟨⟨not_not.mp hsource, ?_⟩, h₁.1, h₁.2, h₁.1.1,
      fun _ => of_decide_eq_true hdigest⟩⟩
    rw [not_and_or, Bool.not_eq_false, not_not] at hpermitted
    exact hpermitted

/-- What the last statement of a promotion leaves. -/
inductive Committed (r : Id) (project : ProjectRow) (locked : RevisionRow) (s : World) :
    World → Prop
  | refused : Committed r project locked s s
  | done (hprevious : ¬ (locked.status = .active ∧ project.activeRevision = some r) →
      ∀ q ∈ project.activeRevision, ∃ previous, s.revisions.row q = some previous ∧
        previous.project = locked.project) :
    Committed r project locked s (s.promote locked.project r locked project)

omit [Hashing] in
theorem eachStep_commitPromotion : (commitPromotion snapshot r project locked isRepair).EachStep
    fun _ => Committed r project locked := by
  refine eachStep_stmt fun t c s result s' hstep => ?_
  by_cases hinputs : Lifecycle.SameInputs locked snapshot
  swap
  · rw [if_pos hinputs] at hstep
    cases hstep
    exact .refused
  rw [if_neg (not_not_intro hinputs)] at hstep
  dsimp only at hstep
  split at hstep
  · cases hstep
    exact .refused
  split at hstep
  · cases hstep
    exact .refused
  split at hstep
  · cases hstep
    exact .refused
  split at hstep
  · cases hstep
    exact .refused
  split at hstep
  · next halready =>
    cases hstep
    exact .done fun h => absurd (by simpa using halready) h
  split at hstep
  · next hnone =>
    cases hstep
    exact .done fun _ q hq => by rw [hnone] at hq; cases hq
  · next q hserves =>
    split at hstep
    · cases hstep
      exact .refused
    · next previous hprevious =>
      split at hstep
      · cases hstep
        exact .refused
      · next howner =>
        cases hstep
        refine .done fun _ q' hq' => ?_
        obtain rfl := Option.some.inj (hserves.symm.trans hq')
        exact ⟨previous, hprevious, not_not.mp howner⟩

/-- **The commit of a promotion** finds the ground that it stands on. -/
theorem minds_commitPromotion (hs : Standing t k (n + 1) automatic r project locked s)
    (hpermitted : automatic = true → Permitted r project) :
    Minds automatic t (commitPromotion snapshot r project locked isRepair)
      (fun _ => Under t locked.project k (n + 1)) s := by
  refine minds_stmt lasting_standing hs fun s' hs' c result s'' hstep => ?_
  obtain ⟨⟨hunder, hproject⟩, ⟨row, hrow, howner, hfrozen⟩, -, hdigest⟩ := hs'
  cases eachStep_commitPromotion.1 t c s' result s'' hstep with
  | refused => exact ⟨Beside.refl.1.keeps, fun _ _ => hunder⟩
  | done hprevious =>
    have hkeeps : Keeps automatic t s' (s'.promote locked.project r locked project) := by
      refine keeps_promote hunder.locked hproject hrow howner hprevious fun hautomatic => ?_
      obtain ⟨hsource, hpermitted⟩ := hpermitted hautomatic
      exact ⟨hsource, hpermitted, (hdigest hautomatic).trans hfrozen.symm⟩
    exact ⟨hkeeps, fun _ _ => ⟨(congrFun hkeeps.1.keyOf _).trans hunder.1, hunder.2⟩⟩

/-- **A promotion** under the lock of the revision's project. -/
theorem minds_promote (hs : Under t snapshot.project k (n + 1) s) :
    Minds automatic t (promote snapshot r automatic isRepair)
      (fun _ => Under t snapshot.project k (n + 1)) s := by
  refine minds_bind (minds_getProject lasting_under hs) ?_
  rintro project s₁ ⟨hproject, h₁⟩
  refine minds_bind (minds_getRevision lasting_project ⟨h₁, hproject⟩) ?_
  rintro locked s₂ ⟨hrow, h₂⟩
  by_cases howner : locked.project = snapshot.project
  swap
  · rw [if_pos howner]
    exact minds_raise
  rw [if_neg (not_not_intro howner), ← howner]
  rw [← howner] at h₂
  have hfrozen : Frozen locked.project r locked.scriptFileDigest s₂ := ⟨locked, hrow, rfl, rfl⟩
  have hcommit : ∀ (current : Bool) s₃, Under t locked.project k (n + 1) s₃ ∧ (current = true →
      (automatic = true → Permitted r project) ∧
        Standing t k (n + 1) automatic r project locked s₃) →
      Minds automatic t (if current then commitPromotion snapshot r project locked isRepair
        else pure ()) (fun _ => Under t locked.project k (n + 1)) s₃ := by
    rintro current s₃ ⟨h₃, hstanding⟩
    split_ifs with hyes
    · exact minds_commitPromotion (hstanding hyes).2 (hstanding hyes).1
    · exact minds_pure h₃
  cases automatic with
  | true =>
    refine minds_bind (minds_isCurrent ⟨h₂, hfrozen⟩) fun current s₃ h₃ => hcommit current s₃ ?_
    exact h₃.imp_right fun hyes hcurrent => (hyes hcurrent).imp_left fun h _ => h
  | false =>
    have hnot : (false = true) → False := Bool.false_ne_true
    exact hcommit true s₂ ⟨h₂.1, fun _ =>
      ⟨fun h => (hnot h).elim, h₂, hfrozen, h₂.1, fun h => (hnot h).elim⟩⟩

/-- **An activation**, automatic or not. -/
theorem minds_activateRevision [Unicode] {revision : RevisionRow} (hs : Free t s) :
    Minds automatic t (activateRevision r revision automatic isRepair) (fun _ _ => True) s := by
  refine minds_bind (minds_beside trivial lasting_free hs) fun _ s₁ h₁ => ?_
  refine minds_bind (minds_getRevision lasting_free h₁) ?_
  rintro snapshot s₂ ⟨-, h₂⟩
  refine minds_bind (minds_getKey h₂) fun project s₃ h₃ => ?_
  refine minds_bind (minds_beside trivial lasting_under h₃) fun _ s₄ h₄ => ?_
  refine minds_bind (minds_beside ?_ lasting_under h₄) fun _ s₅ h₅ => ?_
  · cases validateScriptFileSnapshot (.arr (snapshot.scriptFileSnapshot.map SnapshotEntry.toJson))
        snapshot.scriptFileDigest with
    | ok u => exact eachStep_pure
    | error failure => exact eachStep_raise
  refine (minds_held h₅ fun s₆ h₆ => ?_).mono fun _ _ _ => trivial
  refine minds_bind (minds_beside trivial lasting_under h₆) fun _ s₇ h₇ => ?_
  have hverify : (verifyRevisionTree project.storageKey (snapshot.digest.getD [])
      snapshot.manifest).EachStep Beside :=
    eachStep_verifyRevisionTree.mono fun t s s' heq => heq ▸ .refl
  refine minds_bind (minds_beside hverify lasting_under h₇) fun _ s₈ h₈ => ?_
  exact minds_transaction (fun _ => lasting_under) (minds_promote h₈)

end Activations

/-! ## Validations -/

section Validations

variable {Cls : Type} [DecidableEq Cls] [Unicode] [Hashing] {t : ThreadId} {s : World}
  {p q r job : Id} {env : ValidationEnv Cls}

omit [DecidableEq Cls] [Unicode] [Hashing] in
theorem besides {α : Type} {prog : Service α} (h : prog.EachStep Quiet)
    (h' : prog.EachStep fun _ s s' => Steady s s' ∧ s'.locks = s.locks) : prog.EachStep Beside :=
  (h.and h').mono fun _ _ _ h => ⟨⟨h.1, h.2.1⟩, h.2.2⟩

omit [DecidableEq Cls] [Unicode] [Hashing] in
theorem steady_updateWhere {found : RevisionRow → Bool} {change : RevisionRow → RevisionRow} :
    (Lifecycle.updateWhere r found change).EachStep fun _ s s' =>
      Steady s s' ∧ s'.locks = s.locks := by
  refine eachStep_stmt fun t c s answer s' hstep => ?_
  split at hstep
  · cases hstep
    exact ⟨.of_eq rfl rfl rfl, rfl⟩
  · split_ifs at hstep
    all_goals
      cases hstep
      exact ⟨.of_eq rfl rfl rfl, rfl⟩

omit [DecidableEq Cls] [Unicode] [Hashing] in
theorem beside_persistResult {row : RevisionRow}
    {result : SnapshotEntry × FileDiscoveryStatus × PyStr} :
    (Lifecycle.persistResult r row result).EachStep Beside := by
  refine besides Lifecycle.eachStep_persistResult ?_
  unfold Lifecycle.persistResult
  split_ifs
  · refine eachStep_stmt fun t c s answer s' hstep => ?_
    split at hstep
    · cases hstep
      exact ⟨.of_eq rfl rfl rfl, rfl⟩
    · split_ifs at hstep
      · cases hstep
        refine ⟨⟨rfl, fun p => selection_congr (funext fun i => ?_), rfl⟩, rfl⟩
        -- an outcome is no part of what is declared
        unfold declaredIn
        by_cases hi : i = result.1.scriptFile
        · subst hi
          rw [Table.row_modify_self, Option.bind_map]
          rfl
        · rw [Table.row_modify_of_ne hi]
      · cases hstep
        exact ⟨.of_eq rfl rfl rfl, rfl⟩
  · exact eachStep_raise

omit [DecidableEq Cls] [Unicode] [Hashing] in
theorem beside_getRevision {failure : Failure} : (getRevision r failure).EachStep Beside := by
  refine eachStep_bind (eachStep_query fun _ _ => .refl) fun answer => ?_
  split
  · exact eachStep_pure
  · exact eachStep_raise

/-- **A validation** writes no project and no declaration. -/
theorem beside_validateRevision : (Lifecycle.validateRevision env r job).EachStep Beside := by
  have hrevert : ∀ {reason : PyStr},
      (Lifecycle.revertToMaterialized r job reason).EachStep Beside := by
    intro reason
    refine besides Lifecycle.eachStep_revertToMaterialized ?_
    unfold Lifecycle.revertToMaterialized
    split_ifs
    · exact steady_updateWhere
    · exact eachStep_raise
  have hfinalize : ∀ {verdict : Verdict}, verdict.status = .valid ∨ verdict.status = .invalid →
      (Lifecycle.finalize r job verdict).EachStep Beside := by
    intro verdict hverdict
    refine besides (Lifecycle.eachStep_finalize hverdict) ?_
    unfold Lifecycle.finalize
    split_ifs
    · exact steady_updateWhere
    · exact eachStep_raise
  refine eachStep_bind (eachStep_query fun _ _ => .refl) fun now => ?_
  refine eachStep_bind (besides Lifecycle.eachStep_claimValidation steady_updateWhere)
    fun claimed => ?_
  split_ifs
  · refine eachStep_bind beside_getRevision fun row => ?_
    split
    · exact eachStep_raise
    · exact eachStep_bind hrevert fun _ => eachStep_raise
    · exact eachStep_bind hrevert fun _ => eachStep_raise
    · next verdict hverdict =>
      have hlast : (do
          let _ ← getRevision r .doesNotExist
          pure () : Service Unit).EachStep Beside :=
        eachStep_bind beside_getRevision fun _ => eachStep_pure
      refine eachStep_bind (hfinalize (Lifecycle.examineRevision_status hverdict))
        fun owned => ?_
      dsimp only
      split_ifs
      · exact eachStep_bind (eachStep_forM fun _ => beside_persistResult) fun _ => hlast
      · exact hlast
  · exact eachStep_raise

/-- **A validation job** activates what it may. -/
theorem minds_validationJob (hs : Free t s) :
    Minds true t (validationJob env r job) (fun _ _ => True) s := by
  have hactivate : ∀ s, Free t s → Minds true t (do
      let revision ← getRevision r .doesNotExist
      if revision.status = .invalid then pure () else activateRevision r revision true false :
        Service Unit) (fun _ _ => True) s := by
    intro s hs
    refine minds_bind (minds_getRevision lasting_free hs) ?_
    rintro revision s₁ ⟨-, h₁⟩
    split_ifs
    · exact minds_pure trivial
    · exact minds_activateRevision h₁
  refine minds_bind (minds_query lasting_free hs) ?_
  rintro answer s₁ ⟨rfl, h₁⟩
  cases hrow : s₁.revisions.row r with
  | none => exact minds_pure trivial
  | some found =>
    dsimp only
    split_ifs
    · exact minds_bind (minds_beside beside_validateRevision lasting_free h₁) fun _ => hactivate
    · exact hactivate s₁ h₁

end Validations

/-! ## Saves -/

section Saves

variable [Unicode] [Hashing] {t : ThreadId} {s s' : World} {p q r : Id} {k : StorageKey} {n : ℕ}

omit [Unicode] [Hashing] in
/-- The declarations of a project are those of its rows. -/
theorem selection_of_other (h : ∀ i, s'.files.row i = s.files.row i ∨
      (∀ row ∈ s.files.row i, row.project ≠ q) ∧ ∀ row ∈ s'.files.row i, row.project ≠ q) :
    selection s' q = selection s q := by
  have hnone : ∀ file : Option ScriptFileRow, (∀ row ∈ file, row.project ≠ q) →
      (file.bind fun row => if row.project = q ∧ row.enabled then some row.sourcePath
        else none) = none := by
    intro file hfile
    cases file with
    | none => rfl
    | some row => exact if_neg fun h => hfile row rfl h.1
  refine selection_congr (funext fun i => ?_)
  unfold declaredIn
  rcases h i with heq | ⟨hbefore, hafter⟩
  · rw [heq]
  · rw [hnone _ hbefore, hnone _ hafter]

omit [Unicode] [Hashing] in
/-- **A change of declarations** under the lock of their project. -/
theorem mindful_files {files : Table ScriptFileRow} (hlocked : Locked t s p)
    (h : ∀ q, q ≠ p → ∀ i, files.row i = s.files.row i ∨
      (∀ row ∈ s.files.row i, row.project ≠ q) ∧ ∀ row ∈ files.row i, row.project ≠ q) :
    Mindful t s { s with files } where
  keyOf := rfl
  locks := .refl
  project _ hne := absurd rfl hne
  selection q hne := by
    by_cases hq : q = p
    · exact hq ▸ hlocked
    · exact absurd (selection_of_other (h q hq)) hne
  revision _ row hrow := ⟨row, hrow, rfl, rfl, .inl .rfl⟩
  warranted hs := ⟨hs.owner, hs.requested, hs.idle⟩

omit [Hashing] in
/-- A save of a declaration leaves those of other projects. -/
theorem saveDeclaration_other {table table' : Table ScriptFileRow} {file : ScriptFileInstance}
    {fields : SavedFields} (hsave : saveDeclaration table file fields = .ok table')
    (hq : q ≠ file.project) (i : Id) : table'.row i = table.row i ∨
      (∀ row ∈ table.row i, row.project ≠ q) ∧ ∀ row ∈ table'.row i, row.project ≠ q := by
  unfold saveDeclaration at hsave
  split at hsave
  · cases hsave
  split at hsave
  · cases hsave
  split_ifs at hsave
  split at hsave
  · unfold insertDeclaration at hsave
    split_ifs at hsave
    cases hsave
    rw [Table.row_insert]
    split_ifs with hi
    · subst hi
      refine .inr ⟨fun row hrow => ?_, fun row hrow => ?_⟩
      · rw [Table.row_next] at hrow
        cases hrow
      · obtain rfl := Option.some.inj hrow
        exact hq.symm
    · exact .inl rfl
  · next pk hpk =>
    split at hsave
    · cases hsave
    next original horiginal =>
    split_ifs at hsave with hidentity
    cases hsave
    by_cases hi : i = pk
    · subst hi
      obtain ⟨hproject, -⟩ := not_or.mp hidentity
      rw [not_not] at hproject
      refine .inr ⟨fun row hrow => ?_, fun row hrow => ?_⟩
      · obtain rfl := Option.some.inj (horiginal.symm.trans hrow)
        exact hproject ▸ hq.symm
      · obtain ⟨old, hold, rfl⟩ := Table.row_modify_eq_some hrow
        obtain rfl := Option.some.inj (horiginal.symm.trans hold)
        rw [if_pos rfl]
        cases fields with
        | all => exact hq.symm
        | enabled => exact hproject ▸ hq.symm
    · exact .inl (Table.row_modify_of_ne hi)

theorem minds_saveScriptFile {file : ScriptFileInstance} {fields : SavedFields} (hs : Free t s) :
    Minds false t (saveScriptFile file fields) (fun _ _ => True) s := by
  refine minds_bind (minds_getKey hs) fun project s₁ h₁ => ?_
  refine (minds_held h₁ fun s₂ h₂ => ?_).mono fun _ _ _ => trivial
  refine minds_transaction (fun _ => lasting_under) ?_
  refine minds_stmt lasting_under h₂ fun s' hs' c result s'' hstep => ?_
  split at hstep
  · cases hstep
    exact ⟨Beside.refl.1.keeps, fun _ _ => hs'⟩
  · next files hsave =>
    split_ifs at hstep
    · cases hstep
      exact ⟨Beside.refl.1.keeps, fun _ _ => hs'⟩
    · cases hstep
      exact ⟨(mindful_files hs'.locked fun q hq i => saveDeclaration_other hsave hq i).keeps,
        fun _ _ => hs'⟩

omit [Unicode] in
theorem minds_deleteScriptFile {f : Id} (hs : Free t s) :
    Minds false t (deleteScriptFile p f) (fun _ _ => True) s := by
  refine minds_bind (minds_query lasting_free hs) ?_
  rintro answer s₁ ⟨rfl, h₁⟩
  cases hproject : s₁.projects.row p with
  | none => exact minds_pure trivial
  | some project =>
    have hunder : Under t p project.storageKey 0 s₁ := by
      refine ⟨?_, h₁ _⟩
      rw [keyOf, hproject]
      rfl
    refine (minds_held hunder fun s₂ h₂ => ?_).mono fun _ _ _ => trivial
    refine minds_transaction (fun _ => lasting_under) ?_
    refine minds_stmt lasting_under h₂ fun s' hs' c result s'' hstep => ?_
    split at hstep
    · cases hstep
      exact ⟨Beside.refl.1.keeps, fun _ _ => hs'⟩
    · next file hfile =>
      split_ifs at hstep with howner hfail
      · cases hstep
        exact ⟨Beside.refl.1.keeps, fun _ _ => hs'⟩
      · cases hstep
        exact ⟨Beside.refl.1.keeps, fun _ _ => hs'⟩
      · cases hstep
        rw [not_not] at howner
        refine ⟨(mindful_files hs'.locked fun q hq i => ?_).keeps, fun _ _ => hs'⟩
        rw [Table.row_eraseAll]
        split_ifs with hi
        · refine .inr ⟨fun row hrow => ?_, fun row hrow => by cases hrow⟩
          rw [beq_iff_eq] at hi
          subst hi
          obtain rfl := Option.some.inj (hfile.symm.trans hrow)
          exact howner ▸ hq.symm
        · exact .inl rfl

omit [Unicode] in
theorem minds_deactivateRevision (hs : Free t s) :
    Minds false t (Lifecycle.deactivateRevision p r) (fun _ _ => True) s := by
  refine minds_bind (minds_getKey hs) fun project s₁ h₁ => ?_
  refine (minds_held h₁ fun s₂ h₂ => ?_).mono fun _ _ _ => trivial
  refine minds_stmt lasting_under h₂ fun s' hs' c result s'' hstep => ?_
  split at hstep
  · cases hstep
    exact ⟨Beside.refl.1.keeps, fun _ _ => hs'⟩
  · split at hstep
    · cases hstep
      exact ⟨Beside.refl.1.keeps, fun _ _ => hs'⟩
    · next locked hrow =>
      split_ifs at hstep with howner hserves hfail
      · cases hstep
        exact ⟨Beside.refl.1.keeps, fun _ _ => hs'⟩
      · cases hstep
        exact ⟨Beside.refl.1.keeps, fun _ _ => hs'⟩
      · cases hstep
        exact ⟨Beside.refl.1.keeps, fun _ _ => hs'⟩
      · cases hstep
        have hmindful := mindful_deactivate hs'.locked hrow (not_not.mp howner)
        exact ⟨hmindful.keeps, fun _ _ => ⟨(congrFun hmindful.keyOf _).trans hs'.1, hs'.2⟩⟩

omit [Unicode] [Hashing] in
/-- What a save leaves of the row it was compared with: the source markers and the storage key. -/
theorem overwrite_markers {revisions : Table RevisionRow} {project : ProjectInstance}
    {row : ProjectRow} {updateFields : Option (List ProjectField)}
    (hrefusal : saveRefusal revisions project (project.restored row updateFields) row
      updateFields = none) :
    (row.overwrite (project.restored row updateFields) updateFields).storageKey =
        row.storageKey ∧
      (row.overwrite (project.restored row updateFields) updateFields).sourceRevision =
        row.sourceRevision ∧
      (row.overwrite (project.restored row updateFields) updateFields).sourceActivationPending =
        row.sourceActivationPending := by
  have hrestored : (project.restored row updateFields).storageKey = row.storageKey := by
    by_contra hne
    rw [saveRefusal, if_pos (.inr (.inr (Ne.symm hne)))] at hrefusal
    cases hrefusal
  refine ⟨?_, ite_self _, ite_self _⟩
  unfold ProjectRow.overwrite
  dsimp only
  rw [hrestored, ite_self]

omit [Unicode] [Hashing] in
/-- **A save of a project** under its lock, over the row that was read. -/
theorem mindful_overwrite {project : ProjectInstance} {row : ProjectRow}
    {updateFields : Option (List ProjectField)} (hlocked : Locked t s p)
    (hrow : s.projects.row p = some row)
    (hrefusal : saveRefusal s.revisions project (project.restored row updateFields) row
      updateFields = none) :
    Mindful t s (s.modifyProject p fun _ =>
      row.overwrite (project.restored row updateFields) updateFields) := by
  obtain ⟨hkey, hsource, hpending⟩ := overwrite_markers hrefusal
  refine .of_project hlocked rfl (fun old hold => ?_) rfl rfl
    (fun _ row hrow => ⟨row, hrow, rfl, rfl, .inl .rfl⟩) fun hs => hs.keep rfl ?_
      (fun r row hrow => ⟨row, hrow, rfl⟩) fun _ _ _ row row' _ _ _ hrow _ hrow' hstatus => ?_
  · obtain rfl := Option.some.inj (hrow.symm.trans hold)
    exact hkey
  · intro q project' hproject'
    obtain ⟨old, hold, rfl⟩ := Table.row_modify_eq_some hproject'
    refine ⟨old, hold, ?_⟩
    split_ifs with hq
    · subst hq
      obtain rfl := Option.some.inj (hrow.symm.trans hold)
      exact ⟨hsource, fun h => hpending ▸ h⟩
    · exact ⟨rfl, id⟩
  · obtain rfl := Option.some.inj (hrow.symm.trans hrow')
    exact hstatus

omit [Unicode] [Hashing] in
theorem lasting_keyOf {key : Option StorageKey} : Lasting t fun s => keyOf s p = key where
  others _ _ _ _ h hs := (congrFun h.keyOf p).trans hs
  own _ _ h hs := (congrFun h.1.1.keyOf p).trans hs

omit [Unicode] in
/-- **A save of a project** writes back the source markers that the row has. -/
theorem minds_saveProject {fields : ProjectRow} {authorized : Option (List GatedField)}
    {updateFields : Option (List ProjectField)} (hs : Free t s) :
    Minds false t (Publication.saveProject p fields authorized updateFields)
      (fun _ _ => True) s := by
  refine minds_bind (minds_query lasting_free hs) ?_
  rintro stored s₁ ⟨rfl, h₁⟩
  cases hstored : s₁.projects.row p with
  | none =>
    -- no project comes to be meanwhile, so that nothing is written
    have hnone : keyOf s₁ p = none := by
      rw [keyOf, hstored]
      rfl
    have hacquire : Minds false t (acquireLock fields.storageKey) (fun _ s => keyOf s p = none)
        s₁ := by
      refine minds_stmt lasting_keyOf hnone fun s' hs' c result s'' hstep => ?_
      have haside := aside_acquireLock.1 t c s' result s'' hstep
      exact ⟨haside.keeps, fun _ _ => (congrFun haside.1.keyOf p).trans hs'⟩
    refine minds_bind hacquire fun _ s₂ h₂ => ?_
    have hbody : Minds false t (transaction do
        let original ← Prog.query fun s => s.projects.row p
        Publication.storeProject p fields authorized updateFields original) (fun _ _ => True)
        s₂ := by
      refine minds_transaction (fun _ => lasting_const True) ?_
      refine minds_bind (minds_query lasting_keyOf h₂) ?_
      rintro original s₃ ⟨rfl, h₃⟩
      have hmissing : s₃.projects.row p = none := Option.map_eq_none_iff.mp h₃
      rw [hmissing]
      refine minds_stmt (lasting_const True) trivial fun s' _ c result s'' hstep => ?_
      split at hstep
      · cases hstep
        exact ⟨Beside.refl.1.keeps, fun _ _ => trivial⟩
      · next projects hsave =>
        obtain ⟨_, read, -, heq, -⟩ := saveProject_ok rfl hsave
        cases heq
    refine wp_finallyDo (wp_mono (fun result s₃ _ => ?_) hbody)
    refine wp_mono (fun result' s₄ _ => ?_) (aside_releaseLock.mono fun _ _ _ => Aside.keeps).wp
    cases result <;> cases result' <;> trivial
  | some project =>
    have hunder : Under t p project.storageKey 0 s₁ := by
      refine ⟨?_, h₁ _⟩
      rw [keyOf, hstored]
      rfl
    refine (minds_held hunder fun s₂ h₂ => ?_).mono fun _ _ _ => trivial
    refine minds_transaction (fun _ => lasting_under) ?_
    refine minds_bind (minds_query lasting_under h₂) ?_
    rintro original s₃ ⟨rfl, h₃⟩
    -- the row that is written is the one that was read
    refine minds_stmt lasting_project ⟨h₃, rfl⟩ fun s' hs' c result s'' hstep => ?_
    obtain ⟨hunder', hread⟩ := hs'
    split at hstep
    · cases hstep
      exact ⟨Beside.refl.1.keeps, fun _ _ => hunder'⟩
    · next projects hsave =>
      split_ifs at hstep
      · cases hstep
        exact ⟨Beside.refl.1.keeps, fun _ _ => hunder'⟩
      · cases hstep
        obtain ⟨row, read, hrow, heq, hrefusal, rfl⟩ := saveProject_ok rfl hsave
        obtain rfl := Option.some.inj ((hread.trans heq).symm.trans hrow)
        have hmindful := mindful_overwrite hunder'.locked hrow hrefusal
        exact ⟨hmindful.keeps,
          fun _ _ => ⟨(congrFun hmindful.keyOf _).trans hunder'.1, hunder'.2⟩⟩

end Saves

/-! ## Runs -/

variable {Cls : Type} [DecidableEq Cls] [Unicode] [Hashing]

/-- **Whatever is done** is mindful. -/
theorem Work.minds (work : Work Cls) {t : ThreadId} {s : World} (hs : Free t s) :
    Minds work.automatic t work.body (fun _ _ => True) s := by
  cases work with
  | stage project files limits activateOnce now turns => exact minds_stageRevision hs
  | refresh project now => exact minds_refreshSource hs
  | validate env r job => exact minds_validationJob hs
  | activate r revision isRepair => exact minds_activateRevision hs
  | deactivate project r => exact minds_deactivateRevision hs
  | saveProject p fields authorized updateFields => exact minds_saveProject hs
  | saveFile file fields => exact minds_saveScriptFile hs
  | deleteFile project f => exact minds_deleteScriptFile hs

theorem verified_requests : (requests : System World Choice Failure (Work Cls)).Verified Mindful
    (fun work t => Keeps work.automatic t) Free where
  body work t s hs := wp_mono (fun _ _ _ => trivial) (work.minds hs)
  fresh_stable _ := lasting_free.others
  guar_change h := h.1
  reap t s := by
    have haside : Aside t s (s.reap t) := ⟨Publication.quiet_reap, .of_eq rfl rfl rfl⟩
    exact (haside.keeps : Keeps false _ _ _).1
  tick t s := by
    have haside : Aside t s { s with now := s.now + 1 } :=
      ⟨.of_rows_eq rfl rfl rfl .refl, .of_eq rfl rfl rfl⟩
    exact (haside.keeps : Keeps false _ _ _).1

section Runs

variable {pool : Pool World Choice Failure (Work Cls)} {s₀ : World} {next : ThreadId}

/-- **Automatic activations were requested.** In every interleaving of stagings, refreshes,
validation jobs, activations, deactivations and saves, an automatic activation moves a pointer to
the accepted source only, whose activation is pending or the policy and whose declarations are the
enabled ones. A pending activation is of the source that was requested last, with no other accepted
since, and that source is not active. -/
theorem activations_requested (hstart : Warranted s₀) (hfree : ∀ t, next ≤ t → Free t s₀)
    (hrun : Run requests (fun _ _ => True) (Pool.start s₀ next) pool) :
    (∀ t th choice pool', pool.thread t = some th → th.op.automatic = true →
      pool.step requests (.run t choice) = some pool' → ∀ p r,
        pointer pool'.world p = some r → pointer pool.world p ≠ some r →
          ∃ project row, pool.world.projects.row p = some project ∧
            pool.world.revisions.row r = some row ∧
              AutomaticGround pool.world p r row project) ∧
    ∀ p project, pool.world.projects.row p = some project →
      project.sourceActivationPending = true → ∃ r row, project.sourceRevision = some r ∧
        Requested pool.world.record.acceptances p r ∧
          pool.world.revisions.row r = some row ∧ row.status ≠ .active := by
  have hsound : Sound Mindful (fun (work : Work Cls) t => Keeps work.automatic t) Free pool :=
    verified_requests.run_sound (.start hfree) hrun
  have hwarranted : Warranted pool.world := verified_requests.run_invariant
    (fun _ _ _ h => h.warranted) (.start hfree) hstart hrun
  refine ⟨fun t th choice pool' hth hautomatic hstep => ?_, fun p project hproject hpending => ?_⟩
  · cases (verified_requests.step hsound hstep).1 with
    | run _ hth' hkeeps =>
      obtain rfl := Option.some.inj (hth.symm.trans hth')
      exact hkeeps.2 hautomatic
  · obtain ⟨r, hsource, hrequested⟩ := hwarranted.requested p project hproject hpending
    obtain ⟨row, hrow, -⟩ := hwarranted.owner p project r hproject hsource
    exact ⟨r, row, hsource, hrequested, hrow,
      hwarranted.idle p project r row hproject hpending hsource hrow⟩

end Runs

section Once

omit [DecidableEq Cls] [Unicode] [Hashing]

/-- A project whose source was accepted with a request, and awaits its verdict. -/
def requestedWorld : World :=
  { vacantWorld with
    projects := vacantWorld.projects.insert
      ⟨py "p", 0, .upload, none, [], .manual, none, some 1, true, true⟩
    revisions := vacantWorld.revisions.insert exampleRevision
    files := vacantWorld.files.insert ⟨1, py "a.py", true, .pending, [], none⟩
    objects := fun key => if key = .revision 0 (exampleRevision.digest.getD []) (py "a.py") then
      some [120] else none
    record := { vacantWorld.record with acceptances := [⟨1, 1, true⟩] } }

/-- The system, with its tables. -/
def exampleRequests : System World Choice Failure (Work Unit) :=
  @requests Unit _ asciiUnicode (tableHashing validationTable)

/-- The validation job of the source. -/
def approval : Work Unit :=
  .validate (exampleEnv (exampleFacts (py "S") (.ofString (py "always")))
    (.imported [()] (.ok []))) 1 1

/-- The job, right before it commits its activation. -/
def approvedPool : Pool World Choice Failure (Work Unit) :=
  ((Pool.start requestedWorld 0).spawn exampleRequests approval).drive exampleRequests 0 .proceed 16

theorem approvedPool_run : Run exampleRequests (fun _ _ => True) (Pool.start requestedWorld 0)
    approvedPool :=
  @run_drive World Choice Failure (Work Unit) exampleRequests (Pool.start requestedWorld 0)
    ((Pool.start requestedWorld 0).spawn exampleRequests approval) 0 .proceed 16
    (run_spawn approval .refl)

theorem warranted_requestedWorld : Warranted requestedWorld := by
  have hproject : ∀ p project, requestedWorld.projects.row p = some project →
      p = 1 ∧ project.sourceRevision = some 1 := by
    intro p project hproject
    rcases Table.row_insert_eq_some hproject with ⟨rfl, rfl⟩ | hold
    · exact ⟨rfl, rfl⟩
    · cases hold
  have hrevision : requestedWorld.revisions.row 1 = some exampleRevision := Table.row_insert_next
  refine ⟨fun p project r h hsource => ?_, fun p project h _ => ?_,
    fun p project r row h _ hsource hrow => ?_⟩
  all_goals obtain ⟨rfl, hone⟩ := hproject p project h
  · obtain rfl := Option.some.inj (hone.symm.trans hsource)
    exact ⟨exampleRevision, hrevision, rfl⟩
  · exact ⟨1, hone, [], ⟨1, 1, true⟩, [], rfl, rfl, rfl, fun _ hlater => by cases hlater⟩
  · obtain rfl := Option.some.inj (hone.symm.trans hsource)
    obtain rfl := Option.some.inj (hrevision.symm.trans hrow)
    decide

/-- A revision that was requested is activated once it is valid. -/
theorem activations_requested_once : ∃ pool', approvedPool.step exampleRequests (.run 0 .proceed) =
      some pool' ∧ pointer approvedPool.world 1 = none ∧ pointer pool'.world 1 = some 1 ∧
    ∃ project row, approvedPool.world.projects.row (1 : Id) = some project ∧
      approvedPool.world.revisions.row (1 : Id) = some row ∧
        @AutomaticGround (tableHashing validationTable) approvedPool.world 1 1 row project := by
  have hmoves : (approvedPool.step exampleRequests (.run 0 .proceed)).map
        (fun pool => pointer pool.world 1) = some (some 1) ∧
      pointer approvedPool.world 1 = none ∧
      (approvedPool.thread 0).map (fun th => th.op.automatic) = some true := by
    decide +kernel
  obtain ⟨hafter, hbefore, hautomatic⟩ := hmoves
  obtain ⟨pool', hstep, hafter⟩ := Option.map_eq_some_iff.mp hafter
  obtain ⟨th, hth, hautomatic⟩ := Option.map_eq_some_iff.mp hautomatic
  have hfree : ∀ t, 0 ≤ t → Free t requestedWorld := by
    rintro t - k ⟨n, hlock⟩
    cases hlock
  obtain ⟨hground, -⟩ := @activations_requested Unit _ asciiUnicode (tableHashing validationTable)
    approvedPool requestedWorld 0 warranted_requestedWorld hfree approvedPool_run
  have hmoved : pointer approvedPool.world 1 ≠ some 1 := by
    rw [hbefore]
    exact (Option.some_ne_none 1).symm
  have hground' := hground 0 th .proceed pool' hth hautomatic hstep 1 1 hafter hmoved
  exact ⟨pool', hstep, hbefore, hafter, hground'⟩

end Once

end Requests

end NetBoxScripts
