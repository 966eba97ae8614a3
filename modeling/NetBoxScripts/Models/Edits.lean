import NetBoxScripts.Concurrency.Trace
import NetBoxScripts.Models.Projects

/-!
# Edit requests

Requests that create and edit projects, in any interleaving. Each loads a row or fills a new
instance, passes the source gate and the instance's `full_clean`, waits for the project's write
lock, and saves. A statement sees what is committed when it starts; what a request writes is
seen when it commits, and until then its lock keeps other saves of the same project out, so a
save is one event, at its commit.

## Main definitions

* `EditRequest`, `EditState`, `editStep`: the requests and what each may do next

## Main results

* `EditState.Valid`, `editStep_valid`: what every run keeps
* `saved_only_authorized`: what a gated request's save changes
* `noOverlap_of_trace`: when projects of one data source stay apart
-/

namespace NetBoxScripts

/-! ## Requests -/

/-- What a request submitted to the source gate, the rows the gate read, and whether the user held
the permission then. -/
structure Gate where
  submitted : Submitted
  stored : Table ProjectRow
  allowed : Bool

/-- One request. -/
structure EditRequest where
  project : ProjectInstance
  gate : Option Gate
  /-- What `full_clean` let through, with the rows it read. -/
  cleaned : Option (ProjectInstance × Table ProjectRow)
  /-- The lock it holds, with the row it read under it. -/
  locked : Option (StorageKey × Option ProjectRow)

/-- The committed rows, the requests, and who holds the write lock of a storage key. -/
structure EditState where
  projects : Table ProjectRow
  revisions : Table RevisionRow
  request : ℕ → Option EditRequest
  holder : StorageKey → Option ℕ

/-- No request under way. -/
def EditState.idle (projects : Table ProjectRow) (revisions : Table RevisionRow) : EditState :=
  ⟨projects, revisions, fun _ => none, fun _ => none⟩

/-- The columns that source and activation services save, naming them. -/
structure ServiceFields where
  activeRevision : Option Id
  sourceRevision : Option Id
  sourceActivationPending : Bool

/-- The row as a service leaves it. -/
def ServiceFields.apply (fields : ServiceFields) (row : ProjectRow) : ProjectRow :=
  { row with
    activeRevision := fields.activeRevision
    sourceRevision := fields.sourceRevision
    sourceActivationPending := fields.sourceActivationPending }

/-- What happens next. -/
inductive EditEvent
  | create (r : ℕ) (fields : ProjectRow)
  | load (r : ℕ) (pk : Id)
  | assign (r : ℕ) (fields : ProjectRow)
  | gate (r : ℕ) (submitted : Submitted) (hasPerm : Option Bool)
  | clean (r : ℕ)
  | lock (r : ℕ)
  | save (r : ℕ) (updateFields : Option (List ProjectField))
  | stop (r : ℕ)
  | service (fields : Id → ServiceFields) (revisions : Table RevisionRow)

namespace EditState

/-- The state with one request changed. -/
def set (s : EditState) (r : ℕ) (request : EditRequest) : EditState :=
  { s with request := Function.update s.request r (some request) }

/-- The state without a request and the lock it held. -/
def drop (s : EditState) (r : ℕ) (request : EditRequest) : EditState :=
  { s with
    request := Function.update s.request r none
    holder := request.locked.elim s.holder fun lock => Function.update s.holder lock.1 none }

@[simp] theorem request_set_self (s : EditState) (r : ℕ) (request : EditRequest) :
    (s.set r request).request r = some request := Function.update_self ..

theorem request_set_of_ne (s : EditState) {r r' : ℕ} (request : EditRequest) (h : r' ≠ r) :
    (s.set r request).request r' = s.request r' := Function.update_of_ne h ..

@[simp] theorem request_drop_self (s : EditState) (r : ℕ) (request : EditRequest) :
    (s.drop r request).request r = none := Function.update_self ..

theorem request_drop_of_ne (s : EditState) {r r' : ℕ} (request : EditRequest) (h : r' ≠ r) :
    (s.drop r request).request r' = s.request r' := Function.update_of_ne h ..

/-- `storage_key` as `save` derives its lock from it: the stored one, where there is one. -/
def lockKey (s : EditState) (project : ProjectInstance) : StorageKey :=
  ((project.pk.bind s.projects.row).map ProjectRow.storageKey).getD project.fields.storageKey

end EditState

/-- One event, where it can happen. -/
def editStep (s : EditState) : EditEvent → Option EditState
  | .create r fields =>
    if (s.request r).isSome then none else some (s.set r ⟨⟨none, fields, none⟩, none, none, none⟩)
  | .load r pk =>
    if (s.request r).isSome then none
    else (s.projects.row pk).map fun row => s.set r ⟨⟨some pk, row, none⟩, none, none, none⟩
  | .assign r fields =>
    (s.request r).map fun request =>
      s.set r { request with project := { request.project with fields } }
  | .gate r submitted hasPerm =>
    (s.request r).map fun request =>
      match unpermittedSourceMoves s.projects hasPerm request.project submitted with
      | .ok ([], project) =>
        let gate := hasPerm.map fun allowed => ⟨submitted, s.projects, allowed⟩
        s.set r { request with project, gate := gate.or request.gate }
      -- every caller refuses the request
      | _ => s.drop r request
  | .clean r =>
    (s.request r).map fun request =>
      match cleanProject s.projects s.revisions request.project with
      | .ok project => s.set r { request with project, cleaned := some (project, s.projects) }
      | .error _ => s.drop r request
  | .lock r =>
    (s.request r).bind fun request =>
      let key := s.lockKey request.project
      if request.locked.isSome ∨ (s.holder key).isSome then none
      else
        let original := request.project.pk.bind s.projects.row
        some { s.set r { request with locked := some (key, original) } with
          holder := Function.update s.holder key (some r) }
  | .save r updateFields =>
    (s.request r).bind fun request =>
      request.locked.map fun lock =>
        match saveProject s.projects s.revisions request.project lock.2 updateFields with
        | .ok projects => { s.drop r request with projects }
        | .error _ => s.drop r request
  | .stop r => (s.request r).map fun request => s.drop r request
  | .service fields revisions =>
    some { s with revisions, projects := s.projects.modifyAll fun i => (fields i).apply }

/-! ## What every run keeps -/

/-- What a request carries agrees with the gate and the check it passed. -/
structure EditRequest.Recorded (request : EditRequest) : Prop where
  gate : ∀ gate, request.gate = some gate → ∃ moved, request.project.authorized = some moved ∧
    ∀ field ∈ moved, gate.allowed = true ∧
      ∃ stored, request.project.pk.bind gate.stored.row = some stored ∧
        gate.submitted.Moves stored field
  cleaned : ∀ cleaned seen, request.cleaned = some (cleaned, seen) →
    cleaned.pk = request.project.pk ∧
      (cleaned.fields.sourceType = .dataSource → overlappingSibling seen cleaned = none)

namespace EditState

/-- The lock a request holds is that of its row, and what it read under it is still what the
gated fields hold. -/
def Holds (s : EditState) (r : ℕ) (request : EditRequest) : Prop :=
  ∀ key original, request.locked = some (key, original) → s.holder key = some r ∧
    ∀ pk row, request.project.pk = some pk → s.projects.row pk = some row →
      row.storageKey = key ∧ ∃ read, original = some read ∧ SameGated read row ∧
        read.storageKey = row.storageKey

/-- What every run keeps. -/
structure Valid (s : EditState) : Prop where
  recorded : ∀ r request, s.request r = some request → request.Recorded
  loaded : ∀ r request pk, s.request r = some request → request.project.pk = some pk →
    ∃ row, s.projects.row pk = some row
  holds : ∀ r request, s.request r = some request → s.Holds r request

theorem idle_valid (projects : Table ProjectRow) (revisions : Table RevisionRow) :
    (idle projects revisions).Valid :=
  ⟨fun _ request h => absurd h.symm (Option.some_ne_none request),
    fun _ request _ h => absurd h.symm (Option.some_ne_none request),
    fun _ request h => absurd h.symm (Option.some_ne_none request)⟩

variable {s : EditState}

theorem Valid.set (h : s.Valid) {r : ℕ} {request : EditRequest} (hrecorded : request.Recorded)
    (hloaded : ∀ pk, request.project.pk = some pk → ∃ row, s.projects.row pk = some row)
    (hholds : s.Holds r request) : (s.set r request).Valid := by
  have hcases : ∀ r' request', (s.set r request).request r' = some request' →
      (r' = r ∧ request' = request) ∨ s.request r' = some request' := by
    intro r' request' hrequest
    rcases eq_or_ne r' r with rfl | hne
    · rw [request_set_self] at hrequest
      exact .inl ⟨rfl, (Option.some.inj hrequest).symm⟩
    · rw [request_set_of_ne s request hne] at hrequest
      exact .inr hrequest
  refine ⟨fun r' request' hrequest => ?_, fun r' request' pk hrequest hpk => ?_,
    fun r' request' hrequest => ?_⟩
  · rcases hcases r' request' hrequest with ⟨-, rfl⟩ | hold
    · exact hrecorded
    · exact h.recorded r' request' hold
  · rcases hcases r' request' hrequest with ⟨-, rfl⟩ | hold
    · exact hloaded pk hpk
    · exact h.loaded r' request' pk hold hpk
  · rcases hcases r' request' hrequest with ⟨rfl, rfl⟩ | hold
    · exact hholds
    · exact h.holds r' request' hold

/-- A request that keeps its row and its lock. -/
theorem Valid.update (h : s.Valid) {r : ℕ} {old request : EditRequest}
    (hold : s.request r = some old) (hrecorded : request.Recorded)
    (hpk : request.project.pk = old.project.pk) (hlocked : request.locked = old.locked) :
    (s.set r request).Valid := by
  refine h.set hrecorded (fun pk hsome => h.loaded r old pk hold (hpk ▸ hsome)) ?_
  intro key original hlock
  rw [hlocked] at hlock
  rw [hpk]
  exact h.holds r old hold key original hlock

theorem Valid.drop (h : s.Valid) {r : ℕ} {request : EditRequest}
    (hrequest : s.request r = some request) : (s.drop r request).Valid := by
  have hother : ∀ r' request', (s.drop r request).request r' = some request' →
      r' ≠ r ∧ s.request r' = some request' := by
    intro r' request' hrequest'
    rcases eq_or_ne r' r with rfl | hne
    · rw [request_drop_self] at hrequest'
      cases hrequest'
    · rw [request_drop_of_ne s request hne] at hrequest'
      exact ⟨hne, hrequest'⟩
  refine ⟨fun r' request' hr' => h.recorded r' request' (hother r' request' hr').2,
    fun r' request' pk hr' => h.loaded r' request' pk (hother r' request' hr').2,
    fun r' request' hr' key original hlock => ?_⟩
  obtain ⟨hne, hr'⟩ := hother r' request' hr'
  obtain ⟨hholder, hrow⟩ := h.holds r' request' hr' key original hlock
  refine ⟨?_, hrow⟩
  cases hlocked : request.locked with
  | none => simpa [EditState.drop, hlocked] using hholder
  | some lock =>
    -- a key is held by one request
    have hkey : key ≠ lock.1 := by
      rintro rfl
      have := (h.holds r request hrequest lock.1 lock.2 hlocked).1
      exact hne (Option.some.inj (hholder.symm.trans this))
    simpa [EditState.drop, hlocked, Function.update_of_ne hkey] using hholder

/-- Rows that stay, with their gated fields where a lock keeps them. -/
theorem Valid.rows (h : s.Valid) {projects : Table ProjectRow}
    (hkept : ∀ r request pk row, s.request r = some request → request.project.pk = some pk →
      s.projects.row pk = some row → ∃ row', projects.row pk = some row' ∧
        (request.locked.isSome = true → row'.storageKey = row.storageKey ∧ SameGated row row')) :
    ({ s with projects } : EditState).Valid := by
  refine ⟨h.recorded, fun r request pk hrequest hpk => ?_,
    fun r request hrequest key original hlock => ?_⟩
  · obtain ⟨row, hrow⟩ := h.loaded r request pk hrequest hpk
    obtain ⟨row', hrow', -⟩ := hkept r request pk row hrequest hpk hrow
    exact ⟨row', hrow'⟩
  · obtain ⟨hholder, hread⟩ := h.holds r request hrequest key original hlock
    refine ⟨hholder, fun pk row' hpk hrow' => ?_⟩
    obtain ⟨row, hrow⟩ := h.loaded r request pk hrequest hpk
    obtain ⟨row'', hrow'', hkeep⟩ := hkept r request pk row hrequest hpk hrow
    obtain rfl := Option.some.inj (hrow'.symm.trans hrow'')
    obtain ⟨hkey, hsame⟩ := hkeep (by rw [hlock]; rfl)
    obtain ⟨rfl, read, rfl, hsame', hkey'⟩ := hread pk row hpk hrow
    refine ⟨hkey, read, rfl, fun field => ?_, hkey'.trans hkey.symm⟩
    rw [← hsame.differs_congr]
    exact hsame' field

/-- A lock that nobody holds is taken, and the row read under it. -/
theorem Valid.lock (h : s.Valid) {r : ℕ} {request : EditRequest}
    (hrequest : s.request r = some request) (hfree : s.holder (s.lockKey request.project) = none) :
    ({ s.set r { request with
        locked := some (s.lockKey request.project, request.project.pk.bind s.projects.row) } with
      holder := Function.update s.holder (s.lockKey request.project) (some r) } :
        EditState).Valid := by
  have hother : ∀ r' request', s.request r' = some request' →
      ({ s with holder := Function.update s.holder (s.lockKey request.project) (some r) } :
        EditState).Holds r' request' := by
    intro r' request' hrequest' key original hlock
    obtain ⟨hholder, hrow⟩ := h.holds r' request' hrequest' key original hlock
    refine ⟨?_, hrow⟩
    have hne : key ≠ s.lockKey request.project := by
      rintro rfl
      rw [hfree] at hholder
      cases hholder
    exact (Function.update_of_ne hne ..).trans hholder
  refine Valid.set (s := { s with
      holder := Function.update s.holder (s.lockKey request.project) (some r) })
    ⟨h.recorded, h.loaded, hother⟩ ?_ (h.loaded r request · hrequest) ?_
  · exact ⟨(h.recorded r request hrequest).gate, (h.recorded r request hrequest).cleaned⟩
  · intro key original hlock
    obtain ⟨rfl, rfl⟩ := Prod.mk.inj (Option.some.inj hlock)
    refine ⟨Function.update_self .., fun pk row hpk hrow => ?_⟩
    replace hpk : request.project.pk = some pk := hpk
    replace hrow : s.projects.row pk = some row := hrow
    refine ⟨?_, row, ?_, SameGated.refl row, rfl⟩
    · simp [lockKey, hpk, hrow]
    · simp [hpk, hrow]

/-- A save keeps the rows that other requests have read under their locks. -/
theorem Valid.save (h : s.Valid) {r : ℕ} {request : EditRequest} {key : StorageKey}
    {original : Option ProjectRow} {updateFields : Option (List ProjectField)}
    {projects : Table ProjectRow} (hrequest : s.request r = some request)
    (hlock : request.locked = some (key, original))
    (hsave : saveProject s.projects s.revisions request.project original updateFields =
      .ok projects) : ({ s.drop r request with projects } : EditState).Valid := by
  refine (h.drop hrequest).rows fun r' request' pk row hrequest' hpk hrow => ?_
  have hne : r' ≠ r := by
    rintro rfl
    rw [request_drop_self] at hrequest'
    cases hrequest'
  rw [request_drop_of_ne s request hne] at hrequest'
  replace hrow : s.projects.row pk = some row := hrow
  cases hown : request.project.pk with
  | none =>
    simp only [saveProject, hown] at hsave
    split at hsave
    · cases hsave
    · rw [storeProject_ok hsave]
      exact ⟨row, Table.row_insert_of_row hrow, fun _ => ⟨rfl, SameGated.refl row⟩⟩
  | some own =>
    obtain ⟨old, read, hold, rfl, -, rfl⟩ := saveProject_ok hown hsave
    rcases eq_or_ne pk own with rfl | hpkne
    · obtain rfl := Option.some.inj (hrow.symm.trans hold)
      refine ⟨_, by rw [Table.row_modify_self, hrow]; rfl, fun hlocked => ?_⟩
      obtain ⟨lock, hlock'⟩ := Option.isSome_iff_exists.mp hlocked
      obtain ⟨hholder, hkey⟩ := h.holds r request hrequest key _ hlock
      obtain ⟨hholder', hkey'⟩ := h.holds r' request' hrequest' lock.1 lock.2 hlock'
      -- the other request would hold the lock of the row that is saved
      rw [← (hkey' pk row hpk hrow).1, (hkey pk row hown hrow).1, hholder] at hholder'
      exact absurd (Option.some.inj hholder').symm hne
    · exact ⟨row, (Table.row_modify_of_ne hpkne).trans hrow, fun _ => ⟨rfl, SameGated.refl row⟩⟩

end EditState

/-- **One event** keeps what every run keeps. -/
theorem editStep_valid {s s' : EditState} {e : EditEvent} (h : s.Valid)
    (hstep : editStep s e = some s') : s'.Valid := by
  cases e with
  | create r fields =>
    simp only [editStep] at hstep
    split_ifs at hstep with hfree
    cases hstep
    exact h.set ⟨nofun, nofun⟩ nofun nofun
  | load r pk =>
    simp only [editStep] at hstep
    split_ifs at hstep with hfree
    obtain ⟨row, hrow, rfl⟩ := Option.map_eq_some_iff.mp hstep
    refine h.set ⟨nofun, nofun⟩ (fun pk' hpk => ⟨row, ?_⟩) nofun
    obtain rfl := Option.some.inj hpk
    exact hrow
  | assign r fields =>
    obtain ⟨request, hrequest, rfl⟩ := Option.map_eq_some_iff.mp hstep
    have hrecorded := h.recorded r request hrequest
    exact h.update hrequest ⟨hrecorded.gate, hrecorded.cleaned⟩ rfl rfl
  | gate r submitted hasPerm =>
    obtain ⟨request, hrequest, rfl⟩ := Option.map_eq_some_iff.mp hstep
    have hrecorded := h.recorded r request hrequest
    split
    · next project hgate =>
      cases hasPerm with
      | none =>
        cases hgate
        exact h.update hrequest hrecorded rfl rfl
      | some allowed =>
        obtain ⟨hpk, -, moved, hmoved, hall⟩ := unpermittedSourceMoves_ok hgate
        refine h.update hrequest ⟨fun gate hsome => ?_, fun cleaned seen hsome => ?_⟩ hpk rfl
        · obtain rfl := Option.some.inj hsome
          exact ⟨moved, hmoved, hpk ▸ hall⟩
        · exact hpk ▸ hrecorded.cleaned cleaned seen hsome
    · exact h.drop hrequest
  | clean r =>
    obtain ⟨request, hrequest, rfl⟩ := Option.map_eq_some_iff.mp hstep
    have hrecorded := h.recorded r request hrequest
    split
    · next project hclean =>
      obtain ⟨hpk, hauthorized, hoverlap⟩ := cleanProject_ok hclean
      refine h.update hrequest ⟨fun gate hsome => ?_, fun cleaned seen hsome => ?_⟩ hpk rfl
      · obtain ⟨moved, hmoved, hall⟩ := hrecorded.gate gate hsome
        exact ⟨moved, hauthorized.trans hmoved, hpk ▸ hall⟩
      · obtain ⟨rfl, rfl⟩ := Prod.mk.inj (Option.some.inj hsome)
        exact ⟨rfl, hoverlap⟩
    · exact h.drop hrequest
  | lock r =>
    obtain ⟨request, hrequest, hstep⟩ := Option.bind_eq_some_iff.mp hstep
    dsimp only at hstep
    split_ifs at hstep with hfree
    obtain ⟨hunlocked, hkeyfree⟩ := not_or.mp hfree
    cases hstep
    exact h.lock hrequest (by simpa using hkeyfree)
  | save r updateFields =>
    obtain ⟨request, hrequest, hstep⟩ := Option.bind_eq_some_iff.mp hstep
    obtain ⟨⟨key, original⟩, hlock, rfl⟩ := Option.map_eq_some_iff.mp hstep
    split
    · next projects hsave => exact h.save hrequest hlock hsave
    · exact h.drop hrequest
  | stop r =>
    obtain ⟨request, hrequest, rfl⟩ := Option.map_eq_some_iff.mp hstep
    exact h.drop hrequest
  | service fields revisions =>
    cases hstep
    refine EditState.Valid.rows (s := { s with revisions }) ⟨h.recorded, h.loaded, h.holds⟩
      fun r request pk row hrequest hpk hrow => ?_
    refine ⟨(fields pk).apply row, ?_, fun _ => ⟨rfl, fun field => ?_⟩⟩
    · exact Option.map_eq_some_iff.mpr ⟨row, hrow, rfl⟩
    · cases field <;> simp [GatedField.differs, ServiceFields.apply]

/-- What every state of every run has. -/
theorem trace_valid {allowed : EditState → EditEvent → Prop} {projects : Table ProjectRow}
    {revisions : Table RevisionRow} {s : EditState}
    (h : Trace editStep allowed (.idle projects revisions) s) : s.Valid :=
  h.invariant (EditState.idle_valid projects revisions) fun _ _ _ hvalid _ => editStep_valid hvalid

/-! ## What a gated save moves -/

/-- The gate let the request move a field: it was submitted with another value than the stored
one, and the user held the permission. -/
def Gate.Permits (gate : Gate) (pk : Id) (field : GatedField) : Prop :=
  gate.allowed = true ∧ ∃ stored, gate.stored.row pk = some stored ∧
    gate.submitted.Moves stored field

/-- **A gated request's save** changes, of the row that it overwrites, only gated fields that the
request submitted as moved and that its user was permitted to move; and where the instance would
move another one, it writes nothing. No other row changes. -/
theorem saved_only_authorized {allowed : EditState → EditEvent → Prop}
    {projects : Table ProjectRow} {revisions : Table RevisionRow} {s s' : EditState}
    (htrace : Trace editStep allowed (.idle projects revisions) s) {r : ℕ} {request : EditRequest}
    {gate : Gate} {pk : Id} {updateFields : Option (List ProjectField)}
    (hrequest : s.request r = some request) (hgate : request.gate = some gate)
    (hpk : request.project.pk = some pk)
    (hstep : editStep s (.save r updateFields) = some s') :
    (∀ i ≠ pk, s'.projects.row i = s.projects.row i) ∧
      ∃ row row', s.projects.row pk = some row ∧ s'.projects.row pk = some row' ∧
        (∀ field : GatedField, field.differs row row' = true → gate.Permits pk field) ∧
        ((∃ field : GatedField, writes updateFields (.gated field) = true ∧
          field.differs request.project.fields row = true ∧ ¬ gate.Permits pk field) →
            s'.projects = s.projects) := by
  have hvalid := trace_valid htrace
  obtain ⟨row, hrow⟩ := hvalid.loaded r request pk hrequest hpk
  obtain ⟨moved, hmoved, hpermits⟩ := (hvalid.recorded r request hrequest).gate gate hgate
  have hmem : ∀ field ∈ moved, gate.Permits pk field := by
    intro field hfield
    obtain ⟨hallowed, stored, hstored, hmoves⟩ := hpermits field hfield
    rw [hpk] at hstored
    exact ⟨hallowed, stored, hstored, hmoves⟩
  obtain ⟨request', hrequest', hstep⟩ := Option.bind_eq_some_iff.mp hstep
  obtain rfl := Option.some.inj (hrequest.symm.trans hrequest')
  obtain ⟨⟨key, original⟩, hlock, rfl⟩ := Option.map_eq_some_iff.mp hstep
  obtain ⟨-, hread⟩ := hvalid.holds r request hrequest key original hlock
  obtain ⟨-, read, rfl, hsame, -⟩ := hread pk row hpk hrow
  split
  · next projects' hsave =>
    obtain ⟨row', read', hrow', hread', hrefusal, rfl⟩ := saveProject_ok hpk hsave
    obtain rfl := Option.some.inj (hrow.symm.trans hrow')
    obtain rfl := Option.some.inj hread'
    -- the guard compared with the row that is overwritten
    have hguard : ∀ field : GatedField, writes updateFields (.gated field) = true →
        field.differs request.project.fields row = true → gate.Permits pk field := by
      intro field hwrites hdiffers
      refine hmem field (mem_of_saveRefusal hmoved hrefusal hwrites ?_)
      rw [hsame.differs_congr]
      cases field <;> exact hdiffers
    refine ⟨fun i hi => Table.row_modify_of_ne hi, row, _, hrow,
      by rw [Table.row_modify_self, hrow]; rfl, fun field hdiffers => ?_, ?_⟩
    · obtain ⟨hwrites, hmoves⟩ := differs_overwrite hdiffers
      refine hguard field hwrites ?_
      cases field <;> exact hmoves
    · rintro ⟨field, hwrites, hdiffers, hnot⟩
      exact absurd (hguard field hwrites hdiffers) hnot
  · refine ⟨fun i _ => rfl, row, row, hrow, hrow, fun field hdiffers => ?_, fun _ => rfl⟩
    rw [SameGated.refl row field] at hdiffers
    cases hdiffers

/-- A project of one data source. -/
def exampleProject (key : StorageKey) (path : PyStr) : ProjectRow :=
  ⟨decimal key, key, .dataSource, some 1, path, .manual, none, none, false, true⟩

/-- A request that is permitted to move the activation policy, and does. -/
def examplePolicyMove : List EditEvent :=
  [.load 0 1, .gate 0 ⟨some .automaticIfValid, none, none⟩ (some true),
    .assign 0 { exampleProject 1 (py "a") with activationPolicy := .automaticIfValid }, .lock 0]

/-- What one permitted request's save moves, it was permitted to move, and it moves that project
only. -/
theorem saved_only_authorized_policy :
    ∃ (s s' : EditState) (gate : Gate) (row row' : ProjectRow),
      editStep s (.save 0 none) = some s' ∧ s.projects.row 1 = some row ∧
        s'.projects.row 1 = some row' ∧ row'.activationPolicy = .automaticIfValid ∧
        (∀ i ≠ 1, s'.projects.row i = s.projects.row i) ∧
        ∀ field : GatedField, field.differs row row' = true → gate.Permits 1 field := by
  have hrun : ((Trace.run editStep (fun _ _ => true)
      (.idle ((Table.startingAt 1).insert (exampleProject 1 (py "a"))) (.startingAt 1))
      examplePolicyMove).map fun s =>
        ((s.request 0).bind (·.project.pk), ((s.request 0).bind (·.gate)).isSome,
          (editStep s (.save 0 none)).map fun s' =>
            (s'.projects.row 1).map (·.activationPolicy))) =
      some (some 1, true, some (some .automaticIfValid)) := by decide +kernel
  obtain ⟨s, hs, hfacts⟩ := Option.map_eq_some_iff.mp hrun
  obtain ⟨hpk, hfacts⟩ := Prod.mk.inj hfacts
  obtain ⟨hgate, hsaved⟩ := Prod.mk.inj hfacts
  obtain ⟨gate, hgate⟩ := Option.isSome_iff_exists.mp hgate
  obtain ⟨request, hrequest, hgate⟩ := Option.bind_eq_some_iff.mp hgate
  rw [hrequest] at hpk
  obtain ⟨s', hstep, hpolicy⟩ := Option.map_eq_some_iff.mp hsaved
  have htrace : Trace editStep (fun _ _ => true = true) _ s := Trace.of_run .start hs
  obtain ⟨hothers, row, row', hrow, hrow', hpermits, -⟩ :=
    saved_only_authorized htrace hrequest hgate hpk hstep
  rw [hrow'] at hpolicy
  exact ⟨s, s', gate, row, row', hstep, hrow, hrow', Option.some.inj hpolicy, hothers, hpermits⟩

/-! ## Projects of one data source -/

/-- No two projects of one data source hold overlapping data paths. -/
def NoOverlap (projects : Table ProjectRow) : Prop :=
  ∀ i j a b, projects.row i = some a → projects.row j = some b → i ≠ j →
    a.sourceType = .dataSource → b.sourceType = .dataSource → a.dataSource = b.dataSource →
      dataPathsOverlap a.dataPath b.dataPath = false

/-- A request runs `full_clean` before its save, which names no columns. -/
def cleansFirst (s : EditState) : EditEvent → Bool
  | .save r updateFields => updateFields = none ∧
      (s.request r).all fun request => request.cleaned.isSome
  | _ => true

/-- What is saved is what `full_clean` let through, and every project of its data source that
overlaps it was there, with that path, for `full_clean` to read. -/
def EditRequest.uncontested (request : EditRequest) (projects : Table ProjectRow)
    (cleaned : ProjectInstance) (seen : Table ProjectRow) : Bool :=
  request.project.fields.sourceType = cleaned.fields.sourceType ∧
    request.project.fields.dataSource = cleaned.fields.dataSource ∧
    request.project.fields.dataPath = cleaned.fields.dataPath ∧
    projects.entries.all fun other =>
      cleaned.fields.sourceType = .dataSource ∧ some other.1 ≠ request.project.pk ∧
        other.2.sourceType = .dataSource ∧ other.2.dataSource = cleaned.fields.dataSource ∧
        dataPathsOverlap cleaned.fields.dataPath other.2.dataPath →
      (seen.row other.1).any fun old => old.sourceType = .dataSource ∧
        old.dataSource = other.2.dataSource ∧ old.dataPath = other.2.dataPath

/-- No overlapping project is committed between a request's `full_clean` and its save. -/
def uncontested (s : EditState) : EditEvent → Bool
  | .save r _ => (s.request r).all fun request => request.cleaned.all fun checked =>
      request.uncontested s.projects checked.1 checked.2
  | _ => true

/-- Rows that stay apart from a row that is written stay apart with it. -/
theorem NoOverlap.write {projects projects' : Table ProjectRow} (h : NoOverlap projects) (n : Id)
    (written : ProjectRow) (hrows : ∀ i row, projects'.row i = some row →
      (i = n ∧ row = written) ∨ (i ≠ n ∧ projects.row i = some row))
    (happart : written.sourceType = .dataSource → ∀ i row, projects.row i = some row → i ≠ n →
      row.sourceType = .dataSource → row.dataSource = written.dataSource →
        dataPathsOverlap written.dataPath row.dataPath = false) : NoOverlap projects' := by
  intro i j a b ha hb hij hta htb hsource
  rcases hrows i a ha with ⟨rfl, rfl⟩ | ⟨hi, ha⟩
  · rcases hrows j b hb with ⟨rfl, -⟩ | ⟨hj, hb⟩
    · exact absurd rfl hij
    · exact happart hta j b hb hj htb hsource.symm
  · rcases hrows j b hb with ⟨rfl, rfl⟩ | ⟨hj, hb⟩
    · rw [dataPathsOverlap_comm]
      exact happart htb i a ha hi hta hsource
    · exact h i j a b ha hb hij hta htb hsource

/-- What an uncontested request saves overlaps no project there is. -/
theorem EditRequest.apart_of_uncontested {request : EditRequest} {projects seen : Table ProjectRow}
    {cleaned : ProjectInstance} (h : request.uncontested projects cleaned seen = true)
    (hrecorded : request.Recorded) (hcleaned : request.cleaned = some (cleaned, seen))
    (hbacked : request.project.fields.sourceType = .dataSource) {i : Id} {row : ProjectRow}
    (hrow : projects.row i = some row) (hne : some i ≠ request.project.pk)
    (htype : row.sourceType = .dataSource)
    (hsource : row.dataSource = request.project.fields.dataSource) :
    dataPathsOverlap request.project.fields.dataPath row.dataPath = false := by
  obtain ⟨hpk, hsibling⟩ := hrecorded.cleaned cleaned seen hcleaned
  obtain ⟨hsameType, hsameSource, hsamePath, hread⟩ := of_decide_eq_true h
  rw [hsameType] at hbacked
  rw [hsameSource] at hsource
  rw [hsamePath, ← Bool.not_eq_true]
  intro hoverlap
  have hseen := of_decide_eq_true
    (List.all_eq_true.mp hread (i, row) (Table.mem_entries.mpr hrow))
    ⟨hbacked, hne, htype, hsource, hoverlap⟩
  obtain ⟨old, hold, hsame⟩ := (Option.any_eq_true _ _).mp hseen
  obtain ⟨htypeOld, hsourceOld, hpathOld⟩ := of_decide_eq_true hsame
  have hapart := overlappingSibling_eq_none_iff.mp (hsibling hbacked) i old hold htypeOld
    (hsourceOld.trans hsource) (hpk ▸ hne)
  rw [hpathOld, hoverlap] at hapart
  cases hapart

/-- **One event** keeps the projects of a data source apart, where saves are uncontested. -/
theorem editStep_noOverlap {s s' : EditState} {e : EditEvent} (hvalid : s.Valid)
    (h : NoOverlap s.projects) (hcleans : cleansFirst s e = true)
    (huncontested : uncontested s e = true)
    (hstep : editStep s e = some s') : NoOverlap s'.projects := by
  cases e with
  | create r fields =>
    simp only [editStep] at hstep
    split_ifs at hstep with hfree
    cases hstep
    exact h
  | load r pk =>
    simp only [editStep] at hstep
    split_ifs at hstep with hfree
    obtain ⟨row, -, rfl⟩ := Option.map_eq_some_iff.mp hstep
    exact h
  | assign r fields =>
    obtain ⟨request, -, rfl⟩ := Option.map_eq_some_iff.mp hstep
    exact h
  | gate r submitted hasPerm =>
    obtain ⟨request, -, rfl⟩ := Option.map_eq_some_iff.mp hstep
    split <;> exact h
  | clean r =>
    obtain ⟨request, -, rfl⟩ := Option.map_eq_some_iff.mp hstep
    split <;> exact h
  | lock r =>
    obtain ⟨request, -, hstep⟩ := Option.bind_eq_some_iff.mp hstep
    dsimp only at hstep
    split_ifs at hstep with hfree
    cases hstep
    exact h
  | stop r =>
    obtain ⟨request, -, rfl⟩ := Option.map_eq_some_iff.mp hstep
    exact h
  | service fields revisions =>
    cases hstep
    intro i j a b ha hb hij hta htb hsource
    obtain ⟨a₀, ha₀, rfl⟩ := Option.map_eq_some_iff.mp ha
    obtain ⟨b₀, hb₀, rfl⟩ := Option.map_eq_some_iff.mp hb
    exact h i j a₀ b₀ ha₀ hb₀ hij hta htb hsource
  | save r updateFields =>
    obtain ⟨request, hrequest, hstep⟩ := Option.bind_eq_some_iff.mp hstep
    obtain ⟨⟨key, original⟩, hlock, rfl⟩ := Option.map_eq_some_iff.mp hstep
    obtain ⟨rfl, hcleaned⟩ := of_decide_eq_true hcleans
    rw [hrequest, Option.all_some] at hcleaned
    obtain ⟨⟨cleaned, seen⟩, hcleaned⟩ := Option.isSome_iff_exists.mp hcleaned
    rw [uncontested, hrequest, Option.all_some, hcleaned, Option.all_some] at huncontested
    have hapart := EditRequest.apart_of_uncontested huncontested
      (hvalid.recorded r request hrequest) hcleaned
    split
    · next projects hsave =>
      cases hpk : request.project.pk with
      | none =>
        simp only [saveProject, hpk] at hsave
        split at hsave
        · cases hsave
        · rw [storeProject_ok hsave]
          refine h.write s.projects.next request.project.fields
            (fun i row hrow => ?_) fun htype i row hrow _ hbacked hsource =>
              hapart htype hrow (by rw [hpk]; exact Option.some_ne_none i) hbacked hsource
          rcases Table.row_insert_eq_some hrow with ⟨rfl, rfl⟩ | hold
          · exact .inl ⟨rfl, rfl⟩
          · exact .inr ⟨(Table.lt_next_of_row hold).ne, hold⟩
      | some pk =>
        obtain ⟨row, read, hrow, rfl, -, rfl⟩ := saveProject_ok hpk hsave
        refine h.write pk (row.overwrite (request.project.restored read none) none)
          (fun i row' hrow' => ?_)
          fun htype i row' hrow' hne hbacked hsource =>
            hapart htype hrow' (by rw [hpk]; exact fun heq => hne (Option.some.inj heq))
              hbacked hsource
        obtain ⟨old, hold, rfl⟩ := Table.row_modify_eq_some hrow'
        split_ifs with hi
        · exact .inl ⟨hi, rfl⟩
        · exact .inr ⟨hi, hold⟩
    · exact h

/-- **Projects of one data source stay apart** in every run whose saves are uncontested. -/
theorem noOverlap_of_trace {projects : Table ProjectRow} {revisions : Table RevisionRow}
    {s : EditState} (hstart : NoOverlap projects)
    (h : Trace editStep (fun s e => (cleansFirst s e && uncontested s e) = true)
      (.idle projects revisions) s) : NoOverlap s.projects :=
  h.invariant_of (fun _ htrace => trace_valid htrace) hstart
    fun _ _ _ hvalid hapart hallowed hstep =>
      editStep_noOverlap hvalid hapart (Bool.and_eq_true_iff.mp hallowed).1
        (Bool.and_eq_true_iff.mp hallowed).2 hstep

/-- No projects, and no requests. -/
def exampleStart : EditState := .idle (.startingAt 1) (.startingAt 1)

/-- One request after the other leaves their projects apart. -/
theorem noOverlap_of_trace_two_requests :
    ∃ s : EditState, s.projects.row 2 = some (exampleProject 2 (py "b")) ∧
      NoOverlap s.projects := by
  have hrun : ((Trace.run editStep (fun s e => cleansFirst s e && uncontested s e) exampleStart
      [.create 0 (exampleProject 1 (py "a")), .clean 0, .lock 0, .save 0 none,
        .create 1 (exampleProject 2 (py "b/")), .clean 1, .lock 1, .save 1 none]).map fun s =>
      s.projects.row 2) = some (some (exampleProject 2 (py "b"))) := by decide +kernel
  obtain ⟨s, hs, hrow⟩ := Option.map_eq_some_iff.mp hrun
  have hstart : NoOverlap (Table.startingAt 1) :=
    fun _ _ a _ ha => absurd ha.symm (Option.some_ne_none a)
  have htrace : Trace editStep (fun s e => (cleansFirst s e && uncontested s e) = true)
      (.idle (.startingAt 1) (.startingAt 1)) s := Trace.of_run .start hs
  exact ⟨s, hrow, noOverlap_of_trace hstart htrace⟩

/-- Two requests each check their path before the other's project is there, and save. -/
theorem cleansFirst_overlap :
    ∃ s, Trace editStep (fun s e => cleansFirst s e = true) exampleStart s ∧
      ¬ NoOverlap s.projects := by
  have hrun : ((Trace.run editStep cleansFirst exampleStart
      [.create 0 (exampleProject 1 (py "a")), .create 1 (exampleProject 2 (py "a/b")),
        .clean 0, .clean 1, .lock 0, .save 0 none, .lock 1, .save 1 none]).map fun s =>
      (s.projects.row 1, s.projects.row 2)) =
        some (some (exampleProject 1 (py "a")), some (exampleProject 2 (py "a/b"))) := by
    decide +kernel
  obtain ⟨s, hs, hrows⟩ := Option.map_eq_some_iff.mp hrun
  obtain ⟨hrow₁, hrow₂⟩ := Prod.mk.inj hrows
  refine ⟨s, Trace.start.of_run hs, fun happart => ?_⟩
  have := happart 1 2 _ _ hrow₁ hrow₂ (by decide) rfl rfl rfl
  exact absurd this (by decide)

end NetBoxScripts
