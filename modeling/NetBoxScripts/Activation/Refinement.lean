import NetBoxScripts.Activation.Scripts
import NetBoxScripts.Activation.Synchronization

/-!
# The two synchronizations

`synchronizeScripts` writes the columns that a run of the services reads, from records that are
typed; `synchronizeScriptRows` is the whole call, on whole rows and on the records as a revision
stores them. On tables with the same rows both leave the same rows.

## Main definitions

* `SameScripts`: two tables with the same rows, as far as both have them

## Main results

* `SameScripts.step`: one record
* `synchronizeScriptRows_refines`: the call
-/

namespace NetBoxScripts

/-- The metadata of a record as they are stored. -/
def ScriptMetadata.toJson (metadata : ScriptMetadata) : Json :=
  .obj [(py "commit_default", .bool metadata.commitDefault),
    (py "scheduling_enabled", .bool metadata.schedulingEnabled),
    (py "job_timeout", (metadata.jobTimeout.map Json.int).getD .null),
    (py "notifications_default", .str metadata.notificationsDefault)]

/-- What a record publishes. -/
def ScriptRecord.recorded (record : ScriptRecord) : RecordedScript where
  modulePath := record.modulePath
  className := record.className
  displayName := record.displayName
  description := record.description
  metadata := record.metadata.toJson

/-- The same row; the metadata are equal, however their numbers are written. -/
structure SameScript (a : ScriptRow) (b : NetBoxScript) : Prop where
  project : b.project = a.project
  identity : b.identity = a.identity
  displayName : b.displayName = a.displayName
  description : b.description = a.description
  metadata : b.metadata.same a.metadata.toJson = true
  isRetired : b.isRetired = a.isRetired
  lastSeenRevision : b.lastSeenRevision = a.lastSeenRevision
  enabled : b.enabled = a.enabled

/-- Two tables with the same rows under the same keys. -/
structure SameScripts (table : Table ScriptRow) (rows : Table NetBoxScript) : Prop where
  next : rows.next = table.next
  typed : ∀ i b, rows.row i = some b → ∃ a, table.row i = some a ∧ SameScript a b
  whole : ∀ i a, table.row i = some a → ∃ b, rows.row i = some b ∧ SameScript a b

section Rows

variable {p r : Id} {record : ScriptRecord} {table : Table ScriptRow} {rows : Table NetBoxScript}
  {a : ScriptRow} {b : NetBoxScript} {i : Id}

theorem recordedScript_toJson : recordedScript record.toJson = some record.recorded := rfl

theorem SameScript.publish (h : SameScript a b) :
    SameScript (a.publish r record) (b.saved (publishedValues r record.recorded)) := by
  rw [saved_publishedValues]
  refine ⟨h.project, h.identity, rfl, rfl, ?_, rfl, rfl, h.enabled⟩
  -- equal metadata are not written
  change Json.same (ite _ _ _) record.metadata.toJson = true
  split_ifs with hsame
  · exact hsame
  · exact Json.same_iff.mpr rfl

theorem sameScript_created :
    SameScript (newScript p r record) (createdScript p r record.recorded) :=
  ⟨rfl, rfl, rfl, rfl, Json.same_iff.mpr rfl, rfl, rfl, rfl⟩

theorem SameScript.retire (h : SameScript a b) :
    SameScript { a with isRetired := true } { b with isRetired := true } :=
  ⟨h.project, h.identity, h.displayName, h.description, h.metadata, rfl, h.lastSeenRevision,
    h.enabled⟩

theorem SameScripts.insert (h : SameScripts table rows) (hrow : SameScript a b) :
    SameScripts (table.insert a) (rows.insert b) where
  next := congrArg (· + 1) h.next
  typed i other hother := by
    rw [Table.row_insert, h.next] at hother
    rw [Table.row_insert]
    split_ifs at hother ⊢
    · obtain rfl := Option.some.inj hother
      exact ⟨a, rfl, hrow⟩
    · exact h.typed i other hother
  whole i other hother := by
    rw [Table.row_insert] at hother
    rw [Table.row_insert, h.next]
    split_ifs at hother ⊢
    · obtain rfl := Option.some.inj hother
      exact ⟨b, rfl, hrow⟩
    · exact h.whole i other hother

/-- Rows that are written alike, one by one. -/
theorem SameScripts.modifyAll (h : SameScripts table rows) {f : Id → ScriptRow → ScriptRow}
    {rows' : Table NetBoxScript} (hnext : rows'.next = rows.next)
    (hrows : ∀ i a b, table.row i = some a → rows.row i = some b → SameScript a b →
      ∃ b', rows'.row i = some b' ∧ SameScript (f i a) b')
    (hnone : ∀ i, rows.row i = none → rows'.row i = none) :
    SameScripts (table.modifyAll f) rows' where
  next := hnext.trans h.next
  typed i b' hb' := by
    cases hb : rows.row i with
    | none => rw [hnone i hb] at hb'; cases hb'
    | some b =>
      obtain ⟨a, ha, hsame⟩ := h.typed i b hb
      obtain ⟨c, hc, hsame'⟩ := hrows i a b ha hb hsame
      obtain rfl := Option.some.inj (hc.symm.trans hb')
      exact ⟨f i a, by rw [Table.row_modifyAll, ha, Option.map_some], hsame'⟩
  whole i a' ha' := by
    rw [Table.row_modifyAll, Option.map_eq_some_iff] at ha'
    obtain ⟨a, ha, rfl⟩ := ha'
    obtain ⟨b, hb, hsame⟩ := h.whole i a ha
    exact hrows i a b ha hb hsame

theorem SameScripts.unique (h : SameScripts table rows) (hunique : UniqueScripts table) :
    UniqueRows rows := by
  intro i j a b ha hb hproject hidentity
  obtain ⟨a', ha', hsame⟩ := h.typed i a ha
  obtain ⟨b', hb', hsame'⟩ := h.typed j b hb
  refine hunique i j a' b' ha' hb' ?_ ?_
  · rw [← hsame.project, ← hsame'.project, hproject]
  · rw [← hsame.identity, ← hsame'.identity, hidentity]

end Rows

/-! ## One record -/

section Loop

variable {p r : Id} {T : Table NetBoxScript} {done : List RecordedScript} {st st' : SyncState}
  {record : ScriptRecord} {table : Table ScriptRow}

/-- **One record** does the same to both tables. -/
theorem SameScripts.step (h : SameScripts table st.table) (hsync : Syncing p r T done st)
    (hunique : UniqueRows T)
    (hnew : record.identity ∉ done.map RecordedScript.identity)
    (hstep : syncRecord p r st record.toJson = some st') :
    SameScripts (publishScript p r table record) st'.table := by
  rw [syncRecord, recordedScript_toJson, Option.bind_some] at hstep
  cases hfind : st.rows.find? fun row => row.2.identity = record.recorded.identity with
  | none =>
    rw [hfind] at hstep
    dsimp only at hstep
    split_ifs at hstep
    cases hstep
    rcases publishScript_cases p r table record with ⟨j, a, ha, hproject, hidentity, -⟩ | ⟨-, heq⟩
    · -- a row with the identity would have been found
      obtain ⟨b, hb, hsame⟩ := h.whole j a ha
      have hhas : HasIdentity p record.recorded b :=
        ⟨hsame.project.trans hproject, hsame.identity.trans hidentity⟩
      have hmem := (hsync.rows j b).mpr
        ⟨hsync.identity_of_row hb hhas hnew, hhas.1, hhas.2 ▸ hnew⟩
      exact absurd (decide_eq_true hhas.2) (List.find?_eq_none.mp hfind (j, b) hmem)
    · rw [heq]
      exact h.insert sameScript_created
  | some found =>
    obtain ⟨i, row⟩ := found
    rw [hfind] at hstep
    have hmem := List.mem_of_find?_eq_some hfind
    have hidentity : row.identity = record.recorded.identity := by
      simpa using List.find?_some hfind
    obtain ⟨hT, hproject, hnot⟩ := (hsync.rows i row).mp hmem
    have hrow : st.table.row i = some row := hsync.kept i row hT fun hrecorded => hnot hrecorded.2
    obtain ⟨a, ha, hsame⟩ := h.typed i row hrow
    have hsaved : st'.table.row i = some (row.saved (publishedValues r record.recorded)) ∧
        st'.table.next = st.table.next ∧ ∀ j ≠ i, st'.table.row j = st.table.row j := by
      dsimp only at hstep
      cases hsave : row.saveChanges (publishedValues r record.recorded) with
      | none =>
        rw [hsave] at hstep
        cases hstep
        exact ⟨by rw [hrow, saved_of_saveChanges_none hsave], rfl, fun _ _ => rfl⟩
      | some new =>
        rw [hsave] at hstep
        cases hstep
        refine ⟨?_, rfl, fun j hj => Table.row_modify_of_ne hj⟩
        rw [Table.row_modify_self, hrow, Option.map_some, saveChanges_cases hsave]
    rcases publishScript_cases p r table record with
      ⟨j, other, hother, hproject', hidentity', heq⟩ | ⟨hnone, -⟩
    · -- `unique_project_module_class`: both found one row
      obtain ⟨b, hb, hsame'⟩ := h.whole j other hother
      have hhas : HasIdentity p record.recorded b :=
        ⟨hsame'.project.trans hproject', hsame'.identity.trans hidentity'⟩
      obtain rfl : j = i := hunique j i b row (hsync.identity_of_row hb hhas hnew) hT
        (hhas.1.trans hproject.symm) (hhas.2.trans hidentity.symm)
      rw [heq]
      refine h.modifyAll hsaved.2.1 (fun i c d hc hd hsame => ?_) fun i hi => ?_
      · split_ifs with hij
        · subst hij
          rw [Option.some.inj (hd.symm.trans hrow)] at hsame
          exact ⟨_, hsaved.1, hsame.publish⟩
        · exact ⟨d, (hsaved.2.2 i hij).trans hd, hsame⟩
      · have hij : i ≠ j := by
          rintro rfl
          rw [hrow] at hi
          cases hi
        exact (hsaved.2.2 i hij).trans hi
    · exact absurd (hsame.identity.symm.trans hidentity)
        (hnone i a ha (hsame.project.symm.trans hproject))

/-- **The loop over the records** does the same to both tables. -/
theorem SameScripts.run (records : List ScriptRecord) (h : SameScripts table st.table)
    (hsync : Syncing p r T done st) (hunique : UniqueRows T)
    (hnodup : ((done ++ records.map ScriptRecord.recorded).map RecordedScript.identity).Nodup) :
    ∃ st', (records.map ScriptRecord.toJson).foldlM (syncRecord p r) st = some st' ∧
      Syncing p r T (done ++ records.map ScriptRecord.recorded) st' ∧
        SameScripts (records.foldl (publishScript p r) table) st'.table := by
  induction records generalizing done st table with
  | nil => exact ⟨st, rfl, by rwa [List.map_nil, List.append_nil], h⟩
  | cons record records ih =>
    have hnew : record.identity ∉ done.map RecordedScript.identity := by
      intro hmem
      rw [List.map_append, List.map_cons, List.map_cons] at hnodup
      exact (List.nodup_append.mp hnodup).2.2 _ hmem _ List.mem_cons_self rfl
    obtain ⟨st₁, hstep, hsync₁⟩ := hsync.step hunique recordedScript_toJson hnew
    rw [List.map_cons, List.append_cons] at hnodup
    obtain ⟨st₂, hrun, h₂⟩ := ih (h.step hsync hunique hnew hstep) hsync₁ hnodup
    refine ⟨st₂, ?_, ?_⟩
    · rw [List.map_cons, List.foldlM_cons, hstep]
      exact hrun
    · rw [List.map_cons, List.append_cons]
      exact h₂

end Loop

/-! ## The call -/

section Call

variable {p r : Id} {table : Table ScriptRow} {rows : Table NetBoxScript}
  {records : List ScriptRecord}

/-- **The whole call** does not raise, and leaves the rows that `synchronizeScripts` leaves. -/
theorem synchronizeScriptRows_refines (h : SameScripts table rows) (hunique : UniqueScripts table)
    (hnodup : (records.map ScriptRecord.identity).Nodup) :
    ∃ rows' result, synchronizeScriptRows p r (records.map ScriptRecord.toJson) rows =
      some (rows', result) ∧ SameScripts (synchronizeScripts p r records table) rows' := by
  have hidentities : (records.map ScriptRecord.recorded).map RecordedScript.identity =
      records.map ScriptRecord.identity := by
    rw [List.map_map]
    rfl
  obtain ⟨st, hrun, hsync, hsame⟩ := SameScripts.run (p := p) (r := r) records h
    syncing_nil (h.unique hunique) (by rwa [List.nil_append, hidentities])
  rw [List.nil_append] at hsync
  have hkept : ∀ i row, (i, row) ∈ st.rows → st.table.row i = some row := by
    intro i row hmem
    obtain ⟨hrow, -, hnot⟩ := (hsync.rows i row).mp hmem
    exact hsync.kept i row hrow fun hrecorded => hnot hrecorded.2
  -- the rows that are left are those of the project that no record names
  have hleft : ∀ i row, st.table.row i = some row → ((i, row) ∈ st.rows ↔
      row.project = p ∧ row.identity ∉ records.map ScriptRecord.identity) := by
    intro i row hrow
    rw [hsync.rows, hidentities]
    refine ⟨And.right, fun hproject => ⟨?_, hproject⟩⟩
    have hhas : HasIdentity p ⟨row.modulePath, row.className, [], [], .null⟩ row :=
      ⟨hproject.1, rfl⟩
    refine hsync.identity_of_row hrow hhas ?_
    rw [hidentities]
    exact hproject.2
  obtain ⟨hretired, hothers, hnext, -⟩ := foldl_retireRow hsync.nodup
    fun row hmem => hkept row.1 row.2 hmem
  refine ⟨(st.rows.foldl retireRow st).table, _, by rw [synchronizeScriptRows, hrun]; rfl, ?_⟩
  refine hsame.modifyAll hnext (fun i a b ha hb hrow => ?_) fun i hi => ?_
  · split_ifs with hunnamed
    · have hmem : (i, b) ∈ st.rows := by
        rw [hleft i b hb, hrow.project, hrow.identity]
        exact hunnamed
      exact ⟨_, hretired (i, b) hmem, hrow.retire⟩
    · refine ⟨b, ?_, hrow⟩
      rw [hothers i ?_, hb]
      intro hkey
      obtain ⟨⟨j, row⟩, hmem, rfl⟩ := List.mem_map.mp hkey
      obtain rfl := Option.some.inj ((hkept j row hmem).symm.trans hb)
      rw [hleft j row hb, hrow.project, hrow.identity] at hmem
      exact hunnamed hmem
  · rw [hothers i ?_, hi]
    intro hkey
    obtain ⟨⟨j, row⟩, hmem, rfl⟩ := List.mem_map.mp hkey
    rw [hkept j row hmem] at hi
    cases hi

end Call

end NetBoxScripts
