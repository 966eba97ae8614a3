import NetBoxScripts.Concurrency.Table
import NetBoxScripts.Models.Rows

/-!
# Script rows

`synchronize_scripts`: the Script rows of a project are brought in line with the records of the
revision that goes into service.

## Main definitions

* `synchronizeScripts`: what one synchronization leaves in the table
* `Published`: the rows in service are those of the records

## Main results

* `synchronizeScripts_published`: after a synchronization with distinct records
-/

namespace NetBoxScripts

/-- The fields synchronization owns, as one record has them. -/
def ScriptRow.publish (r : Id) (record : ScriptRecord) (row : ScriptRow) : ScriptRow :=
  { row with
    displayName := record.displayName
    description := record.description
    metadata := record.metadata
    isRetired := false
    lastSeenRevision := some r }

/-- The row a record no row stands for yet is given. -/
def newScript (p r : Id) (record : ScriptRecord) : ScriptRow where
  project := p
  modulePath := record.modulePath
  className := record.className
  displayName := record.displayName
  description := record.description
  metadata := record.metadata
  isRetired := false
  lastSeenRevision := some r
  enabled := true

/-- One record published: its row updated or created. -/
def publishScript (p r : Id) (table : Table ScriptRow) (record : ScriptRecord) : Table ScriptRow :=
  match table.entries.find? fun row => row.2.project = p ∧ row.2.identity = record.identity with
  | some found => table.modify found.1 (ScriptRow.publish r record)
  | none => table.insert (newScript p r record)

/-- `synchronize_scripts(project, revision, records)`; the rows that no record names are retired. It
is the whole call on the columns of a row here (`synchronizeScriptRows_refines`). -/
def synchronizeScripts (p r : Id) (records : List ScriptRecord) (table : Table ScriptRow) :
    Table ScriptRow :=
  (records.foldl (publishScript p r) table).modifyAll fun _ row =>
    if row.project = p ∧ row.identity ∉ records.map ScriptRecord.identity then
      { row with isRetired := true } else row

/-- `unique_project_module_class` -/
def UniqueScripts (table : Table ScriptRow) : Prop :=
  ∀ i j a b, table.row i = some a → table.row j = some b → a.project = b.project →
    a.identity = b.identity → i = j

/-- The row is in service with what a record says of it. -/
structure ShowsRecord (r : Id) (record : ScriptRecord) (row : ScriptRow) : Prop where
  identity : row.identity = record.identity
  displayName : row.displayName = record.displayName
  description : row.description = record.description
  metadata : row.metadata = record.metadata
  isRetired : row.isRetired = false
  lastSeenRevision : row.lastSeenRevision = some r

/-- The rows in service of a project are exactly those of the records of a revision. -/
structure Published (table : Table ScriptRow) (p r : Id) (records : List ScriptRecord) : Prop where
  sound : ∀ i row, table.row i = some row → row.project = p → row.isRetired = false →
    ∃ record ∈ records, ShowsRecord r record row
  complete : ∀ record ∈ records, ∃ i row, table.row i = some row ∧ row.project = p ∧
    ShowsRecord r record row

/-- What a save of a row must not change: what identifies it, and what synchronization owns. -/
structure SamePublished (a b : ScriptRow) : Prop where
  project : b.project = a.project
  identity : b.identity = a.identity
  displayName : b.displayName = a.displayName
  description : b.description = a.description
  metadata : b.metadata = a.metadata
  isRetired : b.isRetired = a.isRetired
  lastSeenRevision : b.lastSeenRevision = a.lastSeenRevision

section Synchronize

variable {p r : Id} {table : Table ScriptRow} {record : ScriptRecord} {records : List ScriptRecord}
  {i : Id} {row : ScriptRow}

@[simp] theorem identity_publish : (row.publish r record).identity = row.identity := rfl

@[simp] theorem project_publish : (row.publish r record).project = row.project := rfl

@[simp] theorem identity_newScript : (newScript p r record).identity = record.identity := rfl

@[simp] theorem project_newScript : (newScript p r record).project = p := rfl

theorem showsRecord_publish (h : row.identity = record.identity) :
    ShowsRecord r record (row.publish r record) :=
  ⟨h, rfl, rfl, rfl, rfl, rfl⟩

theorem showsRecord_newScript : ShowsRecord r record (newScript p r record) :=
  ⟨rfl, rfl, rfl, rfl, rfl, rfl⟩

variable (p r table record) in
/-- What publishing one record does to a table. -/
theorem publishScript_cases :
    (∃ j a, table.row j = some a ∧ a.project = p ∧ a.identity = record.identity ∧
        publishScript p r table record = table.modify j (ScriptRow.publish r record)) ∨
      ((∀ j a, table.row j = some a → a.project = p → a.identity ≠ record.identity) ∧
        publishScript p r table record = table.insert (newScript p r record)) := by
  rw [publishScript]
  cases hfind : table.entries.find? fun row =>
      decide (row.2.project = p ∧ row.2.identity = record.identity) with
  | some found =>
    have hmem := Table.mem_entries.mp (List.mem_of_find?_eq_some hfind)
    obtain ⟨hproject, hidentity⟩ : found.2.project = p ∧ found.2.identity = record.identity := by
      simpa using List.find?_some hfind
    exact .inl ⟨found.1, found.2, hmem, hproject, hidentity, rfl⟩
  | none =>
    refine .inr ⟨fun j a ha hproject hidentity => ?_, rfl⟩
    exact List.find?_eq_none.mp hfind (j, a) (Table.mem_entries.mpr ha)
      (decide_eq_true ⟨hproject, hidentity⟩)

/-- A row after one record was published: the record's, or one with another identity that was
there before. -/
theorem publishScript_row (hunique : UniqueScripts table)
    (h : (publishScript p r table record).row i = some row) :
    (row.project = p ∧ ShowsRecord r record row) ∨
      (table.row i = some row ∧ ¬ (row.project = p ∧ row.identity = record.identity)) := by
  rcases publishScript_cases p r table record with
    ⟨j, a, ha, hproject, hidentity, heq⟩ | ⟨hnew, heq⟩
  · rw [heq] at h
    obtain ⟨b, hb, rfl⟩ := Table.row_modify_eq_some h
    by_cases hij : i = j
    · subst hij
      obtain rfl : a = b := Option.some.inj (ha.symm.trans hb)
      rw [if_pos rfl]
      exact .inl ⟨hproject, showsRecord_publish hidentity⟩
    · rw [if_neg hij]
      refine .inr ⟨hb, fun hsame => hij ?_⟩
      exact hunique i j b a hb ha (hsame.1.trans hproject.symm) (hsame.2.trans hidentity.symm)
  · rw [heq] at h
    rcases Table.row_insert_eq_some h with ⟨-, rfl⟩ | hold
    · exact .inl ⟨rfl, showsRecord_newScript⟩
    · exact .inr ⟨hold, fun hsame => hnew i row hold hsame.1 hsame.2⟩

/-- A row that is not the record's stays as it is. -/
theorem publishScript_other (h : table.row i = some row)
    (hother : ¬ (row.project = p ∧ row.identity = record.identity)) :
    (publishScript p r table record).row i = some row := by
  rcases publishScript_cases p r table record with
    ⟨j, a, ha, hproject, hidentity, heq⟩ | ⟨-, heq⟩
  · have hij : i ≠ j := by
      rintro rfl
      obtain rfl : a = row := Option.some.inj (ha.symm.trans h)
      exact hother ⟨hproject, hidentity⟩
    rw [heq, Table.row_modify_of_ne hij, h]
  · rw [heq, Table.row_insert_of_row h]

variable (p r table record) in
/-- A published record has its row. -/
theorem publishScript_shows :
    ∃ j a, (publishScript p r table record).row j = some a ∧ a.project = p ∧
      ShowsRecord r record a := by
  rcases publishScript_cases p r table record with
    ⟨j, a, ha, hproject, hidentity, heq⟩ | ⟨-, heq⟩
  · exact ⟨j, a.publish r record, by rw [heq]; simp [ha], hproject, showsRecord_publish hidentity⟩
  · exact ⟨table.next, newScript p r record, by simp [heq], rfl, showsRecord_newScript⟩

theorem publishScript_unique (hunique : UniqueScripts table) :
    UniqueScripts (publishScript p r table record) := by
  intro i j a b ha hb hproject hidentity
  rcases publishScript_cases p r table record with
    ⟨k, c, -, -, -, heq⟩ | ⟨hnew, heq⟩
  · rw [heq] at ha hb
    obtain ⟨a', ha', rfl⟩ := Table.row_modify_eq_some ha
    obtain ⟨b', hb', rfl⟩ := Table.row_modify_eq_some hb
    refine hunique i j a' b' ha' hb' ?_ ?_
    · split_ifs at hproject <;> simpa using hproject
    · split_ifs at hidentity <;> simpa using hidentity
  · rw [heq] at ha hb
    rcases Table.row_insert_eq_some ha with ⟨rfl, rfl⟩ | ha' <;>
      rcases Table.row_insert_eq_some hb with ⟨rfl, rfl⟩ | hb'
    · rfl
    · exact absurd hidentity.symm (hnew j b hb' hproject.symm)
    · exact absurd hidentity (hnew i a ha' hproject)
    · exact hunique i j a b ha' hb' hproject hidentity

/-- The row of one of the records. -/
def IsNamed (p : Id) (records : List ScriptRecord) (row : ScriptRow) : Prop :=
  row.project = p ∧ row.identity ∈ records.map ScriptRecord.identity

theorem isNamed_cons : IsNamed p (record :: records) row ↔
    (row.project = p ∧ row.identity = record.identity) ∨ IsNamed p records row := by
  simp only [IsNamed, List.map_cons, List.mem_cons]
  tauto

theorem ShowsRecord.isNamed (h : ShowsRecord r record row) (hproject : row.project = p)
    (hmem : record ∈ records) : IsNamed p records row :=
  ⟨hproject, h.identity ▸ List.mem_map_of_mem hmem⟩

theorem foldl_publishScript_unique (hunique : UniqueScripts table) :
    UniqueScripts (records.foldl (publishScript p r) table) := by
  induction records generalizing table with
  | nil => exact hunique
  | cons record records ih => exact ih (publishScript_unique hunique)

/-- A row that no record names stays as it is. -/
theorem foldl_publishScript_other (h : table.row i = some row)
    (hother : ¬ IsNamed p records row) :
    (records.foldl (publishScript p r) table).row i = some row := by
  induction records generalizing table with
  | nil => exact h
  | cons record records ih =>
    rw [isNamed_cons, not_or] at hother
    exact ih (publishScript_other h hother.1) hother.2

/-- A row after all records were published: one of theirs, or one none of them names. -/
theorem foldl_publishScript_row (hunique : UniqueScripts table)
    (h : (records.foldl (publishScript p r) table).row i = some row) :
    (row.project = p ∧ ∃ record ∈ records, ShowsRecord r record row) ∨
      (table.row i = some row ∧ ¬ IsNamed p records row) := by
  induction records generalizing table with
  | nil => exact .inr ⟨h, fun hnamed => by simp [IsNamed] at hnamed⟩
  | cons record records ih =>
    rcases ih (publishScript_unique hunique) h with ⟨hproject, found, hmem, hshows⟩ |
      ⟨hrow, hother⟩
    · exact .inl ⟨hproject, found, List.mem_cons_of_mem _ hmem, hshows⟩
    · rcases publishScript_row hunique hrow with ⟨hproject, hshows⟩ | ⟨hold, hother'⟩
      · exact .inl ⟨hproject, record, List.mem_cons_self, hshows⟩
      · exact .inr ⟨hold, fun hnamed => (isNamed_cons.mp hnamed).elim hother' hother⟩

/-- Each of the records has its row. -/
theorem foldl_publishScript_shows (hunique : UniqueScripts table)
    (hnodup : (records.map ScriptRecord.identity).Nodup) (hmem : record ∈ records) :
    ∃ j a, (records.foldl (publishScript p r) table).row j = some a ∧ a.project = p ∧
      ShowsRecord r record a := by
  induction records generalizing table with
  | nil => cases hmem
  | cons first records ih =>
    rw [List.map_cons, List.nodup_cons] at hnodup
    rcases List.mem_cons.mp hmem with rfl | hrest
    · obtain ⟨j, a, ha, hproject, hshows⟩ := publishScript_shows p r table record
      refine ⟨j, a, ?_, hproject, hshows⟩
      rw [List.foldl_cons]
      refine foldl_publishScript_other ha ?_
      rintro ⟨-, hidentity⟩
      exact hnodup.1 (hshows.identity ▸ hidentity)
    · exact ih (publishScript_unique hunique) hnodup.2 hrest

theorem synchronizeScripts_row
    (h : (synchronizeScripts p r records table).row i = some row) :
    ∃ a, (records.foldl (publishScript p r) table).row i = some a ∧
      row = if a.project = p ∧ a.identity ∉ records.map ScriptRecord.identity then
        { a with isRetired := true } else a := by
  rw [synchronizeScripts, Table.row_modifyAll, Option.map_eq_some_iff] at h
  obtain ⟨a, ha, rfl⟩ := h
  exact ⟨a, ha, rfl⟩

/-- **A synchronization** leaves in service exactly the records' rows. -/
theorem synchronizeScripts_published (hunique : UniqueScripts table)
    (hnodup : (records.map ScriptRecord.identity).Nodup) :
    Published (synchronizeScripts p r records table) p r records := by
  constructor
  · intro i row h hproject hretired
    obtain ⟨a, ha, rfl⟩ := synchronizeScripts_row h
    split_ifs at hproject hretired ⊢ with hunnamed
    rcases foldl_publishScript_row hunique ha with ⟨-, hshows⟩ | ⟨-, hother⟩
    · exact hshows
    · exact absurd ⟨hproject, fun hidentity => hother ⟨hproject, hidentity⟩⟩ hunnamed
  · intro record hmem
    obtain ⟨j, a, ha, hproject, hshows⟩ :=
      foldl_publishScript_shows (p := p) (r := r) hunique hnodup hmem
    refine ⟨j, a, ?_, hproject, hshows⟩
    rw [synchronizeScripts, Table.row_modifyAll, ha, Option.map_some, if_neg]
    rintro ⟨-, hunnamed⟩
    exact hunnamed (hshows.isNamed hproject hmem).2

theorem synchronizeScripts_unique (hunique : UniqueScripts table) :
    UniqueScripts (synchronizeScripts p r records table) := by
  intro i j a b ha hb hproject hidentity
  obtain ⟨a', ha', rfl⟩ := synchronizeScripts_row ha
  obtain ⟨b', hb', rfl⟩ := synchronizeScripts_row hb
  refine foldl_publishScript_unique hunique i j a' b' ha' hb' ?_ ?_
  · split_ifs at hproject <;> exact hproject
  · split_ifs at hidentity <;> exact hidentity

/-- A row of another project after a synchronization was there before, and the other way round. -/
theorem synchronizeScripts_foreign (hunique : UniqueScripts table) (hforeign : row.project ≠ p) :
    (synchronizeScripts p r records table).row i = some row ↔ table.row i = some row := by
  constructor
  · intro h
    obtain ⟨a, ha, rfl⟩ := synchronizeScripts_row h
    split_ifs at hforeign ⊢ with hunnamed
    · exact absurd hunnamed.1 hforeign
    · rcases foldl_publishScript_row hunique ha with ⟨hproject, -⟩ | ⟨hold, -⟩
      · exact absurd hproject hforeign
      · exact hold
  · intro h
    have hkept := foldl_publishScript_other (r := r) h
      fun hnamed : IsNamed p records row => hforeign hnamed.1
    rw [synchronizeScripts, Table.row_modifyAll, hkept, Option.map_some, if_neg]
    exact fun hunnamed => hforeign hunnamed.1

/-- A row that was there is still there under its identity. -/
theorem publishScript_keeps (h : table.row i = some row) :
    ∃ row', (publishScript p r table record).row i = some row' ∧ row'.project = row.project ∧
      row'.identity = row.identity := by
  rcases publishScript_cases p r table record with ⟨j, a, -, -, -, heq⟩ | ⟨-, heq⟩
  · rw [heq]
    by_cases hij : i = j
    · subst hij
      exact ⟨row.publish r record, by rw [Table.row_modify_self, h, Option.map_some], rfl, rfl⟩
    · exact ⟨row, by rw [Table.row_modify_of_ne hij, h], rfl, rfl⟩
  · rw [heq]
    exact ⟨row, Table.row_insert_of_row h, rfl, rfl⟩

theorem synchronizeScripts_keeps (h : table.row i = some row) :
    ∃ row', (synchronizeScripts p r records table).row i = some row' ∧
      row'.project = row.project ∧ row'.identity = row.identity := by
  have hfold : ∀ (records : List ScriptRecord) (table : Table ScriptRow) (row : ScriptRow),
      table.row i = some row → ∃ row', (records.foldl (publishScript p r) table).row i = some row' ∧
        row'.project = row.project ∧ row'.identity = row.identity := by
    intro records
    induction records with
    | nil => exact fun _ row h => ⟨row, h, rfl, rfl⟩
    | cons record records ih =>
      intro table row h
      obtain ⟨a, ha, hproject, hidentity⟩ := publishScript_keeps (p := p) (r := r) h
      obtain ⟨b, hb, hproject', hidentity'⟩ := ih _ a ha
      exact ⟨b, hb, hproject'.trans hproject, hidentity'.trans hidentity⟩
  obtain ⟨a, ha, hproject, hidentity⟩ := hfold records table row h
  rw [synchronizeScripts, Table.row_modifyAll, ha]
  refine ⟨_, rfl, ?_⟩
  dsimp only
  split_ifs
  · exact ⟨hproject, hidentity⟩
  · exact ⟨hproject, hidentity⟩

theorem SamePublished.refl (row : ScriptRow) : SamePublished row row :=
  ⟨rfl, rfl, rfl, rfl, rfl, rfl, rfl⟩

theorem ShowsRecord.of_same {row' : ScriptRow} (h : ShowsRecord r record row)
    (hsame : SamePublished row row') : ShowsRecord r record row' where
  identity := hsame.identity.trans h.identity
  displayName := hsame.displayName.trans h.displayName
  description := hsame.description.trans h.description
  metadata := hsame.metadata.trans h.metadata
  isRetired := hsame.isRetired.trans h.isRetired
  lastSeenRevision := hsame.lastSeenRevision.trans h.lastSeenRevision

/-- What a project publishes depends on the published fields of its own rows only. -/
theorem Published.of_same {table' : Table ScriptRow} (h : Published table p r records)
    (hforth : ∀ i row, table.row i = some row → row.project = p →
      ∃ row', table'.row i = some row' ∧ SamePublished row row')
    (hback : ∀ i row', table'.row i = some row' → row'.project = p →
      ∃ row, table.row i = some row ∧ SamePublished row row') : Published table' p r records where
  sound i row' hrow' hproject hretired := by
    obtain ⟨row, hrow, hsame⟩ := hback i row' hrow' hproject
    obtain ⟨record, hrecord, hshows⟩ := h.sound i row hrow (hsame.project.symm.trans hproject)
      (hsame.isRetired.symm.trans hretired)
    exact ⟨record, hrecord, hshows.of_same hsame⟩
  complete record hrecord := by
    obtain ⟨i, row, hrow, hproject, hshows⟩ := h.complete record hrecord
    obtain ⟨row', hrow', hsame⟩ := hforth i row hrow hproject
    exact ⟨i, row', hrow', hsame.project.trans hproject, hshows.of_same hsame⟩

/-- **A synchronization of one project** leaves what the others publish. -/
theorem Published.synchronize_other {q r' : Id} {others : List ScriptRecord}
    (h : Published table q r' others) (hunique : UniqueScripts table) (hne : q ≠ p) :
    Published (synchronizeScripts p r records table) q r' others := by
  refine h.of_same (fun i row hrow hproject => ⟨row, ?_, .refl row⟩)
    fun i row hrow hproject => ⟨row, ?_, .refl row⟩
  · exact (synchronizeScripts_foreign hunique (hproject ▸ hne)).mpr hrow
  · exact (synchronizeScripts_foreign hunique (hproject ▸ hne)).mp hrow

end Synchronize

end NetBoxScripts
