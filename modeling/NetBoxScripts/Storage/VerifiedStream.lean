import NetBoxScripts.Database.Statements

/-!
# Verified streams

The read loop behind every byte that is run (`storage/store.py`, `runtime/cache.py`): an object is
measured chunk by chunk, at most one byte past the size its manifest entry records, and each chunk
is handed on as it is measured. A backend may report any size and cut its bytes anywhere.

## Main definitions

* `Handle`, `Sink`: a file open for reading, and where the chunks go
* `Serves`: a handle that gives the bytes of a content, cut anywhere
* `measureLoop`: the loop of `_measure` and `_measure_file`
* `streamVerified`, `copyVerified`, `readVerified`, `measureFile`

## Main results

* `measureLoop_serves`, `measureLoop_bounded`: what the loop reads
* `streamVerified_exact`: what is accepted, consumed and handed on, and which failure surfaces
-/

namespace NetBoxScripts

namespace VerifiedStream

/-! ## Files -/

/-- What a call of a backend raises: a `FileNotFoundError` or anything else. -/
inductive BackendError
  | fileNotFound
  | other
  deriving DecidableEq, Repr

/-- `storage.size(key)`: a size, a `NotImplementedError` or `AttributeError`, or another error. -/
inductive SizeProbe
  | known (size : ℕ)
  | unsupported
  | raises (error : BackendError)
  deriving DecidableEq, Repr

/-- A file open for reading, `handle.read(n)`. -/
structure Handle (σ : Type) where
  read : ℕ → σ → Except BackendError (Bytes × σ)

/-- Where the chunks go, `sink.write(chunk)`; a write may raise an `OSError`. -/
structure Sink (τ ε : Type) where
  write : Bytes → τ → Except ε τ

/-- No sink. -/
def nullSink (ε : Type) : Sink Unit ε := ⟨fun _ _ => .ok ()⟩

/-- `io.BytesIO` -/
def bytesSink (ε : Type) : Sink Bytes ε :=
  ⟨fun chunk written => .ok (written ++ chunk)⟩

/-- An object of the backend: its reported size, and the file it is opened as. -/
structure StoredObject (σ : Type) where
  size : SizeProbe
  opened : Except BackendError σ

/-- A destination path, opened for writing and closed. -/
structure Destination (τ ε : Type) where
  opened : Except ε τ
  sink : Sink τ ε
  close : τ → Except ε τ

/-! ## Measuring -/

/-- `_HASH_CHUNK` -/
def hashChunk : ℕ := 1024 * 1024

/-- How a measurement ends early. -/
inductive MeasureError (ε : Type)
  | backend (error : BackendError)
  | destination (error : ε)

/-- The handle, the sink, the bytes that `size` and `digest` stand for, and what a write raised. -/
structure Measured (σ τ ε : Type) where
  handle : σ
  sink : τ
  content : Bytes
  raised : Option ε

section Model

variable {σ τ ε : Type}

/-- The loop of `_measure(handle, expected_size, sink)`, with what remains to be read. -/
def measureLoop (handle : Handle σ) (sink : Sink τ ε) (remaining : ℕ) (m : Measured σ τ ε) :
    Except (MeasureError ε) Unit × Measured σ τ ε :=
  if remaining = 0 then (.ok (), m)
  else
    match handle.read (min hashChunk remaining) m.handle with
    | .error error => (.error (.backend error), m)
    | .ok (chunk, next) =>
      if chunk = [] then (.ok (), { m with handle := next })
      else
        match sink.write chunk m.sink with
        | .error error => (.error (.destination error), { m with
            handle := next
            content := m.content ++ chunk
            raised := some error })
        | .ok written =>
          measureLoop handle sink (remaining - chunk.length) { m with
            handle := next
            sink := written
            content := m.content ++ chunk }
termination_by remaining
decreasing_by
  have hpos := List.length_pos_iff.mpr ‹_›
  omega

/-- How `_stream_verified` raises: for what is stored, as a `StorageError`, or with the destination's
own `OSError`. -/
inductive StreamError (ε : Type)
  | corrupt (reason : TreeReason)
  | storage
  | destination (error : ε)

/-- What one call leaves: its result, the sink, the number of bytes it read, and what a write
raised. -/
structure Streamed (τ ε : Type) where
  outcome : Except (StreamError ε) Unit
  sink : τ
  consumed : ℕ
  raised : Option ε

variable [Hashing]

/-- The `with storage.open(key, 'rb')` block and the checks after it. -/
def measureObject (object : StoredObject σ) (handle : Handle σ) (entry : ManifestEntry)
    (sink : Sink τ ε) (s : τ) : Streamed τ ε :=
  match object.opened with
  | .error .fileNotFound => ⟨.error (.corrupt (.missing entry.path)), s, 0, none⟩
  | .error .other => ⟨.error .storage, s, 0, none⟩
  | .ok start =>
    let (result, m) := measureLoop handle sink (entry.size + 1) ⟨start, s, [], none⟩
    let outcome : Except (StreamError ε) Unit :=
      match result with
      | .error (.backend .fileNotFound) => .error (.corrupt (.missing entry.path))
      | .error (.backend .other) => .error .storage
      | .error (.destination error) => .error (.destination error)
      | .ok () =>
        if m.content.length ≠ entry.size then .error (.corrupt (.sizeMismatch entry.path))
        else if sha256 m.content ≠ entry.sha256 then
          .error (.corrupt (.checksumMismatch entry.path))
        else .ok ()
    ⟨outcome, m.sink, m.content.length, m.raised⟩

/-- `_stream_verified(storage, key, entry, sink)` -/
def streamVerified (object : StoredObject σ) (handle : Handle σ) (entry : ManifestEntry)
    (sink : Sink τ ε) (s : τ) : Streamed τ ε :=
  match object.size with
  | .raises .fileNotFound => ⟨.error (.corrupt (.missing entry.path)), s, 0, none⟩
  | .raises .other => ⟨.error .storage, s, 0, none⟩
  | .known reported =>
    if reported ≠ entry.size then ⟨.error (.corrupt (.sizeMismatch entry.path)), s, 0, none⟩
    else measureObject object handle entry sink s
  | .unsupported => measureObject object handle entry sink s

/-- `copy_verified(storage, key, entry, destination)`, with what the destination is left as. -/
def copyVerified (object : StoredObject σ) (handle : Handle σ) (entry : ManifestEntry) :
    Option (Destination τ ε) → Except (StreamError ε) Unit × Option τ
  | none => ((streamVerified object handle entry (nullSink ε) ()).outcome, none)
  | some destination =>
    match destination.opened with
    | .error error => (.error (.destination error), none)
    | .ok s =>
      let streamed := streamVerified object handle entry destination.sink s
      match destination.close streamed.sink with
      | .error error => (.error (.destination error), some streamed.sink)
      | .ok closed => (streamed.outcome, some closed)

/-- `read_verified(storage, key, entry)` -/
def readVerified (ε : Type) (object : StoredObject σ) (handle : Handle σ) (entry : ManifestEntry) :
    Except (StreamError ε) Bytes :=
  let streamed := streamVerified object handle entry (bytesSink ε) []
  streamed.outcome.map fun _ => streamed.sink

/-- `_measure_file(path, expected_size)` of an open file; `none` is a `LocalCacheError`. -/
def measureFile (handle : Handle σ) (start : σ) (expectedSize : ℕ) : Option (ℕ × PyStr) :=
  match measureLoop handle (nullSink Empty) (expectedSize + 1) ⟨start, (), [], none⟩ with
  | (.error _, _) => none
  | (.ok (), m) => some (m.content.length, sha256 m.content)

end Model

/-! ## What the loop reads -/

section Loop

variable {σ τ ε : Type} {handle : Handle σ} {sink : Sink τ ε} {remaining : ℕ}
  {m : Measured σ τ ε} {content : σ → Bytes} {received : τ → Bytes}

/-- No read returns more than it was asked for. -/
def Bounded (handle : Handle σ) : Prop :=
  ∀ n s chunk next, handle.read n s = .ok (chunk, next) → chunk.length ≤ n

/-- **The handle gives the bytes of a content**, cut anywhere: a read of at least one byte returns
some of what is left, and nothing only when nothing is left. -/
def Serves (handle : Handle σ) (content : σ → Bytes) : Prop :=
  ∀ n s, 0 < n → ∃ chunk next, handle.read n s = .ok (chunk, next) ∧ chunk.length ≤ n ∧
    content s = chunk ++ content next ∧ (chunk = [] → content s = [])

/-- A write that returns has appended its chunk. -/
def Appends (sink : Sink τ ε) (received : τ → Bytes) : Prop :=
  ∀ chunk s s', sink.write chunk s = .ok s' → received s' = received s ++ chunk

/-- A read loop never reads past what remains. -/
theorem measureLoop_bounded (hbounded : Bounded handle) :
    (measureLoop handle sink remaining m).2.content.length ≤ m.content.length + remaining := by
  fun_induction measureLoop handle sink remaining m with
  | case1 m => exact Nat.le_add_right _ _
  | case2 remaining m hne error hread => exact Nat.le_add_right _ _
  | case3 remaining m hne next hread => exact Nat.le_add_right _ _
  -- the chunk was read, and so counts, whether or not its write returned
  | case4 remaining m hne chunk next hread hchunk error hwrite =>
    have hlength := hbounded _ _ _ _ hread
    have hle := Nat.min_le_right hashChunk remaining
    dsimp only
    rw [List.length_append]
    omega
  | case5 remaining m hne chunk next hread hchunk written hwrite ih =>
    have hlength := hbounded _ _ _ _ hread
    have hle := Nat.min_le_right hashChunk remaining
    dsimp only at ih
    rw [List.length_append] at ih
    omega

/-- What a write raised is how the loop ends, and nothing else ends it so. -/
theorem measureLoop_raised (hm : m.raised = none) {error : ε} :
    (measureLoop handle sink remaining m).1 = .error (.destination error) ↔
      (measureLoop handle sink remaining m).2.raised = some error := by
  fun_induction measureLoop handle sink remaining m with
  | case1 m => simp [hm]
  | case2 remaining m hne error hread => simp [hm]
  | case3 remaining m hne next hread => simp [hm]
  | case4 remaining m hne chunk next hread hchunk error hwrite => simp
  | case5 remaining m hne chunk next hread hchunk written hwrite ih => exact ih hm

/-- The sink has what was measured, unless a write failed. -/
theorem measureLoop_received (happends : Appends sink received) {before : Bytes}
    (hm : received m.sink = before ++ m.content)
    (hok : (measureLoop handle sink remaining m).1 = .ok ()) :
    received (measureLoop handle sink remaining m).2.sink =
      before ++ (measureLoop handle sink remaining m).2.content := by
  fun_induction measureLoop handle sink remaining m with
  | case1 m => exact hm
  | case2 remaining m hne error hread => cases hok
  | case3 remaining m hne next hread => exact hm
  | case4 remaining m hne chunk next hread hchunk error hwrite => cases hok
  | case5 remaining m hne chunk next hread hchunk written hwrite ih =>
    apply ih _ hok
    dsimp only
    rw [happends _ _ _ hwrite, hm, List.append_assoc]

/-- **What the loop reads** of a content: what there is of it, up to what remains. -/
theorem measureLoop_serves (hserves : Serves handle content)
    (hok : (measureLoop handle sink remaining m).1 = .ok ()) :
    (measureLoop handle sink remaining m).2.content =
      m.content ++ (content m.handle).take remaining := by
  fun_induction measureLoop handle sink remaining m with
  | case1 m => simp
  | case2 remaining m hne error hread => cases hok
  | case3 remaining m hne next hread =>
    obtain ⟨chunk, next', hread', -, -, hend⟩ := hserves (min hashChunk remaining) m.handle (by
      rw [hashChunk]
      omega)
    rw [hread] at hread'
    cases hread'
    -- an empty read of a content is its end
    rw [hend rfl, List.take_nil, List.append_nil]
  | case4 remaining m hne chunk next hread hchunk error hwrite => cases hok
  | case5 remaining m hne chunk next hread hchunk written hwrite ih =>
    obtain ⟨chunk', next', hread', hlength, hcontent, -⟩ :=
      hserves (min hashChunk remaining) m.handle (by
        rw [hashChunk]
        omega)
    rw [hread] at hread'
    cases hread'
    have hle := Nat.min_le_right hashChunk remaining
    -- one turn moves a chunk of the content from what is left to what is measured
    have htake : (chunk ++ content next).take remaining =
        chunk ++ (content next).take (remaining - chunk.length) := by
      rw [List.take_append, List.take_of_length_le (by omega)]
    rw [ih hok, hcontent, htake, List.append_assoc]

/-- A handle that serves a content does not end the loop. -/
theorem measureLoop_ne_backend (hserves : Serves handle content) {error : BackendError} :
    (measureLoop handle sink remaining m).1 ≠ .error (.backend error) := by
  fun_induction measureLoop handle sink remaining m with
  | case1 m => exact nofun
  | case2 remaining m hne error hread =>
    obtain ⟨chunk, next, hread', -⟩ := hserves (min hashChunk remaining) m.handle (by
      rw [hashChunk]
      omega)
    rw [hread] at hread'
    cases hread'
  | case3 remaining m hne next hread => exact nofun
  | case4 remaining m hne chunk next hread hchunk error hwrite => exact nofun
  | case5 remaining m hne chunk next hread hchunk written hwrite ih => exact ih

end Loop

/-! ## What is accepted -/

section Accepted

variable [Hashing] {σ τ ε : Type} {handle : Handle σ} {sink : Sink τ ε} {s : τ} {start : σ}
  {entry : ManifestEntry} {content : σ → Bytes} {received : τ → Bytes} {reported : Option ℕ}

/-- An object that opens, and whose size is reported or not. -/
def StoredObject.reporting (reported : Option ℕ) (start : σ) : StoredObject σ :=
  ⟨reported.elim .unsupported .known, .ok start⟩

/-- The content is the entry's, as far as it is read. -/
theorem intact_take_iff {bytes : Bytes} :
    Intact (bytes.take (entry.size + 1)) entry ↔ Intact bytes entry := by
  -- one byte past the recorded size is enough to see that there is more
  have htake : bytes.length = entry.size → bytes.take (entry.size + 1) = bytes :=
    fun h => List.take_of_length_le (by omega)
  constructor
  · rintro ⟨hsize, hchecksum⟩
    have hlength : bytes.length = entry.size := by
      rw [List.length_take] at hsize
      omega
    rw [htake hlength] at hchecksum
    exact ⟨hlength, hchecksum⟩
  · rintro ⟨hsize, hchecksum⟩
    rw [Intact, htake hsize]
    exact ⟨hsize, hchecksum⟩

/-- **The measurement of a content**: its result where no write failed. -/
theorem measureObject_serves (hserves : Serves handle content) {size : SizeProbe}
    (hraised : (measureObject ⟨size, .ok start⟩ handle entry sink s).raised = none) :
    (measureObject ⟨size, .ok start⟩ handle entry sink s).outcome = .ok () ↔
      Intact (content start) entry := by
  rw [measureObject] at hraised ⊢
  dsimp only at hraised ⊢
  cases hloop : measureLoop handle sink (entry.size + 1) ⟨start, s, [], none⟩ with
  | mk result m =>
    rw [hloop] at hraised
    have hresult : (measureLoop handle sink (entry.size + 1) ⟨start, s, [], none⟩).1 = result := by
      rw [hloop]
    have hlast : (measureLoop handle sink (entry.size + 1) ⟨start, s, [], none⟩).2 = m := by
      rw [hloop]
    -- the loop ends in three ways; a served content excludes the first, `hraised` the second
    match result with
    | .error (.backend error) => exact absurd hresult (measureLoop_ne_backend hserves)
    | .error (.destination error) =>
      have := (measureLoop_raised rfl).mp hresult
      rw [hlast] at this
      rw [this] at hraised
      cases hraised
    | .ok () =>
      have hcontent := measureLoop_serves hserves hresult
      rw [hlast, List.nil_append] at hcontent
      rw [← intact_take_iff, ← hcontent, Intact]
      split_ifs with hsize hchecksum
      · exact iff_of_false nofun fun h => hsize h.1
      · exact iff_of_false nofun fun h => hchecksum h.2
      · exact iff_of_true rfl ⟨not_not.mp hsize, not_not.mp hchecksum⟩

theorem streamVerified_serves (hserves : Serves handle content)
    (hraised : (streamVerified (.reporting reported start) handle entry sink s).raised = none) :
    (streamVerified (.reporting reported start) handle entry sink s).outcome = .ok () ↔
      (∀ size ∈ reported, size = entry.size) ∧ Intact (content start) entry := by
  cases reported with
  | none =>
    have hiff := measureObject_serves hserves (show (measureObject ⟨.unsupported, .ok start⟩ handle
      entry sink s).raised = none from hraised)
    exact hiff.trans ⟨fun h => ⟨nofun, h⟩, And.right⟩
  | some size =>
    rw [StoredObject.reporting, streamVerified] at hraised ⊢
    dsimp only [Option.elim] at hraised ⊢
    -- a reported size that differs ends the call before it reads
    split_ifs at hraised ⊢ with hsize
    · simp [hsize]
    · rw [measureObject_serves hserves hraised]
      simp [not_not.mp hsize]

/-- On success the sink has the content. -/
theorem streamVerified_received (hserves : Serves handle content) (happends : Appends sink received)
    (hok : (streamVerified (.reporting reported start) handle entry sink s).outcome = .ok ()) :
    received (streamVerified (.reporting reported start) handle entry sink s).sink =
      received s ++ content start := by
  have hmeasured : ∀ {size : SizeProbe},
      (measureObject ⟨size, .ok start⟩ handle entry sink s).outcome = .ok () →
      received (measureObject ⟨size, .ok start⟩ handle entry sink s).sink =
        received s ++ content start := by
    intro size hok
    rw [measureObject] at hok ⊢
    -- only the loop that ended well can have been accepted
    dsimp only at hok ⊢
    cases hloop : measureLoop handle sink (entry.size + 1) ⟨start, s, [], none⟩ with
    | mk result m =>
      rw [hloop] at hok
      have hresult : (measureLoop handle sink (entry.size + 1) ⟨start, s, [], none⟩).1 =
          result := by rw [hloop]
      have hlast : (measureLoop handle sink (entry.size + 1) ⟨start, s, [], none⟩).2 = m := by
        rw [hloop]
      match result, hok with
      | .ok (), hok =>
        dsimp only at hok
        split_ifs at hok with hsize hchecksum
        have hcontent := measureLoop_serves hserves hresult
        rw [hlast, List.nil_append] at hcontent
        have hreceived := measureLoop_received happends
          (show received s = received s ++ [] from (List.append_nil _).symm) hresult
        rw [hlast] at hreceived
        have hintact : Intact (content start) entry := by
          rw [← intact_take_iff, Intact, ← hcontent]
          exact ⟨not_not.mp hsize, not_not.mp hchecksum⟩
        -- the bytes read are the whole content, since their number is the recorded one
        have htake : (content start).take (entry.size + 1) = content start := by
          apply List.take_of_length_le
          rw [hintact.1]
          omega
        dsimp only
        rw [hreceived, hcontent, htake]
      | .error (.backend .fileNotFound), hok => cases hok
      | .error (.backend .other), hok => cases hok
      | .error (.destination error), hok => cases hok
  cases reported with
  | none => exact @hmeasured .unsupported hok
  | some size =>
    rw [StoredObject.reporting, streamVerified] at hok ⊢
    dsimp only [Option.elim] at hok ⊢
    split_ifs at hok ⊢ with hsize
    exact hmeasured hok

/-- One call reads at most one byte too many. -/
theorem streamVerified_consumed (hbounded : Bounded handle) (object : StoredObject σ) :
    (streamVerified object handle entry sink s).consumed ≤ entry.size + 1 := by
  have hmeasured : (measureObject object handle entry sink s).consumed ≤ entry.size + 1 := by
    rw [measureObject]
    cases object.opened with
    | error error => cases error <;> exact Nat.zero_le _
    | ok start =>
      have hloop := @measureLoop_bounded _ _ _ handle sink (entry.size + 1) ⟨start, s, [], none⟩
        hbounded
      rw [List.length_nil, Nat.zero_add] at hloop
      exact hloop
  rw [streamVerified]
  cases object.size with
  | raises error => cases error <;> exact Nat.zero_le _
  | unsupported => exact hmeasured
  | known size =>
    dsimp only
    split_ifs
    · exact Nat.zero_le _
    · exact hmeasured

/-- **A failed write surfaces as itself**, and nothing else surfaces as one. -/
theorem streamVerified_raised (object : StoredObject σ) {error : ε} :
    (streamVerified object handle entry sink s).outcome = .error (.destination error) ↔
      (streamVerified object handle entry sink s).raised = some error := by
  have hmeasured : (measureObject object handle entry sink s).outcome =
      .error (.destination error) ↔
      (measureObject object handle entry sink s).raised = some error := by
    rw [measureObject]
    cases object.opened with
    | error error => cases error <;> simp
    | ok start =>
      have hloop := @measureLoop_raised _ _ _ handle sink (entry.size + 1) ⟨start, s, [], none⟩ rfl
        error
      dsimp only
      rw [← hloop]
      match (measureLoop handle sink (entry.size + 1) ⟨start, s, [], none⟩).1 with
      | .error (.backend .fileNotFound) => simp
      | .error (.backend .other) => simp
      | .error (.destination error) => simp
      | .ok () =>
        dsimp only
        split_ifs <;> simp
  rw [streamVerified]
  cases object.size with
  | raises error => cases error <;> simp
  | unsupported => exact hmeasured
  | known size =>
    dsimp only
    split_ifs
    · simp
    · exact hmeasured

/-- A sink that takes every chunk. -/
def Accepting (sink : Sink τ ε) : Prop := ∀ chunk s, ∃ s', sink.write chunk s = .ok s'

omit [Hashing] in
theorem measureLoop_accepting (haccepting : Accepting sink) {remaining : ℕ} {m : Measured σ τ ε}
    (hm : m.raised = none) : (measureLoop handle sink remaining m).2.raised = none := by
  fun_induction measureLoop handle sink remaining m with
  | case1 m => exact hm
  | case2 remaining m hne error hread => exact hm
  | case3 remaining m hne next hread => exact hm
  | case4 remaining m hne chunk next hread hchunk error hwrite =>
    obtain ⟨s', hs'⟩ := haccepting chunk m.sink
    rw [hwrite] at hs'
    cases hs'
  | case5 remaining m hne chunk next hread hchunk written hwrite ih => exact ih hm

theorem streamVerified_accepting (haccepting : Accepting sink) (object : StoredObject σ) :
    (streamVerified object handle entry sink s).raised = none := by
  have hmeasured : (measureObject object handle entry sink s).raised = none := by
    rw [measureObject]
    cases object.opened with
    | error error => cases error <;> rfl
    | ok start => exact measureLoop_accepting haccepting rfl
  rw [streamVerified]
  cases object.size with
  | raises error => cases error <;> rfl
  | unsupported => exact hmeasured
  | known size =>
    dsimp only
    split_ifs
    · rfl
    · exact hmeasured

omit [Hashing] in
theorem accepting_nullSink : Accepting (nullSink ε) := fun _ _ => ⟨(), rfl⟩

omit [Hashing] in
theorem accepting_bytesSink : Accepting (bytesSink ε) := fun chunk s => ⟨s ++ chunk, rfl⟩

omit [Hashing] in
theorem appends_bytesSink : Appends (bytesSink ε) id := by
  intro chunk s s' h
  cases h
  rfl

/-- What is reported and held is the entry's. -/
def Accepted (reported : Option ℕ) (bytes : Bytes) (entry : ManifestEntry) : Prop :=
  (∀ size ∈ reported, size = entry.size) ∧ Intact bytes entry

/-- `read_verified` returns the content, where it is accepted. -/
theorem readVerified_serves (hserves : Serves handle content) {bytes : Bytes} :
    readVerified ε (.reporting reported start) handle entry = .ok bytes ↔
      Accepted reported (content start) entry ∧ bytes = content start := by
  let streamed : Streamed Bytes ε :=
    streamVerified (.reporting reported start) handle entry (bytesSink ε) []
  have haccepted : streamed.outcome = .ok () ↔ Accepted reported (content start) entry :=
    streamVerified_serves hserves (streamVerified_accepting accepting_bytesSink _)
  have hreceived : streamed.outcome = .ok () → streamed.sink = content start :=
    streamVerified_received hserves appends_bytesSink
  -- both sides are about the one call that fills the buffer
  change streamed.outcome.map (fun _ => streamed.sink) = .ok bytes ↔ _
  rw [← haccepted]
  cases houtcome : streamed.outcome with
  | error error => exact iff_of_false nofun fun h => by cases h.1
  | ok u =>
    rw [← hreceived houtcome, Except.map, Except.ok.injEq, eq_comm]
    exact ⟨fun h => ⟨rfl, h⟩, And.right⟩

/-- `copy_verified` accepts the same, where the destination does. -/
theorem copyVerified_serves (hserves : Serves handle content)
    (destination : Option (Destination τ ε))
    (hhealthy : ∀ d ∈ destination, (∃ s, d.opened = .ok s) ∧ Accepting d.sink ∧
      ∀ s, ∃ s', d.close s = .ok s') :
    (copyVerified (.reporting reported start) handle entry destination).1 = .ok () ↔
      Accepted reported (content start) entry := by
  cases destination with
  | none => exact streamVerified_serves hserves (streamVerified_accepting accepting_nullSink _)
  | some d =>
    obtain ⟨⟨s, hopened⟩, haccepting, hclose⟩ := hhealthy d rfl
    obtain ⟨s', hs'⟩ := hclose
      (streamVerified (.reporting reported start) handle entry d.sink s).sink
    rw [copyVerified, hopened]
    dsimp only
    rw [hs']
    exact streamVerified_serves hserves (streamVerified_accepting haccepting _)

/-- A destination that cannot be opened, written or closed surfaces as itself. -/
theorem copyVerified_destination (object : StoredObject σ) {d : Destination τ ε} {error : ε}
    (hfails : d.opened = .error error ∨ ∃ s, d.opened = .ok s ∧
      (d.close (streamVerified object handle entry d.sink s).sink = .error error ∨
        (∃ s', d.close (streamVerified object handle entry d.sink s).sink = .ok s') ∧
          (streamVerified object handle entry d.sink s).raised = some error)) :
    (copyVerified object handle entry (some d)).1 = .error (.destination error) := by
  rw [copyVerified]
  rcases hfails with hopened | ⟨s, hopened, hclose | ⟨⟨s', hclose⟩, hraised⟩⟩
  · rw [hopened]
  · rw [hopened]
    dsimp only
    rw [hclose]
  · rw [hopened]
    dsimp only
    rw [hclose]
    exact (streamVerified_raised object).mpr hraised

/-- `_measure_file` finds the entry's size and checksum in the same contents. -/
theorem measureFile_serves (hserves : Serves handle content) :
    measureFile handle start entry.size = some (entry.size, entry.sha256) ↔
      Intact (content start) entry := by
  rw [measureFile]
  cases hloop : measureLoop handle (nullSink Empty) (entry.size + 1) ⟨start, (), [], none⟩ with
  | mk result m =>
    have hresult : (measureLoop handle (nullSink Empty) (entry.size + 1)
        ⟨start, (), [], none⟩).1 = result := by rw [hloop]
    match result with
    | .error (.backend error) => exact absurd hresult (measureLoop_ne_backend hserves)
    | .ok () =>
      have hcontent := measureLoop_serves hserves hresult
      rw [hloop, List.nil_append] at hcontent
      rw [← intact_take_iff, ← hcontent, Option.some_inj, Prod.mk.injEq, Intact]

/-- **The read loop** behind stored and cached bytes: whatever the backend, one call reads at most
one byte too many, and a failed write surfaces as itself. Of a content, cut anywhere and under any
reported size, what is accepted is what the entry records, the sink has it then, and the three
readers accept the same. -/
theorem streamVerified_exact (handle : Handle σ) (entry : ManifestEntry) :
    (Bounded handle → ∀ (object : StoredObject σ) (sink : Sink τ ε) (s : τ),
      (streamVerified object handle entry sink s).consumed ≤ entry.size + 1) ∧
    (∀ (object : StoredObject σ) (sink : Sink τ ε) (s : τ) (error : ε),
      (streamVerified object handle entry sink s).outcome = .error (.destination error) ↔
        (streamVerified object handle entry sink s).raised = some error) ∧
    ∀ content, Serves handle content → ∀ start reported,
      (∀ (sink : Sink τ ε) (s : τ),
        (streamVerified (.reporting reported start) handle entry sink s).raised = none →
        ((streamVerified (.reporting reported start) handle entry sink s).outcome = .ok () ↔
          Accepted reported (content start) entry)) ∧
      (∀ (sink : Sink τ ε) (s : τ) (received : τ → Bytes), Appends sink received →
        (streamVerified (.reporting reported start) handle entry sink s).outcome = .ok () →
        received (streamVerified (.reporting reported start) handle entry sink s).sink =
          received s ++ content start) ∧
      (∀ bytes, readVerified ε (.reporting reported start) handle entry = .ok bytes ↔
        Accepted reported (content start) entry ∧ bytes = content start) ∧
      (∀ destination : Option (Destination τ ε),
        (∀ d ∈ destination, (∃ s, d.opened = .ok s) ∧ Accepting d.sink ∧
          ∀ s, ∃ s', d.close s = .ok s') →
        ((copyVerified (.reporting reported start) handle entry destination).1 = .ok () ↔
          Accepted reported (content start) entry)) ∧
      (measureFile handle start entry.size = some (entry.size, entry.sha256) ↔
        Intact (content start) entry) :=
  ⟨fun hbounded object _ _ => streamVerified_consumed hbounded object,
    fun object _ _ _ => streamVerified_raised object,
    fun _ hserves _ _ => ⟨fun _ _ hraised => streamVerified_serves hserves hraised,
      fun _ _ _ happends hok => streamVerified_received hserves happends hok,
      fun _ => readVerified_serves hserves,
      fun destination hhealthy => copyVerified_serves hserves destination hhealthy,
      measureFile_serves hserves⟩⟩

end Accepted

/-! ## One byte at a time -/

/-- A handle that gives one byte a read. -/
def byteHandle : Handle Bytes := ⟨fun n bytes => .ok (bytes.take (min n 1), bytes.drop (min n 1))⟩

theorem serves_byteHandle : Serves byteHandle id := by
  intro n bytes hn
  have hone : min n 1 = 1 := Nat.min_eq_right hn
  refine ⟨bytes.take 1, bytes.drop 1, by simp only [byteHandle, hone], ?_,
    (List.take_append_drop 1 bytes).symm, fun hnil => ?_⟩
  · rw [List.length_take]
    omega
  · cases bytes with
    | nil => rfl
    | cons b bytes => cases hnil

/-- The content `x`, read byte by byte under no reported size, is what its entry records. -/
theorem streamVerified_exact_x :
    @readVerified Bytes (tableHashing exampleTable) Unit (.reporting none [120]) byteHandle
      (oneEntry (py "a.py")) = .ok [120] := by
  obtain ⟨-, -, hserved⟩ := @streamVerified_exact (tableHashing exampleTable) Bytes Unit Unit
    byteHandle (oneEntry (py "a.py"))
  obtain ⟨-, -, hread, -⟩ := hserved id serves_byteHandle [120] none
  refine (hread [120]).mpr ⟨⟨nofun, ?_⟩, rfl⟩
  exact ⟨rfl, by decide⟩

end VerifiedStream

end NetBoxScripts
