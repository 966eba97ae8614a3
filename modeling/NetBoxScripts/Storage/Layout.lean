import NetBoxScripts.Models.Rows
import NetBoxScripts.Python.JsonText
import NetBoxScripts.Storage.ManifestDigest
import NetBoxScripts.Storage.TreeNodes

/-!
# The storage layout

Where a file of a revision is stored (`storage/paths.py`): under the project's UUID, the revision's
digest and the file's canonical path. And where it is written in the staging tree of the runtime
cache (`runtime/cache.py`).

## Main definitions

* `uuidOfText`, `uuidText`: `uuid.UUID(text)` and `str(uuid)`
* `Layout.revisionPrefix`, `Layout.revisionKey`: the keys of a backend
* `Layout.PosixPath`: the paths of the runtime cache

## Main results

* `uuidText_injective`: the text of a UUID determines it
* `Layout.layout_contained`: keys lie under the prefix of their revision, and only equal parts make
  equal keys; staged files lie in their staging directory, apart from one another
-/

namespace NetBoxScripts

/-! ## UUIDs -/

/-- `text.replace(old, new)` for a nonempty `old`; `skip` characters of a match are still to be
passed over. -/
def replaceAll (old new : PyStr) : ℕ → PyStr → PyStr
  | _, [] => []
  | skip + 1, _ :: text => replaceAll old new skip text
  | 0, c :: text =>
    if old.isPrefixOf (c :: text) then new ++ replaceAll old new (old.length - 1) text
    else c :: replaceAll old new 0 text

/-- The value of a digit in base 16. -/
def hexDigitValue (c : ℕ) : Option ℕ :=
  if 48 ≤ c ∧ c ≤ 57 then some (c - 48)
  else if 97 ≤ c ∧ c ≤ 102 then some (c - 87)
  else if 65 ≤ c ∧ c ≤ 70 then some (c - 55)
  else none

/-- The digits of a number in base 16, single underscores between them. -/
def hexDigits (value : ℕ) : PyStr → Option ℕ
  | [] => some value
  | 95 :: c :: text => do
    let digit ← hexDigitValue c
    hexDigits (value * 16 + digit) text
  | c :: text => do
    let digit ← hexDigitValue c
    hexDigits (value * 16 + digit) text

/-- The whitespace `int` skips in ASCII text. -/
def isCSpace (c : ℕ) : Bool := c == 32 || (9 ≤ c && c ≤ 13)

/-- `int(text, 16)`, where `decimalDigit` is `unicodedata.decimal`; a text outside ASCII is taken
with its digits and blanks in ASCII. -/
def intBase16 (decimalDigit : ℕ → Option ℕ) (text : PyStr) : Option ℕ :=
  let ascii := if text.all (· < 128) then text else text.map fun c =>
    if c < 127 then c else if isSpace c then 32 else ((decimalDigit c).map (48 + ·)).getD 63
  let body := (ascii.dropWhile isCSpace).rdropWhile isCSpace
  let body := if body.head? = some 43 then body.tail else body
  let prefixed := body.take 2 = py "0x" ∨ body.take 2 = py "0X"
  let digits := if prefixed then body.drop 2 else body
  -- an underscore may follow the prefix, but not start a number
  let digits := if prefixed ∧ digits.head? = some 95 then digits.tail else digits
  if digits = [] ∨ digits.head? = some 95 then none else hexDigits 0 digits

/-- `uuid.UUID(text).int` -/
def uuidOfText (decimalDigit : ℕ → Option ℕ) (text : PyStr) : Option ℕ :=
  let hex := replaceAll (py "uuid:") [] 0 (replaceAll (py "urn:") [] 0 text)
  let brace := fun c => c == 123 || c == 125
  let hex := ((hex.dropWhile brace).rdropWhile brace).filter (· ≠ 45)
  if hex.length ≠ 32 then none
  else (intBase16 decimalDigit hex).bind fun n => if n < 2 ^ 128 then some n else none

/-- `uuid.hex` -/
def uuidHex (key : StorageKey) : PyStr :=
  (List.range 32).map fun i => Json.hexDigit (key / 16 ^ (31 - i) % 16)

/-- `str(uuid)` -/
def uuidText (key : StorageKey) : PyStr :=
  let hex := uuidHex key
  hex.take 8 ++ 45 :: (hex.drop 8).take 4 ++ 45 :: (hex.drop 12).take 4 ++
    45 :: (hex.drop 16).take 4 ++ 45 :: hex.drop 20

theorem hexDigit_mem {n : ℕ} (h : n < 16) :
    (48 ≤ Json.hexDigit n ∧ Json.hexDigit n ≤ 57) ∨
      (97 ≤ Json.hexDigit n ∧ Json.hexDigit n ≤ 102) := by
  unfold Json.hexDigit
  split_ifs <;> omega

/-- Every character of the text is a digit or a dash. -/
theorem mem_uuidText {n c : ℕ} (h : c ∈ uuidText n) : c = 45 ∨ c ∈ uuidHex n := by
  simp only [uuidText, List.mem_append, List.mem_cons] at h
  rcases h with (((h | rfl | h) | rfl | h) | rfl | h) | rfl | h
  · exact .inr (List.mem_of_mem_take h)
  · exact .inl rfl
  · exact .inr (List.mem_of_mem_drop (List.mem_of_mem_take h))
  · exact .inl rfl
  · exact .inr (List.mem_of_mem_drop (List.mem_of_mem_take h))
  · exact .inl rfl
  · exact .inr (List.mem_of_mem_drop (List.mem_of_mem_take h))
  · exact .inl rfl
  · exact .inr (List.mem_of_mem_drop h)

theorem mem_uuidHex {n c : ℕ} (h : c ∈ uuidHex n) :
    (48 ≤ c ∧ c ≤ 57) ∨ (97 ≤ c ∧ c ≤ 102) := by
  obtain ⟨i, -, rfl⟩ := List.mem_map.mp h
  exact hexDigit_mem (Nat.mod_lt _ (by decide))

/-- Without its dashes the text is the digits. -/
theorem filter_uuidText (n : ℕ) : (uuidText n).filter (· ≠ 45) = uuidHex n := by
  have hkeep : ∀ {l : PyStr}, (∀ c ∈ l, c ∈ uuidHex n) → l.filter (· ≠ 45) = l := by
    intro l hl
    refine List.filter_eq_self.mpr fun c hc => ?_
    have := mem_uuidHex (hl c hc)
    simp only [ne_eq, decide_eq_true_eq]
    omega
  have hdash : ∀ l : PyStr, (45 :: l).filter (· ≠ 45) = l.filter (· ≠ 45) := fun l => by simp
  rw [uuidText, List.filter_append, hdash, List.filter_append, hdash, List.filter_append, hdash,
    List.filter_append, hdash,
    hkeep fun c hc => List.mem_of_mem_take hc,
    hkeep fun c hc => List.mem_of_mem_drop (List.mem_of_mem_take hc),
    hkeep fun c hc => List.mem_of_mem_drop (List.mem_of_mem_take hc),
    hkeep fun c hc => List.mem_of_mem_drop (List.mem_of_mem_take hc),
    hkeep fun c hc => List.mem_of_mem_drop hc]
  have hjoin : ∀ (l : PyStr) (k m : ℕ), (l.drop k).take m ++ l.drop (k + m) = l.drop k := by
    intro l k m
    rw [← List.drop_drop, List.take_append_drop]
  have h₁ := hjoin (uuidHex n) 16 4
  have h₂ := hjoin (uuidHex n) 12 4
  have h₃ := hjoin (uuidHex n) 8 4
  rw [List.append_assoc, List.append_assoc, List.append_assoc, h₁, h₂, h₃,
    List.take_append_drop]

/-- A number is its digits. -/
theorem eq_of_digits {k n m : ℕ} (hn : n < 16 ^ k) (hm : m < 16 ^ k)
    (h : ∀ i < k, n / 16 ^ i % 16 = m / 16 ^ i % 16) : n = m := by
  induction k generalizing n m with
  | zero => omega
  | succ k ih =>
    have hlow := h 0 (Nat.succ_pos k)
    rw [Nat.pow_zero, Nat.div_one, Nat.div_one] at hlow
    have hhigh : n / 16 = m / 16 := by
      apply ih
      · rw [Nat.pow_succ] at hn
        omega
      · rw [Nat.pow_succ] at hm
        omega
      · intro i hi
        have := h (i + 1) (Nat.succ_lt_succ hi)
        rwa [Nat.pow_succ', ← Nat.div_div_eq_div_mul, ← Nat.div_div_eq_div_mul] at this
    omega

/-- **The text of a UUID** determines it. -/
theorem uuidText_injective {n m : ℕ} (hn : n < 2 ^ 128) (hm : m < 2 ^ 128)
    (h : uuidText n = uuidText m) : n = m := by
  have hhex : uuidHex n = uuidHex m := by rw [← filter_uuidText, h, filter_uuidText]
  have hpow : (2 : ℕ) ^ 128 = 16 ^ 32 := by decide
  rw [hpow] at hn hm
  refine eq_of_digits hn hm fun i hi => ?_
  have hdigit := List.map_inj_left.mp hhex (31 - i) (List.mem_range.mpr (by omega))
  rw [show 31 - (31 - i) = i by omega] at hdigit
  have := congrArg Json.hexValue hdigit
  rwa [Json.hexValue_hexDigit (Nat.mod_lt _ (by decide)),
    Json.hexValue_hexDigit (Nat.mod_lt _ (by decide))] at this

theorem slash_notMem_uuidText (n : ℕ) : slash ∉ uuidText n := by
  intro h
  rcases mem_uuidText h with h | h
  · cases h
  · have := mem_uuidHex h
    rw [slash] at this
    omega

namespace Layout

/-! ## Keys -/

/-- `raise UnsafePathError(...)` for a part that could lead out of its revision. -/
def escapesRoot {α : Type} (path message : PyStr) : Except PathFailure α :=
  refuse path .escapesRoot message

/-- `STORAGE_PREFIX` -/
def storagePrefix : PyStr := py "netbox-scripts"

variable (decimalDigit : ℕ → Option ℕ)

/-- `_storage_key_component(storage_key)`, where `storageKey` is `str(storage_key)`. -/
def storageKeyComponent (storageKey : PyStr) : Except PathFailure PyStr :=
  match uuidOfText decimalDigit storageKey with
  | some key => .ok (uuidText key)
  | none => escapesRoot storageKey (py "The storage key must be a UUID.")

/-- `_digest_component(digest)` -/
def digestComponent (digest : PyStr) : Except PathFailure PyStr :=
  if isHexDigest digest then .ok digest
  else escapesRoot digest (py "The revision digest must be 64 lowercase hex characters.")

/-- `project_prefix(storage_key)` -/
def projectPrefix (storageKey : PyStr) : Except PathFailure PyStr := do
  let component ← storageKeyComponent decimalDigit storageKey
  return storagePrefix ++ slash :: component ++ [slash]

/-- `revision_prefix(storage_key, digest)` -/
def revisionPrefix (storageKey digest : PyStr) : Except PathFailure PyStr := do
  let project ← projectPrefix decimalDigit storageKey
  let component ← digestComponent digest
  return project ++ py "revisions/" ++ component ++ [slash]

/-- `revision_key(storage_key, digest, path)` -/
def revisionKey [Unicode] (storageKey digest path : PyStr) : Except PathFailure PyStr := do
  let base ← revisionPrefix decimalDigit storageKey digest
  let canonical ← normalizeSourcePath path
  return base ++ canonical

/-- The segments of the directory a revision is stored under. -/
def revisionSegments (key : StorageKey) (digest : PyStr) : List PyStr :=
  [storagePrefix, uuidText key, py "revisions", digest]

/-- A segment that names a file or a directory of its own. -/
def IsName (segment : PyStr) : Prop := segment ≠ [] ∧ segment ≠ py "." ∧ segment ≠ py ".."

variable {decimalDigit} {storageKey digest path base key : PyStr}

theorem uuidOfText_lt {n : ℕ} (h : uuidOfText decimalDigit storageKey = some n) : n < 2 ^ 128 := by
  simp only [uuidOfText] at h
  split_ifs at h
  obtain ⟨m, -, hm⟩ := Option.bind_eq_some_iff.mp h
  split_ifs at hm with hlt
  rw [← Option.some.inj hm]
  exact hlt

theorem storageKeyComponent_eq_ok_iff {component : PyStr} :
    storageKeyComponent decimalDigit storageKey = .ok component ↔
      ∃ n, uuidOfText decimalDigit storageKey = some n ∧ component = uuidText n := by
  unfold storageKeyComponent
  cases uuidOfText decimalDigit storageKey with
  | none => simp [escapesRoot, refuse]
  | some n => simp [eq_comm]

theorem digestComponent_eq_ok_iff {component : PyStr} :
    digestComponent digest = .ok component ↔ isHexDigest digest ∧ component = digest := by
  unfold digestComponent
  split_ifs with h
  · simp [h, eq_comm]
  · simp [h, escapesRoot, refuse]

theorem join_revisionSegments (n : ℕ) (digest : PyStr) :
    join (revisionSegments n digest) ++ [slash] =
      storagePrefix ++ slash :: uuidText n ++ [slash] ++ py "revisions/" ++ digest ++ [slash] := by
  have hrevisions : py "revisions/" = py "revisions" ++ [slash] := by decide
  simp [revisionSegments, join_cons, hrevisions]

/-- **A revision prefix** is the join of its segments, closed by a separator. -/
theorem revisionPrefix_eq_ok_iff :
    revisionPrefix decimalDigit storageKey digest = .ok base ↔
      ∃ n, uuidOfText decimalDigit storageKey = some n ∧ isHexDigest digest ∧
        base = join (revisionSegments n digest) ++ [slash] := by
  constructor
  · intro h
    obtain ⟨project, hproject, h⟩ := Except.bind_eq_ok_iff.mp h
    obtain ⟨component, hcomponent, hbase⟩ := Except.bind_eq_ok_iff.mp h
    obtain ⟨name, hname, hpure⟩ := Except.bind_eq_ok_iff.mp hproject
    obtain ⟨n, hn, rfl⟩ := storageKeyComponent_eq_ok_iff.mp hname
    obtain ⟨hhex, rfl⟩ := digestComponent_eq_ok_iff.mp hcomponent
    obtain rfl := Except.ok.inj hpure
    refine ⟨n, hn, hhex, ?_⟩
    rw [join_revisionSegments]
    exact (Except.ok.inj hbase).symm
  · rintro ⟨n, hn, hhex, rfl⟩
    rw [join_revisionSegments, revisionPrefix, projectPrefix,
      storageKeyComponent_eq_ok_iff.mpr ⟨n, hn, rfl⟩, digestComponent_eq_ok_iff.mpr ⟨hhex, rfl⟩]
    rfl

theorem isName_uuidText (n : ℕ) : IsName (uuidText n) := by
  have hlength : (uuidText n).length = 36 := by simp [uuidText, uuidHex]
  refine ⟨?_, ?_, ?_⟩
  all_goals
    intro h
    rw [h] at hlength
    cases hlength

theorem slash_notMem_of_isHexDigest (h : isHexDigest digest) : slash ∉ digest := by
  intro hmem
  rw [isHexDigest, Bool.and_eq_true] at h
  have := List.all_eq_true.mp h.2 slash hmem
  simp [slash] at this

theorem isName_of_isHexDigest (h : isHexDigest digest) : IsName digest := by
  have hlength : digest.length = 64 := by
    rw [isHexDigest, Bool.and_eq_true] at h
    simpa using h.1
  refine ⟨?_, ?_, ?_⟩
  all_goals
    rintro rfl
    cases hlength

/-- The directory of a revision has four segments, each a name. -/
theorem revisionSegments_names {n : ℕ} (h : isHexDigest digest) :
    ∀ segment ∈ revisionSegments n digest, IsName segment ∧ slash ∉ segment := by
  simp only [revisionSegments, List.forall_mem_cons]
  refine ⟨⟨?_, by decide⟩, ⟨isName_uuidText n, slash_notMem_uuidText n⟩, ⟨?_, by decide⟩,
    ⟨isName_of_isHexDigest h, slash_notMem_of_isHexDigest h⟩, by simp⟩
  all_goals
    rw [IsName]
    decide

/-- The segments of a revision determine it. -/
theorem revisionSegments_inj {n n' : ℕ} {digest' : PyStr} (hn : n < 2 ^ 128) (hn' : n' < 2 ^ 128)
    (h : revisionSegments n digest = revisionSegments n' digest') : n = n' ∧ digest = digest' := by
  simp only [revisionSegments, List.cons.injEq, true_and, and_true] at h
  exact ⟨uuidText_injective hn hn' h.1, h.2⟩

section Keys

variable [Unicode]

/-- A canonical path has segments, each a name. -/
theorem split_canonical {canonical : PyStr} (h : normalizeSourcePath path = .ok canonical) :
    split canonical ≠ [] ∧ ∀ segment ∈ split canonical, IsName segment := by
  obtain ⟨-, hsegments, rfl⟩ := (normalizeSourcePath_eq_ok_iff ..).mp h
  rw [split_join_realSegments hsegments.nonempty]
  refine ⟨hsegments.nonempty, fun segment hsegment => ?_⟩
  obtain ⟨-, hne, hdot⟩ := mem_realSegments.mp hsegment
  exact ⟨hne, hdot, fun heq => hsegments.no_traversal (heq ▸ hsegment)⟩

/-- **A key** is the path of a file under the directory of its revision. -/
theorem revisionKey_eq_ok (h : revisionKey decimalDigit storageKey digest path = .ok key) :
    ∃ n canonical, uuidOfText decimalDigit storageKey = some n ∧ isHexDigest digest ∧
      normalizeSourcePath path = .ok canonical ∧
      key = join (revisionSegments n digest) ++ slash :: canonical ∧
      split key = revisionSegments n digest ++ split canonical := by
  obtain ⟨base, hbase, h⟩ := Except.bind_eq_ok_iff.mp h
  obtain ⟨canonical, hcanonical, hkey⟩ := Except.bind_eq_ok_iff.mp h
  obtain ⟨n, hn, hhex, rfl⟩ := revisionPrefix_eq_ok_iff.mp hbase
  have hsegments : revisionSegments n digest ≠ [] := List.cons_ne_nil _ _
  have hsplit := (split_canonical hcanonical).1
  have hkey : key = join (revisionSegments n digest) ++ slash :: canonical := by
    rw [← Except.ok.inj hkey, List.append_assoc]
    rfl
  refine ⟨n, canonical, hn, hhex, hcanonical, hkey, ?_⟩
  have hjoin : key = join (revisionSegments n digest ++ split canonical) := by
    rw [join_append hsegments hsplit, join_split, hkey]
  rw [hjoin, split_join _ (by simp [hsegments])]
  intro segment hsegment
  rcases List.mem_append.mp hsegment with hmem | hmem
  · exact (revisionSegments_names hhex segment hmem).2
  · exact slash_notMem_of_mem_split hmem

omit [Unicode] in
/-- The segments of a prefix: the directory's, and nothing after the separator. -/
theorem split_revisionPrefix {n : ℕ} (h : isHexDigest digest) :
    split (join (revisionSegments n digest) ++ [slash]) = revisionSegments n digest ++ [[]] := by
  have hjoin : join (revisionSegments n digest) ++ [slash] =
      join (revisionSegments n digest ++ [[]]) := (join_concat (List.cons_ne_nil _ _)).symm
  rw [hjoin, split_join _ (by simp)]
  intro segment hsegment
  rcases List.mem_append.mp hsegment with hmem | hmem
  · exact (revisionSegments_names h segment hmem).2
  · simp [List.mem_singleton.mp hmem]

/-- A key lies strictly under the prefix of its revision. -/
theorem revisionKey_under (h : revisionKey decimalDigit storageKey digest path = .ok key) :
    ∃ base segments, revisionPrefix decimalDigit storageKey digest = .ok base ∧
      split key = (split base).dropLast ++ segments ∧ segments ≠ [] ∧
      (∀ segment ∈ split key, IsName segment) ∧ base <+: key ∧ base ≠ key := by
  obtain ⟨n, canonical, hn, hhex, hcanonical, hkey, hsplit⟩ := revisionKey_eq_ok h
  obtain ⟨hne, hnames⟩ := split_canonical hcanonical
  have hunder : key = join (revisionSegments n digest) ++ [slash] ++ canonical := by
    rw [hkey, List.append_assoc]
    rfl
  refine ⟨_, split canonical, revisionPrefix_eq_ok_iff.mpr ⟨n, hn, hhex, rfl⟩, ?_, hne, ?_, ?_, ?_⟩
  · rw [hsplit, split_revisionPrefix hhex, List.dropLast_concat]
  · rw [hsplit]
    intro segment hsegment
    rcases List.mem_append.mp hsegment with hmem | hmem
    · exact (revisionSegments_names hhex segment hmem).1
    · exact hnames segment hmem
  · rw [hunder]
    exact List.prefix_append _ _
  · rw [hunder]
    intro heq
    -- nothing after the separator would be the segment `''`
    obtain rfl : canonical = [] := by simpa using heq
    exact (hnames [] (by decide)).1 rfl

/-- Keys are equal exactly when their parts are. -/
theorem revisionKey_eq_iff {storageKey' digest' path' key' : PyStr}
    (h : revisionKey decimalDigit storageKey digest path = .ok key)
    (h' : revisionKey decimalDigit storageKey' digest' path' = .ok key') :
    key = key' ↔ uuidOfText decimalDigit storageKey = uuidOfText decimalDigit storageKey' ∧
      digest = digest' ∧ normalizeSourcePath path = normalizeSourcePath path' := by
  obtain ⟨n, canonical, hn, -, hcanonical, hkey, hsplit⟩ := revisionKey_eq_ok h
  obtain ⟨n', canonical', hn', -, hcanonical', hkey', hsplit'⟩ := revisionKey_eq_ok h'
  rw [hn, hn', hcanonical, hcanonical']
  constructor
  · rintro rfl
    -- both directories have four segments, so the cut falls at one place
    rw [hsplit] at hsplit'
    obtain ⟨hdirectory, hfile⟩ := List.append_inj hsplit' rfl
    obtain ⟨rfl, rfl⟩ := revisionSegments_inj (uuidOfText_lt hn) (uuidOfText_lt hn') hdirectory
    exact ⟨rfl, rfl, congrArg _ (split_injective hfile)⟩
  · rintro ⟨hnum, rfl, hpath⟩
    rw [hkey, hkey', Option.some.inj hnum, Except.ok.inj hpath]

/-- A key is no directory above a prefix. -/
theorem revisionKey_not_above {storageKey' digest' : PyStr}
    (h : revisionKey decimalDigit storageKey digest path = .ok key)
    (hbase : revisionPrefix decimalDigit storageKey' digest' = .ok base) : ¬ IsNode key base := by
  obtain ⟨n, canonical, -, -, hcanonical, -, hsplit⟩ := revisionKey_eq_ok h
  obtain ⟨n', -, hhex', rfl⟩ := revisionPrefix_eq_ok_iff.mp hbase
  obtain ⟨hne, hnames⟩ := split_canonical hcanonical
  rw [IsNode, hsplit, split_revisionPrefix hhex']
  intro hnode
  -- a key has five segments or more and a prefix five, the last of them empty
  obtain ⟨rest, hrest⟩ := hnode
  rw [List.append_assoc] at hrest
  obtain ⟨-, hlast⟩ := List.append_inj hrest rfl
  obtain ⟨segment, segments, hsegments⟩ := List.exists_cons_of_ne_nil hne
  rw [hsegments] at hlast hnames
  exact (hnames segment List.mem_cons_self).1 (List.cons.inj hlast).1

end Keys

/-! ## Staged files -/

/-- A `PosixPath`: its root, which is empty for a relative path, and the parts after it. -/
structure PosixPath where
  root : PyStr
  parts : List PyStr
  deriving DecidableEq, Repr

/-- `base / path` -/
def PosixPath.joinpath (base : PosixPath) (path : PyStr) : PosixPath :=
  if path.head? = some slash then
    -- an absolute path replaces the base, and just two separators are a root of their own
    ⟨if (py "//").isPrefixOf path ∧ ¬ (py "///").isPrefixOf path then py "//" else [slash],
      realSegments path⟩
  else ⟨base.root, base.parts ++ realSegments path⟩

variable [Unicode]

/-- A canonical path is taken as it is. -/
theorem joinpath_canonical (staging : PosixPath) (h : normalizeSourcePath path = .ok path) :
    staging.joinpath path = ⟨staging.root, staging.parts ++ split path⟩ := by
  obtain ⟨-, hsegments, hpath⟩ := (normalizeSourcePath_eq_ok_iff ..).mp h
  have hhead : path.head? ≠ some slash := by
    rw [hpath]
    exact (slash_notMem_ends _).1
  have hreal : realSegments path = split path := by
    rw [hpath, realSegments_join hsegments.nonempty, split_join_realSegments hsegments.nonempty]
  rw [PosixPath.joinpath, if_neg hhead, hreal]

/-- Of the paths of a tree, none is another or a directory above it. -/
theorem pairwise_not_isNode {paths : List PyStr} (hnodup : paths.Nodup) (h : Coexist paths) :
    paths.Pairwise fun a b => ¬ IsNode a b ∧ ¬ IsNode b a := by
  have hapart : ∀ a ∈ paths, ∀ b ∈ paths, a ≠ b → ¬ IsNode a b := fun a ha b hb hne hnode =>
    blockingAncestor_none_iff.mp (h.no_file_above b hb) a ha ⟨hnode, hne⟩
  refine hnodup.imp_of_mem fun {a b} ha hb hne => ?_
  exact ⟨hapart a ha b hb hne, hapart b hb a ha (Ne.symm hne)⟩

/-- **Staged files** lie in the staging directory, none of them at or above another. -/
theorem staged_apart [Hashing] {manifest : Json} {digest : Option PyStr}
    (h : validateManifest manifest digest = .ok ()) :
    ∃ values, ∃ paths : List PyStr, manifest = .arr values ∧ values.map entryPath = paths.map some ∧
      ∀ staging : PosixPath,
        (∀ path ∈ paths, ∃ segments, segments ≠ [] ∧ (∀ segment ∈ segments, IsName segment) ∧
          staging.joinpath path = ⟨staging.root, staging.parts ++ segments⟩) ∧
        paths.Pairwise fun a b =>
          ¬ (staging.joinpath a).parts <+: (staging.joinpath b).parts ∧
            ¬ (staging.joinpath b).parts <+: (staging.joinpath a).parts := by
  obtain ⟨values, rfl⟩ : ∃ values, manifest = .arr values := by
    cases manifest with
    | arr values => exact ⟨values, rfl⟩
    | _ => cases h
  obtain ⟨entries, hall, htrusted, -⟩ := validateManifest_records h
  have hcanonical : ∀ path ∈ entries.map ManifestEntry.path,
      normalizeSourcePath path = .ok path := by
    intro path hpath
    obtain ⟨entry, hentry, rfl⟩ := List.mem_map.mp hpath
    exact (htrusted.acceptable entry hentry).canonical
  have hpaths : values.map entryPath = (entries.map ManifestEntry.path).map some := by
    rw [List.map_map]
    clear h hcanonical htrusted
    induction hall with
    | nil => rfl
    | cons hrecords _ ih => rw [List.map_cons, List.map_cons, ih, hrecords.entryPath]; rfl
  refine ⟨values, _, rfl, hpaths, fun staging => ⟨fun path hpath => ?_, ?_⟩⟩
  · obtain ⟨hne, hnames⟩ := split_canonical (hcanonical path hpath)
    exact ⟨split path, hne, hnames, joinpath_canonical staging (hcanonical path hpath)⟩
  · refine (pairwise_not_isNode htrusted.nodup htrusted.coexist).imp_of_mem ?_
    intro a b ha hb hapart
    rw [joinpath_canonical staging (hcanonical a ha), joinpath_canonical staging (hcanonical b hb)]
    exact ⟨fun hab => hapart.1 ((List.prefix_append_right_inj _).mp hab),
      fun hba => hapart.2 ((List.prefix_append_right_inj _).mp hba)⟩

/-- **Containment and injectivity of the layout.** A key lies strictly under the prefix of its
revision, only equal parts make equal keys, and no key is a directory above a prefix; the files of
an accepted manifest are staged in the staging directory, none of them at or above another. -/
theorem layout_contained [Hashing] (decimalDigit : ℕ → Option ℕ) :
    (∀ storageKey digest path key, revisionKey decimalDigit storageKey digest path = .ok key →
      ∃ base segments, revisionPrefix decimalDigit storageKey digest = .ok base ∧
        split key = (split base).dropLast ++ segments ∧ segments ≠ [] ∧
        (∀ segment ∈ split key, IsName segment) ∧ base <+: key ∧ base ≠ key) ∧
    (∀ storageKey digest path key storageKey' digest' path' key',
      revisionKey decimalDigit storageKey digest path = .ok key →
      revisionKey decimalDigit storageKey' digest' path' = .ok key' →
      (key = key' ↔ uuidOfText decimalDigit storageKey = uuidOfText decimalDigit storageKey' ∧
        digest = digest' ∧ normalizeSourcePath path = normalizeSourcePath path')) ∧
    (∀ storageKey digest path key storageKey' digest' base,
      revisionKey decimalDigit storageKey digest path = .ok key →
      revisionPrefix decimalDigit storageKey' digest' = .ok base → ¬ IsNode key base) ∧
    ∀ manifest digest, validateManifest manifest digest = .ok () →
      ∃ values, ∃ paths : List PyStr, manifest = .arr values ∧ values.map entryPath = paths.map some ∧
        ∀ staging : PosixPath,
          (∀ path ∈ paths, ∃ segments, segments ≠ [] ∧ (∀ segment ∈ segments, IsName segment) ∧
            staging.joinpath path = ⟨staging.root, staging.parts ++ segments⟩) ∧
          paths.Pairwise fun a b =>
            ¬ (staging.joinpath a).parts <+: (staging.joinpath b).parts ∧
              ¬ (staging.joinpath b).parts <+: (staging.joinpath a).parts :=
  ⟨fun _ _ _ _ h => revisionKey_under h, fun _ _ _ _ _ _ _ _ h h' => revisionKey_eq_iff h h',
    fun _ _ _ _ _ _ _ h hbase => revisionKey_not_above h hbase, fun _ _ h => staged_apart h⟩

omit [Unicode] in
/-- The key of `pkg/a.py` in a revision, whose UUID and path are spelled in another way. -/
theorem layout_contained_spelled :
    (∃ base segments, revisionPrefix (fun _ => none)
        (py "urn:uuid:{12345678-1234-5678-1234-567812ABCDEF}") (py hashOfX) = .ok base ∧
      split (py "netbox-scripts/12345678-1234-5678-1234-567812abcdef/revisions/" ++ py hashOfX ++
        py "/pkg/a.py") = (split base).dropLast ++ segments ∧ segments ≠ []) ∧
      ∃ values, ∃ paths : List PyStr, Json.arr [(oneEntry (py "a.py")).toJson] = .arr values ∧
        values.map entryPath = paths.map some := by
  have layout := @layout_contained asciiUnicode (tableHashing exampleTable) (fun _ => none)
  have hkey : @revisionKey (fun _ => none) asciiUnicode
      (py "urn:uuid:{12345678-1234-5678-1234-567812ABCDEF}") (py hashOfX) (py "pkg//./a.py") =
        .ok (py "netbox-scripts/12345678-1234-5678-1234-567812abcdef/revisions/" ++ py hashOfX ++
          py "/pkg/a.py") := by
    decide +kernel
  obtain ⟨base, segments, hbase, hsplit, hne, -⟩ := layout.1 _ _ _ _ hkey
  refine ⟨⟨base, segments, hbase, hsplit, hne⟩, ?_⟩
  obtain ⟨values, paths, hvalues, hpaths, -⟩ := layout.2.2.2
    (.arr [(oneEntry (py "a.py")).toJson]) none (by decide +kernel)
  exact ⟨values, paths, hvalues, hpaths⟩

end Layout

end NetBoxScripts
