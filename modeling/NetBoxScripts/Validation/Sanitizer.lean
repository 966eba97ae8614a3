import Mathlib.Data.List.Infix
import NetBoxScripts.Validation.Run

/-!
# What sanitized text still says

`build_error_sanitizer` (`validation.py`) makes ten replacements, one after another. Those that
leave a placeholder split the text there for good, and those that leave nothing join what was
around them.

## Main definitions

* `splitAll`: what lies between the occurrences that a replacement takes
* `Shows`: a string is in a part of the text, where the references are deleted from it and it is
  split at the other names
* `Unmistakable`: no placeholder can be read into a string

## Main results

* `replaceAll_eq_intercalate`: a replacement joins the parts
* `infix_applied_iff_shows`: what comes through the replacements is what a part of the text shows
* `sanitizer_keeps_private`: what the sanitizer keeps back from every text, under which cache roots
  it keeps these back from every text, and from which texts under the others
-/

namespace NetBoxScripts

/-! ## Replacing by a placeholder -/

section Placeholder

variable {old mid part text : PyStr} {mark close : ℕ}

/-- A part without a character does not reach across it. -/
theorem infix_append_cons_of_notMem {a b : PyStr} {c : ℕ} (hc : c ∉ part)
    (h : part <:+: a ++ c :: b) : part <:+: a ∨ part <:+: b := by
  obtain ⟨s, t, h⟩ := h
  rw [List.append_assoc, List.append_eq_append_iff] at h
  rcases h with ⟨as, rfl, h⟩ | ⟨cs, rfl, h⟩
  · rw [List.append_eq_append_iff] at h
    rcases h with ⟨bs, rfl, -⟩ | ⟨ds, rfl, hcons⟩
    · exact .inl ⟨s, bs, by rw [List.append_assoc]⟩
    · cases ds with
      | nil => exact .inl ⟨s, [], by simp⟩
      | cons d ds =>
        obtain ⟨rfl, -⟩ := List.cons.inj hcons
        exact absurd (by simp) hc
  · cases cs with
    | nil =>
      cases part with
      | nil => exact .inl (List.nil_infix)
      | cons d part =>
        obtain ⟨rfl, -⟩ := List.cons.inj h
        exact absurd List.mem_cons_self hc
    | cons d cs =>
      obtain ⟨-, rfl⟩ := List.cons.inj h
      exact .inr ⟨cs, t, List.append_assoc _ _ _⟩

theorem replaceAll_skip (old new : PyStr) (skip : ℕ) (text : PyStr) :
    replaceAll old new skip text = replaceAll old new 0 (text.drop skip) := by
  induction text generalizing skip with
  | nil => cases skip <;> simp [replaceAll]
  | cons c text ih =>
    cases skip with
    | zero => rfl
    | succ skip =>
      rw [replaceAll, List.drop_succ_cons]
      exact ih skip

/-- A match is passed over as a whole. -/
theorem replaceAll_of_match (hne : old ≠ []) {new : PyStr} {c : ℕ}
    (h : old.isPrefixOf (c :: text) = true) : ∃ rest, c :: text = old ++ rest ∧
      rest.length ≤ text.length ∧
        replaceAll old new 0 (c :: text) = new ++ replaceAll old new 0 rest := by
  obtain ⟨rest, hrest⟩ := List.isPrefixOf_iff_prefix.mp h
  have hpos := List.length_pos_of_ne_nil hne
  have hlength := congrArg List.length hrest
  rw [List.length_append, List.length_cons] at hlength
  have hdrop : text.drop (old.length - 1) = rest := by
    have hcons : (c :: text).drop old.length = rest := by rw [← hrest, List.drop_left]
    obtain ⟨k, hk⟩ := Nat.exists_eq_succ_of_ne_zero hpos.ne'
    rw [← hcons, hk, List.drop_succ_cons]
    rfl
  refine ⟨rest, hrest.symm, by omega, ?_⟩
  rw [replaceAll, if_pos h, replaceAll_skip, hdrop]

/-- A text without a string is left as it is. -/
theorem replaceAll_of_absent {new : PyStr} (h : ¬ old <:+: text) :
    replaceAll old new 0 text = text := by
  induction text with
  | nil => rfl
  | cons c text ih =>
    rw [replaceAll, if_neg]
    · rw [ih fun hin => h (hin.trans (List.suffix_cons c text).isInfix)]
    · rw [List.isPrefixOf_iff_prefix]
      exact fun hstart => h hstart.isInfix

/-- What a text starts with before its first placeholder. -/
theorem prefix_of_prefix_replaceAll {new : PyStr} (hmark : mark ∉ part)
    (h : part <+: replaceAll old (mark :: new) 0 text) : part <+: text := by
  induction text generalizing part with
  | nil => exact h
  | cons c text ih =>
    cases part with
    | nil => exact List.nil_prefix
    | cons d part =>
      rw [replaceAll] at h
      split_ifs at h
      · obtain ⟨rfl, -⟩ := List.cons_prefix_cons.mp h
        exact absurd List.mem_cons_self hmark
      · obtain ⟨rfl, htail⟩ := List.cons_prefix_cons.mp h
        have hrest : mark ∉ part := fun hmem => hmark (List.mem_cons_of_mem _ hmem)
        exact List.cons_prefix_cons.mpr ⟨rfl, ih hrest htail⟩

/-- **A part between placeholders** was in the text, and the string that was replaced did not
start there. -/
theorem exists_of_infix_replaceAll (hmark : mark ∉ part) (hclose : close ∉ part)
    (hmid : ¬ part <:+: mid) {skip : ℕ}
    (h : part <:+: replaceAll old (mark :: mid ++ [close]) skip text) :
    ∃ before after, text = before ++ part ++ after ∧ ¬ old <+: part ++ after := by
  have hne : part ≠ [] := by
    rintro rfl
    exact hmid (List.nil_infix)
  induction text generalizing skip with
  | nil =>
    have hnil : replaceAll old (mark :: mid ++ [close]) skip [] = [] := by
      cases skip <;> rfl
    rw [hnil] at h
    exact absurd (List.infix_nil.mp h) hne
  | cons c text ih =>
    have hlater : (∃ before after, text = before ++ part ++ after ∧ ¬ old <+: part ++ after) →
        ∃ before after, c :: text = before ++ part ++ after ∧ ¬ old <+: part ++ after := by
      rintro ⟨before, after, rfl, hnot⟩
      exact ⟨c :: before, after, rfl, hnot⟩
    cases skip with
    | succ skip => exact hlater (ih h)
    | zero =>
      have hstart : part <+: replaceAll old (mark :: mid ++ [close]) 0 (c :: text) →
          part <+: c :: text := prefix_of_prefix_replaceAll hmark
      rw [replaceAll] at h hstart
      split_ifs at h hstart with hmatch
      · have hplaceholder : mark :: mid ++ [close] ++ replaceAll old (mark :: mid ++ [close])
            (old.length - 1) text = [] ++ mark :: (mid ++ close ::
              replaceAll old (mark :: mid ++ [close]) (old.length - 1) text) := by simp
        rw [hplaceholder] at h
        rcases infix_append_cons_of_notMem hmark h with h | h
        · exact absurd (List.infix_nil.mp h) hne
        · rcases infix_append_cons_of_notMem hclose h with h | h
          · exact absurd h hmid
          · exact hlater (ih h)
      · rcases List.infix_cons_iff.mp h with h | h
        · obtain ⟨after, hafter⟩ := hstart h
          refine ⟨[], after, hafter.symm, fun hold => hmatch ?_⟩
          rw [List.isPrefixOf_iff_prefix, ← hafter]
          exact hold
        · exact hlater (ih h)

/-- Nothing that was replaced by a placeholder is left. -/
theorem not_infix_replaceAll (hmark : mark ∉ old) (hclose : close ∉ old) (hmid : ¬ old <:+: mid) :
    ¬ old <:+: replaceAll old (mark :: mid ++ [close]) 0 text := by
  intro h
  obtain ⟨before, after, -, hnot⟩ := exists_of_infix_replaceAll hmark hclose hmid h
  exact hnot ⟨after, rfl⟩

theorem infix_of_infix_replaceAll (hmark : mark ∉ part) (hclose : close ∉ part)
    (hmid : ¬ part <:+: mid) (h : part <:+: replaceAll old (mark :: mid ++ [close]) 0 text) :
    part <:+: text := by
  obtain ⟨before, after, rfl, -⟩ := exists_of_infix_replaceAll hmark hclose hmid h
  exact ⟨before, after, rfl⟩

end Placeholder

/-! ## Splitting -/

/-- `text.split(old)`, behind a match of which `skip` characters are left. -/
def splitAll (old : PyStr) : ℕ → PyStr → List PyStr
  | _, [] => [[]]
  | skip + 1, _ :: text => splitAll old skip text
  | 0, c :: text =>
    if old.isPrefixOf (c :: text) then [] :: splitAll old (old.length - 1) text
    else (splitAll old 0 text).modifyHead (c :: ·)

section Splitting

variable {old part text : PyStr}

theorem splitAll_ne_nil (old : PyStr) (skip : ℕ) (text : PyStr) : splitAll old skip text ≠ [] := by
  induction text generalizing skip with
  | nil => cases skip <;> simp [splitAll]
  | cons c text ih =>
    cases skip with
    | succ skip => exact ih skip
    | zero =>
      rw [splitAll]
      split_ifs
      · exact List.cons_ne_nil _ _
      · intro h
        exact ih 0 (List.modifyHead_eq_nil_iff.mp h)

/-- `text.replace(old, new) == new.join(text.split(old))` -/
theorem replaceAll_eq_intercalate (old new : PyStr) (skip : ℕ) (text : PyStr) :
    replaceAll old new skip text = new.intercalate (splitAll old skip text) := by
  induction text generalizing skip with
  | nil => cases skip <;> rfl
  | cons c text ih =>
    cases skip with
    | succ skip => exact ih skip
    | zero =>
      rw [replaceAll, splitAll]
      split_ifs
      · obtain ⟨first, rest, hsplit⟩ :=
          List.exists_cons_of_ne_nil (splitAll_ne_nil old (old.length - 1) text)
        rw [ih, hsplit, List.intercalate_cons_cons, List.nil_append]
      · obtain ⟨first, rest, hsplit⟩ := List.exists_cons_of_ne_nil (splitAll_ne_nil old 0 text)
        rw [ih, hsplit, List.modifyHead_cons]
        cases rest with
        | nil => simp
        | cons second rest => simp [List.intercalate_cons_cons]

/-- A match reaches across no character that is not its own. -/
theorem isPrefixOf_append_cons {c : ℕ} (hc : c ∉ old) {rest : PyStr} :
    old.isPrefixOf (text ++ c :: rest) = old.isPrefixOf text := by
  induction old generalizing text with
  | nil => simp
  | cons d old ih =>
    obtain ⟨hd, hold⟩ := not_or.mp (mt List.mem_cons.mpr hc)
    cases text with
    | nil => simp [List.isPrefixOf, Ne.symm hd]
    | cons e text => simp only [List.cons_append, List.isPrefixOf, ih hold]

/-- **A replacement works apart** on both sides of a character that it does not look for. -/
theorem replaceAll_append_cons (hne : old ≠ []) (new : PyStr) {c : ℕ} (hc : c ∉ old)
    (rest : PyStr) : ∀ n text, text.length ≤ n →
      replaceAll old new 0 (text ++ c :: rest) =
        replaceAll old new 0 text ++ c :: replaceAll old new 0 rest := by
  intro n
  -- on the length: a match is passed over as a whole
  induction n with
  | zero =>
    intro text hlength
    obtain rfl := List.length_eq_zero_iff.mp (Nat.le_zero.mp hlength)
    have hmatch : ¬ old.isPrefixOf ([] ++ c :: rest) = true := by
      rw [isPrefixOf_append_cons hc]
      cases old with
      | nil => exact absurd rfl hne
      | cons d old => simp [List.isPrefixOf]
    rw [List.nil_append] at hmatch ⊢
    exact (if_neg hmatch).trans rfl
  | succ n ih =>
    intro text hlength
    cases text with
    | nil => exact ih [] (by simp)
    | cons d text =>
      rw [List.length_cons] at hlength
      have hsame := @isPrefixOf_append_cons old (d :: text) c hc rest
      by_cases hmatch : old.isPrefixOf (d :: text) = true
      · obtain ⟨behind, hbehind, hle, hreplace⟩ := @replaceAll_of_match _ _ hne new d hmatch
        rw [hmatch] at hsame
        obtain ⟨behind', hbehind', -, hreplace'⟩ :=
          @replaceAll_of_match _ (text ++ c :: rest) hne new d hsame
        have hrest : behind' = behind ++ c :: rest := by
          rw [← List.append_right_inj old, ← hbehind', ← List.append_assoc, ← hbehind,
            List.cons_append]
        rw [List.cons_append, hreplace', hreplace, hrest, ih behind (by omega),
          List.append_assoc]
      · rw [List.cons_append, replaceAll, if_neg (by rw [← List.cons_append, hsame]; exact hmatch),
          ih text (by omega), replaceAll, if_neg hmatch, List.cons_append]

end Splitting

/-! ## The sanitizer -/

section Sanitize

variable {root digest part text : PyStr} {key : StorageKey}

/-- The placeholders, without their brackets. -/
def placeholders : List PyStr :=
  [py "revision", py "project", py "runtime", py "storage", py "digest"]

/-- A placeholder. -/
def placeholder (name : PyStr) : PyStr := 60 :: name ++ [62]

/-- A string that no placeholder can be a part of, or have as one. -/
structure PlainAscii (part : PyStr) : Prop where
  no_mark : 60 ∉ part
  no_close : 62 ∉ part
  apart : ∀ name ∈ placeholders, ¬ part <:+: name

theorem PlainAscii.infix_of_replaceAll {old name : PyStr} (h : PlainAscii part)
    (hname : name ∈ placeholders) (hin : part <:+: replaceAll old (placeholder name) 0 text) :
    part <:+: text :=
  infix_of_infix_replaceAll h.no_mark h.no_close (h.apart name hname) hin

theorem PlainAscii.not_infix_replaceAll {old name : PyStr} (h : PlainAscii old)
    (hname : name ∈ placeholders) : ¬ old <:+: replaceAll old (placeholder name) 0 text :=
  NetBoxScripts.not_infix_replaceAll h.no_mark h.no_close (h.apart name hname)

theorem PlainAscii.ne_nil (h : PlainAscii part) : part ≠ [] := by
  rintro rfl
  exact h.apart (py "digest") (by decide) List.nil_infix

theorem PlainAscii.append {after : PyStr} (h : PlainAscii part) (hmark : 60 ∉ after)
    (hclose : 62 ∉ after) : PlainAscii (part ++ after) := by
  refine ⟨?_, ?_, fun name hname hin => h.apart name hname ?_⟩
  · rw [List.mem_append]
    exact not_or.mpr ⟨h.no_mark, hmark⟩
  · rw [List.mem_append]
    exact not_or.mpr ⟨h.no_close, hclose⟩
  · exact (List.prefix_append part after).isInfix.trans hin

/-- A replacement works apart on both sides of a placeholder. -/
theorem PlainAscii.replaceAll_append {old name : PyStr} (h : PlainAscii old)
    (hname : name ∈ placeholders) (new before after : PyStr) :
    replaceAll old new 0 (before ++ placeholder name ++ after) =
      replaceAll old new 0 before ++ placeholder name ++ replaceAll old new 0 after := by
  have hne := h.ne_nil
  have hinside : replaceAll old new 0 (name ++ 62 :: after) =
      name ++ 62 :: replaceAll old new 0 after := by
    rw [replaceAll_append_cons hne new h.no_close after _ _ le_rfl,
      replaceAll_of_absent (h.apart name hname)]
  have hcut : ∀ rest, before ++ placeholder name ++ rest = before ++ 60 :: (name ++ 62 :: rest) := by
    intro rest
    simp [placeholder]
  have hcut' : replaceAll old new 0 before ++ placeholder name ++ replaceAll old new 0 after =
      replaceAll old new 0 before ++ 60 :: (name ++ 62 :: replaceAll old new 0 after) := by
    simp [placeholder]
  rw [hcut, hcut', replaceAll_append_cons hne new h.no_mark _ _ _ le_rfl, hinside]

/-- A long string without brackets is plain. -/
theorem plain_of_length (hmark : 60 ∉ part) (hclose : 62 ∉ part) (hlength : 8 < part.length) :
    PlainAscii part := by
  refine ⟨hmark, hclose, fun name hname hin => ?_⟩
  have hle := hin.length_le
  have hshort : ∀ name ∈ placeholders, name.length ≤ 8 := by decide
  have := hshort name hname
  omega

theorem plain_privateRoot : PlainAscii privateRoot :=
  plain_of_length (by decide) (by decide) (by decide)

theorem length_uuidHex (key : StorageKey) : (uuidHex key).length = 32 := by
  simp [uuidHex]

theorem length_uuidText (key : StorageKey) : (uuidText key).length = 36 := by
  unfold uuidText
  simp only [List.length_append, List.length_cons, List.length_take, List.length_drop,
    length_uuidHex]
  decide

theorem plain_uuidHex (key : StorageKey) : PlainAscii (uuidHex key) := by
  have hbracket : ∀ c ∈ uuidHex key, c ≠ 60 ∧ c ≠ 62 := by
    intro c hc
    have hrange := mem_uuidHex hc
    omega
  refine plain_of_length (fun h => (hbracket _ h).1 rfl) (fun h => (hbracket _ h).2 rfl) ?_
  rw [length_uuidHex]
  decide

theorem plain_uuidText (key : StorageKey) : PlainAscii (uuidText key) := by
  have hbracket : ∀ c ∈ uuidText key, c ≠ 60 ∧ c ≠ 62 := by
    intro c hc
    rcases mem_uuidText hc with rfl | hc
    · decide
    · have hrange := mem_uuidHex hc
      omega
  refine plain_of_length (fun h => (hbracket _ h).1 rfl) (fun h => (hbracket _ h).2 rfl) ?_
  rw [length_uuidText]
  decide

theorem plain_digest (hhex : isHexDigest digest = true) : PlainAscii digest := by
  simp only [isHexDigest, Bool.and_eq_true, beq_iff_eq, List.all_eq_true, Bool.or_eq_true,
    decide_eq_true_eq] at hhex
  refine plain_of_length (fun h => ?_) (fun h => ?_) (by omega)
  · have hrange := hhex.2 _ h
    omega
  · have hrange := hhex.2 _ h
    omega

/-- `str(local_revision_dir(storage_key, digest))` below its cache root. -/
def revisionDir (key : StorageKey) (digest : PyStr) : PyStr :=
  slash :: uuidText key ++ slash :: digest

/-- `sanitize(text)` -/
def sanitizeText (root : PyStr) (key : StorageKey) (digest text : PyStr) : PyStr :=
  let text := replaceAll (root ++ revisionDir key digest ++ [slash]) [] 0 text
  let text := replaceAll (root ++ revisionDir key digest) (placeholder (py "revision")) 0 text
  let text := replaceAll (revisionModuleName key digest ++ [46]) [] 0 text
  let text := replaceAll (revisionModuleName key digest) (placeholder (py "revision")) 0 text
  let text := replaceAll (projectModuleName key ++ [46]) [] 0 text
  let text := replaceAll (projectModuleName key) (placeholder (py "project")) 0 text
  let text := replaceAll privateRoot (placeholder (py "runtime")) 0 text
  let text := replaceAll (uuidText key) (placeholder (py "storage")) 0 text
  let text := replaceAll (uuidHex key) (placeholder (py "storage")) 0 text
  replaceAll digest (placeholder (py "digest")) 0 text

/-- What the sanitizer does, where the digest can name a directory. -/
theorem buildErrorSanitizer_eq (hhex : isHexDigest digest = true) :
    buildErrorSanitizer (some root) key digest = some (sanitizeText root key digest) := by
  have hdir : localRevisionDir (some root) key digest = some (root ++ revisionDir key digest) := by
    unfold localRevisionDir revisionDir
    rw [Option.bind_some, if_pos hhex]
    simp
  unfold buildErrorSanitizer
  rw [hdir]
  rfl

/-- The identities of a revision. -/
def identities (key : StorageKey) (digest : PyStr) : List PyStr :=
  [privateRoot, uuidText key, uuidHex key, digest]

/-- **No identity is left**. -/
theorem identity_absent (hhex : isHexDigest digest = true) :
    ∀ identity ∈ identities key digest,
      ¬ identity <:+: sanitizeText root key digest text := by
  have hstorage : py "storage" ∈ placeholders := by decide
  have hdigest : py "digest" ∈ placeholders := by decide
  intro identity hmem h
  simp only [identities, List.mem_cons, List.not_mem_nil, or_false] at hmem
  rcases hmem with rfl | rfl | rfl | rfl
  · have h := plain_privateRoot.infix_of_replaceAll hdigest h
    have h := plain_privateRoot.infix_of_replaceAll hstorage h
    have h := plain_privateRoot.infix_of_replaceAll hstorage h
    exact plain_privateRoot.not_infix_replaceAll (by decide) h
  · have h := (plain_uuidText key).infix_of_replaceAll hdigest h
    have h := (plain_uuidText key).infix_of_replaceAll hstorage h
    exact (plain_uuidText key).not_infix_replaceAll hstorage h
  · have h := (plain_uuidHex key).infix_of_replaceAll hdigest h
    exact (plain_uuidHex key).not_infix_replaceAll hstorage h
  · exact (plain_digest hhex).not_infix_replaceAll hdigest h

/-- A text without identities is left as it is: each string that is replaced has one in it. -/
theorem sanitizeText_of_no_identity
    (h : ∀ identity ∈ identities key digest, ¬ identity <:+: text) :
    sanitizeText root key digest text = text := by
  have hprivate : ¬ privateRoot <:+: text := h _ (by simp [identities])
  have hproject : ∀ after, ¬ (projectModuleName key ++ after) <:+: text := fun after hin =>
    hprivate (List.IsInfix.trans ⟨[], py ".p_" ++ uuidHex key ++ after, by
      simp [projectModuleName]⟩ hin)
  have hrevision : ∀ after, ¬ (revisionModuleName key digest ++ after) <:+: text := by
    intro after hin
    refine hproject (py ".r_" ++ digest ++ after) ?_
    rwa [revisionModuleName, List.append_assoc, List.append_assoc] at hin
  have hdir : ∀ after, ¬ (root ++ revisionDir key digest ++ after) <:+: text := fun after hin =>
    h digest (by simp [identities]) (List.IsInfix.trans ⟨root ++ slash :: uuidText key ++ [slash],
      after, by simp [revisionDir]⟩ hin)
  have hdir' := hdir []
  have hrevision' := hrevision []
  have hproject' := hproject []
  rw [List.append_nil] at hdir' hrevision' hproject'
  unfold sanitizeText
  dsimp only
  rw [replaceAll_of_absent (hdir [slash]), replaceAll_of_absent hdir',
    replaceAll_of_absent (hrevision [46]), replaceAll_of_absent hrevision',
    replaceAll_of_absent (hproject [46]), replaceAll_of_absent hproject',
    replaceAll_of_absent hprivate,
    replaceAll_of_absent (h (uuidText key) (by simp [identities])),
    replaceAll_of_absent (h (uuidHex key) (by simp [identities])),
    replaceAll_of_absent (h digest (by simp [identities]))]

/-- A text after some replacements. -/
def applied (table : List (PyStr × PyStr)) (text : PyStr) : PyStr :=
  table.foldl (fun text replacement => replaceAll replacement.1 replacement.2 0 text) text

/-- The replacements, in order. -/
def replacements (root : PyStr) (key : StorageKey) (digest : PyStr) : List (PyStr × PyStr) :=
  [(root ++ revisionDir key digest ++ [slash], []),
    (root ++ revisionDir key digest, placeholder (py "revision")),
    (revisionModuleName key digest ++ [46], []),
    (revisionModuleName key digest, placeholder (py "revision")),
    (projectModuleName key ++ [46], []), (projectModuleName key, placeholder (py "project")),
    (privateRoot, placeholder (py "runtime")), (uuidText key, placeholder (py "storage")),
    (uuidHex key, placeholder (py "storage")), (digest, placeholder (py "digest"))]

theorem sanitizeText_eq : sanitizeText root key digest text =
    applied (replacements root key digest) text := rfl

/-! ### What comes through -/

/-- A string is in a part of a text: the strings that leave nothing are deleted from the text, and
it is split at those that leave a placeholder, each in its turn. -/
def Shows (part : PyStr) : List (PyStr × PyStr) → PyStr → Prop
  | [], text => part <:+: text
  | (old, []) :: later, text => Shows part later (replaceAll old [] 0 text)
  | (old, _ :: _) :: later, text => ∃ piece ∈ splitAll old 0 text, Shows part later piece

instance Shows.decidable (part : PyStr) :
    (table : List (PyStr × PyStr)) → (text : PyStr) → Decidable (Shows part table text)
  | [], text => inferInstanceAs (Decidable (part <:+: text))
  | (old, []) :: later, text => Shows.decidable part later (replaceAll old [] 0 text)
  | (old, _ :: _) :: later, text =>
    @List.decidableBEx _ (fun piece => Shows part later piece)
      (fun piece => Shows.decidable part later piece) (splitAll old 0 text)

/-- What a replacement puts in is nothing or a placeholder, and behind a placeholder only what
cannot reach into it is looked for. -/
inductive OrderlyTable : List (PyStr × PyStr) → Prop
  | nil : OrderlyTable []
  | delete {old : PyStr} {later : List (PyStr × PyStr)} : OrderlyTable later →
      OrderlyTable ((old, []) :: later)
  | split {old name : PyStr} {later : List (PyStr × PyStr)} : name ∈ placeholders →
      (∀ replacement ∈ later, PlainAscii replacement.1) → OrderlyTable later →
      OrderlyTable ((old, placeholder name) :: later)

/-- No placeholder can be read into a string: none is in it, and it ends as none begins. -/
def Unmistakable (part : PyStr) : Prop :=
  ∀ ending ∈ part.tails, ending ≠ [] → ∀ name ∈ placeholders,
    ¬ ending <+: placeholder name ∧ ¬ placeholder name <+: ending

instance (part : PyStr) : Decidable (Unmistakable part) :=
  inferInstanceAs (Decidable (∀ ending ∈ part.tails, ending ≠ [] → ∀ name ∈ placeholders,
    ¬ ending <+: placeholder name ∧ ¬ placeholder name <+: ending))

/-- What a string starts with before its first bracket. -/
theorem unmistakable_takeWhile (part : PyStr) : Unmistakable (part.takeWhile (· ≠ 60)) := by
  intro ending hending hne name _
  have hmark : 60 ∉ ending := fun hmem => by
    have h := List.mem_takeWhile_imp (((List.mem_tails _ _).mp hending).subset hmem)
    simp at h
  obtain ⟨c, ending, rfl⟩ := List.exists_cons_of_ne_nil hne
  constructor
  · intro h
    obtain ⟨rfl, -⟩ := List.cons_prefix_cons.mp h
    exact hmark List.mem_cons_self
  · intro h
    exact hmark (h.subset List.mem_cons_self)

/-- A path does not reach across a placeholder that cannot be read into it. -/
theorem infix_append_placeholder {name before after : PyStr} (hpart : Unmistakable part)
    (hslash : part.head? = some slash) (hname : name ∈ placeholders) :
    part <:+: before ++ placeholder name ++ after ↔ part <:+: before ∨ part <:+: after := by
  constructor
  · rintro ⟨s, t, h⟩
    rw [List.append_assoc, List.append_assoc, List.append_eq_append_iff] at h
    rcases h with ⟨start, rfl, h⟩ | ⟨inside, rfl, h⟩
    · rw [List.append_eq_append_iff] at h
      rcases h with ⟨behind, rfl, -⟩ | ⟨ending, rfl, h⟩
      · exact .inl ⟨s, behind, List.append_assoc _ _ _⟩
      · by_cases hending : ending = []
        · rw [hending, List.append_nil]
          exact .inl (List.suffix_append _ _).isInfix
        · have hnone := hpart ending ((List.mem_tails _ _).mpr (List.suffix_append _ _)) hending
            name hname
          rcases List.prefix_or_prefix_of_prefix ⟨t, h.symm⟩
            (List.prefix_append (placeholder name) after) with hprefix | hprefix
          · exact absurd hprefix hnone.1
          · exact absurd hprefix hnone.2
    · rw [List.append_eq_append_iff] at h
      rcases h with ⟨start, rfl, h⟩ | ⟨ending, hending, h⟩
      · exact .inr ⟨start, t, by rw [h, List.append_assoc]⟩
      · cases ending with
        | nil => exact .inr ⟨[], t, by simpa using h⟩
        | cons c ending =>
          obtain ⟨behind, rfl⟩ := List.head?_eq_some_iff.mp hslash
          obtain ⟨rfl, -⟩ := List.cons.inj h
          have hnone : ∀ name ∈ placeholders, slash ∉ placeholder name := by decide
          refine absurd ?_ (hnone name hname)
          rw [hending]
          exact List.mem_append_right _ List.mem_cons_self
  · rintro (h | h)
    · exact (h.trans (List.prefix_append _ _).isInfix).trans (List.prefix_append _ _).isInfix
    · exact h.trans (List.suffix_append _ _).isInfix

theorem applied_append_placeholder {name : PyStr} (hname : name ∈ placeholders) :
    ∀ (table : List (PyStr × PyStr)) (before after : PyStr),
      (∀ replacement ∈ table, PlainAscii replacement.1) →
      applied table (before ++ placeholder name ++ after) =
        applied table before ++ placeholder name ++ applied table after
  | [], _, _, _ => rfl
  | (old, new) :: table, before, after, hplain => by
    have hold : PlainAscii old := hplain (old, new) List.mem_cons_self
    have hcons : ∀ text, applied ((old, new) :: table) text =
        applied table (replaceAll old new 0 text) := fun _ => rfl
    rw [hcons, hcons, hcons, hold.replaceAll_append hname]
    exact applied_append_placeholder hname table _ _ fun replacement hmem =>
      hplain replacement (List.mem_cons_of_mem _ hmem)

/-- Of a text that was split, each part is replaced in by itself. -/
theorem infix_applied_intercalate {name : PyStr} {table : List (PyStr × PyStr)}
    (hpart : Unmistakable part) (hslash : part.head? = some slash) (hname : name ∈ placeholders)
    (hplain : ∀ replacement ∈ table, PlainAscii replacement.1) :
    ∀ pieces : List PyStr, pieces ≠ [] →
      (part <:+: applied table ((placeholder name).intercalate pieces) ↔
        ∃ piece ∈ pieces, part <:+: applied table piece) := by
  intro pieces hpieces
  induction pieces with
  | nil => exact absurd rfl hpieces
  | cons piece pieces ih =>
    cases pieces with
    | nil => simp
    | cons next pieces =>
      rw [List.intercalate_cons_cons, applied_append_placeholder hname table _ _ hplain,
        infix_append_placeholder hpart hslash hname, ih (List.cons_ne_nil _ _)]
      simp

/-- **What comes through the replacements** is what a part of the text shows. -/
theorem infix_applied_iff_shows {table : List (PyStr × PyStr)} (horderly : OrderlyTable table)
    (hpart : Unmistakable part) (hslash : part.head? = some slash) :
    part <:+: applied table text ↔ Shows part table text := by
  induction horderly generalizing text with
  | nil => exact Iff.rfl
  | delete _ ih => exact ih
  | @split old name later hname hplain _ ih =>
    have hsplit : applied ((old, placeholder name) :: later) text =
        applied later ((placeholder name).intercalate (splitAll old 0 text)) :=
      congrArg (applied later) (replaceAll_eq_intercalate old (placeholder name) 0 text)
    rw [hsplit, infix_applied_intercalate hpart hslash hname hplain _ (splitAll_ne_nil _ _ _)]
    exact exists_congr fun piece => and_congr_right fun _ => ih

theorem plain_projectModuleName (key : StorageKey) : PlainAscii (projectModuleName key) :=
  (plain_privateRoot.append (by decide) (by decide)).append (plain_uuidHex key).no_mark
    (plain_uuidHex key).no_close

theorem plain_revisionModuleName (hhex : isHexDigest digest = true) :
    PlainAscii (revisionModuleName key digest) :=
  ((plain_projectModuleName key).append (by decide) (by decide)).append
    (plain_digest hhex).no_mark (plain_digest hhex).no_close

theorem orderly_replacements (hhex : isHexDigest digest = true) :
    OrderlyTable (replacements root key digest) := by
  have hproject := plain_projectModuleName key
  have hrevision := @plain_revisionModuleName digest key hhex
  have hproject' : PlainAscii (projectModuleName key ++ [46]) :=
    hproject.append (by decide) (by decide)
  have hrevision' : PlainAscii (revisionModuleName key digest ++ [46]) :=
    hrevision.append (by decide) (by decide)
  have hdigest := plain_digest hhex
  refine .delete (.split (by decide) ?_ (.delete (.split (by decide) ?_ (.delete
    (.split (by decide) ?_ (.split (by decide) ?_ (.split (by decide) ?_ (.split (by decide) ?_
      (.split (by decide) ?_ .nil))))))))) <;>
    simp [hrevision, hrevision', hproject, hproject', plain_privateRoot, plain_uuidText,
      plain_uuidHex, hdigest]

/-- **What the sanitizer keeps back**: from every text the private root, the storage key in both
forms and the digest, with an output that it leaves as it is. The cache root, and with it each path
below it, is kept back from every text exactly when one of these is in it; under another root, from
a text no part of which shows it up to its first bracket, and exactly from a text no part of which
shows it, where no placeholder can be read into it. -/
theorem sanitizer_keeps_private (root : PyStr) (key : StorageKey) (digest : PyStr)
    (habsolute : root.head? = some slash) (hhex : isHexDigest digest = true) :
    ∃ sanitize, buildErrorSanitizer (some root) key digest = some sanitize ∧
      (∀ text, (∀ identity ∈ identities key digest, ¬ identity <:+: sanitize text) ∧
        sanitize (sanitize text) = sanitize text) ∧
      ((∀ text below, ¬ (root ++ below) <:+: sanitize text) ↔
        ∃ identity ∈ identities key digest, identity <:+: root) ∧
      ∀ text,
        (Unmistakable root → ((∀ below, ¬ (root ++ below) <:+: sanitize text) ↔
          ¬ Shows root (replacements root key digest) text)) ∧
        (¬ Shows (root.takeWhile (· ≠ 60)) (replacements root key digest) text →
          ∀ below, ¬ (root ++ below) <:+: sanitize text) ∧
        ((∀ identity ∈ identities key digest, ¬ identity <:+: text) →
          ((∀ below, ¬ (root ++ below) <:+: sanitize text) ↔ ¬ root <:+: text)) := by
  have hbelow : ∀ text, (∀ below, ¬ (root ++ below) <:+: sanitizeText root key digest text) ↔
      ¬ root <:+: sanitizeText root key digest text := by
    intro text
    constructor
    · intro h hin
      exact h [] (by rwa [List.append_nil])
    · exact fun h below hin => h ((List.prefix_append root below).isInfix.trans hin)
  refine ⟨_, buildErrorSanitizer_eq hhex, fun text => ⟨identity_absent hhex,
    sanitizeText_of_no_identity (identity_absent hhex)⟩, ?_, fun text => ⟨?_, ?_, ?_⟩⟩
  · constructor
    · intro h
      by_contra hnone
      have hclean : ∀ identity ∈ identities key digest, ¬ identity <:+: root :=
        fun identity hmem hin => hnone ⟨identity, hmem, hin⟩
      -- such a root is a text that the sanitizer leaves as it is
      have hroot := (hbelow root).mp (h root)
      rw [sanitizeText_of_no_identity hclean] at hroot
      exact hroot List.infix_rfl
    · rintro ⟨identity, hmem, hin⟩ text
      exact (hbelow text).mpr fun hroot => identity_absent hhex identity hmem (hin.trans hroot)
  · intro hplain
    rw [hbelow, sanitizeText_eq,
      infix_applied_iff_shows (orderly_replacements hhex) hplain habsolute]
  · intro hnot below hin
    refine hnot ((infix_applied_iff_shows (orderly_replacements hhex)
      (unmistakable_takeWhile root) ?_).mp ?_)
    · obtain ⟨behind, rfl⟩ := List.head?_eq_some_iff.mp habsolute
      rfl
    · rw [← sanitizeText_eq]
      exact ((List.takeWhile_prefix _).isInfix.trans (List.prefix_append root below).isInfix).trans
        hin
  · intro hclean
    rw [hbelow, sanitizeText_of_no_identity hclean]

/-- A short text holds no identity. -/
theorem no_identity_of_length (hhex : isHexDigest digest = true) (hlength : text.length < 23) :
    ∀ identity ∈ identities key digest, ¬ identity <:+: text := by
  intro identity hmem hin
  have hle := hin.length_le
  simp only [isHexDigest, Bool.and_eq_true, beq_iff_eq] at hhex
  have hprivate : privateRoot.length = 23 := by decide
  have hkey := length_uuidText key
  have hhexKey := length_uuidHex key
  simp only [identities, List.mem_cons, List.not_mem_nil, or_false] at hmem
  rcases hmem with rfl | rfl | rfl | rfl <;> omega

/-- The digest of 64 zeros. -/
def zeroDigest : PyStr := List.replicate 64 48

/-- A path below the cache root that is not of the revision comes through. -/
theorem cache_root_not_kept_back : ∃ sanitize,
    buildErrorSanitizer (some (py "/c")) 0 zeroDigest = some sanitize ∧
      sanitize (py "cannot open /c/b") = py "cannot open /c/b" ∧
        py "/c" <:+: sanitize (py "cannot open /c/b") := by
  have hhex : isHexDigest zeroDigest = true := by decide
  have hsame : sanitizeText (py "/c") 0 zeroDigest (py "cannot open /c/b") =
      py "cannot open /c/b" :=
    sanitizeText_of_no_identity (no_identity_of_length hhex (by decide))
  refine ⟨_, buildErrorSanitizer_eq hhex, hsame, ?_⟩
  rw [hsame]
  exact ⟨py "cannot open ", py "/b", by decide⟩

/-- A text that names a file of the revision's directory. -/
theorem sanitizer_keeps_private_message : ∃ sanitize,
    buildErrorSanitizer (some (py "/c")) 0 zeroDigest = some sanitize ∧
      ∀ below, ¬ (py "/c" ++ below) <:+: sanitize
        (py "in /c" ++ revisionDir 0 zeroDigest ++ py "/a.py, /<c>") := by
  obtain ⟨sanitize, hsanitize, -, -, h⟩ :=
    sanitizer_keeps_private (py "/c") 0 zeroDigest (by decide) (by decide)
  exact ⟨sanitize, hsanitize, ((h _).1 (by decide)).mpr (by decide +kernel)⟩

end Sanitize

end NetBoxScripts
