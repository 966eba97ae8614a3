import NetBoxScripts.Python.JsonText

/-!
# Values and their canonical text

The order of an object's keys does not show in the text of a value. Of what a column gives back,
nothing else is lost in it.

## Main definitions

* `sortKeys`: a value with the keys of its objects in order
* `ReadBack`: the values a `jsonb` column gives back

## Main results

* `dumps_inj`: one text is one value, up to the order of keys
* `get?_sortKeys`: what an object has under a key does not depend on their order
-/

namespace NetBoxScripts

namespace Json

/-! ## The order of keys -/

mutual

/-- The value with the keys of its objects in order; as Python values they are equal. -/
def sortKeys : Json → Json
  | .arr items => .arr (sortKeysItems items)
  | .obj fields => .obj ((sortKeysFields fields).insertionSort fun a b => a.1 ≤ b.1)
  | value => value

/-- The items of an array with their keys in order. -/
def sortKeysItems : List Json → List Json
  | [] => []
  | item :: items => sortKeys item :: sortKeysItems items

/-- The fields of an object, the keys of their values in order. -/
def sortKeysFields : List (PyStr × Json) → List (PyStr × Json)
  | [] => []
  | (key, value) :: fields => (key, sortKeys value) :: sortKeysFields fields

end

/-- The fields of an object by their keys. -/
def sortedFields (fields : List (PyStr × Json)) : List (PyStr × Json) :=
  fields.insertionSort fun a b => a.1 ≤ b.1

theorem sortKeys_arr (items : List Json) : sortKeys (.arr items) = .arr (items.map sortKeys) := by
  have hitems : sortKeysItems items = items.map sortKeys := by
    induction items with
    | nil => rfl
    | cons item items ih => rw [sortKeysItems, ih, List.map_cons]
  rw [sortKeys, hitems]

theorem sortKeys_obj (fields : List (PyStr × Json)) : sortKeys (.obj fields) =
    .obj ((sortedFields fields).map fun field => (field.1, sortKeys field.2)) := by
  have hfields : sortKeysFields fields = fields.map fun field => (field.1, sortKeys field.2) := by
    induction fields with
    | nil => rfl
    | cons field fields ih => rw [sortKeysFields, ih, List.map_cons]
  rw [sortKeys, hfields, sortedFields]
  congr 1
  exact (List.map_insertionSort (fun a b : PyStr × Json => a.1 ≤ b.1)
    (fun a b : PyStr × Json => a.1 ≤ b.1) (fun field => (field.1, sortKeys field.2)) fields
    fun _ _ _ _ => Iff.rfl).symm

/-- The text of one field. -/
def fieldText (field : PyStr × Json) : PyStr := quote field.1 ++ 58 :: dumps field.2

theorem dumps_obj (fields : List (PyStr × Json)) : dumps (.obj fields) =
    123 :: (commaJoin ((sortedFields fields).map fieldText) ++ [125]) := by
  have hfields : dumpsFields fields = fields.map fun field => (field.1, dumps field.2) := by
    induction fields with
    | nil => rfl
    | cons field fields ih => rw [dumpsFields, ih, List.map_cons]
  have hsorted : (fields.map fun field => (field.1, dumps field.2)).insertionSort
      (fun a b => a.1 ≤ b.1) = (sortedFields fields).map fun field => (field.1, dumps field.2) :=
    (List.map_insertionSort (fun a b : PyStr × Json => a.1 ≤ b.1)
      (fun a b : PyStr × PyStr => a.1 ≤ b.1) (fun field => (field.1, dumps field.2)) fields
      fun _ _ _ _ => Iff.rfl).symm
  rw [dumps, hfields, hsorted, List.map_map]
  rfl

theorem mem_sortedFields {fields : List (PyStr × Json)} {field : PyStr × Json} :
    field ∈ sortedFields fields ↔ field ∈ fields :=
  List.mem_insertionSort _

/-! ## Values that were read back -/

/-- A value as a `jsonb` column gives it back: no string has a surrogate, and the keys of an object
are distinct. -/
inductive ReadBack : Json → Prop
  | null : ReadBack .null
  | bool (b : Bool) : ReadBack (.bool b)
  | int (n : ℤ) : ReadBack (.int n)
  | float (x : FloatText) : ReadBack (.float x)
  | str {s : PyStr} (scalar : ∀ c ∈ s, isScalar c) : ReadBack (.str s)
  | arr {items : List Json} (items_read : ∀ item ∈ items, ReadBack item) : ReadBack (.arr items)
  | obj {fields : List (PyStr × Json)} (nodup : (fields.map Prod.fst).Nodup)
      (scalar : ∀ field ∈ fields, ∀ c ∈ field.1, isScalar c)
      (values_read : ∀ field ∈ fields, ReadBack field.2) : ReadBack (.obj fields)

/-- What an object has under a key does not depend on their order. -/
theorem get?_sortKeys {value : Json} (h : value.ReadBack) (key : PyStr) :
    (sortKeys value).get? key = (value.get? key).map sortKeys := by
  cases h with
  | obj nodup scalar values_read =>
    rename_i fields
    have hperm : (sortedFields fields).Perm fields := List.perm_insertionSort _ _
    have hfind : ∀ {l : List (PyStr × Json)} {field}, (l.map Prod.fst).Nodup →
        (l.find? (fun field => field.1 = key) = some field ↔ field ∈ l ∧ field.1 = key) := by
      intro l field hnodup
      constructor
      · intro h
        exact ⟨List.mem_of_find?_eq_some h, by simpa using List.find?_some h⟩
      · rintro ⟨hmem, rfl⟩
        cases hfound : l.find? fun other => other.1 = field.1 with
        | none => simpa using List.find?_eq_none.mp hfound field hmem
        | some other =>
          have hkey : other.1 = field.1 := by simpa using List.find?_some hfound
          rw [List.inj_on_of_nodup_map hnodup (List.mem_of_find?_eq_some hfound) hmem hkey]
    have hsame : (sortedFields fields).find? (fun field => field.1 = key) =
        fields.find? fun field => field.1 = key := by
      apply Option.ext
      intro field
      rw [hfind ((hperm.map Prod.fst).nodup_iff.mpr nodup), hfind nodup, hperm.mem_iff]
    rw [sortKeys_obj, get?, get?, List.find?_map]
    change (((sortedFields fields).find? fun field => field.1 = key).map _).map Prod.snd = _
    rw [hsame]
    cases fields.find? fun field => field.1 = key with
    | none => rfl
    | some field => rfl
  | arr => rw [sortKeys_arr]; rfl
  | _ => rfl

/-! ## The text of a value -/

/-- The signs of a numeral. -/
def isNumeral (c : ℕ) : Bool := isDigit c || c == 43 || c == 45 || c == 46 || c == 101

/-- A text that starts with no sign of a numeral. -/
def Ends (rest : PyStr) : Prop := ∀ c ∈ rest.head?, isNumeral c = false

/-- What the text of a value starts with, `0` for a numeral. -/
def opening : Json → ℕ
  | .null => 110
  | .bool b => if b then 116 else 102
  | .int _ => 0
  | .float _ => 0
  | .str _ => 34
  | .arr _ => 91
  | .obj _ => 123

theorem isNumeral_of_mem_decimal {n c : ℕ} (h : c ∈ decimal n) : isNumeral c := by
  rw [isNumeral, isDigit_of_mem_decimal h]
  rfl

theorem isNumeral_of_mem_intText {n : ℤ} {c : ℕ} (h : c ∈ intText n) : isNumeral c := by
  cases n with
  | ofNat n => exact isNumeral_of_mem_decimal h
  | negSucc n =>
    rcases List.mem_cons.mp h with rfl | h
    · decide
    · exact isNumeral_of_mem_decimal h

theorem FloatText.isNumeral_of_mem {x : FloatText} {c : ℕ} (h : c ∈ x.text) : isNumeral c := by
  simp only [isNumeral, isDigit, Bool.or_eq_true, Bool.and_eq_true, decide_eq_true_eq, beq_iff_eq]
  rcases x.numeral c h with h | h | h | h | h
  all_goals omega

theorem decimal_ne_nil (n : ℕ) : decimal n ≠ [] := by
  intro h
  exact Nat.toDigits_ne_nil (List.map_eq_nil_iff.mp h)

theorem intText_injective : Function.Injective intText := by
  -- a sign is no digit
  have hsign : ∀ n m, decimal n ≠ 45 :: decimal m := by
    intro n m h
    have hmem : 45 ∈ decimal n := by
      rw [h]
      exact List.mem_cons_self
    exact absurd (isDigit_of_mem_decimal hmem) (by decide)
  intro n m h
  cases n with
  | ofNat n =>
    cases m with
    | ofNat m => rw [decimal_injective h]
    | negSucc m => exact absurd h (hsign _ _)
  | negSucc n =>
    cases m with
    | ofNat m => exact absurd h.symm (hsign _ _)
    | negSucc m =>
      have := decimal_injective (List.cons.inj h).2
      rw [Nat.succ.inj this]

/-- The text of an integer is none of a float. -/
theorem intText_ne_float {n : ℤ} {x : FloatText} : intText n ≠ x.text := by
  intro h
  -- a float has a point or an exponent, which no integer has
  have hdigit : ∀ c ∈ intText n, isDigit c ∨ c = 45 := by
    intro c hc
    cases n with
    | ofNat n => exact .inl (isDigit_of_mem_decimal hc)
    | negSucc n =>
      rcases List.mem_cons.mp hc with rfl | hc
      · exact .inr rfl
      · exact .inl (isDigit_of_mem_decimal hc)
  rcases x.marked with hmark | hmark
  · exact absurd (hdigit _ (h ▸ hmark)) (by decide)
  · exact absurd (hdigit _ (h ▸ hmark)) (by decide)

/-- A numeral is told from what follows it. -/
theorem numeral_append_inj {s s' rest rest' : PyStr} (hs : ∀ c ∈ s, isNumeral c)
    (hs' : ∀ c ∈ s', isNumeral c) (hrest : Ends rest) (hrest' : Ends rest')
    (h : s ++ rest = s' ++ rest') : s = s' ∧ rest = rest' := by
  -- the numeral is what can be read before its end
  have htake : ∀ {s rest : PyStr}, (∀ c ∈ s, isNumeral c) → Ends rest →
      (s ++ rest).takeWhile isNumeral = s := by
    intro s rest hs hrest
    rw [List.takeWhile_append_of_pos hs]
    cases rest with
    | nil => simp
    | cons c rest =>
      rw [List.takeWhile_cons_of_neg (by simp [hrest c rfl]), List.append_nil]
  obtain rfl : s = s' := by rw [← htake hs hrest, h, htake hs' hrest']
  exact ⟨rfl, List.append_cancel_left h⟩

/-- The text of a value shows its kind. -/
theorem head?_dumps (value : Json) (rest : PyStr) :
    ((dumps value ++ rest).head?.map fun c => if isNumeral c then 0 else c) =
      some value.opening := by
  have hnumeral : ∀ text : PyStr, text ≠ [] → (∀ c ∈ text, isNumeral c) →
      ((text ++ rest).head?.map fun c => if isNumeral c then 0 else c) = some 0 := by
    intro text hne htext
    cases text with
    | nil => exact absurd rfl hne
    | cons c text => simp [htext c List.mem_cons_self]
  cases value with
  | null => rfl
  | bool b => cases b <;> rfl
  | int n =>
    refine hnumeral _ ?_ fun c hc => isNumeral_of_mem_intText hc
    cases n with
    | ofNat n => exact decimal_ne_nil n
    | negSucc n => exact List.cons_ne_nil _ _
  | float x =>
    refine hnumeral _ ?_ fun c hc => FloatText.isNumeral_of_mem hc
    intro hnil
    have hmarked := x.marked
    rw [show x.text = [] from hnil] at hmarked
    simp at hmarked
  | str s => rfl
  | arr items => rw [dumps_arr]; rfl
  | obj fields => rw [dumps_obj]; rfl

/-! ## Lists of texts -/

/-- The later texts of a list, each behind its comma, and the closing bracket. -/
def following (close : ℕ) : List PyStr → PyStr
  | [] => [close]
  | text :: texts => 44 :: (text ++ following close texts)

theorem commaJoin_close (close : ℕ) (text : PyStr) (texts : List PyStr) :
    commaJoin (text :: texts) ++ [close] = text ++ following close texts := by
  induction texts generalizing text with
  | nil => simp [commaJoin, following]
  | cons next texts ih =>
    have hcons : commaJoin (text :: next :: texts) = text ++ 44 :: commaJoin (next :: texts) := by
      simp [commaJoin, List.intercalate]
    rw [hcons, List.append_assoc, List.cons_append, ih, following]

section Lists

variable {α β : Type} {text : α → PyStr} {key : α → β} {close : ℕ} {l l' : List α}
  {rest rest' : PyStr}

/-- The items of two lists: each text is told from what follows it, as far as `key` shows. -/
def Told (text : α → PyStr) (key : α → β) (l l' : List α) : Prop :=
  ∀ a ∈ l, ∀ b ∈ l', ∀ rest rest', Ends rest → Ends rest' → text a ++ rest = text b ++ rest' →
    key a = key b ∧ rest = rest'

theorem ends_following (hclose : isNumeral close = false) (texts : List PyStr) (rest : PyStr) :
    Ends (following close texts ++ rest) := by
  cases texts with
  | nil =>
    rintro c hc
    obtain rfl : close = c := by simpa [following] using hc
    exact hclose
  | cons text texts =>
    rintro c hc
    obtain rfl : 44 = c := by simpa [following] using hc
    decide

theorem following_inj (hclose : isNumeral close = false) (hcomma : close ≠ 44)
    (htold : Told text key l l') (h : following close (l.map text) ++ rest =
      following close (l'.map text) ++ rest') : l.map key = l'.map key ∧ rest = rest' := by
  induction l generalizing l' with
  | nil =>
    cases l' with
    | nil => exact ⟨rfl, by simpa [following] using h⟩
    | cons b l' => exact absurd (List.cons.inj h).1 hcomma
  | cons a l ih =>
    cases l' with
    | nil => exact absurd (List.cons.inj h).1.symm hcomma
    | cons b l' =>
      -- behind the comma stands the next text
      have hbody : text a ++ (following close (l.map text) ++ rest) =
          text b ++ (following close (l'.map text) ++ rest') := by
        simpa [following] using h
      obtain ⟨hkey, htail⟩ := htold a List.mem_cons_self b List.mem_cons_self _ _
        (ends_following hclose _ _) (ends_following hclose _ _) hbody
      obtain ⟨hkeys, hrest⟩ := ih (fun a ha b hb => htold a (List.mem_cons_of_mem _ ha) b
        (List.mem_cons_of_mem _ hb)) htail
      rw [List.map_cons, List.map_cons, hkey, hkeys]
      exact ⟨rfl, hrest⟩

/-- **The text of a list** determines its items, where none starts with the closing bracket. -/
theorem commaJoin_inj (hclose : isNumeral close = false) (hcomma : close ≠ 44)
    (hopen : ∀ a rest, (text a ++ rest).head? ≠ some close) (htold : Told text key l l')
    (h : commaJoin (l.map text) ++ [close] ++ rest = commaJoin (l'.map text) ++ [close] ++ rest') :
    l.map key = l'.map key ∧ rest = rest' := by
  -- a list of texts does not read as the empty one
  have hne : ∀ a (texts : List PyStr) rest rest', commaJoin (text a :: texts) ++ [close] ++ rest ≠
      commaJoin [] ++ [close] ++ rest' := by
    intro a texts rest rest' heq
    apply hopen a (following close texts ++ rest)
    rw [← List.append_assoc, ← commaJoin_close, heq]
    rfl
  cases l with
  | nil =>
    cases l' with
    | nil => exact ⟨rfl, by simpa using h⟩
    | cons b l' => exact absurd h.symm (hne b _ _ _)
  | cons a l =>
    cases l' with
    | nil => exact absurd h (hne a _ _ _)
    | cons b l' =>
      simp only [List.map_cons, commaJoin_close, List.append_assoc] at h
      obtain ⟨hkey, htail⟩ := htold a List.mem_cons_self b List.mem_cons_self _ _
        (ends_following hclose _ _) (ends_following hclose _ _) h
      obtain ⟨hkeys, hrest⟩ := following_inj hclose hcomma (fun a ha b hb => htold a
        (List.mem_cons_of_mem _ ha) b (List.mem_cons_of_mem _ hb)) htail
      rw [List.map_cons, List.map_cons, hkey, hkeys]
      exact ⟨rfl, hrest⟩

end Lists

/-! ## One text is one value -/

theorem head?_dumps_ne_close (value : Json) (rest : PyStr) :
    (dumps value ++ rest).head? ≠ some 93 := by
  intro h
  have hkind := head?_dumps value rest
  rw [h] at hkind
  have hopening : value.opening = 93 := (Option.some.inj hkind).symm
  cases value with
  | bool b => cases b <;> cases hopening
  | _ => cases hopening

/-- Values with one text are of one kind. -/
theorem opening_eq {x y : Json} {rest rest' : PyStr} (h : dumps x ++ rest = dumps y ++ rest') :
    x.opening = y.opening := by
  have hkind := head?_dumps x rest
  rw [h, head?_dumps y rest'] at hkind
  exact (Option.some.inj hkind).symm

/-- The text of a value is told from what follows it, up to the order of keys. -/
theorem dumps_append_inj {x y : Json} {rest rest' : PyStr} (hx : x.ReadBack) (hy : y.ReadBack)
    (hrest : Ends rest) (hrest' : Ends rest') (h : dumps x ++ rest = dumps y ++ rest') :
    sortKeys x = sortKeys y ∧ rest = rest' := by
  have hopening := opening_eq h
  -- values of two kinds open differently, so only those of one kind are left in each case
  induction hx generalizing y rest rest' with
  | null =>
    cases hy with
    | null => exact ⟨rfl, List.append_cancel_left h⟩
    | bool b => cases b <;> cases hopening
    | _ => cases hopening
  | bool b =>
    cases hy with
    | bool b' =>
      obtain rfl : b = b' := by cases b <;> cases b' <;> first | rfl | cases hopening
      exact ⟨rfl, List.append_cancel_left h⟩
    | _ => cases b <;> cases hopening
  | int n =>
    cases hy with
    | int m =>
      obtain ⟨htext, hrest⟩ := numeral_append_inj (fun c hc => isNumeral_of_mem_intText hc)
        (fun c hc => isNumeral_of_mem_intText hc) hrest hrest' h
      rw [intText_injective htext]
      exact ⟨rfl, hrest⟩
    | float x =>
      -- numerals open alike: a float has a mark that an integer has not
      obtain ⟨htext, -⟩ := numeral_append_inj (fun c hc => isNumeral_of_mem_intText hc)
        (fun c hc => FloatText.isNumeral_of_mem hc) hrest hrest' h
      exact absurd htext intText_ne_float
    | bool b => cases b <;> cases hopening
    | _ => cases hopening
  | float x =>
    cases hy with
    | int m =>
      obtain ⟨htext, -⟩ := numeral_append_inj (fun c hc => FloatText.isNumeral_of_mem hc)
        (fun c hc => isNumeral_of_mem_intText hc) hrest hrest' h
      exact absurd htext.symm intText_ne_float
    | float x' =>
      obtain ⟨htext, hrest⟩ := numeral_append_inj (fun c hc => FloatText.isNumeral_of_mem hc)
        (fun c hc => FloatText.isNumeral_of_mem hc) hrest hrest' h
      cases x
      cases x'
      obtain rfl := htext
      exact ⟨rfl, hrest⟩
    | bool b => cases b <;> cases hopening
    | _ => cases hopening
  | str scalar =>
    cases hy with
    | str scalar' =>
      obtain ⟨rfl, hrest⟩ := quote_append_inj scalar scalar' h
      exact ⟨rfl, hrest⟩
    | bool b => cases b <;> cases hopening
    | _ => cases hopening
  | arr items_read ih =>
    cases hy with
    | arr items_read' =>
      rw [dumps_arr, dumps_arr] at h
      have htold : Told dumps sortKeys _ _ := fun a ha b hb rest rest' hr hr' heq =>
        ih a ha (items_read' b hb) hr hr' heq (opening_eq heq)
      obtain ⟨hkeys, hrest⟩ := commaJoin_inj (by decide) (by decide) head?_dumps_ne_close htold
        (List.cons.inj h).2
      rw [sortKeys_arr, sortKeys_arr, hkeys]
      exact ⟨rfl, hrest⟩
    | bool b => cases b <;> cases hopening
    | _ => cases hopening
  | @obj fields nodup scalar values_read ih =>
    cases hy with
    | @obj fields' nodup' scalar' values_read' =>
      rw [dumps_obj, dumps_obj] at h
      -- a field is told by its quoted key first, then by its value
      have htold : Told fieldText (fun field => (field.1, sortKeys field.2))
          (sortedFields fields) (sortedFields fields') := by
        intro a ha b hb rest rest' hr hr' heq
        rw [mem_sortedFields] at ha hb
        rw [fieldText, fieldText, List.append_assoc, List.append_assoc] at heq
        obtain ⟨hkey, htail⟩ := quote_append_inj (scalar a ha) (scalar' b hb) heq
        have hvalue := (List.cons.inj htail).2
        obtain ⟨hsorted, hrest⟩ := ih a ha (values_read' b hb) hr hr' hvalue (opening_eq hvalue)
        exact ⟨Prod.ext hkey hsorted, hrest⟩
      have hopen : ∀ field rest, (fieldText field ++ rest).head? ≠ some 125 := by
        intro field rest
        rw [fieldText, quote]
        simp
      obtain ⟨hkeys, hrest⟩ := commaJoin_inj (by decide) (by decide) hopen htold
        (List.cons.inj h).2
      rw [sortKeys_obj, sortKeys_obj, hkeys]
      exact ⟨rfl, hrest⟩
    | bool b => cases b <;> cases hopening
    | _ => cases hopening

/-- **One text is one value**, up to the order of keys. -/
theorem dumps_inj {x y : Json} (hx : x.ReadBack) (hy : y.ReadBack) (h : dumps x = dumps y) :
    sortKeys x = sortKeys y := by
  have hends : Ends [] := fun c hc => by cases hc
  have happend : dumps x ++ [] = dumps y ++ [] := by rw [h]
  exact (dumps_append_inj hx hy hends hends happend).1

theorem lt_of_isNumeral {c : ℕ} (h : isNumeral c) : c < 128 := by
  simp only [isNumeral, isDigit, Bool.or_eq_true, Bool.and_eq_true, decide_eq_true_eq,
    beq_iff_eq] at h
  omega

theorem lt_of_mem_commaJoin {texts : List PyStr} (h : ∀ text ∈ texts, ∀ c ∈ text, c < 128) :
    ∀ c ∈ commaJoin texts, c < 128 := by
  induction texts with
  | nil => simp [commaJoin]
  | cons text texts ih =>
    rw [List.forall_mem_cons] at h
    cases texts with
    | nil => simpa [commaJoin] using h.1
    | cons next texts =>
      have hcons : commaJoin (text :: next :: texts) = text ++ 44 :: commaJoin (next :: texts) := by
        simp [commaJoin, List.intercalate]
      intro c hc
      rw [hcons] at hc
      rcases List.mem_append.mp hc with hc | hc
      · exact h.1 c hc
      · rcases List.mem_cons.mp hc with rfl | hc
        · decide
        · exact ih h.2 c hc

/-- The text of a value is ASCII. -/
theorem lt_of_mem_dumps {value : Json} (h : value.ReadBack) : ∀ c ∈ dumps value, c < 128 := by
  -- both containers are brackets around texts
  have hbracket : ∀ {opening close : ℕ} {texts : List PyStr}, opening < 128 → close < 128 →
      (∀ text ∈ texts, ∀ c ∈ text, c < 128) →
      ∀ c ∈ opening :: (commaJoin texts ++ [close]), c < 128 := by
    intro opening close texts hopening hclose htexts c hc
    rcases List.mem_cons.mp hc with rfl | hc
    · exact hopening
    · rcases List.mem_append.mp hc with hc | hc
      · exact lt_of_mem_commaJoin htexts c hc
      · exact List.mem_singleton.mp hc ▸ hclose
  induction h with
  | null => decide
  | bool b => cases b <;> decide
  | int n => exact fun c hc => lt_of_isNumeral (isNumeral_of_mem_intText hc)
  | float x => exact fun c hc => lt_of_isNumeral (FloatText.isNumeral_of_mem hc)
  | str => exact fun c hc => lt_of_mem_quote hc
  | arr items_read ih =>
    rw [dumps_arr]
    refine hbracket (by decide) (by decide) fun text htext => ?_
    obtain ⟨item, hitem, rfl⟩ := List.mem_map.mp htext
    exact ih item hitem
  | obj nodup scalar values_read ih =>
    rw [dumps_obj]
    refine hbracket (by decide) (by decide) fun text htext c hc => ?_
    obtain ⟨field, hfield, rfl⟩ := List.mem_map.mp htext
    rcases List.mem_append.mp hc with hc | hc
    · exact lt_of_mem_quote hc
    · rcases List.mem_cons.mp hc with rfl | hc
      · decide
      · exact ih field (mem_sortedFields.mp hfield) c hc

end Json

end NetBoxScripts
