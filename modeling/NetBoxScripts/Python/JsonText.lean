import NetBoxScripts.Python.Json

/-!
# Reading canonical JSON text back

The text of a string, and that of a number before a sign that is no digit, end where they end:
what follows them is told from them.

## Main definitions

* `SelfDelimiting`: objects whose texts are told from what follows them

## Main results

* `quote_append_inj`, `decimal_append_inj`
* `dumps_arr_inj`: the text of an array of such objects determines them
-/

namespace NetBoxScripts

namespace Json

/-! ## Characters -/

/-- The value of a hexadecimal digit. -/
def hexValue (c : ℕ) : ℕ := if c < 58 then c - 48 else c - 87

/-- Four hexadecimal digits, and what follows. -/
def readHex4 : PyStr → Option (ℕ × PyStr)
  | a :: b :: c :: d :: rest =>
    some (hexValue a * 4096 + hexValue b * 256 + hexValue c * 16 + hexValue d, rest)
  | _ => none

/-- The character an escape letter stands for. -/
def unescape (e : ℕ) : ℕ :=
  if e = 110 then 10 else if e = 114 then 13 else if e = 116 then 9 else if e = 102 then 12
  else if e = 98 then 8 else e

/-- What follows `\u`: one escape, or the two of a surrogate pair. -/
def readUnicode (text : PyStr) : Option (ℕ × PyStr) := do
  let (high, rest) ← readHex4 text
  if 0xD800 ≤ high ∧ high ≤ 0xDBFF then
    let (low, rest) ← readHex4 (rest.drop 2)
    some (0x10000 + (high - 0xD800) * 1024 + (low - 0xDC00), rest)
  else some (high, rest)

/-- One character of a string's text, and what follows. -/
def readChar : PyStr → Option (ℕ × PyStr)
  | c :: rest =>
    if c = backslash then
      match rest with
      | e :: rest => if e = 117 then readUnicode rest else some (unescape e, rest)
      | [] => none
    else some (c, rest)
  | [] => none

theorem hexValue_hexDigit {n : ℕ} (h : n < 16) : hexValue (hexDigit n) = n := by
  unfold hexValue hexDigit
  split_ifs <;> omega

theorem readHex4_hex4 {n : ℕ} (h : n < 0x10000) (rest : PyStr) :
    readHex4 (hex4 n ++ rest) = some (n, rest) := by
  have hdigit : ∀ m, hexValue (hexDigit (m % 16)) = m % 16 :=
    fun m => hexValue_hexDigit (Nat.mod_lt m (by decide))
  show some (_, rest) = _
  rw [hdigit, hdigit, hdigit, hdigit]
  congr 2
  omega

theorem readUnicode_unit {n : ℕ} (h : n < 0x10000) (hpair : ¬ (0xD800 ≤ n ∧ n ≤ 0xDBFF))
    (rest : PyStr) : readUnicode (hex4 n ++ rest) = some (n, rest) := by
  simp only [readUnicode, readHex4_hex4 h, Option.bind_eq_bind, Option.bind_some, if_neg hpair]

theorem readUnicode_pair {n m : ℕ} (hn : 0xD800 ≤ n ∧ n ≤ 0xDBFF) (hm : m < 0x10000)
    (rest : PyStr) : readUnicode (hex4 n ++ (unicodeEscape m ++ rest)) =
      some (0x10000 + (n - 0xD800) * 1024 + (m - 0xDC00), rest) := by
  have hlow : (unicodeEscape m ++ rest).drop 2 = hex4 m ++ rest := rfl
  simp only [readUnicode, readHex4_hex4 (Nat.lt_of_le_of_lt hn.2 (by decide)),
    Option.bind_eq_bind, Option.bind_some, if_pos hn, hlow, readHex4_hex4 hm]

theorem readChar_escapeChar {c : ℕ} (hc : isScalar c) (rest : PyStr) :
    readChar (escapeChar c ++ rest) = some (c, rest) := by
  have hscalar : c < 0xD800 ∨ (0xE000 ≤ c ∧ c ≤ 0x10FFFF) := by
    simpa [isScalar] using hc
  unfold escapeChar
  split_ifs with h₁ h₂ h₃ h₄ h₅ h₆ h₇ h₈ h₉
  · rw [h₁]
    rfl
  · rw [h₂]
    rfl
  · rw [h₃]
    rfl
  · rw [h₄]
    rfl
  · rw [h₅]
    rfl
  · rw [h₆]
    rfl
  · rw [h₇]
    rfl
  · exact if_neg h₂
  · exact readUnicode_unit h₉ (by omega) rest
  · rw [List.append_assoc]
    refine (readUnicode_pair (by omega) (by omega) rest).trans ?_
    rw [show 0x10000 + (0xD800 + (c - 0x10000) / 1024 - 0xD800) * 1024 +
      (0xDC00 + (c - 0x10000) % 1024 - 0xDC00) = c by omega]

theorem escapeChar_head {c : ℕ} {rest text : PyStr} : escapeChar c ++ rest ≠ 34 :: text := by
  unfold escapeChar
  split_ifs <;> simp [unicodeEscape, backslash, *]

theorem lt_of_mem_escapeChar {c x : ℕ} (hx : x ∈ escapeChar c) : x < 128 := by
  have hhex : ∀ m, hexDigit (m % 16) < 128 := by
    intro m
    have := Nat.mod_lt m (y := 16) (by decide)
    unfold hexDigit
    split_ifs <;> omega
  have hunit : ∀ m, x ∈ unicodeEscape m → x < 128 := by
    intro m hx
    simp only [unicodeEscape, hex4, List.mem_cons, List.not_mem_nil, or_false] at hx
    rcases hx with rfl | rfl | rfl | rfl | rfl | rfl
    · decide
    · decide
    all_goals exact hhex _
  unfold escapeChar at hx
  split_ifs at hx with h₁ h₂ h₃ h₄ h₅ h₆ h₇ h₈ h₉
  all_goals try (simp [backslash] at hx; omega)
  · exact hunit _ hx
  · rcases List.mem_append.mp hx with hx | hx
    · exact hunit _ hx
    · exact hunit _ hx

/-! ## Strings -/

/-- The text of a string is told from what follows it. -/
theorem quote_append_inj {s s' rest rest' : PyStr} (hs : ∀ c ∈ s, isScalar c)
    (hs' : ∀ c ∈ s', isScalar c) (h : quote s ++ rest = quote s' ++ rest') :
    s = s' ∧ rest = rest' := by
  have hbody : s.flatMap escapeChar ++ 34 :: rest = s'.flatMap escapeChar ++ 34 :: rest' := by
    simpa [quote] using h
  clear h
  induction s generalizing s' with
  | nil =>
    cases s' with
    | nil => exact ⟨rfl, by simpa using hbody⟩
    | cons c' s' =>
      rw [List.flatMap_cons, List.append_assoc] at hbody
      exact absurd hbody.symm escapeChar_head
  | cons c s ih =>
    cases s' with
    | nil =>
      rw [List.flatMap_cons, List.append_assoc] at hbody
      exact absurd hbody escapeChar_head
    | cons c' s' =>
      rw [List.forall_mem_cons] at hs hs'
      rw [List.flatMap_cons, List.flatMap_cons, List.append_assoc, List.append_assoc] at hbody
      have hread := congrArg readChar hbody
      rw [readChar_escapeChar hs.1, readChar_escapeChar hs'.1] at hread
      obtain ⟨rfl, htail⟩ := Prod.mk.inj (Option.some.inj hread)
      obtain ⟨rfl, hrest⟩ := ih hs.2 hs'.2 htail
      exact ⟨rfl, hrest⟩

theorem lt_of_mem_quote {s : PyStr} {x : ℕ} (hx : x ∈ quote s) : x < 128 := by
  simp only [quote, List.mem_cons, List.mem_append, List.mem_flatMap, List.not_mem_nil,
    or_false] at hx
  rcases hx with rfl | ⟨c, -, hx⟩ | rfl
  · decide
  · exact lt_of_mem_escapeChar hx
  · decide

/-! ## Numbers -/

/-- `0` to `9` -/
def isDigit (c : ℕ) : Bool := 48 ≤ c && c ≤ 57

theorem isDigit_of_mem_decimal {n c : ℕ} (hc : c ∈ decimal n) : isDigit c := by
  obtain ⟨digit, hdigit, rfl⟩ := List.mem_map.mp hc
  have := Nat.isDigit_of_mem_toDigits (by decide) (by decide) hdigit
  simp only [Char.isDigit, Bool.and_eq_true, decide_eq_true_eq] at this
  simp only [isDigit, Bool.and_eq_true, decide_eq_true_eq]
  exact ⟨by simpa using UInt32.le_iff_toNat_le.mp this.1,
    by simpa using UInt32.le_iff_toNat_le.mp this.2⟩

theorem decimal_injective : Function.Injective decimal := by
  intro n m h
  have hdigits : Nat.toDigits 10 n = Nat.toDigits 10 m :=
    List.map_injective_iff.mpr (fun a b hab => Char.toNat_inj.mp hab) h
  rw [← Nat.ofDigitChars_ten_toDigits (n := n), hdigits, Nat.ofDigitChars_ten_toDigits]

/-- The text of a number is told from what follows it, where no digit follows. -/
theorem decimal_append_inj {n m c : ℕ} {rest rest' : PyStr} (hc : isDigit c = false)
    (h : decimal n ++ c :: rest = decimal m ++ c :: rest') : n = m ∧ rest = rest' := by
  have htake : ∀ n rest, (decimal n ++ c :: rest).takeWhile isDigit = decimal n := by
    intro n rest
    rw [List.takeWhile_append_of_pos (fun c hc => isDigit_of_mem_decimal hc),
      List.takeWhile_cons_of_neg (by simp [hc]), List.append_nil]
  obtain rfl : n = m := decimal_injective (by rw [← htake n rest, h, htake])
  exact ⟨rfl, by simpa using h⟩

/-! ## Arrays -/

section Arrays

variable {α : Type} {toJson : α → Json} {ok : α → Prop} {l l' : List α}

/-- Objects whose texts, as far as they are `ok`, are told from what follows them. -/
structure SelfDelimiting (toJson : α → Json) (ok : α → Prop) : Prop where
  opens : ∀ a, ∃ rest, dumps (toJson a) = 123 :: rest
  inj : ∀ a b rest rest', ok a → ok b →
    dumps (toJson a) ++ rest = dumps (toJson b) ++ rest' → a = b ∧ rest = rest'
  ascii : ∀ a, ∀ c ∈ dumps (toJson a), c < 128

/-- The items of an array after its first, with the end of the text. -/
def laterItems : List PyStr → PyStr
  | [] => [93]
  | text :: texts => 44 :: (text ++ laterItems texts)

theorem commaJoin_append (text : PyStr) (texts : List PyStr) :
    commaJoin (text :: texts) ++ [93] = text ++ laterItems texts := by
  induction texts generalizing text with
  | nil => simp [commaJoin, laterItems]
  | cons next texts ih =>
    have hcons : commaJoin (text :: next :: texts) = text ++ 44 :: commaJoin (next :: texts) := by
      simp [commaJoin, List.intercalate]
    rw [hcons, List.append_assoc, List.cons_append, ih, laterItems]

theorem dumps_arr (l : List Json) : dumps (.arr l) = 91 :: (commaJoin (l.map dumps) ++ [93]) := by
  rw [dumps, dumpsItems_eq_map]

theorem laterItems_inj (h : SelfDelimiting toJson ok) (hl : ∀ a ∈ l, ok a) (hl' : ∀ a ∈ l', ok a)
    (htext : laterItems ((l.map toJson).map dumps) = laterItems ((l'.map toJson).map dumps)) :
    l = l' := by
  induction l generalizing l' with
  | nil =>
    cases l' with
    | nil => rfl
    | cons b l' => cases htext
  | cons a l ih =>
    cases l' with
    | nil => cases htext
    | cons b l' =>
      rw [List.forall_mem_cons] at hl hl'
      obtain ⟨rfl, htail⟩ := h.inj _ _ _ _ hl.1 hl'.1 (List.cons.inj htext).2
      rw [ih hl.2 hl'.2 htail]

/-- **The text of an array** determines its items. -/
theorem dumps_arr_inj (h : SelfDelimiting toJson ok) (hl : ∀ a ∈ l, ok a) (hl' : ∀ a ∈ l', ok a)
    (htext : dumps (.arr (l.map toJson)) = dumps (.arr (l'.map toJson))) : l = l' := by
  rw [dumps_arr, dumps_arr] at htext
  have hbody := (List.cons.inj htext).2
  -- an item starts with a brace, and the end of the text is none
  have hopen : ∀ a (texts : List PyStr), commaJoin (dumps (toJson a) :: texts) ++ [93] ≠ [93] := by
    intro a texts heq
    obtain ⟨rest, hrest⟩ := h.opens a
    rw [commaJoin_append, hrest] at heq
    cases heq
  cases l with
  | nil =>
    cases l' with
    | nil => rfl
    | cons b l' => exact absurd hbody.symm (hopen b _)
  | cons a l =>
    cases l' with
    | nil => exact absurd hbody (hopen a _)
    | cons b l' =>
      simp only [List.map_cons, commaJoin_append] at hbody
      rw [List.forall_mem_cons] at hl hl'
      obtain ⟨rfl, htail⟩ := h.inj _ _ _ _ hl.1 hl'.1 hbody
      rw [laterItems_inj h hl.2 hl'.2 htail]

theorem lt_of_mem_dumps_arr (h : SelfDelimiting toJson ok) {x : ℕ}
    (hx : x ∈ dumps (.arr (l.map toJson))) : x < 128 := by
  have hlater : ∀ l : List α, x ∈ laterItems ((l.map toJson).map dumps) → x < 128 := by
    intro l
    induction l with
    | nil =>
      intro hx
      obtain rfl := List.mem_singleton.mp hx
      decide
    | cons a l ih =>
      intro hx
      rcases List.mem_cons.mp hx with rfl | hx
      · decide
      · rcases List.mem_append.mp hx with hx | hx
        · exact h.ascii a x hx
        · exact ih hx
  rw [dumps_arr, List.mem_cons] at hx
  rcases hx with rfl | hx
  · decide
  · cases l with
    | nil =>
      obtain rfl : x = 93 := by simpa [commaJoin] using hx
      decide
    | cons a l =>
      rw [List.map_cons, List.map_cons, commaJoin_append] at hx
      rcases List.mem_append.mp hx with hx | hx
      · exact h.ascii a x hx
      · exact hlater l hx

end Arrays

end Json

end NetBoxScripts
