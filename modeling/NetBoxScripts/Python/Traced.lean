import NetBoxScripts.Python.Raise

/-!
# Traced loops

A loop that may raise meets one event after another, each of its turns a few. What an event comes
to may depend on the events before it, so what is said of a loop is said of its events with what
came before them.

## Main definitions

* `Somewhere P l`: `P` holds of some element, given those before it
* `FirstAs bad l e`: the first element of which `bad` holds raises `e`
* `Traces`: a computation ends in a state that stands for its events, or raises at the first bad one

## Main results

* `FirstAs.unique`: the first bad element raises one exception
* `Traces.bind`: a sequence follows the events of both its parts
* `foldlM_traces`: a loop follows the events of its turns
-/

namespace NetBoxScripts

universe u v w

variable {τ : Type u} {ε : Type w}

/-! ## Events with what came before them -/

/-- `P` holds of some element, given those before it. -/
def Somewhere (P : List τ → τ → Prop) (l : List τ) : Prop :=
  ∃ before a after, l = before ++ a :: after ∧ P before a

/-- `bad` holds of some element, and of the first such with `e`. -/
def FirstAs (bad : List τ → τ → ε → Prop) (l : List τ) (e : ε) : Prop :=
  ∃ before a after, l = before ++ a :: after ∧ bad before a e ∧
    ¬ Somewhere (fun before a => ∃ e, bad before a e) before

variable {P : List τ → τ → Prop} {bad : List τ → τ → ε → Prop} {l m : List τ} {a : τ} {e : ε}

@[simp] theorem not_somewhere_nil : ¬ Somewhere P [] := by
  rintro ⟨before, a, after, h, -⟩
  cases before <;> cases h

@[simp] theorem somewhere_singleton : Somewhere P [a] ↔ P [] a := by
  constructor
  · rintro ⟨before, b, after, h, hP⟩
    cases before with
    | nil =>
      obtain ⟨rfl, -⟩ := List.cons.inj h
      exact hP
    | cons c before => simp at h
  · exact fun hP => ⟨[], a, [], rfl, hP⟩

/-- The elements of the second list come after all of the first. -/
theorem somewhere_append :
    Somewhere P (l ++ m) ↔ Somewhere P l ∨ Somewhere (fun before a => P (l ++ before) a) m := by
  constructor
  · rintro ⟨before, a, after, h, hP⟩
    rcases List.append_eq_append_iff.mp h with ⟨rest, rfl, rfl⟩ | ⟨rest, rfl, hrest⟩
    · exact .inr ⟨rest, a, after, rfl, hP⟩
    · cases rest with
      | nil =>
        exact .inr ⟨[], a, after, hrest.symm, by simpa using hP⟩
      | cons b rest =>
        obtain ⟨rfl, -⟩ := List.cons.inj hrest
        exact .inl ⟨before, a, rest, rfl, hP⟩
  · rintro (⟨before, a, after, rfl, hP⟩ | ⟨before, a, after, rfl, hP⟩)
    · exact ⟨before, a, after ++ m, by simp, hP⟩
    · exact ⟨l ++ before, a, after, by simp, hP⟩

theorem somewhere_concat : Somewhere P (l ++ [a]) ↔ Somewhere P l ∨ P l a := by
  rw [somewhere_append, somewhere_singleton, List.append_nil]

theorem FirstAs.somewhere (h : FirstAs bad l e) :
    Somewhere (fun before a => ∃ e, bad before a e) l := by
  obtain ⟨before, a, after, hl, hbad, -⟩ := h
  exact ⟨before, a, after, hl, e, hbad⟩

theorem firstAs_singleton (h : bad [] a e) : FirstAs bad [a] e := ⟨[], a, [], rfl, h, by simp⟩

/-- The first bad element of a part is the first of the whole. -/
theorem FirstAs.append_right (h : FirstAs bad l e) : FirstAs bad (l ++ m) e := by
  obtain ⟨before, a, after, rfl, hbad, hfirst⟩ := h
  exact ⟨before, a, after ++ m, by simp, hbad, hfirst⟩

theorem FirstAs.append_left (h : FirstAs (fun before => bad (l ++ before)) m e)
    (hl : ¬ Somewhere (fun before a => ∃ e, bad before a e) l) : FirstAs bad (l ++ m) e := by
  obtain ⟨before, a, after, rfl, hbad, hfirst⟩ := h
  exact ⟨l ++ before, a, after, by simp, hbad, by
    rw [somewhere_append]
    exact not_or.mpr ⟨hl, hfirst⟩⟩

/-- **The first bad element** raises one exception. -/
theorem FirstAs.unique {e' : ε} (h : FirstAs bad l e) (h' : FirstAs bad l e')
    (hbad : ∀ before a e e', bad before a e → bad before a e' → e = e') : e = e' := by
  obtain ⟨before, a, after, rfl, ha, hfirst⟩ := h
  obtain ⟨before', a', after', heq, ha', hfirst'⟩ := h'
  -- neither element stands among those before the other
  rcases List.append_eq_append_iff.mp heq with ⟨rest, rfl, hrest⟩ | ⟨rest, rfl, hrest⟩
  · cases rest with
    | nil =>
      obtain ⟨rfl, -⟩ := List.cons.inj hrest
      exact hbad _ _ _ _ ha (by simpa using ha')
    | cons b rest =>
      obtain ⟨rfl, -⟩ := List.cons.inj hrest
      exact absurd ⟨before, a, rest, rfl, e, ha⟩ hfirst'
  · cases rest with
    | nil =>
      obtain ⟨rfl, -⟩ := List.cons.inj hrest
      exact hbad _ _ _ _ (by simpa using ha) ha'
    | cons b rest =>
      obtain ⟨rfl, -⟩ := List.cons.inj hrest
      exact absurd ⟨before', a', rest, rfl, e', ha'⟩ hfirst

/-! ## Computations and their events -/

section Traces

variable {α : Type v} {β : Type u} {I : List τ → β → Prop} {seen : List τ}

/-- After the events `seen`, a computation meets `l`: it ends in a state that stands for them all
where none is bad, and raises what the first bad one raises. -/
def Traces (I : List τ → β → Prop) (bad : List τ → τ → ε → Prop) (seen l : List τ) :
    Except ε β → Prop
  | .ok b => I (seen ++ l) b ∧
    ¬ Somewhere (fun before a => ∃ e, bad (seen ++ before) a e) l
  | .error e => FirstAs (fun before => bad (seen ++ before)) l e

theorem traces_nil {b : β} (h : I seen b) : Traces I bad seen [] (.ok b) :=
  ⟨by rwa [List.append_nil], not_somewhere_nil⟩

/-- One event that is not bad. -/
theorem traces_ok {b : β} (h : I (seen ++ [a]) b) (ha : ∀ e, ¬ bad seen a e) :
    Traces I bad seen [a] (.ok b) := by
  refine ⟨h, ?_⟩
  rw [somewhere_singleton, List.append_nil]
  exact not_exists.mpr ha

/-- One bad event. -/
theorem traces_error (ha : bad seen a e) : Traces I bad seen [a] (.error e) := by
  refine firstAs_singleton ?_
  rwa [List.append_nil]

/-- A sequence follows the events of both its parts. -/
theorem Traces.bind {x : Except ε β} {f : β → Except ε β} (hx : Traces I bad seen l x)
    (hf : ∀ b, I (seen ++ l) b → Traces I bad (seen ++ l) m (f b)) :
    Traces I bad seen (l ++ m) (x >>= f) := by
  cases x with
  | error e => exact FirstAs.append_right hx
  | ok b =>
    obtain ⟨hb, hl⟩ := hx
    show Traces I bad seen (l ++ m) (f b)
    have hrest := hf b hb
    cases hfb : f b with
    | error e =>
      rw [hfb] at hrest
      refine FirstAs.append_left ?_ hl
      simpa only [Traces, List.append_assoc] using hrest
    | ok b' =>
      rw [hfb] at hrest
      obtain ⟨hb', hm⟩ := hrest
      refine ⟨by rwa [List.append_assoc] at hb', ?_⟩
      rw [somewhere_append]
      exact not_or.mpr ⟨hl, by simpa only [List.append_assoc] using hm⟩

/-- **A loop follows** the events of its turns. -/
theorem foldlM_traces {f : β → α → Except ε β} {trace : α → List τ}
    (hstep : ∀ seen b a, I seen b → Traces I bad seen (trace a) (f b a)) {b : β} (h : I seen b)
    (turns : List α) : Traces I bad seen (turns.flatMap trace) (turns.foldlM f b) := by
  induction turns generalizing seen b with
  | nil => exact traces_nil h
  | cons a turns ih =>
    rw [List.flatMap_cons, List.foldlM_cons]
    exact (hstep seen b a h).bind fun b' hb' => ih hb'

end Traces

end NetBoxScripts
