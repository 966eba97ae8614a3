import NetBoxScripts.Concurrency.Labelled
import NetBoxScripts.Concurrency.Pool

/-!
# Programs by their single actions

Where each action of a program is a step of a relation, in whatever state it is taken, nothing has
to be known of what happens between two of its actions.

## Main definitions

* `Prog.EachStep`: each action is a step of the relation
* `Labelled.prog`: a program of named statements, with what the statements do

## Main results

* `eachStep_bind`, `eachStep_attempt`, `eachStep_finallyDo`, `eachStep_foldlM`: the rules
* `Prog.EachStep.verified`: a system of such programs, whatever interleaving it runs in
-/

namespace NetBoxScripts

variable {σ χ ε α β : Type} {guar : ThreadId → σ → σ → Prop}

/-- Each action of the program, in whatever state it is taken, is a step of the relation. -/
def Prog.EachStep (guar : ThreadId → σ → σ → Prop) : Prog σ χ ε α → Prop
  | .done _ => True
  | .act step next => (∀ t c s b s', step t c s = some (b, s') → guar t s s') ∧
      ∀ b, (next b).EachStep guar

section Rules

variable {prog : Prog σ χ ε α}

theorem eachStep_pure {a : α} : (pure a : Prog σ χ ε α).EachStep guar := trivial

theorem eachStep_raise {e : ε} : (.raise e : Prog σ χ ε α).EachStep guar := trivial

theorem eachStep_ofExcept {result : Except ε α} :
    (.ofExcept result : Prog σ χ ε α).EachStep guar := trivial

theorem eachStep_bind {f : α → Prog σ χ ε β} (h : prog.EachStep guar)
    (hf : ∀ a, (f a).EachStep guar) : (prog >>= f).EachStep guar := by
  change (prog.bind f).EachStep guar
  induction prog with
  | done result =>
    cases result with
    | ok a => exact hf a
    | error e => trivial
  | act step next ih => exact ⟨h.1, fun b => ih b (h.2 b)⟩

theorem eachStep_attempt (h : prog.EachStep guar) : prog.attempt.EachStep guar := by
  induction prog with
  | done result => trivial
  | act step next ih => exact ⟨h.1, fun b => ih b (h.2 b)⟩

theorem eachStep_finallyDo {cleanup : Prog σ χ ε Unit} (h : prog.EachStep guar)
    (hcleanup : cleanup.EachStep guar) : (prog.finallyDo cleanup).EachStep guar :=
  eachStep_bind (eachStep_attempt h) fun _ => eachStep_bind hcleanup fun _ => eachStep_ofExcept

theorem eachStep_stmt {step : ThreadId → χ → σ → Option (Except ε α × σ)}
    (h : ∀ t c s r s', step t c s = some (r, s') → guar t s s') :
    (Prog.stmt step).EachStep guar := ⟨h, fun _ => trivial⟩

theorem eachStep_query {read : σ → α} (hrefl : ∀ t s, guar t s s) :
    (.query read : Prog σ χ ε α).EachStep guar := by
  refine eachStep_stmt fun t c s r s' h => ?_
  cases h
  exact hrefl t s

theorem eachStep_foldlM {l : List α} {body : β → α → Prog σ χ ε β}
    (h : ∀ b a, (body b a).EachStep guar) (init : β) : (l.foldlM body init).EachStep guar := by
  induction l generalizing init with
  | nil => exact eachStep_pure
  | cons a l ih =>
    rw [List.foldlM_cons]
    exact eachStep_bind (h init a) ih

theorem eachStep_forM {l : List α} {body : α → Prog σ χ ε Unit}
    (h : ∀ a, (body a).EachStep guar) : (l.forM body).EachStep guar := by
  rw [Prog.forM_eq_foldlM]
  exact eachStep_foldlM (fun _ a => h a) _

theorem Prog.EachStep.mono {guar' : ThreadId → σ → σ → Prop} (h : prog.EachStep guar)
    (himp : ∀ t s s', guar t s s' → guar' t s s') : prog.EachStep guar' := by
  induction prog with
  | done result => trivial
  | act step next ih =>
    exact ⟨fun t c s b s' hstep => himp t s s' (h.1 t c s b s' hstep), fun b => ih b (h.2 b)⟩

theorem Prog.EachStep.and {guar' : ThreadId → σ → σ → Prop} (h : prog.EachStep guar)
    (h' : prog.EachStep guar') : prog.EachStep fun t s s' => guar t s s' ∧ guar' t s s' := by
  induction prog with
  | done result => trivial
  | act step next ih =>
    exact ⟨fun t c s b s' hstep => ⟨h.1 t c s b s' hstep, h'.1 t c s b s' hstep⟩,
      fun b => ih b (h.2 b) (h'.2 b)⟩

/-- An assertion that others keep, and the program's actions too, still holds at its end. -/
theorem Prog.EachStep.keeps {change : Changes σ} {guar' : σ → σ → Prop} {t : ThreadId} {s : σ}
    {assertion : σ → Prop} (h : prog.EachStep guar) (hguar : ∀ s s', guar t s s' → guar' s s')
    (hown : ∀ s s', guar t s s' → assertion s → assertion s') (hkept : Stable change t assertion)
    (hs : assertion s) : NetBoxScripts.wp change t guar' prog (fun _ => assertion) s := by
  induction prog generalizing s with
  | done result => exact hs
  | act step next ih =>
    intro s' hrely c b s'' hstep
    have hstep := h.1 t c s' b s'' hstep
    exact ⟨hguar s' s'' hstep, ih b (h.2 b) (hown s' s'' hstep (hkept.rely hrely hs))⟩

/-- Such a program keeps its guarantee among any others. -/
theorem Prog.EachStep.wp {change : Changes σ} {t : ThreadId} {s : σ} (h : prog.EachStep guar) :
    NetBoxScripts.wp change t (guar t) prog (fun _ _ => True) s := by
  induction prog generalizing s with
  | done result => trivial
  | act step next ih =>
    intro s' _ c b s'' hstep
    exact ⟨h.1 t c s' b s'' hstep, ih b (h.2 b)⟩

/-- A system whose operations are such programs. -/
theorem Prog.EachStep.verified {Op : Type} {S : System σ χ ε Op}
    (hbody : ∀ op, (S.body op).EachStep guar) (hreap : ∀ t s, guar t s (S.reap t s))
    (htick : ∀ t s, guar t s (S.tick s)) :
    S.Verified guar (fun _ => guar) (fun _ _ => True) where
  body op _ _ _ := (hbody op).wp
  fresh_stable _ _ _ _ _ _ _ := trivial
  guar_change h := h
  reap := hreap
  tick := htick

end Rules

namespace Labelled

variable {ι : Type} {answer : ι → Type}
  (execute : ThreadId → (statement : ι) → χ → σ → Option (answer statement × σ))

/-- The program, with what its statements do. -/
def prog : Labelled answer σ χ ε α → Prog σ χ ε α
  | .done result => .done result
  | .call statement next => .act (fun t => execute t statement) fun b => (next b).prog
  | .act step next => .act step fun b => (next b).prog

variable {execute} {program : Labelled answer σ χ ε α}

@[simp] theorem prog_bind {f : α → Labelled answer σ χ ε β} :
    (program >>= f).prog execute = program.prog execute >>= fun a => (f a).prog execute := by
  change (program.bind f).prog execute = (program.prog execute).bind _
  induction program with
  | done result => cases result <;> rfl
  | call statement next ih => simp only [bind, prog, Prog.bind, ih]
  | act step next ih => simp only [bind, prog, Prog.bind, ih]

@[simp] theorem prog_attempt :
    program.attempt.prog execute = (program.prog execute).attempt := by
  induction program with
  | done result => rfl
  | call statement next ih => simp only [attempt, prog, Prog.attempt, ih]
  | act step next ih => simp only [attempt, prog, Prog.attempt, ih]

@[simp] theorem prog_finallyDo {cleanup : Labelled answer σ χ ε Unit} :
    (program.finallyDo cleanup).prog execute =
      (program.prog execute).finallyDo (cleanup.prog execute) := by
  rw [finallyDo, prog_bind, prog_attempt]
  simp only [prog_bind]
  rfl

/-- The rule for a statement. -/
theorem eachStep_ask {statement : ι}
    (h : ∀ t c s b s', execute t statement c s = some (b, s') → guar t s s') :
    ((ask statement : Labelled answer σ χ ε _).prog execute).EachStep guar :=
  ⟨h, fun _ => trivial⟩

end Labelled

end NetBoxScripts
