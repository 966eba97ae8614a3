import NetBoxScripts.Concurrency.Program

/-!
# Programs with named statements

A program of a session whose statements have names, so that a condition can be put on the state a
statement of some name finds. Other sessions change the state between any two of its steps.

## Main definitions

* `Labelled`: programs of named statements and of further atomic actions
* `Sessions`: what the statements do, what is asked of the state they find, and what others change
* `Labelled.Step`: a step of the session or of the others
* `Sessions.Holds`: what has to hold for a program to end in a postcondition

## Main results

* `Sessions.holds_bind`, `holds_attempt`, `holds_ask`, `holds_finallyDo`: the rules for each
  construct
* `Sessions.Holds.ends`: a run whose statements all find what is asked ends in the postcondition
-/

namespace NetBoxScripts

/-- A program over statements `ι` with their answers, and atomic actions on a state `σ`. -/
inductive Labelled {ι : Type} (answer : ι → Type) (σ χ ε α : Type) : Type 1
  | done (result : Except ε α)
  | call (statement : ι) (next : answer statement → Labelled answer σ χ ε α)
  | act {β : Type} (step : ThreadId → χ → σ → Option (β × σ)) (next : β → Labelled answer σ χ ε α)

namespace Labelled

variable {ι : Type} {answer : ι → Type} {σ χ ε α β : Type}

/-- The second program goes on where the first returned. -/
def bind : Labelled answer σ χ ε α → (α → Labelled answer σ χ ε β) → Labelled answer σ χ ε β
  | .done (.ok a), f => f a
  | .done (.error e), _ => .done (.error e)
  | .call statement next, f => .call statement fun b => (next b).bind f
  | .act step next, f => .act step fun b => (next b).bind f

instance : Monad (Labelled answer σ χ ε) where
  pure a := .done (.ok a)
  bind := Labelled.bind

/-- A program that fails. -/
def raise (e : ε) : Labelled answer σ χ ε α := .done (.error e)

/-- The program that goes on with a result. -/
def ofExcept (result : Except ε α) : Labelled answer σ χ ε α := .done result

/-- A program of one statement. -/
def ask (statement : ι) : Labelled answer σ χ ε (answer statement) :=
  .call statement fun b => .done (.ok b)

/-- The program, with its failure as an answer. -/
def attempt : Labelled answer σ χ ε α → Labelled answer σ χ ε (Except ε α)
  | .done result => .done (.ok result)
  | .call statement next => .call statement fun b => (next b).attempt
  | .act step next => .act step fun b => (next b).attempt

/-- The body, and after it the cleanup, whether or not the body failed. -/
def finallyDo (body : Labelled answer σ χ ε α) (cleanup : Labelled answer σ χ ε Unit) :
    Labelled answer σ χ ε α := do
  let result ← body.attempt
  cleanup
  ofExcept result

end Labelled

/-- What the statements do, what is asked of the state they find, and what others change. -/
structure Sessions {ι : Type} (answer : ι → Type) (σ χ : Type) where
  execute : (statement : ι) → χ → σ → Option (answer statement × σ)
  meets : ι → σ → Prop
  others : σ → σ → Prop

namespace Sessions

variable {ι : Type} {answer : ι → Type} {σ χ ε α β : Type} (sessions : Sessions answer σ χ)
  (t : ThreadId)

/-- One step of a run: a statement that finds what is asked, another action, or a change by
others. -/
inductive Step : Labelled answer σ χ ε α × σ → Labelled answer σ χ ε α × σ → Prop
  | call {statement next s c b s'} (hmeets : sessions.meets statement s)
      (h : sessions.execute statement c s = some (b, s')) :
      Step (.call statement next, s) (next b, s')
  | act {γ : Type} {step : ThreadId → χ → σ → Option (γ × σ)} {next s c b s'}
      (h : step t c s = some (b, s')) : Step (.act step next, s) (next b, s')
  | other {prog s s'} (h : sessions.others s s') : Step (prog, s) (prog, s')

/-- From `s` on the program ends in the postcondition, whatever others do, as long as each statement
finds what is asked. -/
def Holds : Labelled answer σ χ ε α → (Except ε α → σ → Prop) → σ → Prop
  | .done result, post, s => post result s
  | .call statement next, post, s => ∀ s', Relation.ReflTransGen sessions.others s s' →
      sessions.meets statement s' → ∀ c b s'', sessions.execute statement c s' = some (b, s'') →
        Holds (next b) post s''
  | .act step next, post, s => ∀ s', Relation.ReflTransGen sessions.others s s' →
      ∀ c b s'', step t c s' = some (b, s'') → Holds (next b) post s''

variable {sessions t} {post : Except ε α → σ → Prop} {s s' : σ}

@[simp] theorem holds_pure {a : α} :
    sessions.Holds t (pure a : Labelled answer σ χ ε α) post s = post (.ok a) s := rfl

@[simp] theorem holds_raise {e : ε} :
    sessions.Holds t (.raise e : Labelled answer σ χ ε α) post s = post (.error e) s := rfl

@[simp] theorem holds_ofExcept {result : Except ε α} :
    sessions.Holds t (.ofExcept result : Labelled answer σ χ ε α) post s = post result s := rfl

@[simp] theorem holds_bind {prog : Labelled answer σ χ ε α} {f : α → Labelled answer σ χ ε β}
    {post : Except ε β → σ → Prop} :
    sessions.Holds t (prog >>= f) post s = sessions.Holds t prog
      (andThen (fun a => sessions.Holds t (f a) post) fun e => post (.error e)) s := by
  change sessions.Holds t (prog.bind f) post s = _
  induction prog generalizing s with
  | done result => cases result <;> rfl
  | call statement next ih => simp only [Labelled.bind, Holds, ih]
  | act step next ih => simp only [Labelled.bind, Holds, ih]

@[simp] theorem holds_attempt {prog : Labelled answer σ χ ε α}
    {post : Except ε (Except ε α) → σ → Prop} :
    sessions.Holds t prog.attempt post s = sessions.Holds t prog (fun r => post (.ok r)) s := by
  induction prog generalizing s with
  | done result => rfl
  | call statement next ih => simp only [Labelled.attempt, Holds, ih]
  | act step next ih => simp only [Labelled.attempt, Holds, ih]

theorem Holds.mono {prog : Labelled answer σ χ ε α} {post' : Except ε α → σ → Prop}
    (h : ∀ r s, post r s → post' r s) (hs : sessions.Holds t prog post s) :
    sessions.Holds t prog post' s := by
  induction prog generalizing s with
  | done result => exact h result s hs
  | call statement next ih =>
    intro s' hothers hmeets c b s'' hstep
    exact ih b (hs s' hothers hmeets c b s'' hstep)
  | act step next ih =>
    intro s' hothers c b s'' hstep
    exact ih b (hs s' hothers c b s'' hstep)

/-- An assertion that others keep, when they have moved. -/
theorem kept {assertion : σ → Prop}
    (hkept : ∀ s s', sessions.others s s' → assertion s → assertion s')
    (hothers : Relation.ReflTransGen sessions.others s s') (hs : assertion s) : assertion s' := by
  induction hothers with
  | refl => exact hs
  | tail _ hstep ih => exact hkept _ _ hstep ih

/-- One statement, under an assertion that others keep. -/
theorem holds_ask {statement : ι} {assertion : σ → Prop}
    {post : Except ε (answer statement) → σ → Prop}
    (hkept : ∀ s s', sessions.others s s' → assertion s → assertion s') (hs : assertion s)
    (h : ∀ s', assertion s' → sessions.meets statement s' → ∀ c b s'',
      sessions.execute statement c s' = some (b, s'') → post (.ok b) s'') :
    sessions.Holds t (Labelled.ask statement) post s := by
  intro s' hothers hmeets c b s'' hstep
  exact h s' (kept hkept hothers hs) hmeets c b s'' hstep

/-- A body and its cleanup. -/
theorem holds_finallyDo {body : Labelled answer σ χ ε α} {cleanup : Labelled answer σ χ ε Unit}
    (h : sessions.Holds t body (fun r => sessions.Holds t cleanup
      (andThen (fun _ => post r) fun e => post (.error e))) s) :
    sessions.Holds t (body.finallyDo cleanup) post s := by
  unfold Labelled.finallyDo
  rw [holds_bind, holds_attempt]
  -- what the cleanup raises takes the place of the result
  refine Holds.mono (fun r s₁ h₁ => ?_) h
  rw [andThen_ok, holds_bind]
  exact Holds.mono (fun r' s₂ h₂ => by cases r' <;> exact h₂) h₁

/-- What holds of a program holds after each step of a run, where others keep the postcondition. -/
theorem Holds.step {config config' : Labelled answer σ χ ε α × σ}
    (hpost : ∀ r s s', sessions.others s s' → post r s → post r s')
    (h : sessions.Step t config config') (hs : sessions.Holds t config.1 post config.2) :
    sessions.Holds t config'.1 post config'.2 := by
  cases h with
  | call hmeets hstep => exact hs _ .refl hmeets _ _ _ hstep
  | act hstep => exact hs _ .refl _ _ _ hstep
  -- a change by others only makes the next wait longer
  | @other prog s s' hother =>
    cases prog with
    | done result => exact hpost result s s' hother hs
    | call statement next =>
      intro s₁ hothers
      exact hs s₁ (hothers.head hother)
    | act step next =>
      intro s₁ hothers
      exact hs s₁ (hothers.head hother)

/-- A run that begins with a statement. -/
theorem run_call {statement : ι} {next : answer statement → Labelled answer σ χ ε α} (c : χ)
    {b : answer statement} {config : Labelled answer σ χ ε α × σ}
    (hmeets : sessions.meets statement s) (h : sessions.execute statement c s = some (b, s'))
    (hrest : Relation.ReflTransGen (sessions.Step t) (next b, s') config) :
    Relation.ReflTransGen (sessions.Step t) (.call statement next, s) config :=
  .head (.call hmeets h) hrest

/-- A run that begins with a change by others. -/
theorem run_other {prog : Labelled answer σ χ ε α} {config : Labelled answer σ χ ε α × σ}
    (h : sessions.others s s') (hrest : Relation.ReflTransGen (sessions.Step t) (prog, s') config) :
    Relation.ReflTransGen (sessions.Step t) (prog, s) config :=
  .head (.other h) hrest

/-- **A run** whose statements all find what is asked ends in the postcondition. -/
theorem Holds.ends {prog : Labelled answer σ χ ε α} {result : Except ε α}
    (hpost : ∀ r s s', sessions.others s s' → post r s → post r s')
    (hs : sessions.Holds t prog post s)
    (h : Relation.ReflTransGen (sessions.Step t) (prog, s) (.done result, s')) : post result s' := by
  have hrun : ∀ config, Relation.ReflTransGen (sessions.Step t) (prog, s) config →
      sessions.Holds t config.1 post config.2 := by
    intro config hconfig
    induction hconfig with
    | refl => exact hs
    | tail _ hstep ih => exact ih.step hpost hstep
  exact hrun _ h

end Sessions

end NetBoxScripts
