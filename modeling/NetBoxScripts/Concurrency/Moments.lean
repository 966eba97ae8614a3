import NetBoxScripts.Concurrency.EachStep
import NetBoxScripts.Concurrency.History

/-!
# Moments of a run

A system together with the history of its state. Each action leads to another moment, and a process
that only looks notes what it found, so that it can be said what was so at which moments of the run.

## Main definitions

* `Moment`, `Chronicle`: a state with the choice that led to it; all of these, with what was noted
* `Prog.recorded`: the program, on states with their history
* `System.observed`: the system, with processes that note what they find

## Main results

* `wp_recorded`: what a program is correct for, the recorded one is
* `recorded_bind`, `recorded_attempt`, `recorded_finallyDo`, `recorded_foldlM`: programs are recorded
  by their parts
* `System.Verified.noted_of_run`: what was noted was found at moments of the run
-/

namespace NetBoxScripts

/-- A state, and the outside choice of the action that led to it, if one did. -/
structure Moment (σ χ : Type) where
  state : σ
  choice : Option χ

/-- What a process that looks found, and between which moments. -/
structure Noted (Obs ρ : Type) where
  look : Obs
  began : ℕ
  ended : ℕ
  found : ρ

/-- The history of a state, and what was noted meanwhile. -/
structure Chronicle (σ χ ν : Type) where
  history : History (Moment σ χ)
  noted : List ν

variable {σ χ ε α β ν Obs ρ Op : Type}

namespace Chronicle

/-- The present state. -/
def now (c : Chronicle σ χ ν) : σ := c.history.now.state

/-- The next moment. -/
def push (c : Chronicle σ χ ν) (s : σ) (choice : Option χ) : Chronicle σ χ ν :=
  { c with history := c.history.push ⟨s, choice⟩ }

/-- A state without a past. -/
def start (s : σ) : Chronicle σ χ ν := ⟨⟨[], ⟨s, none⟩⟩, []⟩

@[simp] theorem now_push {c : Chronicle σ χ ν} {s : σ} {choice : Option χ} :
    (c.push s choice).now = s := rfl

end Chronicle

/-- The program, each action of which leads to another moment. -/
def Prog.recorded : Prog σ χ ε α → Prog (Chronicle σ χ ν) χ ε α
  | .done result => .done result
  | .act step next => .act
      (fun t choice c => (step t choice c.now).map fun answer =>
        (answer.1, c.push answer.2 (some choice)))
      fun b => (next b).recorded

/-- The system with its history, and processes that look and note what they find. -/
def System.observed (S : System σ χ ε Op) (look : Obs → Prog σ χ ε ρ) :
    System (Chronicle σ χ (Noted Obs ρ)) χ ε (Op ⊕ Obs) where
  body
    | .inl op => (S.body op).recorded
    | .inr obs => do
      let began ← .query fun c => c.history.moment
      let found ← (look obs).recorded
      .stmt fun _ _ c =>
        some (.ok (), { c with noted := c.noted ++ [⟨obs, began, c.history.moment, found⟩] })
  reap t c := c.push (S.reap t c.now) none
  tick c := c.push (S.tick c.now) none

/-! ## Programs by their parts -/

section Parts

theorem recorded_bind {prog : Prog σ χ ε α} {f : α → Prog σ χ ε β} :
    ((prog >>= f).recorded : Prog (Chronicle σ χ ν) χ ε β) =
      prog.recorded >>= fun a => (f a).recorded := by
  change (prog.bind f).recorded = (prog.recorded).bind _
  induction prog with
  | done result => cases result <;> rfl
  | act step next ih =>
    simp only [Prog.bind, Prog.recorded]
    congr 1
    funext b
    exact ih b

theorem recorded_attempt {prog : Prog σ χ ε α} :
    (prog.attempt.recorded : Prog (Chronicle σ χ ν) χ ε _) = prog.recorded.attempt := by
  induction prog with
  | done result => rfl
  | act step next ih =>
    simp only [Prog.attempt, Prog.recorded]
    congr 1
    funext b
    exact ih b

theorem recorded_finallyDo {body : Prog σ χ ε α} {cleanup : Prog σ χ ε Unit} :
    ((body.finallyDo cleanup).recorded : Prog (Chronicle σ χ ν) χ ε α) =
      body.recorded.finallyDo cleanup.recorded := by
  unfold Prog.finallyDo
  rw [recorded_bind, recorded_attempt]
  congr 1
  funext result
  rw [recorded_bind]
  rfl

theorem recorded_foldlM {l : List α} {body : β → α → Prog σ χ ε β} {init : β} :
    ((l.foldlM body init).recorded : Prog (Chronicle σ χ ν) χ ε β) =
      l.foldlM (fun b a => (body b a).recorded) init := by
  induction l generalizing init with
  | nil => rfl
  | cons a l ih =>
    rw [List.foldlM_cons, List.foldlM_cons, recorded_bind]
    congr 1
    funext b
    exact ih

end Parts

/-! ## Recorded changes -/

section Changes

variable {change : Changes σ} {told : ν → History (Moment σ χ) → Prop} {t : ThreadId}
  {guar : σ → σ → Prop} {c c' c'' : Chronicle σ χ ν} {prog : Prog σ χ ε α}

/-- One more moment, by a change, or something noted that was found. -/
inductive Chronicled (change : Changes σ) (told : ν → History (Moment σ χ) → Prop) (t : ThreadId)
    (c : Chronicle σ χ ν) : Chronicle σ χ ν → Prop
  | rest : Chronicled change told t c c
  | move {s : σ} (choice : Option χ) (h : change t c.now s) :
    Chronicled change told t c (c.push s choice)
  | note (n : ν) (h : told n c.history) :
    Chronicled change told t c { c with noted := c.noted ++ [n] }

theorem Chronicled.history_extends (h : Chronicled change told t c c') :
    c.history.Extends c'.history := by
  cases h with
  | rest => exact .refl _
  | move choice h => exact History.extends_push
  | note n h => exact .refl _

/-- What others do to the state, with its history. -/
theorem rely_chronicled (h : Rely (Chronicled change told) t c c') :
    Rely change t c.now c'.now ∧ c.history.Extends c'.history := by
  induction h with
  | refl => exact ⟨.refl, .refl _⟩
  | tail _ hstep ih =>
    obtain ⟨u, hne, hstep⟩ := hstep
    refine ⟨?_, ih.2.trans hstep.history_extends⟩
    cases hstep with
    | rest => exact ih.1
    | move choice h => exact ih.1.trans (Rely.single hne h)
    | note n h => exact ih.1

/-- **What a program is correct for, the recorded one is.** -/
theorem wp_recorded {post : Except ε α → σ → Prop} (hguar : ∀ s s', guar s s' → change t s s')
    (h : wp change t guar prog post c.now) :
    wp (Chronicled change told) t (Chronicled change told t) prog.recorded
      (fun result c' => post result c'.now ∧ c.history.Extends c'.history) c := by
  induction prog generalizing c with
  | done result => exact ⟨h, .refl _⟩
  | act step next ih =>
    intro c₁ hrely choice b c₂ hstep
    obtain ⟨hrely, hextends⟩ := rely_chronicled hrely
    obtain ⟨⟨b', s⟩, hanswer, heq⟩ := Option.map_eq_some_iff.mp hstep
    cases heq
    obtain ⟨hchange, hnext⟩ := h c₁.now hrely choice b' s hanswer
    refine ⟨.move _ (hguar _ _ hchange), wp_mono (fun result c₂ h₂ => ⟨h₂.1, ?_⟩)
      (ih b' (c := c₁.push s (some choice)) hnext)⟩
    exact hextends.trans (History.extends_push.trans h₂.2)

/-- Two postconditions of one program. -/
theorem wp_and {guar' : σ → σ → Prop} {post post' : Except ε α → σ → Prop} {s : σ}
    (h : wp change t guar prog post s) (h' : wp change t guar' prog post' s) :
    wp change t guar prog (fun result s => post result s ∧ post' result s) s := by
  induction prog generalizing s with
  | done result => exact ⟨h, h'⟩
  | act step next ih =>
    intro s' hrely choice b s'' hstep
    obtain ⟨hguar, hnext⟩ := h s' hrely choice b s'' hstep
    exact ⟨hguar, ih b hnext (h' s' hrely choice b s'' hstep).2⟩

/-- What everybody keeps holds at the end of a program, too. -/
theorem wp_kept {assertion : σ → Prop} {post : Except ε α → σ → Prop} {s : σ}
    (hguar : ∀ s s', guar s s' → change t s s')
    (hkept : ∀ u s s', change u s s' → assertion s → assertion s')
    (h : wp change t guar prog post s) (hs : assertion s) :
    wp change t guar prog (fun result s => post result s ∧ assertion s) s := by
  induction prog generalizing s with
  | done result => exact ⟨h, hs⟩
  | act step next ih =>
    intro s' hrely choice b s'' hstep
    obtain ⟨hstep', hnext⟩ := h s' hrely choice b s'' hstep
    have hs' : assertion s' :=
      Stable.rely (fun u s s' _ hchange => hkept u s s' hchange) hrely hs
    exact ⟨hstep', ih b hnext (hkept t s' s'' (hguar s' s'' hstep') hs')⟩

end Changes

/-! ## Systems -/

section Systems

variable {S : System σ χ ε Op} {look : Obs → Prog σ χ ε ρ} {change : Changes σ}
  {fresh : ThreadId → σ → Prop} {told : Noted Obs ρ → History (Moment σ χ) → Prop}

/-- What was found is still so later, and was found by any later end. -/
def Lasts (told : Noted Obs ρ → History (Moment σ χ) → Prop) : Prop :=
  ∀ n h h' ended, h.Extends h' → n.ended ≤ ended → told n h → told { n with ended } h'

theorem System.Verified.observed (hS : S.Verified change (fun _ => change) fresh)
    (htold : Lasts told)
    (hlook : ∀ obs t c, fresh t c.now → wp (Chronicled change told) t (Chronicled change told t)
      (look obs).recorded (fun result c' => ∀ found, result = .ok found →
        told ⟨obs, c.history.moment, c'.history.moment, found⟩ c'.history) c) :
    (S.observed look).Verified (Chronicled change told) (fun _ => Chronicled change told)
      (fun t c => fresh t c.now) where
  body op t c hfresh := by
    have hstable : Stable (Chronicled change told) t fun c => fresh t c.now := by
      intro u c c' hne hstep hfresh
      cases hstep with
      | rest => exact hfresh
      | move choice h => exact hS.fresh_stable t u _ _ hne h hfresh
      | note n h => exact hfresh
    cases op with
    | inl op =>
      exact wp_mono (fun _ _ _ => trivial) (wp_recorded (fun _ _ h => h) (hS.body op t c.now hfresh))
    | inr obs =>
      show wp _ _ _ (Prog.query _ >>= fun began => (look obs).recorded >>= fun found => _) _ _
      rw [wp_bind]
      refine wp_query (fun _ => .rest) hstable hfresh fun c₁ hfresh₁ => ?_
      rw [andThen_ok, wp_bind]
      refine wp_mono (fun result c₂ h₂ => ?_) (hlook obs t c₁ hfresh₁)
      cases result with
      | error e => trivial
      | ok found =>
        intro c₃ hrely choice result c₄ hstep
        cases hstep
        have hextends := (rely_chronicled hrely).2
        exact ⟨.note _ (htold _ _ _ _ hextends hextends.moment_le (h₂ found rfl)), trivial⟩
  fresh_stable t u c c' hne hstep hfresh := by
    cases hstep with
    | rest => exact hfresh
    | move choice h => exact hS.fresh_stable t u _ _ hne h hfresh
    | note n h => exact hfresh
  guar_change h := h
  reap t c := .move none (hS.reap t c.now)
  tick t c := .move none (hS.tick t c.now)

/-- **What was noted was found** at moments of the run, at each of which what every change keeps was
so. -/
theorem System.Verified.noted_of_run (hS : S.Verified change (fun _ => change) fresh)
    (htold : Lasts told)
    (hlook : ∀ obs t c, fresh t c.now → wp (Chronicled change told) t (Chronicled change told t)
      (look obs).recorded (fun result c' => ∀ found, result = .ok found →
        told ⟨obs, c.history.moment, c'.history.moment, found⟩ c'.history) c)
    {inv : σ → Prop} (hkeep : ∀ t s s', change t s s' → inv s → inv s') {start : σ}
    {next : ThreadId} {pool : Pool (Chronicle σ χ (Noted Obs ρ)) χ ε (Op ⊕ Obs)}
    (hfresh : ∀ t, next ≤ t → fresh t start) (hstart : inv start)
    (hrun : Run (S.observed look) (fun _ _ => True) (Pool.start (.start start) next) pool) :
    (∀ n ∈ pool.world.noted, told n pool.world.history) ∧
      ∀ i m, pool.world.history.at? i = some m → inv m.state := by
  let Inv : Chronicle σ χ (Noted Obs ρ) → Prop := fun c => (∀ n ∈ c.noted, told n c.history) ∧
    ∀ i m, c.history.at? i = some m → inv m.state
  have hstep : ∀ t c c', Chronicled change told t c c' → Inv c → Inv c' := by
    rintro t c c' hstep ⟨hnoted, hmoments⟩
    have hstill : ∀ n ∈ c.noted, told n c'.history := fun n hn =>
      htold n _ _ _ hstep.history_extends (Nat.le_refl _) (hnoted n hn)
    cases hstep with
    | rest => exact ⟨hnoted, hmoments⟩
    | move choice h =>
      refine ⟨hstill, fun i m hat => ?_⟩
      rcases Nat.lt_or_eq_of_le (History.le_moment_of_at? hat) with hi | rfl
      · rw [Chronicle.push, History.moment_push] at hi
        refine hmoments i m ?_
        rw [← hat]
        exact (History.at?_push (Nat.le_of_lt_succ hi)).symm
      · rw [History.at?_moment] at hat
        cases hat
        exact hkeep t _ _ h (hmoments _ _ History.at?_moment)
    | note n h =>
      refine ⟨fun n' hn' => ?_, hmoments⟩
      rcases List.mem_append.mp hn' with hold | hnew
      · exact hnoted n' hold
      · rw [List.mem_singleton.mp hnew]
        exact h
  have hinv : Inv (.start start) := by
    refine ⟨List.forall_mem_nil _, fun i m hat => ?_⟩
    obtain rfl : i = 0 := Nat.le_zero.mp (History.le_moment_of_at? hat)
    cases hat
    exact hstart
  exact (hS.observed htold hlook).run_invariant hstep (.start hfresh) hinv hrun

end Systems

end NetBoxScripts
