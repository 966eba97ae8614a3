import Mathlib.Logic.Function.Basic
import NetBoxScripts.Concurrency.Program

/-!
# Pools of threads

Threads that run programs on one shared state, interleaved action by action. A thread may start
at any time, stop for good between any two actions, and time may pass between any two.

## Main definitions

* `System`: the operations a thread can run, and what a thread's death and time do to the state
* `Pool.step`, `Run`: one event and runs of events
* `System.Verified`: every operation keeps its guarantee
* `Sound`: every thread of a pool is still correct

## Main results

* `Verified.step`: an event of a sound pool is a change, and leaves the pool sound
* `Verified.run_invariant`: what every change keeps holds after every run
-/

namespace NetBoxScripts

/-- The operations of a system, what is left of a thread that died, and the passing of time. -/
structure System (σ χ ε Op : Type) where
  body : Op → Prog σ χ ε Unit
  reap : ThreadId → σ → σ
  tick : σ → σ

/-- A thread: the operation it was started for, and what is left of it. -/
structure Thread (σ χ ε Op : Type) where
  op : Op
  prog : Prog σ χ ε Unit

/-- The shared state, the threads on it, and the number the next thread gets. -/
structure Pool (σ χ ε Op : Type) where
  world : σ
  thread : ThreadId → Option (Thread σ χ ε Op)
  next : ThreadId

/-- What happens next. -/
inductive Event (χ Op : Type)
  | spawn (op : Op)
  | run (t : ThreadId) (choice : χ)
  | die (t : ThreadId)
  | tick

variable {σ χ ε Op : Type}

/-- A state no thread works on, and the number of the first thread. -/
def Pool.start (world : σ) (next : ThreadId) : Pool σ χ ε Op := ⟨world, fun _ => none, next⟩

/-- One event, where it is possible. -/
def Pool.step (S : System σ χ ε Op) (pool : Pool σ χ ε Op) : Event χ Op → Option (Pool σ χ ε Op)
  | .spawn op => some
    { pool with
      thread := Function.update pool.thread pool.next (some ⟨op, S.body op⟩)
      next := pool.next + 1 }
  | .run t choice =>
    match pool.thread t with
    | some ⟨op, .act step next⟩ =>
      (step t choice pool.world).map fun answer =>
        { pool with
          world := answer.2
          thread := Function.update pool.thread t (some ⟨op, next answer.1⟩) }
    | _ => none
  | .die t =>
    match pool.thread t with
    | some ⟨_, .act _ _⟩ => some
      { pool with
        world := S.reap t pool.world
        thread := Function.update pool.thread t none }
    | _ => none
  | .tick => some { pool with world := S.tick pool.world }

/-- A run whose events all meet a condition on the pool they happen in. -/
def Run (S : System σ χ ε Op) (ok : Pool σ χ ε Op → Event χ Op → Prop) :
    Pool σ χ ε Op → Pool σ χ ε Op → Prop :=
  Relation.ReflTransGen fun pool pool' => ∃ event, ok pool event ∧ pool.step S event = some pool'

/-- The pool after a thread was started. -/
def Pool.spawn (S : System σ χ ε Op) (pool : Pool σ χ ε Op) (op : Op) : Pool σ χ ε Op :=
  (pool.step S (.spawn op)).getD pool

/-- The pool after a thread took as many steps as it could, with one answer to each. -/
def Pool.drive (S : System σ χ ε Op) (t : ThreadId) (choice : χ) :
    ℕ → Pool σ χ ε Op → Pool σ χ ε Op
  | 0, pool => pool
  | n + 1, pool =>
    match pool.step S (.run t choice) with
    | some pool' => Pool.drive S t choice n pool'
    | none => pool

theorem Run.spawn {S : System σ χ ε Op} {ok : Pool σ χ ε Op → Event χ Op → Prop}
    {pool pool' : Pool σ χ ε Op} {op : Op} (hrun : Run S ok pool pool')
    (hok : ok pool' (.spawn op)) : Run S ok pool (pool'.spawn S op) :=
  hrun.tail ⟨.spawn op, hok, rfl⟩

theorem Run.drive {S : System σ χ ε Op} {ok : Pool σ χ ε Op → Event χ Op → Prop}
    {pool pool' : Pool σ χ ε Op} {t : ThreadId} {choice : χ} (n : ℕ) (hrun : Run S ok pool pool')
    (hok : ∀ pool, ok pool (.run t choice)) : Run S ok pool (Pool.drive S t choice n pool') := by
  induction n generalizing pool' with
  | zero => exact hrun
  | succ n ih =>
    unfold Pool.drive
    split
    · next hstep => exact ih (hrun.tail ⟨.run t choice, hok pool', hstep⟩)
    · exact hrun

theorem run_spawn {S : System σ χ ε Op} {pool pool' : Pool σ χ ε Op} (op : Op)
    (hrun : Run S (fun _ _ => True) pool pool') :
    Run S (fun _ _ => True) pool (pool'.spawn S op) :=
  hrun.spawn trivial

theorem run_drive {S : System σ χ ε Op} {pool pool' : Pool σ χ ε Op} (t : ThreadId) (choice : χ)
    (n : ℕ) (hrun : Run S (fun _ _ => True) pool pool') :
    Run S (fun _ _ => True) pool (Pool.drive S t choice n pool') :=
  hrun.drive n fun _ => trivial

/-- What each thread may change while it runs an operation. -/
abbrev Guarantees (σ Op : Type) := Op → ThreadId → σ → σ → Prop

/-- Every operation keeps its guarantee in whatever state it starts, as long as nothing in the
state belongs to its thread yet, and what a guarantee allows, a death leaves and time does are
changes. -/
structure System.Verified (S : System σ χ ε Op) (change : Changes σ) (guar : Guarantees σ Op)
    (fresh : ThreadId → σ → Prop) : Prop where
  body : ∀ op t s, fresh t s → wp change t (guar op t) (S.body op) (fun _ _ => True) s
  fresh_stable : ∀ t, Stable change t (fresh t)
  guar_change : ∀ {op t s s'}, guar op t s s' → change t s s'
  reap : ∀ t s, change t s (S.reap t s)
  tick : ∀ t s, change t s (S.tick s)

/-- Every thread is correct from here on, and numbers are not given out twice. -/
structure Sound (change : Changes σ) (guar : Guarantees σ Op) (fresh : ThreadId → σ → Prop)
    (pool : Pool σ χ ε Op) : Prop where
  thread : ∀ t th, pool.thread t = some th →
    wp change t (guar th.op t) th.prog (fun _ _ => True) pool.world
  next : ∀ t th, pool.thread t = some th → t < pool.next
  fresh : ∀ t, pool.next ≤ t → fresh t pool.world

/-- What one event of a sound pool did to the state. -/
inductive EventChange (S : System σ χ ε Op) (guar : Guarantees σ Op) (pool : Pool σ χ ε Op) :
    Event χ Op → σ → Prop
  | spawn (op : Op) : EventChange S guar pool (.spawn op) pool.world
  | run {t : ThreadId} {th : Thread σ χ ε Op} (choice : χ) {s' : σ} (hth : pool.thread t = some th)
      (hguar : guar th.op t pool.world s') : EventChange S guar pool (.run t choice) s'
  | die (t : ThreadId) : EventChange S guar pool (.die t) (S.reap t pool.world)
  | tick : EventChange S guar pool .tick (S.tick pool.world)

section Soundness

variable {S : System σ χ ε Op} {change : Changes σ} {guar : Guarantees σ Op}
  {fresh : ThreadId → σ → Prop} {pool pool' : Pool σ χ ε Op} {event : Event χ Op} {t : ThreadId}

theorem Sound.start {world : σ} {next : ThreadId} (hfresh : ∀ t, next ≤ t → fresh t world) :
    Sound change guar fresh (Pool.start world next : Pool σ χ ε Op) where
  thread _ _ h := by simp [Pool.start] at h
  next _ _ h := by simp [Pool.start] at h
  fresh := hfresh

/-- A thread stays correct while others move. -/
theorem wp_of_others {guar' : σ → σ → Prop} {prog : Prog σ χ ε Unit} {s s' : σ}
    (h : wp change t guar' prog (fun _ _ => True) s) (hrely : Rely change t s s') :
    wp change t guar' prog (fun _ _ => True) s' := by
  cases prog with
  | done result => trivial
  | act step next => exact wp_of_rely h hrely

/-- One event of a sound pool. -/
theorem System.Verified.step (hS : S.Verified change guar fresh)
    (hsound : Sound change guar fresh pool) (hstep : pool.step S event = some pool') :
    EventChange S guar pool event pool'.world ∧ Sound change guar fresh pool' := by
  cases event with
  | spawn op =>
    cases hstep
    refine ⟨.spawn op, ⟨fun t th hth => ?_, fun t th hth => ?_, fun t ht => ?_⟩⟩
    · by_cases ht : t = pool.next
      · subst ht
        obtain rfl : (⟨op, S.body op⟩ : Thread σ χ ε Op) = th := by simpa using hth
        exact hS.body op _ _ (hsound.fresh _ (Nat.le_refl _))
      · exact hsound.thread t th (by simpa [ht] using hth)
    · show t < pool.next + 1
      by_cases ht : t = pool.next
      · exact ht ▸ Nat.lt_succ_self _
      · exact Nat.lt_succ_of_lt (hsound.next t th (by simpa [ht] using hth))
    · exact hsound.fresh t (Nat.le_of_succ_le ht)
  | run t choice =>
    simp only [Pool.step] at hstep
    split at hstep
    · next op β step next hth =>
      obtain ⟨⟨b, s'⟩, hanswer, rfl⟩ := Option.map_eq_some_iff.mp hstep
      obtain ⟨hguar, hnext⟩ := hsound.thread t _ hth pool.world .refl choice b s' hanswer
      refine ⟨.run choice hth hguar, ⟨fun u th hu => ?_, fun u th hu => ?_, fun u hu => ?_⟩⟩
      · by_cases hut : u = t
        · subst hut
          obtain rfl : (⟨op, next b⟩ : Thread σ χ ε Op) = th := by simpa using hu
          exact hnext
        · exact wp_of_others (hsound.thread u th (by simpa [hut] using hu))
            (.single (Ne.symm hut) (hS.guar_change hguar))
      · by_cases hut : u = t
        · exact hut ▸ hsound.next t _ hth
        · exact hsound.next u th (by simpa [hut] using hu)
      · have htu : t ≠ u := Nat.ne_of_lt (Nat.lt_of_lt_of_le (hsound.next t _ hth) hu)
        exact hS.fresh_stable u t _ _ htu (hS.guar_change hguar) (hsound.fresh u hu)
    · cases hstep
  | die t =>
    simp only [Pool.step] at hstep
    split at hstep
    · next hth =>
      cases hstep
      refine ⟨.die t, ⟨fun u th hu => ?_, fun u th hu => ?_, fun u hu => ?_⟩⟩
      · have hut : u ≠ t := by
          rintro rfl
          simp at hu
        exact wp_of_others (hsound.thread u th (by simpa [hut] using hu))
          (.single (Ne.symm hut) (hS.reap t _))
      · have hut : u ≠ t := by
          rintro rfl
          simp at hu
        exact hsound.next u th (by simpa [hut] using hu)
      · have htu : t ≠ u := Nat.ne_of_lt (Nat.lt_of_lt_of_le (hsound.next t _ hth) hu)
        exact hS.fresh_stable u t _ _ htu (hS.reap t _) (hsound.fresh u hu)
    · cases hstep
  | tick =>
    cases hstep
    refine ⟨.tick, ⟨fun u th hu => ?_, hsound.next, fun u hu => ?_⟩⟩
    · exact wp_of_others (hsound.thread u th hu) (.single (Nat.succ_ne_self u) (hS.tick _ _))
    · exact hS.fresh_stable u _ _ _ (Nat.succ_ne_self u) (hS.tick _ _) (hsound.fresh u hu)

theorem EventChange.world_change (hS : S.Verified change guar fresh) {s' : σ}
    (h : EventChange S guar pool event s') : pool.world = s' ∨ ∃ t, change t pool.world s' := by
  cases h with
  | spawn op => exact .inl rfl
  | run choice hth hguar => exact .inr ⟨_, hS.guar_change hguar⟩
  | die t => exact .inr ⟨t, hS.reap t _⟩
  | tick => exact .inr ⟨0, hS.tick 0 _⟩

/-- Runs keep pools sound. -/
theorem System.Verified.run_sound (hS : S.Verified change guar fresh)
    {ok : Pool σ χ ε Op → Event χ Op → Prop} (hsound : Sound change guar fresh pool)
    (hrun : Run S ok pool pool') : Sound change guar fresh pool' := by
  induction hrun with
  | refl => exact hsound
  | tail _ hstep ih =>
    obtain ⟨event, -, hstep⟩ := hstep
    exact (hS.step ih hstep).2

/-- A property of pools that every event meeting the condition keeps holds after every run. -/
theorem System.Verified.run_induction (hS : S.Verified change guar fresh)
    {ok : Pool σ χ ε Op → Event χ Op → Prop} {motive : Pool σ χ ε Op → Prop}
    (hsound : Sound change guar fresh pool) (hstart : motive pool)
    (hkeep : ∀ q event q', Sound change guar fresh q → motive q → ok q event →
      q.step S event = some q' → EventChange S guar q event q'.world → motive q')
    (hrun : Run S ok pool pool') : motive pool' := by
  induction hrun with
  | refl => exact hstart
  | tail hprefix hstep ih =>
    obtain ⟨event, hok, hstep⟩ := hstep
    have hq := hS.run_sound hsound hprefix
    exact hkeep _ event _ hq ih hok hstep (hS.step hq hstep).1

/-- What every change keeps holds after every run. -/
theorem System.Verified.run_invariant (hS : S.Verified change guar fresh)
    {ok : Pool σ χ ε Op → Event χ Op → Prop} {inv : σ → Prop}
    (hkeep : ∀ t s s', change t s s' → inv s → inv s') (hsound : Sound change guar fresh pool)
    (hstart : inv pool.world) (hrun : Run S ok pool pool') : inv pool'.world := by
  refine hS.run_induction (motive := fun q => inv q.world) hsound hstart ?_ hrun
  intro q event q' _ hinv _ _ hchange
  rcases hchange.world_change hS with heq | ⟨t, hchange⟩
  · exact heq ▸ hinv
  · exact hkeep t _ _ hchange hinv

end Soundness

end NetBoxScripts
