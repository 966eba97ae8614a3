import NetBoxScripts.Concurrency.Trace
import NetBoxScripts.Graph.Waiting
import NetBoxScripts.Storage.Layout
import NetBoxScripts.Storage.Manifest
import Mathlib.Algebra.Group.Int.Defs
import Mathlib.Data.List.Dedup

/-!
# The order of the project locks

`ProjectLockOrderMixin` of `api/views.py` over the advisory locks of `storage/locks.py`. A request
reads the projects it is to lock, once and in name order, and then takes their locks one by one;
an update may rename the projects it holds, and its commit shows the new names to the requests
that read later. A deletion locks one project at a time, and the locks its cascade took stay to
the end of its transaction.

The read and the locks are separate steps here, and so is every step of another request between
them. A deleted project keeps the name it had last, which no request reads.

## Main definitions

* `advisoryKey`: the lock of a project
* `lockOrder`: the projects of an update, in the order in which it takes their locks
* `LockState.step`: what a request does next
* `LockState.Deadlocked`: requests that wait in a circle for the locks of one another
* `LockState.Keeps`: a step that leaves the requests in flight with an order they agree on

## Main results

* `LockState.Ordered.step`: such a step keeps the requests ordered
* `LockState.not_deadlocked`: no run of such steps comes to a deadlock
* `LockState.deadlocked_of_rename`: a rename between the reads of two requests can
-/

namespace NetBoxScripts

/-! ## The locks -/

/-- `ADVISORY_LOCK_NAMESPACE` -/
def advisoryLockNamespace : ℤ := 770100

/-- `int.from_bytes(digest[:4], byteorder='big', signed=True)`, of a digest in hexadecimal. -/
def signedPrefix (digest : PyStr) : ℤ :=
  let value := (digest.take 8).foldl (fun value c => value * 16 + Json.hexValue c) 0
  if value < 2 ^ 31 then value else value - 2 ^ 32

/-- `advisory_key(storage_key)` -/
def advisoryKey [Hashing] (storageKey : StorageKey) : ℤ × ℤ :=
  (advisoryLockNamespace, signedPrefix (sha256 (encodeAscii (uuidText storageKey))))

/-- The collation of the names, `natural_sort`: which of two names does not come after the
other. -/
structure Collation where
  le : PyStr → PyStr → Bool
  total : ∀ a b, (le a b || le b a) = true
  trans : ∀ a b c, le a b = true → le b c = true → le a c = true

/-- What the locks need of a project's row. A deleted row is kept here, and not read. -/
structure LockedProject where
  name : PyStr
  storageKey : StorageKey
  live : Bool
  deriving DecidableEq, Repr

/-- A request in flight: the projects whose locks it is still to take, in order, and those whose
locks it holds. -/
structure LockRequest where
  /-- whether it deletes its projects, one after another -/
  deletes : Bool
  todo : List ℕ
  held : List ℕ
  /-- the project a deletion has locked and is deleting -/
  current : Option ℕ
  /-- the projects it has deleted and not committed -/
  destroyed : List ℕ
  /-- whether its transaction has ended, so that it only releases what it holds -/
  ended : Bool
  deriving DecidableEq, Repr

/-- The projects by their primary keys, and the requests in the order in which they began. -/
structure LockState where
  projects : ℕ → Option LockedProject
  requests : List LockRequest

/-- What happens next. -/
inductive LockEvent
  /-- an update reads the projects that own the rows it is for -/
  | beginUpdate (selection : List ℕ)
  /-- a deletion reads the projects it is for -/
  | beginDelete (order : List ℕ)
  /-- a request takes its next lock -/
  | acquire (request : ℕ)
  /-- a deletion passes over a project that is no longer there -/
  | skip (request : ℕ)
  /-- a deletion is done with a project, whose lock stays when a cascade took it too -/
  | destroy (request : ℕ) (keeps : Bool)
  /-- a request commits, an update with new names for projects it holds -/
  | commit (request : ℕ) (renames : List (ℕ × PyStr))
  /-- a request rolls back -/
  | abort (request : ℕ)
  /-- a request whose transaction has ended leaves a lock -/
  | release (request : ℕ)
  deriving DecidableEq, Repr

/-! ## The order -/

/-- The name of a project. -/
def nameOf (projects : ℕ → Option LockedProject) (pk : ℕ) : PyStr :=
  ((projects pk).map LockedProject.name).getD []

/-- `order_by('name', 'pk')`: the first does not come after the second. -/
def inNameOrder (collation : Collation) (projects : ℕ → Option LockedProject) (pk other : ℕ) :
    Bool :=
  collation.le (nameOf projects pk) (nameOf projects other) &&
    (!collation.le (nameOf projects other) (nameOf projects pk) || pk ≤ other)

/-- A row that a query finds. -/
def isLive (projects : ℕ → Option LockedProject) (pk : ℕ) : Bool :=
  (projects pk).any LockedProject.live

/-- The query of `_project_locks`: the live projects of a selection, in name order. -/
def lockOrder (collation : Collation) (projects : ℕ → Option LockedProject)
    (selection : List ℕ) : List ℕ :=
  (selection.dedup.filter (isLive projects)).insertionSort fun pk other =>
    inNameOrder collation projects pk other = true

/-- The locks of a request, held ones first, in the order in which it takes them. -/
def LockRequest.locks (request : LockRequest) : List ℕ := request.held ++ request.todo

/-- The project whose lock a request asks for. -/
def LockRequest.wants (request : LockRequest) : Option ℕ :=
  if request.ended || request.current.isSome then none else request.todo.head?

namespace LockState

/-- The lock of a project. -/
def lockOf [Hashing] (s : LockState) (pk : ℕ) : Option (ℤ × ℤ) :=
  (s.projects pk).map fun project => advisoryKey project.storageKey

/-- The project whose lock a request asks for. -/
def wants (s : LockState) (request : ℕ) : Option ℕ := s.requests[request]?.bind LockRequest.wants

/-- The projects whose locks a request holds. -/
def holds (s : LockState) (request : ℕ) : List ℕ :=
  (s.requests[request]?.map LockRequest.held).getD []

/-- Whether no other request holds a lock. -/
def lockFree [Hashing] (s : LockState) (request : ℕ) (lock : Option (ℤ × ℤ)) : Bool :=
  (List.range s.requests.length).all fun other =>
    other = request || (s.holds other).all fun pk => s.lockOf pk ≠ lock

/-- The projects after a commit: new names for live rows, and deleted ones no longer live. -/
def committed (s : LockState) (renames : List (ℕ × PyStr)) (destroyed : List ℕ) :
    ℕ → Option LockedProject := fun pk =>
  (s.projects pk).map fun project =>
    { project with
      name := if project.live then (renames.lookup pk).getD project.name else project.name
      live := project.live && pk ∉ destroyed }

/-- A request that has read its projects. -/
def begins (s : LockState) (deletes : Bool) (order : List ℕ) : LockState :=
  { s with requests := s.requests ++ [⟨deletes, order, [], none, [], false⟩] }

/-- What a request does next. -/
def step [Hashing] (collation : Collation) (s : LockState) : LockEvent → Option LockState
  | .beginUpdate selection => some (s.begins false (lockOrder collation s.projects selection))
  | .beginDelete order =>
    -- Meta.ordering names no second field, so equal names may come in any order
    if order.Nodup ∧ (∀ pk ∈ order, isLive s.projects pk = true) ∧
        order.Pairwise fun pk other =>
          collation.le (nameOf s.projects pk) (nameOf s.projects other) = true
    then some (s.begins true order)
    else none
  | .acquire r => do
    let request ← s.requests[r]?
    let pk ← request.wants
    if s.lockFree r (s.lockOf pk) then
      some { s with requests := s.requests.set r { request with
        todo := request.todo.tail
        held := request.held ++ [pk]
        current := if request.deletes then some pk else none } }
    else none
  | .skip r => do
    let request ← s.requests[r]?
    let pk ← request.wants
    if request.deletes ∧ ¬isLive s.projects pk then
      some { s with requests := s.requests.set r { request with todo := request.todo.tail } }
    else none
  | .destroy r keeps => do
    let request ← s.requests[r]?
    let pk ← request.current
    some { s with requests := s.requests.set r { request with
      held := if keeps then request.held else request.held.erase pk
      current := none
      destroyed := request.destroyed ++ [pk] } }
  | .commit r renames => do
    let request ← s.requests[r]?
    if ¬request.ended ∧ request.todo = [] ∧ request.current = none ∧
        ∀ rename ∈ renames, ¬request.deletes ∧ rename.1 ∈ request.held then
      some ⟨s.committed renames request.destroyed,
        s.requests.set r { request with ended := true }⟩
    else none
  | .abort r => do
    let request ← s.requests[r]?
    if request.ended then none
    else
      some { s with requests := s.requests.set r { request with
        todo := [], current := none, ended := true } }
  | .release r => do
    let request ← s.requests[r]?
    if request.ended then
      some { s with requests := s.requests.set r { request with held := request.held.dropLast } }
    else none

/-- Requests wait in a circle for the locks of one another. -/
def Deadlocked [Hashing] (s : LockState) : Prop :=
  NetBoxScripts.Deadlocked s.wants s.holds s.lockOf

/-! ## The order of a run -/

/-- The first of two projects comes before the other, as their names are now. -/
def Before (collation : Collation) (projects : ℕ → Option LockedProject) (pk other : ℕ) : Prop :=
  inNameOrder collation projects other pk = false

/-- A request takes its locks in name order, as the names are now. -/
def InOrder (collation : Collation) (projects : ℕ → Option LockedProject)
    (request : LockRequest) : Prop :=
  (∀ held ∈ request.held, ∀ pk ∈ request.todo, Before collation projects held pk) ∧
    request.todo.Pairwise (Before collation projects)

/-- No request in flight locks another project under the lock of one of these. -/
def Apart [Hashing] (s : LockState) (order : List ℕ) : Prop :=
  ∀ request ∈ s.requests, ∀ other ∈ request.locks, ∀ pk ∈ order,
    s.lockOf other = s.lockOf pk → other = pk

instance [Hashing] (s : LockState) (order : List ℕ) : Decidable (s.Apart order) :=
  inferInstanceAs (Decidable (∀ request ∈ s.requests, ∀ other ∈ request.locks, ∀ pk ∈ order,
    s.lockOf other = s.lockOf pk → other = pk))

/-- A step that leaves the requests in flight with an order they agree on: what is read is apart
from what they lock, and in name order, and a commit leaves the others in name order. -/
def Keeps [Hashing] (collation : Collation) (s : LockState) : LockEvent → Prop
  | .beginUpdate selection => s.Apart (lockOrder collation s.projects selection)
  | .beginDelete order => s.Apart order ∧ order.Pairwise (Before collation s.projects)
  | .commit r renames => ∀ other request, other ≠ r → s.requests[other]? = some request →
      InOrder collation (s.committed renames []) request
  | _ => True

section Order

variable {collation : Collation} {projects : ℕ → Option LockedProject} {a b c : ℕ}

theorem inNameOrder_total (collation : Collation) (projects : ℕ → Option LockedProject)
    (a b : ℕ) : inNameOrder collation projects a b = true ∨
      inNameOrder collation projects b a = true := by
  have htotal := collation.total (nameOf projects a) (nameOf projects b)
  unfold inNameOrder
  cases hab : collation.le (nameOf projects a) (nameOf projects b) <;>
    cases hba : collation.le (nameOf projects b) (nameOf projects a) <;>
      simp_all [Nat.le_total]

theorem inNameOrder_trans (hab : inNameOrder collation projects a b = true)
    (hbc : inNameOrder collation projects b c = true) :
    inNameOrder collation projects a c = true := by
  simp only [inNameOrder, Bool.and_eq_true, Bool.or_eq_true, Bool.not_eq_true',
    decide_eq_true_eq] at hab hbc ⊢
  refine ⟨collation.trans _ _ _ hab.1 hbc.1, ?_⟩
  by_cases hca : collation.le (nameOf projects c) (nameOf projects a) = true
  · -- names that are not told apart: the keys decide
    have hba := collation.trans _ _ _ hbc.1 hca
    have hcb := collation.trans _ _ _ hca hab.1
    have hle : a ≤ b := hab.2.resolve_left (by simp [hba])
    have hle' : b ≤ c := hbc.2.resolve_left (by simp [hcb])
    exact .inr (hle.trans hle')
  · exact .inl (by simpa using hca)

theorem inNameOrder_antisymm (hab : inNameOrder collation projects a b = true)
    (hba : inNameOrder collation projects b a = true) : a = b := by
  simp only [inNameOrder, Bool.and_eq_true, Bool.or_eq_true, Bool.not_eq_true',
    decide_eq_true_eq] at hab hba
  have hle : a ≤ b := hab.2.resolve_left (by simp [hba.1])
  have hle' : b ≤ a := hba.2.resolve_left (by simp [hab.1])
  omega

theorem before_irrefl (a : ℕ) : ¬Before collation projects a a := by
  have htotal := inNameOrder_total collation projects a a
  simp [Before, or_self_iff.mp htotal]

theorem before_trans (hab : Before collation projects a b) (hbc : Before collation projects b c) :
    Before collation projects a c := by
  unfold Before at *
  by_contra hca
  have hab' := (inNameOrder_total collation projects a b).resolve_right (by simp [hab])
  have hcb := inNameOrder_trans (by simpa using hca) hab'
  simp [hcb] at hbc

/-- What an update reads is in name order. -/
theorem pairwise_lockOrder (selection : List ℕ) :
    (lockOrder collation projects selection).Pairwise (Before collation projects) := by
  have htotal : Std.Total fun pk other => inNameOrder collation projects pk other = true :=
    ⟨inNameOrder_total collation projects⟩
  have htrans : IsTrans ℕ fun pk other => inNameOrder collation projects pk other = true :=
    ⟨fun _ _ _ => inNameOrder_trans⟩
  have hnodup : (lockOrder collation projects selection).Nodup :=
    (List.perm_insertionSort _ _).nodup_iff.mpr ((List.nodup_dedup _).filter _)
  refine (List.pairwise_insertionSort _ _).imp₂ (fun a b hab hne => ?_) hnodup
  exact Bool.eq_false_iff.mpr fun hba => hne (inNameOrder_antisymm hab hba)

end Order

/-! ## Steps -/

section Steps

variable {collation : Collation} {s s' : LockState} {e : LockEvent}

/-- What a request does to its locks: it takes some of those it was to take, and holds no
others. -/
def Advances (request request' : LockRequest) : Prop :=
  ∃ taken, request.todo = taken ++ request'.todo ∧
    ∀ pk ∈ request'.held, pk ∈ request.held ∨ pk ∈ taken

theorem Advances.locks {request request' : LockRequest} (h : Advances request request') :
    request'.locks ⊆ request.locks := by
  obtain ⟨taken, htodo, hheld⟩ := h
  intro pk hpk
  simp only [LockRequest.locks, htodo, List.mem_append] at hpk ⊢
  rcases hpk with hpk | hpk
  · exact (hheld pk hpk).imp id .inl
  · exact .inr (.inr hpk)

theorem Advances.inOrder {projects : ℕ → Option LockedProject} {request request' : LockRequest}
    (h : Advances request request') (horder : InOrder collation projects request) :
    InOrder collation projects request' := by
  obtain ⟨taken, htodo, hheld⟩ := h
  unfold InOrder at horder
  rw [htodo, List.pairwise_append] at horder
  obtain ⟨hbefore, -, hrest, htaken⟩ := horder
  refine ⟨fun held hmem pk hpk => ?_, hrest⟩
  rcases hheld held hmem with hheld | hheld
  · exact hbefore held hheld pk (List.mem_append_right _ hpk)
  · exact htaken held hheld pk hpk

theorem todo_of_wants {request : LockRequest} {pk : ℕ} (h : request.wants = some pk) :
    request.todo = pk :: request.todo.tail := by
  unfold LockRequest.wants at h
  split_ifs at h
  cases htodo : request.todo with
  | nil => simp [htodo] at h
  | cons first rest =>
    obtain rfl : first = pk := by simpa [htodo] using h
    rfl

/-- **What a step does**: a request begins with what it has read, or a request advances; only a
commit changes names, and the locks of no project change. -/
theorem step_cases [Hashing] (h : step collation s e = some s') :
    (∃ deletes order, s' = s.begins deletes order ∧ (s.Keeps collation e → s.Apart order ∧
      order.Pairwise (Before collation s.projects))) ∨
    ∃ r request request', s.requests[r]? = some request ∧
      s'.requests = s.requests.set r request' ∧ Advances request request' ∧
      (s'.projects = s.projects ∨ ∃ renames, e = .commit r renames ∧ request'.todo = [] ∧
          s'.projects = s.committed renames request.destroyed) := by
  cases e with
  | beginUpdate selection =>
    obtain rfl : s.begins false (lockOrder collation s.projects selection) = s' := by
      simpa [step] using h
    exact .inl ⟨false, _, rfl, fun hkeeps => ⟨hkeeps, pairwise_lockOrder selection⟩⟩
  | beginDelete order =>
    simp only [step] at h
    split_ifs at h
    obtain rfl := Option.some.inj h
    exact .inl ⟨true, order, rfl, fun hkeeps => hkeeps⟩
  | acquire r =>
    simp only [step, Option.bind_eq_bind, Option.bind_eq_some_iff,
      Option.ite_none_right_eq_some] at h
    obtain ⟨request, hrequest, pk, hwants, -, h⟩ := h
    obtain rfl := Option.some.inj h
    refine .inr ⟨r, request, _, hrequest, rfl, ⟨[pk], ?_, by simp⟩, .inl rfl⟩
    exact todo_of_wants hwants
  | skip r =>
    simp only [step, Option.bind_eq_bind, Option.bind_eq_some_iff,
      Option.ite_none_right_eq_some] at h
    obtain ⟨request, hrequest, pk, hwants, -, h⟩ := h
    obtain rfl := Option.some.inj h
    refine .inr ⟨r, request, _, hrequest, rfl, ⟨[pk], ?_, fun _ => .inl⟩, .inl rfl⟩
    exact todo_of_wants hwants
  | destroy r keeps =>
    simp only [step, Option.bind_eq_bind, Option.bind_eq_some_iff] at h
    obtain ⟨request, hrequest, pk, -, h⟩ := h
    obtain rfl := Option.some.inj h
    refine .inr ⟨r, request, _, hrequest, rfl, ⟨[], rfl, fun held hheld => .inl ?_⟩, .inl rfl⟩
    split_ifs at hheld
    · exact hheld
    · exact List.mem_of_mem_erase hheld
  | commit r renames =>
    simp only [step, Option.bind_eq_bind, Option.bind_eq_some_iff] at h
    obtain ⟨request, hrequest, h⟩ := h
    split_ifs at h with hends
    obtain rfl := Option.some.inj h
    exact .inr ⟨r, request, _, hrequest, rfl, ⟨[], rfl, fun _ => .inl⟩,
      .inr ⟨renames, rfl, hends.2.1, rfl⟩⟩
  | abort r =>
    simp only [step, Option.bind_eq_bind, Option.bind_eq_some_iff] at h
    obtain ⟨request, hrequest, h⟩ := h
    split_ifs at h
    obtain rfl := Option.some.inj h
    exact .inr ⟨r, request, _, hrequest, rfl, ⟨request.todo, by simp, fun _ => .inl⟩, .inl rfl⟩
  | release r =>
    simp only [step, Option.bind_eq_bind, Option.bind_eq_some_iff] at h
    obtain ⟨request, hrequest, h⟩ := h
    split_ifs at h
    obtain rfl := Option.some.inj h
    exact .inr ⟨r, request, _, hrequest, rfl,
      ⟨[], rfl, fun _ hheld => .inl (List.dropLast_subset _ hheld)⟩, .inl rfl⟩

/-- A commit moves no lock. -/
theorem lockOf_committed [Hashing] (renames : List (ℕ × PyStr)) (destroyed : List ℕ)
    (requests : List LockRequest) (pk : ℕ) :
    lockOf ⟨s.committed renames destroyed, requests⟩ pk = s.lockOf pk := by
  simp [lockOf, committed, Function.comp_def]

/-- What a commit deletes keeps its name. -/
theorem nameOf_committed (renames : List (ℕ × PyStr)) (destroyed : List ℕ) :
    nameOf (s.committed renames destroyed) = nameOf (s.committed renames []) := by
  funext pk
  simp [nameOf, committed, Function.comp_def]

theorem inOrder_congr {projects projects' : ℕ → Option LockedProject} {request : LockRequest}
    (hname : nameOf projects' = nameOf projects) :
    InOrder collation projects' request ↔ InOrder collation projects request := by
  have hbefore : Before collation projects' = Before collation projects := by
    funext pk other
    simp only [Before, inNameOrder, hname]
  simp only [InOrder, hbefore]

end Steps

/-! ## Runs -/

/-- The requests in flight take their locks in name order, and mean the same project by the same
lock. -/
structure Ordered [Hashing] (collation : Collation) (s : LockState) : Prop where
  inOrder : ∀ request ∈ s.requests, InOrder collation s.projects request
  apart : ∀ (i j : ℕ) (request other : LockRequest), i ≠ j → s.requests[i]? = some request →
    s.requests[j]? = some other → ∀ pk ∈ request.locks, ∀ pk' ∈ other.locks,
      s.lockOf pk = s.lockOf pk' → pk = pk'

section Runs

variable [Hashing] {collation : Collation} {s s' : LockState} {e : LockEvent}
  {projects : ℕ → Option LockedProject}

theorem Ordered.start : Ordered collation ⟨projects, []⟩ := ⟨by simp, by simp⟩

/-- A request that begins is ordered, and apart from the others. -/
theorem Ordered.begins (h : Ordered collation s) {deletes : Bool} {order : List ℕ}
    (hapart : s.Apart order) (horder : order.Pairwise (Before collation s.projects)) :
    Ordered collation (s.begins deletes order) := by
  have hget : ∀ {i : ℕ} {request : LockRequest},
      (s.requests ++ [⟨deletes, order, [], none, [], false⟩])[i]? = some request →
        s.requests[i]? = some request ∨
          i = s.requests.length ∧ request = ⟨deletes, order, [], none, [], false⟩ := by
    intro i request hrequest
    rcases Nat.lt_or_ge i s.requests.length with hlt | hge
    · exact .inl (by rwa [List.getElem?_append_left hlt] at hrequest)
    · rw [List.getElem?_append_right hge, List.getElem?_singleton] at hrequest
      split_ifs at hrequest with hzero
      exact .inr ⟨by omega, (Option.some.inj hrequest).symm⟩
  refine ⟨fun request hmem => ?_, fun i j request other hne hi hj pk hpk pk' hpk' hlock => ?_⟩
  · rcases List.mem_append.mp hmem with hmem | hmem
    · exact h.inOrder request hmem
    · obtain rfl := List.mem_singleton.mp hmem
      exact ⟨by simp, horder⟩
  · rcases hget hi with hi | ⟨rfl, rfl⟩ <;> rcases hget hj with hj | ⟨rfl, rfl⟩
    · exact h.apart i j request other hne hi hj pk hpk pk' hpk' hlock
    · exact hapart request (List.mem_of_getElem? hi) pk hpk pk' hpk' hlock
    · exact (hapart other (List.mem_of_getElem? hj) pk' hpk' pk hpk hlock.symm).symm
    · exact absurd rfl hne

/-- A request that advances keeps the others apart. -/
theorem Ordered.apart_set (h : Ordered collation s) {r : ℕ} {request request' : LockRequest}
    (hrequest : s.requests[r]? = some request) (hlocks : request'.locks ⊆ request.locks)
    (i j : ℕ) (one other : LockRequest) (hne : i ≠ j)
    (hi : (s.requests.set r request')[i]? = some one)
    (hj : (s.requests.set r request')[j]? = some other) :
    ∀ pk ∈ one.locks, ∀ pk' ∈ other.locks, s.lockOf pk = s.lockOf pk' → pk = pk' := by
  have hget : ∀ {k : ℕ} {found : LockRequest},
      (s.requests.set r request')[k]? = some found →
        ∃ old, s.requests[k]? = some old ∧ found.locks ⊆ old.locks := by
    intro k found hfound
    rw [List.getElem?_set] at hfound
    split_ifs at hfound with hk hlength
    · obtain rfl := Option.some.inj hfound
      exact ⟨request, hk ▸ hrequest, hlocks⟩
    · exact ⟨found, hfound, fun _ => id⟩
  obtain ⟨one', hone, hsub⟩ := hget hi
  obtain ⟨other', hother, hsub'⟩ := hget hj
  exact fun pk hpk pk' hpk' =>
    h.apart i j one' other' hne hone hother pk (hsub hpk) pk' (hsub' hpk')

/-- **One step** that keeps the order of the requests in flight leaves them ordered. -/
theorem Ordered.step (h : Ordered collation s) (hkeeps : s.Keeps collation e)
    (hstep : s.step collation e = some s') : Ordered collation s' := by
  rcases step_cases hstep with ⟨deletes, order, rfl, hbegins⟩ |
    ⟨r, request, request', hrequest, hset, hadvances, hprojects⟩
  · exact h.begins (hbegins hkeeps).1 (hbegins hkeeps).2
  · obtain ⟨projects', requests'⟩ := s'
    obtain rfl : requests' = s.requests.set r request' := hset
    have hmoved := hadvances.inOrder (h.inOrder request (List.mem_of_getElem? hrequest))
    rcases hprojects with hsame | ⟨renames, rfl, htodo, hcommitted⟩
    · obtain rfl : projects' = s.projects := hsame
      refine ⟨fun found hfound => ?_, h.apart_set hrequest hadvances.locks⟩
      rcases List.mem_or_eq_of_mem_set hfound with hfound | rfl
      · exact h.inOrder found hfound
      · exact hmoved
    · obtain rfl : projects' = s.committed renames request.destroyed := hcommitted
      refine ⟨fun found hfound => ?_, ?_⟩
      · rw [inOrder_congr (nameOf_committed renames request.destroyed)]
        obtain ⟨k, hk⟩ := List.getElem?_of_mem hfound
        rw [List.getElem?_set] at hk
        split_ifs at hk with heq hlength
        · obtain rfl := Option.some.inj hk
          simp [InOrder, htodo]
        · exact hkeeps k found (Ne.symm heq) hk
      · simp only [lockOf_committed]
        exact h.apart_set hrequest hadvances.locks

/-- Ordered requests do not deadlock. -/
theorem Ordered.no_circle (h : Ordered collation s) : ¬s.Deadlocked := by
  have hrequest : ∀ {r pk : ℕ}, pk ∈ s.wants r →
      ∃ request, s.requests[r]? = some request ∧ pk ∈ request.todo := by
    intro r pk hwants
    obtain ⟨request, hrequest, hpk⟩ := Option.bind_eq_some_iff.mp hwants
    exact ⟨request, hrequest, todo_of_wants hpk ▸ List.mem_cons_self⟩
  have hholds : ∀ {r pk : ℕ}, pk ∈ s.holds r →
      ∃ request, s.requests[r]? = some request ∧ pk ∈ request.held := by
    intro r pk hpk
    unfold holds at hpk
    cases hget : s.requests[r]? with
    | none => simp [hget] at hpk
    | some request => exact ⟨request, rfl, by simpa [hget] using hpk⟩
  refine not_deadlocked_of_ordered (Before collation s.projects) (fun _ _ _ => before_trans)
    before_irrefl (fun r pk hwants held hheld => ?_)
    fun r other hne pk hwants held hheld hlock => ?_
  · obtain ⟨request, hget, hpk⟩ := hrequest hwants
    obtain ⟨request', hget', hheld⟩ := hholds hheld
    obtain rfl : request = request' := Option.some.inj (hget.symm.trans hget')
    exact (h.inOrder request (List.mem_of_getElem? hget)).1 held hheld pk hpk
  · obtain ⟨request, hget, hpk⟩ := hrequest hwants
    obtain ⟨request', hget', hheld⟩ := hholds hheld
    exact h.apart other r request' request (Ne.symm hne) hget' hget held
      (List.mem_append_left _ hheld) pk (List.mem_append_right _ hpk) hlock

/-- **No deadlock**: however requests interleave, they never wait in a circle, as long as every
step keeps the order of the requests in flight. -/
theorem not_deadlocked (collation : Collation) (projects : ℕ → Option LockedProject)
    (h : Trace (LockState.step collation) (LockState.Keeps collation) ⟨projects, []⟩ s) :
    ¬s.Deadlocked := by
  have hordered : Ordered collation s :=
    h.invariant .start fun _ _ _ hs hkeeps hstep => hs.step hkeeps hstep
  exact hordered.no_circle

end Runs

/-! ## A rename between two reads -/

/-- The hashes of two storage keys. -/
@[reducible] def twoKeysHashing : Hashing := tableHashing
  [(encodeAscii (py "00000000-0000-0000-0000-000000000001"),
      py "7ac1b8d7010bb6cd3a3e84e7f90136b880bbc899e428ece49333372911ab9052"),
    (encodeAscii (py "00000000-0000-0000-0000-000000000002"),
      py "90d5b0a26955772ebda61cd86cef90ec4f0a4efd29b8a7099df640bc94a8cc0a")]

/-- The order of code points. -/
def codePointOrder : Collation where
  le a b := decide (a ≤ b)
  total a b := by simpa using le_total a b
  trans a b c hab hbc := by
    simp only [decide_eq_true_eq] at hab hbc ⊢
    exact hab.trans hbc

/-- Two projects, `deploy` and `network`. -/
def twoProjects : ℕ → Option LockedProject
  | 1 => some ⟨py "deploy", 1, true⟩
  | 2 => some ⟨py "network", 2, true⟩
  | _ => none

/-- The second project is renamed between the reads of two bulk updates of both. -/
def renamedBetweenReads : List LockEvent :=
  [.beginUpdate [2], .acquire 0, .beginUpdate [1, 2], .acquire 1,
    .commit 0 [(2, py "archive")], .release 0, .beginUpdate [1, 2], .acquire 2]

/-- **A rename** that falls between their reads has two bulk updates take the same locks in
opposite orders. -/
theorem deadlocked_of_rename : ∃ s, Trace (@LockState.step twoKeysHashing codePointOrder)
    (fun _ _ => True) ⟨twoProjects, []⟩ s ∧ @LockState.Deadlocked twoKeysHashing s := by
  have hrun : (Trace.run (@LockState.step twoKeysHashing codePointOrder) (fun _ _ => true)
      ⟨twoProjects, []⟩ renamedBetweenReads).map
        (fun s => (s.wants 1, s.holds 1, s.wants 2, s.holds 2)) =
          some (some 2, [1], some 1, [2]) := by decide
  obtain ⟨s, hs, hlocks⟩ := Option.map_eq_some_iff.mp hrun
  simp only [Prod.mk.injEq] at hlocks
  obtain ⟨hwants, hholds, hwants', hholds'⟩ := hlocks
  have hforth : Waits s.wants s.holds (@lockOf twoKeysHashing s) 1 2 :=
    ⟨by decide, 2, hwants, 2, by simp [hholds'], rfl⟩
  have hback : Waits s.wants s.holds (@lockOf twoKeysHashing s) 2 1 :=
    ⟨by decide, 1, hwants', 1, by simp [hholds], rfl⟩
  exact ⟨s, (Trace.of_run .start hs).mono fun _ _ _ => trivial, 1, .head hforth (.single hback)⟩

/-- Two bulk updates of both projects, of which the second waits for the first. -/
theorem not_deadlocked_of_two_updates : ∃ s, s.wants 1 = some 1 ∧ s.holds 0 = [1] ∧
    ¬@LockState.Deadlocked twoKeysHashing s := by
  let _ := twoKeysHashing
  let first : LockRequest := ⟨false, [1, 2], [], none, [], false⟩
  let second : LockRequest := ⟨false, [2], [1], none, [], false⟩
  have hbegin : step codePointOrder ⟨twoProjects, []⟩ (.beginUpdate [1, 2]) =
      some ⟨twoProjects, [first]⟩ := rfl
  have hacquire : step codePointOrder ⟨twoProjects, [first]⟩ (.acquire 0) =
      some ⟨twoProjects, [second]⟩ := rfl
  have hother : step codePointOrder ⟨twoProjects, [second]⟩ (.beginUpdate [2, 1]) =
      some ⟨twoProjects, [second, first]⟩ := rfl
  have hapart : Apart ⟨twoProjects, [second]⟩ (lockOrder codePointOrder twoProjects [2, 1]) := by
    decide
  refine ⟨_, rfl, rfl, not_deadlocked codePointOrder twoProjects
    (((Trace.start.next ?_ hbegin).next trivial hacquire).next ?_ hother)⟩
  · exact fun request hmem => by simp at hmem
  · exact hapart

end LockState

end NetBoxScripts
