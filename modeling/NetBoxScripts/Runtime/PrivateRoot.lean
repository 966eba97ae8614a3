import Mathlib.Data.Prod.Lex
import Mathlib.Logic.Relation
import NetBoxScripts.Storage.Layout

/-!
# The root of the runtime cache

`_ensure_private_root` of `runtime/cache.py` walks down to the cache root one component at a time,
follows the links it meets by hand, creates what is missing, and refuses every directory and link
that another user could replace. The filesystem is static but for the directories it makes.

## Main definitions

* `FileSystem`: what `lstat` says of each place
* `inspect`: one turn of the loop
* `ensurePrivateRoot`: `_ensure_private_root`
* `KernelStep`: how the kernel resolves a path, one component at a time
* `Guarded`: where nobody else can turn the kernel aside

## Main results

* `no_infinite_inspection`: the loop ends
* `ensureFrom_resolves`: what a loop that returns says of the kernel
* `ensurePrivateRoot_guarded`
-/

namespace NetBoxScripts

namespace PrivateRoot

open Layout (IsName)

/-! ## The filesystem -/

/-- A place that no link leads through: its names below `/`, the innermost first. -/
abbrev Place := List PyStr

/-- `stat.S_IFMT`, as far as it is asked for. -/
inductive NodeKind
  | directory
  | symlink (target : PyStr)
  | other
  deriving DecidableEq, Repr

/-- An `os.stat_result`: the owner and the mode's other bits. -/
structure Node where
  kind : NodeKind
  uid : ℕ
  mode : ℕ
  deriving DecidableEq, Repr

/-- `path.lstat()`: `FileNotFoundError`, another `OSError`, or what is there. -/
inductive Lookup
  | absent
  | denied
  | found (node : Node)
  deriving DecidableEq, Repr

/-- A directory is there. -/
def Lookup.isDirectory : Lookup → Bool
  | .found node => node.kind = .directory
  | _ => false

/-- What is at each place: `/` is a directory, and so is what has anything in it. -/
structure FileSystem where
  lstat : Place → Lookup
  root : (lstat []).isDirectory
  parent : ∀ name place node, lstat (name :: place) = .found node → (lstat place).isDirectory

namespace FileSystem

variable (files : FileSystem) {name : PyStr} {place : Place} {node : Node}

/-- The filesystem with a node in a directory that had none of its name. -/
def add (node : Node)
    (h : (files.lstat place).isDirectory ∧ files.lstat (name :: place) = .absent) : FileSystem where
  lstat := Function.update files.lstat (name :: place) (.found node)
  root := by
    rw [Function.update_of_ne (List.cons_ne_nil name place).symm]
    exact files.root
  parent name' place' node' hfound := by
    have hkept : ∀ {above}, (files.lstat above).isDirectory →
        (Function.update files.lstat (name :: place) (.found node) above).isDirectory := by
      intro above habove
      rw [Function.update_of_ne]
      · exact habove
      · rintro rfl
        rw [h.2] at habove
        cases habove
    rw [Function.update_apply] at hfound
    split_ifs at hfound with heq
    · obtain ⟨rfl, rfl⟩ := List.cons.inj heq
      exact hkept h.1
    · exact hkept (files.parent name' place' node' hfound)

/-- `directory.mkdir(mode=0o700, exist_ok=True)`: it raises, or makes a node that the system
chooses. -/
def mkdir (made : Place → Option Node) : Place → Option FileSystem
  | [] => none
  | name :: place =>
    if h : (files.lstat place).isDirectory ∧ files.lstat (name :: place) = .absent then
      (made (name :: place)).map fun node => files.add node h
    else none

variable {files} {made : Place → Option Node} {files' : FileSystem}

/-- What is elsewhere stays. -/
theorem lstat_mkdir_of_ne (h : files.mkdir made place = some files') {other : Place}
    (hne : other ≠ place) : files'.lstat other = files.lstat other := by
  cases place with
  | nil => cases h
  | cons name place =>
    rw [mkdir] at h
    split_ifs at h
    obtain ⟨node, -, rfl⟩ := Option.map_eq_some_iff.mp h
    exact Function.update_of_ne hne _ _

end FileSystem

/-! ## The loop -/

/-- `_MAX_CACHE_SYMLINKS` -/
def maxCacheSymlinks : ℕ := 40

/-- What the `LocalCacheError` is about. -/
inductive RootFailure
  | uninspected (directory : Place)
  | uncreated (directory : Place)
  | foreign (directory : Place)
  | tooManySymlinks
  | notADirectory (directory : Place)
  | writable (directory : Place)
  deriving DecidableEq, Repr

/-- The variables of the loop; `pending` is the stack, its top first. -/
structure Inspection where
  files : FileSystem
  directory : Place
  pending : List PyStr
  symlinks : ℕ

/-- How one turn ends. -/
inductive Turn
  | next (state : Inspection)
  | returned (files : FileSystem)
  | raised (failure : RootFailure)

variable (uid : ℕ) (made : Place → Option Node)

/-- `info.st_uid in trusted_owners` -/
def isTrusted (node : Node) : Bool := node.uid = uid || node.uid = 0

/-- `info.st_mode & (S_IWGRP | S_IWOTH) and not info.st_mode & S_ISVTX` -/
def isShared (node : Node) : Bool := node.mode &&& 0o22 ≠ 0 && node.mode &&& 0o1000 = 0

/-- `_lstat_or_none(directory)`, and the directory that is made where there is none. -/
def lstatOrMade (files : FileSystem) (directory : Place) :
    Except RootFailure (FileSystem × Node) :=
  match files.lstat directory with
  | .denied => .error (.uninspected directory)
  | .found node => .ok (files, node)
  | .absent =>
    match files.mkdir made directory with
    | none => .error (.uncreated directory)
    | some files =>
      match files.lstat directory with
      | .found node => .ok (files, node)
      | _ => .error (.uninspected directory)

/-- Where a link leads from the directory it is in. -/
def linkBase (place : Place) (target : PyStr) : Place :=
  if target.head? = some slash then [] else place

/-- One turn of the loop. -/
def inspect (state : Inspection) : Turn :=
  match lstatOrMade made state.files state.directory with
  | .error failure => .raised failure
  | .ok (files, node) =>
    if isTrusted uid node = false then .raised (.foreign state.directory)
    else
      match node.kind with
      | .symlink target =>
        if state.symlinks + 1 > maxCacheSymlinks then .raised .tooManySymlinks
        else .next ⟨files, linkBase state.directory.tail target,
          realSegments target ++ state.pending, state.symlinks + 1⟩
      | .other => .raised (.notADirectory state.directory)
      | .directory =>
        if isShared node then .raised (.writable state.directory)
        else
          match state.pending with
          | [] => .returned files
          | component :: pending =>
            -- links are followed, so `..` is the physical parent
            let directory := if component = py ".." then state.directory.tail
              else component :: state.directory
            .next ⟨files, directory, pending, state.symlinks⟩

variable {uid made} {state state' : Inspection} {files files' : FileSystem} {node : Node}
  {place : Place}

theorem lstatOrMade_eq_ok (h : lstatOrMade made files place = .ok (files', node)) :
    files'.lstat place = .found node ∧
      (files' = files ∨ files.lstat place = .absent ∧ files.mkdir made place = some files') := by
  unfold lstatOrMade at h
  split at h
  · cases h
  · next hfound =>
    obtain ⟨rfl, rfl⟩ := Prod.mk.inj (Except.ok.inj h)
    exact ⟨hfound, .inl rfl⟩
  · next habsent =>
    split at h
    · cases h
    · next hmade =>
      split at h
      · next hfound =>
        obtain ⟨rfl, rfl⟩ := Prod.mk.inj (Except.ok.inj h)
        exact ⟨hfound, .inr ⟨habsent, hmade⟩⟩
      · cases h

/-- A turn that returns has found a directory of this user's, and nothing is pending. -/
theorem inspect_eq_returned (h : inspect uid made state = .returned files') :
    ∃ node, lstatOrMade made state.files state.directory = .ok (files', node) ∧
      isTrusted uid node ∧ node.kind = .directory ∧ isShared node = false ∧ state.pending = [] := by
  unfold inspect at h
  split at h
  · cases h
  · next files node hlookup =>
    by_cases htrusted : isTrusted uid node
    · rw [if_neg (by simpa using htrusted)] at h
      split at h
      · split_ifs at h
      · cases h
      · next hkind =>
        by_cases hshared : isShared node
        · rw [if_pos hshared] at h
          cases h
        · rw [if_neg hshared] at h
          split at h
          · next hpending =>
            cases h
            exact ⟨node, hlookup, htrusted, hkind, by simpa using hshared, hpending⟩
          · cases h
    · rw [if_pos (by simpa using htrusted)] at h
      cases h

/-- A turn that goes on has followed a link, or taken a component from a directory. -/
theorem inspect_eq_next (h : inspect uid made state = .next state') :
    ∃ files node, lstatOrMade made state.files state.directory = .ok (files, node) ∧
      isTrusted uid node ∧
      ((∃ target, node.kind = .symlink target ∧ state.symlinks < maxCacheSymlinks ∧
          state' = ⟨files, linkBase state.directory.tail target,
            realSegments target ++ state.pending, state.symlinks + 1⟩) ∨
        node.kind = .directory ∧ isShared node = false ∧
          ∃ component pending, state.pending = component :: pending ∧
            state' = ⟨files, if component = py ".." then state.directory.tail
              else component :: state.directory, pending, state.symlinks⟩) := by
  unfold inspect at h
  split at h
  · cases h
  · next files node hlookup =>
    by_cases htrusted : isTrusted uid node
    · rw [if_neg (by simpa using htrusted)] at h
      refine ⟨files, node, hlookup, htrusted, ?_⟩
      split at h
      · next target hkind =>
        split_ifs at h with hlimit
        cases h
        exact .inl ⟨target, hkind, by omega, rfl⟩
      · cases h
      · next hkind =>
        by_cases hshared : isShared node
        · rw [if_pos hshared] at h
          cases h
        · rw [if_neg hshared] at h
          split at h
          · cases h
          · next component pending hpending =>
            cases h
            exact .inr ⟨hkind, by simpa using hshared, component, pending, hpending, rfl⟩
    · rw [if_pos (by simpa using htrusted)] at h
      cases h

/-- The links that may still be followed, and the components that are pending. -/
def remaining (state : Inspection) : ℕ ×ₗ ℕ :=
  toLex (maxCacheSymlinks - state.symlinks, state.pending.length)

/-- **A turn that goes on** spends a link or a component. -/
theorem remaining_lt (h : inspect uid made state = .next state') :
    remaining state' < remaining state := by
  obtain ⟨files, node, -, -, hfollow | hstep⟩ := inspect_eq_next h
  · obtain ⟨target, -, hlimit, rfl⟩ := hfollow
    refine Prod.Lex.toLex_lt_toLex.mpr (.inl ?_)
    dsimp only
    omega
  · obtain ⟨-, -, component, pending, hpending, rfl⟩ := hstep
    refine Prod.Lex.toLex_lt_toLex.mpr (.inr ⟨rfl, ?_⟩)
    rw [hpending, List.length_cons]
    exact Nat.lt_succ_self _

/-- The loop, from one of its states. -/
def ensureFrom (uid : ℕ) (made : Place → Option Node) (state : Inspection) :
    Except RootFailure FileSystem :=
  match _h : inspect uid made state with
  | .returned files => .ok files
  | .raised failure => .error failure
  | .next state => ensureFrom uid made state
termination_by remaining state
decreasing_by exact remaining_lt _h

theorem ensureFrom_of_next (h : inspect uid made state = .next state') :
    ensureFrom uid made state = ensureFrom uid made state' := by
  rw [ensureFrom]
  split
  · next heq => cases h.symm.trans heq
  · next heq => cases h.symm.trans heq
  · next heq =>
    cases h.symm.trans heq
    rfl

theorem ensureFrom_of_returned (h : inspect uid made state = .returned files) :
    ensureFrom uid made state = .ok files := by
  rw [ensureFrom]
  split
  · next heq =>
    cases h.symm.trans heq
    rfl
  · next heq => cases h.symm.trans heq
  · next heq => cases h.symm.trans heq

/-- `_ensure_private_root(root)`, with the directory of the process, unless that is gone. -/
def ensurePrivateRoot (uid : ℕ) (made : Place → Option Node) (files : FileSystem)
    (cwd : Option Place) (root : PyStr) : Except RootFailure FileSystem :=
  if root.head? = some slash then ensureFrom uid made ⟨files, [], realSegments root, 0⟩
  else
    match cwd with
    | none => .error (.uninspected [])
    | some cwd => ensureFrom uid made ⟨files, [], cwd.reverse ++ realSegments root, 0⟩

/-- **The loop ends.** -/
theorem no_infinite_inspection (run : ℕ → Inspection) :
    ¬ ∀ n, inspect uid made (run n) = .next (run (n + 1)) := by
  intro h
  have hnone : ∀ rank n, remaining (run n) = rank → False := by
    intro rank
    induction rank using WellFoundedLT.induction with
    | ind rank ih =>
      rintro n rfl
      exact ih _ (remaining_lt (h n)) (n + 1) rfl
  exact hnone _ 0 rfl

/-! ## The kernel -/

/-- A resolution under way: where it is, and what is left of the path, cut at `/`. -/
structure Resolution where
  files : FileSystem
  place : Place
  rest : List PyStr

/-- One step of the kernel's resolution of a path, and the making of a directory that is missing.
An empty target counts as `.`. -/
inductive KernelStep (made : Place → Option Node) : Resolution → Resolution → Prop
  | stay {files place name rest} (hname : name = [] ∨ name = py ".") :
      KernelStep made ⟨files, place, name :: rest⟩ ⟨files, place, rest⟩
  | up {files place rest} :
      KernelStep made ⟨files, place, py ".." :: rest⟩ ⟨files, place.tail, rest⟩
  | enter {files place name rest} (hname : IsName name)
      (hdirectory : (files.lstat (name :: place)).isDirectory) :
      KernelStep made ⟨files, place, name :: rest⟩ ⟨files, name :: place, rest⟩
  | follow {files place name rest node target} (hname : IsName name)
      (hfound : files.lstat (name :: place) = .found node) (hkind : node.kind = .symlink target) :
      KernelStep made ⟨files, place, name :: rest⟩
        ⟨files, linkBase place target, split target ++ rest⟩
  | create {files files' place name rest} (hname : IsName name)
      (habsent : files.lstat (name :: place) = .absent)
      (hmade : files.mkdir made (name :: place) = some files') :
      KernelStep made ⟨files, place, name :: rest⟩ ⟨files', place, name :: rest⟩

/-- A directory of this user or root that nobody else can change. -/
def Secured (uid : ℕ) (files : FileSystem) (place : Place) : Prop :=
  ∃ node, files.lstat place = .found node ∧ node.kind = .directory ∧ isTrusted uid node ∧
    isShared node = false

/-- **Where nobody else can turn the kernel aside**: the directory it is in is secured, and a link
it is about to follow belongs to this user or root. -/
structure Guarded (uid : ℕ) (resolution : Resolution) : Prop where
  directory : Secured uid resolution.files resolution.place
  symlink : ∀ name rest node target, resolution.rest = name :: rest → IsName name →
    resolution.files.lstat (name :: resolution.place) = .found node →
      node.kind = .symlink target → isTrusted uid node

/-- The kernel is guarded at every step, and comes to an end with the filesystem. -/
structure Resolves (uid : ℕ) (made : Place → Option Node) (files : FileSystem)
    (resolution : Resolution) : Prop where
  guarded : ∀ later, Relation.ReflTransGen (KernelStep made) resolution later → Guarded uid later
  ends : ∃ last, Relation.ReflTransGen (KernelStep made) resolution ⟨files, last, []⟩

theorem Secured.isDirectory (h : Secured uid files place) : (files.lstat place).isDirectory := by
  obtain ⟨node, hfound, hkind, -⟩ := h
  rw [hfound]
  exact decide_eq_true hkind

theorem isDirectory_found : (Lookup.found node).isDirectory ↔ node.kind = .directory := by
  simp [Lookup.isDirectory]

section Resolve

variable {name : PyStr} {rest : List PyStr} {last : FileSystem} {start : Resolution}

theorem not_isName_of_skipped (h : name = [] ∨ name = py ".") : ¬ IsName name := by
  rintro ⟨hne, hdot, -⟩
  exact h.elim hne hdot

/-- What holds here and after every step from here. -/
theorem Resolves.of_steps {next : Resolution} (hguarded : Guarded uid start)
    (hstep : KernelStep made start next) (hnext : Resolves uid made last next)
    (honly : ∀ other, KernelStep made start other → other = next) :
    Resolves uid made last start := by
  constructor
  · intro later hlater
    rcases Relation.ReflTransGen.cases_head hlater with rfl | ⟨other, hother, hrest⟩
    · exact hguarded
    · rw [honly other hother] at hrest
      exact hnext.guarded later hrest
  · obtain ⟨place, hends⟩ := hnext.ends
    exact ⟨place, hends.head hstep⟩

theorem resolves_done (h : Secured uid files place) : Resolves uid made files ⟨files, place, []⟩ := by
  constructor
  · intro later hlater
    rcases Relation.ReflTransGen.cases_head hlater with rfl | ⟨other, hother, -⟩
    · exact ⟨h, nofun⟩
    · cases hother
  · exact ⟨place, .refl⟩

theorem resolves_stay (h : Secured uid files place) (hname : name = [] ∨ name = py ".")
    (hrest : Resolves uid made last ⟨files, place, rest⟩) :
    Resolves uid made last ⟨files, place, name :: rest⟩ := by
  have hnot := not_isName_of_skipped hname
  refine Resolves.of_steps ⟨h, ?_⟩ (.stay hname) hrest fun other hother => ?_
  · rintro _ _ _ _ heq hname'
    obtain ⟨rfl, rfl⟩ := List.cons.inj heq
    exact absurd hname' hnot
  · cases hother with
    | stay => rfl
    | up =>
      rcases hname with hname | hname
      · cases hname
      · cases hname
    | enter hname' => exact absurd hname' hnot
    | follow hname' => exact absurd hname' hnot
    | create hname' => exact absurd hname' hnot

theorem resolves_up (h : Secured uid files place)
    (hrest : Resolves uid made last ⟨files, place.tail, rest⟩) :
    Resolves uid made last ⟨files, place, py ".." :: rest⟩ := by
  have hnot : ¬ IsName (py "..") := fun hname => hname.2.2 rfl
  refine Resolves.of_steps ⟨h, ?_⟩ .up hrest fun other hother => ?_
  · rintro _ _ _ _ heq hname'
    obtain ⟨rfl, rfl⟩ := List.cons.inj heq
    exact absurd hname' hnot
  · generalize hdots : py ".." = dots at hother hnot
    cases hother with
    | stay hname =>
      rw [← hdots] at hname
      rcases hname with hname | hname
      · cases hname
      · cases hname
    | up => rfl
    | enter hname' => exact absurd hname' hnot
    | follow hname' => exact absurd hname' hnot
    | create hname' => exact absurd hname' hnot

/-- From a name that is a directory the kernel goes into it. -/
theorem eq_of_step_enter (hname : IsName name) (hdirectory : (files.lstat (name :: place)).isDirectory)
    {other : Resolution} (h : KernelStep made ⟨files, place, name :: rest⟩ other) :
    other = ⟨files, name :: place, rest⟩ := by
  cases h with
  | stay hskipped => exact absurd hname (not_isName_of_skipped hskipped)
  | up => exact absurd rfl hname.2.2
  | enter => rfl
  | follow _ hfound hkind =>
    rw [hfound, isDirectory_found, hkind] at hdirectory
    cases hdirectory
  | create _ habsent =>
    rw [habsent] at hdirectory
    cases hdirectory

theorem resolves_enter (h : Secured uid files place) (hname : IsName name)
    (hdirectory : (files.lstat (name :: place)).isDirectory)
    (hrest : Resolves uid made last ⟨files, name :: place, rest⟩) :
    Resolves uid made last ⟨files, place, name :: rest⟩ := by
  refine Resolves.of_steps ⟨h, ?_⟩ (.enter hname hdirectory) hrest fun other hother =>
    eq_of_step_enter hname hdirectory hother
  rintro _ _ node target heq - hfound hkind
  obtain ⟨rfl, rfl⟩ := List.cons.inj heq
  rw [hfound, isDirectory_found, hkind] at hdirectory
  cases hdirectory

/-- What follows a directory that the kernel goes into. -/
theorem Resolves.of_enter (hname : IsName name)
    (hdirectory : (files.lstat (name :: place)).isDirectory)
    (h : Resolves uid made last ⟨files, place, name :: rest⟩) :
    Resolves uid made last ⟨files, name :: place, rest⟩ := by
  constructor
  · intro later hlater
    exact h.guarded later (hlater.head (.enter hname hdirectory))
  · obtain ⟨end_, hends⟩ := h.ends
    rcases Relation.ReflTransGen.cases_head hends with heq | ⟨other, hother, hrest⟩
    · cases heq
    · rw [eq_of_step_enter hname hdirectory hother] at hrest
      exact ⟨end_, hrest⟩

theorem resolves_follow {target : PyStr} (h : Secured uid files place) (hname : IsName name)
    (hfound : files.lstat (name :: place) = .found node) (hkind : node.kind = .symlink target)
    (htrusted : isTrusted uid node)
    (hrest : Resolves uid made last ⟨files, linkBase place target, split target ++ rest⟩) :
    Resolves uid made last ⟨files, place, name :: rest⟩ := by
  refine Resolves.of_steps ⟨h, ?_⟩ (.follow hname hfound hkind) hrest fun other hother => ?_
  · rintro _ _ node' target' heq - hfound' -
    obtain ⟨rfl, rfl⟩ := List.cons.inj heq
    obtain rfl := Lookup.found.inj (hfound.symm.trans hfound')
    exact htrusted
  · cases hother with
    | stay hskipped => exact absurd hname (not_isName_of_skipped hskipped)
    | up => exact absurd rfl hname.2.2
    | enter _ hdirectory =>
      rw [hfound, isDirectory_found, hkind] at hdirectory
      cases hdirectory
    | follow _ hfound' hkind' =>
      obtain rfl := Lookup.found.inj (hfound.symm.trans hfound')
      obtain rfl := NodeKind.symlink.inj (hkind.symm.trans hkind')
      rfl
    | create _ habsent => cases hfound.symm.trans habsent

theorem resolves_create {files' : FileSystem} (h : Secured uid files place) (hname : IsName name)
    (habsent : files.lstat (name :: place) = .absent)
    (hmade : files.mkdir made (name :: place) = some files')
    (hrest : Resolves uid made last ⟨files', place, name :: rest⟩) :
    Resolves uid made last ⟨files, place, name :: rest⟩ := by
  refine Resolves.of_steps ⟨h, ?_⟩ (.create hname habsent hmade) hrest fun other hother => ?_
  · rintro _ _ _ _ heq - hfound -
    obtain ⟨rfl, rfl⟩ := List.cons.inj heq
    cases habsent.symm.trans hfound
  · cases hother with
    | stay hskipped => exact absurd hname (not_isName_of_skipped hskipped)
    | up => exact absurd rfl hname.2.2
    | enter _ hdirectory =>
      rw [habsent] at hdirectory
      cases hdirectory
    | follow _ hfound => cases habsent.symm.trans hfound
    | create _ _ hmade' =>
      obtain rfl := Option.some.inj (hmade.symm.trans hmade')
      rfl

/-- The components of a path that `pathlib` keeps. -/
def realParts (rest : List PyStr) : List PyStr :=
  rest.filter fun name => name ≠ [] ∧ name ≠ py "."

theorem realParts_cons_of_skipped (h : name = [] ∨ name = py ".") :
    realParts (name :: rest) = realParts rest := by
  rw [realParts, List.filter_cons_of_neg]
  · rfl
  · rcases h with rfl | rfl
    · decide
    · decide

theorem realParts_cons_of_kept (h : ¬ (name = [] ∨ name = py ".")) :
    realParts (name :: rest) = name :: realParts rest := by
  rw [realParts, List.filter_cons_of_pos]
  · rfl
  · simpa [not_or] using h

/-- With nothing but `.` left the kernel stays where it is. -/
theorem resolves_of_realParts_nil (h : Secured uid files place) (hrest : realParts rest = []) :
    Resolves uid made files ⟨files, place, rest⟩ := by
  induction rest with
  | nil => exact resolves_done h
  | cons name rest ih =>
    by_cases hname : name = [] ∨ name = py "."
    · rw [realParts_cons_of_skipped hname] at hrest
      exact resolves_stay h hname (ih hrest)
    · rw [realParts_cons_of_kept hname] at hrest
      cases hrest

/-- The kernel passes over `.` to the next component. -/
theorem resolves_of_realParts_cons {component : PyStr} {parts : List PyStr}
    (h : Secured uid files place) (hrest : realParts rest = component :: parts)
    (hnext : ∀ later, realParts later = parts →
      Resolves uid made last ⟨files, place, component :: later⟩) :
    Resolves uid made last ⟨files, place, rest⟩ := by
  induction rest with
  | nil => cases hrest
  | cons name rest ih =>
    by_cases hname : name = [] ∨ name = py "."
    · rw [realParts_cons_of_skipped hname] at hrest
      exact resolves_stay h hname (ih hrest)
    · rw [realParts_cons_of_kept hname] at hrest
      obtain ⟨rfl, rfl⟩ := List.cons.inj hrest
      exact hnext rest rfl

/-- The directory above one is one. -/
theorem isDirectory_tail (h : (files.lstat place).isDirectory) :
    (files.lstat place.tail).isDirectory := by
  cases place with
  | nil => exact h
  | cons name place =>
    cases hfound : files.lstat (name :: place) with
    | found node => exact files.parent name place node hfound
    | absent =>
      rw [hfound] at h
      cases h
    | denied =>
      rw [hfound] at h
      cases h

theorem isDirectory_linkBase {target : PyStr} (h : (files.lstat place).isDirectory) :
    (files.lstat (linkBase place target)).isDirectory := by
  rw [linkBase]
  split_ifs
  · exact files.root
  · exact h

/-- What is to be shown of a state of the loop: the kernel resolves the pending components from its
directory, and also from above that directory, where it may yet be a link, or missing. -/
structure Resolved (uid : ℕ) (made : Place → Option Node) (last : FileSystem)
    (state : Inspection) : Prop where
  inside : ∀ rest, realParts rest = state.pending →
    (state.files.lstat state.directory).isDirectory →
      Resolves uid made last ⟨state.files, state.directory, rest⟩
  above : ∀ rest, realParts rest = state.pending → ∀ name place,
    state.directory = name :: place → IsName name → Secured uid state.files place →
      Resolves uid made last ⟨state.files, place, name :: rest⟩

/-- A turn that finds a directory of this user's, where the kernel goes on from it. -/
theorem Resolved.of_directory
    (hlookup : lstatOrMade made state.files state.directory = .ok (files, node))
    (hkind : node.kind = .directory)
    (hnext : ∀ rest, realParts rest = state.pending →
      Resolves uid made last ⟨files, state.directory, rest⟩) :
    Resolved uid made last state := by
  obtain ⟨hfound, hfiles⟩ := lstatOrMade_eq_ok hlookup
  have hdirectory : (files.lstat state.directory).isDirectory := by
    rw [hfound, isDirectory_found]
    exact hkind
  constructor
  · intro rest hrest hthere
    rcases hfiles with rfl | ⟨habsent, -⟩
    · exact hnext rest hrest
    · rw [habsent] at hthere
      cases hthere
  · intro rest hrest name place hplace hname hsecured
    have hrest := hnext rest hrest
    rw [hplace] at hrest hdirectory hfiles
    rcases hfiles with rfl | ⟨habsent, hmade⟩
    · exact resolves_enter hsecured hname hdirectory hrest
    · refine resolves_create hsecured hname habsent hmade ?_
      refine resolves_enter ?_ hname hdirectory hrest
      rw [Secured, FileSystem.lstat_mkdir_of_ne hmade (List.cons_ne_self name place).symm]
      exact hsecured

/-- A turn that finds a link of this user's. -/
theorem Resolved.of_symlink {target : PyStr}
    (hlookup : lstatOrMade made state.files state.directory = .ok (files, node))
    (hkind : node.kind = .symlink target) (htrusted : isTrusted uid node)
    (hnext : Resolved uid made last ⟨files, linkBase state.directory.tail target,
      realSegments target ++ state.pending, state.symlinks + 1⟩) :
    Resolved uid made last state := by
  obtain ⟨hfound, hfiles⟩ := lstatOrMade_eq_ok hlookup
  constructor
  · intro rest hrest hthere
    -- the kernel is in a directory, not in a link
    rcases hfiles with rfl | ⟨habsent, -⟩
    · rw [hfound, isDirectory_found, hkind] at hthere
      cases hthere
    · rw [habsent] at hthere
      cases hthere
  · intro rest hrest name place hplace hname hsecured
    rw [hplace] at hfound hfiles hnext
    have hgo : Secured uid files place → Resolves uid made last ⟨files, place, name :: rest⟩ := by
      intro hsecured
      refine resolves_follow hsecured hname hfound hkind htrusted ?_
      refine hnext.inside _ ?_ (isDirectory_linkBase hsecured.isDirectory)
      rw [← hrest, realParts, List.filter_append]
      rfl
    rcases hfiles with rfl | ⟨habsent, hmade⟩
    · exact hgo hsecured
    · refine resolves_create hsecured hname habsent hmade (hgo ?_)
      rw [Secured, FileSystem.lstat_mkdir_of_ne hmade (List.cons_ne_self name place).symm]
      exact hsecured

/-- **A loop that returns** has gone where the kernel goes, and nobody else can turn that aside. -/
theorem ensureFrom_resolves (h : ensureFrom uid made state = .ok last) :
    Resolved uid made last state := by
  fun_induction ensureFrom uid made state with
  | case1 state files hturn =>
    obtain rfl := Except.ok.inj h
    obtain ⟨node, hlookup, htrusted, hkind, hshared, hpending⟩ := inspect_eq_returned hturn
    refine Resolved.of_directory hlookup hkind fun rest hrest => ?_
    have hfound := (lstatOrMade_eq_ok hlookup).1
    exact resolves_of_realParts_nil ⟨node, hfound, hkind, htrusted, hshared⟩ (hrest.trans hpending)
  | case2 => cases h
  | case3 state state' hturn ih =>
    have hnext := ih h
    obtain ⟨files, node, hlookup, htrusted, hfollow | hstep⟩ := inspect_eq_next hturn
    · obtain ⟨target, hkind, -, rfl⟩ := hfollow
      exact Resolved.of_symlink hlookup hkind htrusted hnext
    · obtain ⟨hkind, hshared, component, pending, hpending, rfl⟩ := hstep
      have hfound := (lstatOrMade_eq_ok hlookup).1
      have hsecured : Secured uid files state.directory := ⟨node, hfound, hkind, htrusted, hshared⟩
      refine Resolved.of_directory hlookup hkind fun rest hrest => ?_
      refine resolves_of_realParts_cons hsecured (hrest.trans hpending) fun later hlater => ?_
      by_cases hdots : component = py ".."
      · subst hdots
        rw [if_pos rfl] at hnext
        exact resolves_up hsecured
          (hnext.inside later hlater (isDirectory_tail hsecured.isDirectory))
      · rw [if_neg hdots] at hnext
        have hmem : component ∈ realParts rest := by
          rw [hrest, hpending]
          exact List.mem_cons_self
        have hkept := (List.mem_filter.mp hmem).2
        rw [decide_eq_true_eq] at hkept
        exact hnext.above later hlater component state.directory rfl ⟨hkept.1, hkept.2, hdots⟩
          hsecured

/-- A resolution that starts at `/` and goes into the directory of the process. -/
theorem Resolves.of_cwd {cwd : Place} (hdirectory : (files.lstat cwd).isDirectory)
    (hnames : ∀ name ∈ cwd, IsName name)
    (h : Resolves uid made last ⟨files, [], cwd.reverse ++ rest⟩) :
    Resolves uid made last ⟨files, cwd, rest⟩ := by
  induction cwd generalizing rest with
  | nil => exact h
  | cons name place ih =>
    rw [List.forall_mem_cons] at hnames
    rw [List.reverse_cons, List.append_assoc] at h
    exact (ih (isDirectory_tail hdirectory) hnames.2 h).of_enter hnames.1 hdirectory

end Resolve

/-- Where the kernel starts to resolve a path. -/
def resolutionOf (files : FileSystem) (cwd : Option Place) (root : PyStr) : Option Resolution :=
  if root.head? = some slash then some ⟨files, [], split root⟩
  else cwd.map fun cwd => ⟨files, cwd, split root⟩

/-- **The cache root is private.** The loop ends; and when the function returns, the kernel resolves
the root, making the directories that are missing, through directories and links that nobody but
this user and root can replace. -/
theorem ensurePrivateRoot_guarded (uid : ℕ) (made : Place → Option Node) (files : FileSystem)
    (cwd : Option Place)
    (hcwd : ∀ place ∈ cwd, (files.lstat place).isDirectory ∧ ∀ name ∈ place, IsName name)
    (root : PyStr) :
    (∀ run : ℕ → Inspection, ¬ ∀ n, inspect uid made (run n) = .next (run (n + 1))) ∧
      ∀ last, ensurePrivateRoot uid made files cwd root = .ok last →
        ∃ start, resolutionOf files cwd root = some start ∧ Resolves uid made last start := by
  refine ⟨no_infinite_inspection, fun last h => ?_⟩
  unfold ensurePrivateRoot at h
  rw [resolutionOf]
  by_cases habsolute : root.head? = some slash
  · rw [if_pos habsolute] at h ⊢
    exact ⟨_, rfl, (ensureFrom_resolves h).inside (split root) rfl files.root⟩
  · rw [if_neg habsolute] at h ⊢
    cases cwd with
    | none => cases h
    | some cwd =>
      obtain ⟨hdirectory, hnames⟩ := hcwd cwd rfl
      refine ⟨_, rfl, Resolves.of_cwd hdirectory hnames ?_⟩
      refine (ensureFrom_resolves h).inside (cwd.reverse ++ split root) ?_ files.root
      have hreal : realParts cwd.reverse = cwd.reverse := by
        refine List.filter_eq_self.mpr fun name hname => ?_
        obtain ⟨hne, hdot, -⟩ := hnames name (List.mem_reverse.mp hname)
        exact decide_eq_true ⟨hne, hdot⟩
      rw [realParts, List.filter_append]
      exact congrArg (· ++ _) hreal

/-! ## A link to a directory that is missing -/

/-- `/var` is root's link to `srv`, and there is nothing else. -/
def linkedFiles : FileSystem where
  lstat place :=
    if place = [] then .found ⟨.directory, 0, 0o755⟩
    else if place = [py "var"] then .found ⟨.symlink (py "srv"), 0, 0o777⟩
    else .absent
  root := rfl
  parent name place node h := by
    by_cases hplace : place = []
    · subst hplace
      rfl
    · have hvar : name :: place ≠ [py "var"] := fun heq => hplace (List.cons.inj heq).2
      rw [if_neg (List.cons_ne_nil name place), if_neg hvar] at h
      cases h

/-- The process owns what it makes. -/
def privateDirectory (_ : Place) : Option Node := some ⟨.directory, 1000, 0o700⟩

/-- The root `/var/cache` is made at `/srv/cache`. -/
theorem ensurePrivateRoot_guarded_linked :
    ∃ last start, resolutionOf linkedFiles none (py "/var/cache") = some start ∧
      Resolves 1000 privateDirectory last start := by
  obtain ⟨last, hlast⟩ : ∃ last,
      ensurePrivateRoot 1000 privateDirectory linkedFiles none (py "/var/cache") = .ok last := by
    have hstart : ensurePrivateRoot 1000 privateDirectory linkedFiles none (py "/var/cache") =
      ensureFrom 1000 privateDirectory ⟨linkedFiles, [], [py "var", py "cache"], 0⟩ := rfl
    -- `/`, the link, `/` again, `/srv` and `/srv/cache`
    exact ⟨_, hstart.trans <| (ensureFrom_of_next rfl).trans <| (ensureFrom_of_next rfl).trans <|
      (ensureFrom_of_next rfl).trans <| (ensureFrom_of_next rfl).trans <|
        ensureFrom_of_returned rfl⟩
  obtain ⟨start, hstart, hresolves⟩ := (ensurePrivateRoot_guarded 1000 privateDirectory linkedFiles
    none nofun (py "/var/cache")).2 last hlast
  exact ⟨last, start, hstart, hresolves⟩

end PrivateRoot

end NetBoxScripts
