import NetBoxScripts.Graph.Avoiding
import NetBoxScripts.Python.Dict

/-!
# The shape of a report

What `dialects.py` asks of the classes a module declares: whether one has test methods and no
`run`, and whether its bases leave room for an inherited one. Bases are looked up by their bare
names, so the table of a module may name a class twice, itself, or nothing at all.

## Main definitions

* `basesSupplyRun`: the walk over the bases, guarded by the names on its path
* `hasReportShape`: the verdict on the classes of a module

## Main results

* `basesSupplyRun_eq_true_iff`: the walk finds what some chain of bases reaches
* `hasReportShape_eq_true_iff`: what a report is
-/

namespace NetBoxScripts

/-! ## Classes -/

/-- An expression among the bases of a class. -/
inductive BaseExpr
  | name (id : PyStr)
  | attribute (attr : PyStr)
  | other
  deriving DecidableEq, Repr

/-- A statement of the body of a class. -/
inductive BodyStatement
  | functionDef (name : PyStr)
  | asyncFunctionDef (name : PyStr)
  | other
  deriving DecidableEq, Repr

/-- `ast.ClassDef` -/
structure ClassDef where
  name : PyStr
  bases : List BaseExpr
  body : List BodyStatement
  deriving DecidableEq, Repr

/-- `_method_names(node)` -/
def methodNames (node : ClassDef) : List PyStr :=
  node.body.filterMap fun
    | .functionDef name => some name
    | .asyncFunctionDef name => some name
    | .other => none

/-- `_base_names(node)` -/
def baseNames (node : ClassDef) : List PyStr :=
  node.bases.filterMap fun
    | .name id => some id
    | .attribute attr => some attr
    | .other => none

/-- The methods and the bases of each class, by its name. -/
abbrev ClassTable := Dict (List PyStr × List PyStr)

/-- `_BASES_WITHOUT_RUN` -/
def basesWithoutRun : List PyStr := [py "Report", py "object"]

/-- The names of the table that are not on the path. -/
def unseenNames (classes : ClassTable) (seen : List PyStr) : List PyStr :=
  (classes.map Prod.fst).filter (· ∉ seen)

/-- A path that goes on to a class of the table leaves fewer names. -/
theorem length_unseenNames_lt {classes : ClassTable} {seen : List PyStr} {name : PyStr}
    (hname : (classes.get? name).isSome = true) (hunseen : name ∉ seen) :
    (unseenNames classes (seen ++ [name])).length < (unseenNames classes seen).length := by
  have hfilter : unseenNames classes (seen ++ [name]) =
      (unseenNames classes seen).filter (· ≠ name) := by
    unfold unseenNames
    rw [List.filter_filter]
    refine List.filter_congr fun other _ => ?_
    simp [not_or, and_comm]
  rw [hfilter]
  refine List.length_filter_lt_length_iff_exists.mpr ⟨name, ?_, by simp⟩
  exact List.mem_filter.mpr ⟨Dict.mem_keys_of_isSome hname, decide_eq_true hunseen⟩

/-- `_bases_supply_run(bases, classes, seen)` -/
def basesSupplyRun (bases : List PyStr) (classes : ClassTable) (seen : List PyStr) : Bool :=
  match bases with
  | [] => false
  | name :: rest =>
    if _hseen : name ∈ seen then basesSupplyRun rest classes seen
    else
      match _hclass : classes.get? name with
      | some (methods, inherited) =>
        if py "run" ∈ methods then true
        else if basesSupplyRun inherited classes (seen ++ [name]) then true
        else basesSupplyRun rest classes seen
      | none => if name ∉ basesWithoutRun then true else basesSupplyRun rest classes seen
termination_by ((unseenNames classes seen).length, bases.length)
decreasing_by
  · exact .right _ (Nat.lt_succ_self _)
  · exact .left _ _ (length_unseenNames_lt (by rw [_hclass]; rfl) _hseen)
  · exact .right _ (Nat.lt_succ_self _)
  · exact .right _ (Nat.lt_succ_self _)

/-- The module's classes by name, the last declaration of a name winning. -/
def classTable (nodes : List ClassDef) : ClassTable :=
  nodes.foldl (fun classes node => classes.set node.name (methodNames node, baseNames node)) []

/-- `_has_report_shape(tree)`, of the classes of the tree. -/
def hasReportShape (nodes : List ClassDef) : Bool :=
  nodes.any fun node =>
    !((methodNames node).contains (py "run")) &&
      (methodNames node).any (fun name => (py "test_").isPrefixOf name) &&
      !basesSupplyRun (baseNames node) (classTable nodes) []

/-! ## Chains of bases -/

section Chains

variable {classes : ClassTable} {bases seen : List PyStr} {name other : PyStr}

/-- A declared class names the other among its bases. -/
def Inherits (classes : ClassTable) (name other : PyStr) : Prop :=
  ∃ methods inherited, classes.get? name = some (methods, inherited) ∧ other ∈ inherited

/-- What leaves room for `run`: a declared class that has it, or a name the module does not
declare, other than the two that carry nothing. -/
def SuppliesRun (classes : ClassTable) (name : PyStr) : Prop :=
  match classes.get? name with
  | some (methods, _) => py "run" ∈ methods
  | none => name ∉ basesWithoutRun

theorem suppliesRun_of_class {methods inherited : List PyStr}
    (h : classes.get? name = some (methods, inherited)) :
    SuppliesRun classes name ↔ py "run" ∈ methods := by
  unfold SuppliesRun
  rw [h]

theorem suppliesRun_of_none (h : classes.get? name = none) :
    SuppliesRun classes name ↔ name ∉ basesWithoutRun := by
  unfold SuppliesRun
  rw [h]

/-- The order in which the nodes of a path are kept is of no account. -/
theorem avoiding_append_iff {name : PyStr} {seen : List PyStr} :
    Avoiding (Inherits classes) (SuppliesRun classes) (seen ++ [name]) other ↔
      Avoiding (Inherits classes) (SuppliesRun classes) (name :: seen) other := by
  constructor
  · exact fun h => h.mono fun _ hmem => by simpa [or_comm] using hmem
  · exact fun h => h.mono fun _ hmem => by simpa [or_comm] using hmem

/-- From a declared class a path arrives at its own `run`, or goes on to one of its bases. -/
theorem avoiding_class_iff {methods inherited : List PyStr} (hseen : name ∉ seen)
    (hclass : classes.get? name = some (methods, inherited)) :
    Avoiding (Inherits classes) (SuppliesRun classes) seen name ↔ py "run" ∈ methods ∨
      ∃ base ∈ inherited, Avoiding (Inherits classes) (SuppliesRun classes)
        (seen ++ [name]) base := by
  constructor
  · intro h
    cases h with
    | arrive _ htarget => exact .inl ((suppliesRun_of_class hclass).mp htarget)
    | step _ hstep hrest =>
      obtain ⟨methods', inherited', hclass', hbase⟩ := hstep
      rw [hclass] at hclass'
      obtain ⟨rfl, rfl⟩ := Prod.mk.inj (Option.some.inj hclass')
      exact .inr ⟨_, hbase, avoiding_append_iff.mpr hrest⟩
  · rintro (hrun | ⟨base, hbase, hrest⟩)
    · exact .arrive hseen ((suppliesRun_of_class hclass).mpr hrun)
    · exact .step hseen ⟨methods, inherited, hclass, hbase⟩ (avoiding_append_iff.mp hrest)

/-- A name the module does not declare leads nowhere, so a path ends there. -/
theorem avoiding_undeclared_iff (hseen : name ∉ seen) (hclass : classes.get? name = none) :
    Avoiding (Inherits classes) (SuppliesRun classes) seen name ↔ name ∉ basesWithoutRun := by
  constructor
  · intro h
    cases h with
    | arrive _ htarget => exact (suppliesRun_of_none hclass).mp htarget
    | step _ hstep _ =>
      obtain ⟨methods, inherited, hclass', -⟩ := hstep
      simp [hclass] at hclass'
  · exact fun h => .arrive hseen ((suppliesRun_of_none hclass).mpr h)

/-- A name of the path is passed over. -/
theorem not_avoiding_of_mem (hseen : name ∈ seen) :
    ¬Avoiding (Inherits classes) (SuppliesRun classes) seen name := by
  intro h
  cases h with
  | arrive hunseen _ => exact hunseen hseen
  | step hunseen _ _ => exact hunseen hseen

/-- The walk finds the paths that avoid what it has seen. -/
theorem basesSupplyRun_iff_avoiding (bases : List PyStr) (classes : ClassTable)
    (seen : List PyStr) : basesSupplyRun bases classes seen = true ↔
    ∃ name ∈ bases, Avoiding (Inherits classes) (SuppliesRun classes) seen name := by
  fun_induction basesSupplyRun bases classes seen with
  | case1 seen => simp
  | case2 seen name rest hseen ih => simp [ih, not_avoiding_of_mem hseen]
  | case3 seen name rest hseen methods inherited hclass hrun =>
    simp [avoiding_class_iff hseen hclass, hrun]
  | case4 seen name rest hseen methods inherited hclass hrun hbases ih =>
    simp [avoiding_class_iff hseen hclass, ih.mp hbases]
  | case5 seen name rest hseen methods inherited hclass hrun hbases ihbases ihrest =>
    -- neither the class nor a path through it has one, and the other bases are asked
    simp only [List.mem_cons, exists_eq_or_imp, avoiding_class_iff hseen hclass, ← ihbases]
    simp [hrun, hbases, ihrest]
  | case6 seen name rest hseen hclass hbase =>
    simp [avoiding_undeclared_iff hseen hclass, hbase]
  | case7 seen name rest hseen hclass hbase ih =>
    simp only [List.mem_cons, exists_eq_or_imp, avoiding_undeclared_iff hseen hclass]
    simp [hbase, ih]

/-- **The walk over the bases** ends on every table, and it is true if and only if some chain of
bases leads to a class with `run` or to a name that may carry it. -/
theorem basesSupplyRun_eq_true_iff (bases : List PyStr) (classes : ClassTable) :
    basesSupplyRun bases classes [] = true ↔
      ∃ first ∈ bases, ∃ last, Relation.ReflTransGen (Inherits classes) first last ∧
        SuppliesRun classes last := by
  simp only [basesSupplyRun_iff_avoiding, avoiding_nil_iff]

end Chains

/-! ## The verdict on a module -/

/-- **What a report is**: a class with a test method and no `run`, none of whose bases leads to
one. -/
theorem hasReportShape_eq_true_iff (nodes : List ClassDef) :
    hasReportShape nodes = true ↔ ∃ node ∈ nodes,
      py "run" ∉ methodNames node ∧
      (∃ name ∈ methodNames node, (py "test_").isPrefixOf name = true) ∧
      ∀ first ∈ baseNames node, ∀ last,
        Relation.ReflTransGen (Inherits (classTable nodes)) first last →
          ¬SuppliesRun (classTable nodes) last := by
  simp only [hasReportShape, List.any_eq_true, Bool.and_eq_true, Bool.not_eq_true',
    ← Bool.not_eq_true, basesSupplyRun_eq_true_iff, List.contains_eq_mem, decide_eq_true_eq,
    not_exists, not_and, and_assoc]

end NetBoxScripts
