import Blorp.Check.GrowthSearch
import Blorp.Check.PathBoundedness

/-!
# The two growth checks agree

The graph of ordinary dependencies has a control for each parameter and private ones along
each written word.  Each control has the parameter it comes `before` the word and the one
it leads to `after` it (Naming), so that a path of edges is a path of dependencies
(Passes).  Hence

    some dependency wraps a parameter its target reaches   iff   some push of the graph
    can be come back from                                        (pumpFree_iff)

and the two checks reject the same dependencies (ordinary_checks_agree), as long as the
controls are few enough for `bound_instantiation_paths` to answer at all.
-/

namespace Blorp.Check

open Fuel Pushdown

/-- The dependency comes from an ordinary call: it keeps its source or wraps it. -/
def ParameterDependency.Ordinary (dependency : ParameterDependency) : Prop :=
  dependency.traitDerived = false ∧
    ∀ operation ∈ dependency.operations, ∃ slot, operation = .pushConstructor slot

/-! ## Calls of named functions -/

section

variable {target : TypeParameterId} {automatic : List AggregateId} {span : Span}

mutual

theorem appendDependencies_ordinary {dependencies : List ParameterDependency}
    (hdependencies : ∀ dependency ∈ dependencies, dependency.Ordinary) :
    ∀ (type : TypeRef) {operations : List ConstructorOperation},
      (∀ operation ∈ operations, ∃ slot, operation = .pushConstructor slot) →
      ∀ dependency ∈ appendDependencies target false automatic span dependencies type operations,
        dependency.Ordinary
  | .parameterType source, operations, hpushes => by
      rw [appendDependencies]
      intro dependency hdependency
      rcases List.mem_append.mp hdependency with hold | hnew
      · exact hdependencies dependency hold
      · obtain rfl := List.mem_singleton.mp hnew
        exact ⟨rfl, hpushes⟩
  | .voidType, _, _ | .intType, _, _ | .floatType, _, _ | .stringType, _, _ => by
      simpa only [appendDependencies] using hdependencies
  | .listType element, operations, hpushes => by
      rw [appendDependencies]
      exact appendDependencies_ordinary hdependencies element
        (List.forall_mem_cons.mpr ⟨⟨_, rfl⟩, hpushes⟩)
  | .tupleType elements, operations, hpushes => by
      rw [appendDependencies]
      exact appendChildren_ordinary hdependencies _ _ elements hpushes
  | .nominalType owner arguments, operations, hpushes => by
      rw [appendDependencies]
      exact appendChildren_ordinary hdependencies _ _ arguments hpushes
  | .callableType purity parameters result, operations, hpushes => by
      rw [appendDependencies]
      exact appendDependencies_ordinary
        (appendChildren_ordinary hdependencies _ _ parameters hpushes) result
        (List.forall_mem_cons.mpr ⟨⟨_, rfl⟩, hpushes⟩)

theorem appendChildren_ordinary {dependencies : List ParameterDependency}
    (hdependencies : ∀ dependency ∈ dependencies, dependency.Ordinary)
    (slot : Nat → ConstructorSlot) (position : Nat) :
    ∀ (types : List TypeRef) {operations : List ConstructorOperation},
      (∀ operation ∈ operations, ∃ slot, operation = .pushConstructor slot) →
      ∀ dependency ∈ appendChildren target false automatic span dependencies slot position types
        operations, dependency.Ordinary
  | [], _, _ => by simpa only [appendChildren] using hdependencies
  | type :: rest, operations, hpushes => by
      rw [appendChildren]
      exact appendChildren_ordinary (appendDependencies_ordinary hdependencies type
        (List.forall_mem_cons.mpr ⟨⟨_, rfl⟩, hpushes⟩)) slot (position + 1) rest hpushes

end

theorem appendNamedDependencies_ordinary {previous : List ParameterDependency}
    (hprevious : ∀ dependency ∈ previous, dependency.Ordinary) (id : FunctionId)
    (types : List TypeRef) :
    ∀ dependency ∈ appendNamedDependencies previous id types automatic span,
      dependency.Ordinary := by
  unfold appendNamedDependencies
  induction types.zipIdx generalizing previous with
  | nil => exact hprevious
  | cons value rest ih => exact ih (appendDependencies_ordinary hprevious value.1 (by simp))

end

/-! ## Edges between controls -/

def PathEdge (paths : List InstantiationPath) (source target : Int) : Prop :=
  ∃ path ∈ paths, path.source = source ∧ path.target = target

abbrev PathReaches (paths : List InstantiationPath) : Int → Int → Prop :=
  Relation.ReflTransGen (PathEdge paths)

theorem PathReaches.mono {paths more : List InstantiationPath} (hsubset : paths ⊆ more)
    {source target : Int} (h : PathReaches paths source target) :
    PathReaches more source target := by
  have hedges : PathEdge paths ≤ PathEdge more :=
    fun _ _ ⟨path, hpath, hends⟩ => ⟨path, hsubset hpath, hends⟩
  exact Relation.ReflTransGen.mono hedges _ _ h

theorem ahead_iff_pathReaches {paths : List InstantiationPath}
    (hpops : ∀ path ∈ paths, ∀ symbol, path.operation ≠ .popPath symbol) {source target : Int} :
    Ahead (pathSystem paths) source target ↔ PathReaches paths source target := by
  constructor
  · intro h
    have hbalanced : ∀ {c d : Int}, Balanced (pathSystem paths) c d → PathReaches paths c d := by
      intro c d hrun
      induction hrun with
      | refl => exact .refl
      | keep hkeep => exact .single ⟨_, hkeep, rfl, rfl⟩
      | trans _ _ ih₁ ih₂ => exact ih₁.trans ih₂
      | nest _ _ hpop => exact absurd rfl (hpops _ hpop _)
    induction h with
    | balanced hrun => exact hbalanced hrun
    | push hpush => exact .single ⟨_, hpush, rfl, rfl⟩
    | trans _ _ ih₁ ih₂ => exact ih₁.trans ih₂
  · intro h
    induction h with
    | refl => exact .balanced (.refl source)
    | tail _ hedge ih =>
      obtain ⟨⟨first, second, operation⟩, hpath, rfl, rfl⟩ := hedge
      refine ih.trans ?_
      cases operation with
      | keepPath => exact .balanced (.keep hpath)
      | pushPath symbol => exact .push hpath
      | popPath symbol => exact absurd rfl (hpops _ hpath symbol)

/-! ## Parameters of the graph -/

theorem mem_graphParameters {dependencies : List ParameterDependency}
    {dependency : ParameterDependency} (hdependency : dependency ∈ dependencies) :
    dependency.source ∈ graphParameters dependencies ∧
      dependency.target ∈ graphParameters dependencies := by
  let add (parameters : List TypeParameterId) (parameter : TypeParameterId) :=
    if containsParameterId parameters parameter then parameters else parameters ++ [parameter]
  have hadd : ∀ parameters parameter, parameters ⊆ add parameters parameter ∧
      parameter ∈ add parameters parameter := by
    intro parameters parameter
    by_cases hknown : containsParameterId parameters parameter = true
    · simp only [add, hknown, ↓reduceIte]
      exact ⟨List.Subset.refl _, mem_containsParameterId.mp hknown⟩
    · simp only [add, hknown, Bool.false_eq_true, ↓reduceIte]
      exact ⟨List.subset_append_left _ _, by simp⟩
  have hturn : ∀ dependency ∈ dependencies, ∀ parameters : List TypeParameterId,
      parameters ⊆ [dependency.source, dependency.target].foldl add parameters :=
    fun dependency _ parameters => List.Subset.trans (hadd parameters dependency.source).1
      (hadd _ dependency.target).1
  obtain ⟨between, -, hafter⟩ := foldl_visits (r := fun first second => first ⊆ second)
    List.Subset.refl List.Subset.trans dependencies hturn hdependency []
  exact ⟨hafter ((hadd _ dependency.target).1 (hadd between dependency.source).2),
    hafter (hadd _ dependency.target).2⟩

section

variable {parameters : List TypeParameterId} {parameter : TypeParameterId}

theorem parameterIndex_lt (h : parameter ∈ parameters) : 0 ≤ parameterIndex parameters parameter ∧
      parameterIndex parameters parameter < parameters.length := by
  unfold parameterIndex
  have hlt := List.findIdx_lt_length_of_exists (p := fun other => decide (other = parameter))
    ⟨parameter, h, by simp⟩
  omega

theorem getElem?_parameterIndex (h : parameter ∈ parameters) :
    parameters[(parameterIndex parameters parameter).toNat]? = some parameter := by
  have hlt := List.findIdx_lt_length_of_exists (p := fun other => decide (other = parameter))
    ⟨parameter, h, by simp⟩
  have hfirst := List.findIdx_getElem (w := hlt)
  rw [decide_eq_true_eq] at hfirst
  show parameters[parameters.findIdx _]? = _
  rw [List.getElem?_eq_getElem hlt, hfirst]

end

/-! ## Controls along the words -/

/-- The parameter each control comes from, and the one it leads to. -/
structure Naming where
  before : Int → TypeParameterId
  after : Int → TypeParameterId

/-- A parameter's own control comes from it and leads to it. -/
def Naming.Names (naming : Naming) (parameters : List TypeParameterId) : Prop :=
  ∀ parameter ∈ parameters,
    naming.before (parameterIndex parameters parameter) = parameter ∧
      naming.after (parameterIndex parameters parameter) = parameter

def Naming.AgreesBelow (first second : Naming) (bound : Int) : Prop :=
  ∀ control, control < bound →
    first.before control = second.before control ∧ first.after control = second.after control

def Naming.set (naming : Naming) (control : Int) (before after : TypeParameterId) : Naming where
  before other := if other = control then before else naming.before other
  after other := if other = control then after else naming.after other

theorem Naming.set_agrees (naming : Naming) (control : Int) (before after : TypeParameterId) :
    naming.AgreesBelow (naming.set control before after) control := by
  intro other hother
  have hne : other ≠ control := by omega
  simp [Naming.set, hne]

structure Passes (parameters : List TypeParameterId) (naming : Naming)
    (dependency : ParameterDependency) (path : InstantiationPath) : Prop where
  source_before : naming.before path.source = dependency.source
  source_private : (parameters.length : Int) ≤ path.source →
    naming.after path.source = dependency.target
  target_after : naming.after path.target = dependency.target
  target_private : (parameters.length : Int) ≤ path.target →
    naming.before path.target = dependency.source ∧ path.source < path.target
  target_parameter : path.target < (parameters.length : Int) →
    naming.before path.target = dependency.target
  pushes : ∀ symbol, path.operation = .pushPath symbol → dependency.operations ≠ []
  pops : ∀ symbol, path.operation = .popPath symbol →
    ∃ slot, .popConstructor slot ∈ dependency.operations

section

variable {parameters : List TypeParameterId} {naming other : Naming}
  {dependency : ParameterDependency}

variable {bound count : Int} {path : InstantiationPath}

theorem Naming.AgreesBelow.mono {less : Int} (h : naming.AgreesBelow other bound)
    (hle : less ≤ bound) : naming.AgreesBelow other less :=
  fun control hcontrol => h control (by omega)

theorem Naming.AgreesBelow.trans {third : Naming} (h : naming.AgreesBelow other bound)
    (h' : other.AgreesBelow third bound) : naming.AgreesBelow third bound :=
  fun control hcontrol => ⟨(h control hcontrol).1.trans (h' control hcontrol).1,
    (h control hcontrol).2.trans (h' control hcontrol).2⟩

theorem Passes.congr (h : Passes parameters naming dependency path)
    (hagrees : naming.AgreesBelow other bound) (hsource : path.source < bound)
    (htarget : path.target < bound) : Passes parameters other dependency path := by
  obtain ⟨hsourceBefore, hsourceAfter⟩ := hagrees path.source hsource
  obtain ⟨htargetBefore, htargetAfter⟩ := hagrees path.target htarget
  exact ⟨hsourceBefore ▸ h.source_before, fun hle => hsourceAfter ▸ h.source_private hle,
    htargetAfter ▸ h.target_after, fun hle => htargetBefore ▸ h.target_private hle,
    fun hlt => htargetBefore ▸ h.target_parameter hlt, h.pushes, h.pops⟩

theorem validTransition_iff :
    validTransition count path = true ↔ Within count path.source path.target ∧
      (∀ symbol, path.operation = .pushPath symbol → 0 ≤ symbol) ∧
      ∀ symbol, path.operation = .popPath symbol → 0 ≤ symbol := by
  have hwithin : ((decide (path.source ≥ 0) && decide (path.source < count) &&
      (decide (path.target ≥ 0) && decide (path.target < count))) = true) ↔
      Within count path.source path.target := by
    simp only [Bool.and_eq_true, decide_eq_true_eq]
    exact ⟨fun ⟨⟨h₁, h₂⟩, h₃, h₄⟩ => ⟨h₁, h₂, h₃, h₄⟩, fun ⟨h₁, h₂, h₃, h₄⟩ => ⟨⟨h₁, h₂⟩, h₃, h₄⟩⟩
  unfold validTransition
  rw [Bool.and_eq_true, hwithin]
  cases path.operation <;> simp

theorem validTransition_mono {more : Int} (hle : count ≤ more)
    (h : validTransition count path = true) : validTransition more path = true := by
  rw [validTransition_iff] at h ⊢
  obtain ⟨⟨hs, hs', ht, ht'⟩, hsymbols⟩ := h
  exact ⟨⟨hs, by omega, ht, by omega⟩, hsymbols⟩

theorem operation_passes {operation : ConstructorOperation}
    (hoperation : operation ∈ dependency.operations) {source target : Int} (symbol : Nat)
    (hsource : naming.before source = dependency.source)
    (hprivate : (parameters.length : Int) ≤ source → naming.after source = dependency.target)
    (htarget : naming.after target = dependency.target)
    (hbefore : naming.before target =
      if target < (parameters.length : Int) then dependency.target else dependency.source)
    (hlt : (parameters.length : Int) ≤ target → source < target) :
    Passes parameters naming dependency ⟨source, target, operation.path symbol⟩ := by
  refine ⟨hsource, hprivate, htarget, fun hle => ⟨?_, hlt hle⟩, fun hless => ?_, ?_, ?_⟩
  · rw [hbefore, if_neg (Int.not_lt.mpr hle)]
  · rw [hbefore, if_pos hless]
  · intro _ _
    exact List.ne_nil_of_mem hoperation
  · intro _ hpop
    cases operation with
    | pushConstructor slot => cases hpop
    | popConstructor slot => exact ⟨slot, hoperation⟩

theorem validTransition_path {source target : Int} (h : Within count source target)
    (operation : ConstructorOperation) (symbol : Nat) :
    validTransition count ⟨source, target, operation.path symbol⟩ = true := by
  rw [validTransition_iff]
  refine ⟨h, fun found hfound => ?_, fun found hfound => ?_⟩
  · cases operation with
    | pushConstructor slot => cases hfound; exact Int.natCast_nonneg symbol
    | popConstructor slot => cases hfound
  · cases operation with
    | pushConstructor slot => cases hfound
    | popConstructor slot => cases hfound; exact Int.natCast_nonneg symbol

theorem issueOperations_passes (htarget : dependency.target ∈ parameters) :
    ∀ (operations : List ConstructorOperation) (source : Int) (issue : GraphIssue)
      {naming : Naming}, naming.Names parameters →
      (∀ operation ∈ operations, operation ∈ dependency.operations) →
      0 ≤ source → source < issue.controls → (parameters.length : Int) ≤ issue.controls →
      naming.before source = dependency.source →
      ((parameters.length : Int) ≤ source → naming.after source = dependency.target) →
      ∃ last : Naming, naming.AgreesBelow last issue.controls ∧ last.Names parameters ∧
        ∃ added, (issueOperations dependency (parameterIndex parameters dependency.target)
            operations source issue).edges = issue.edges ++ added ∧
          issue.controls ≤ (issueOperations dependency
            (parameterIndex parameters dependency.target) operations source issue).controls ∧
          ∀ edge ∈ added, Passes parameters last dependency edge.path ∧
            validTransition (issueOperations dependency
              (parameterIndex parameters dependency.target) operations source issue).controls
              edge.path = true := by
  intro operations
  induction operations with
  | nil =>
    intro source issue naming hnames _ _ _ _ _ _
    exact ⟨naming, fun _ _ => ⟨rfl, rfl⟩, hnames, [], by simp [issueOperations],
      Int.le_refl _, by simp⟩
  | cons written rest ih =>
    intro source issue naming hnames hoperations hnonneg hlt hle hbefore hafter
    obtain ⟨hindex, hindex'⟩ := parameterIndex_lt htarget
    obtain ⟨hnamed, hnamed'⟩ := hnames dependency.target htarget
    have hwritten := hoperations written List.mem_cons_self
    rw [issueOperations]
    generalize hsymbol : (issue.symbols.findIdx fun existing =>
      decide (existing = written.slot)) = symbol
    cases rest with
    | nil =>
      -- The last operation leads to the target's own control.
      simp only [List.isEmpty_nil, ↓reduceIte, issueOperations]
      refine ⟨naming, fun _ _ => ⟨rfl, rfl⟩, hnames, _, rfl, Int.le_refl _, ?_⟩
      intro edge hedge
      obtain rfl := List.mem_singleton.mp hedge
      refine ⟨operation_passes hwritten symbol hbefore hafter hnamed' ?_ (by omega),
        validTransition_path ⟨hnonneg, hlt, hindex, by omega⟩ written symbol⟩
      rw [hnamed, if_pos hindex']
    | cons second rest =>
      -- Any other leads to a private control that nothing else mentions yet.
      simp only [List.isEmpty_cons, Bool.false_eq_true, ↓reduceIte]
      let marked := naming.set issue.controls dependency.source dependency.target
      have hagrees : naming.AgreesBelow marked issue.controls := naming.set_agrees _ _ _
      have hmarked : marked.Names parameters := by
        intro parameter hparameter
        obtain ⟨hfirst, hsecond⟩ := hnames parameter hparameter
        have hless := (parameterIndex_lt hparameter).2
        obtain ⟨hsame, hsame'⟩ := hagrees (parameterIndex parameters parameter) (by omega)
        exact ⟨hsame ▸ hfirst, hsame' ▸ hsecond⟩
      have hset : marked.before issue.controls = dependency.source ∧
          marked.after issue.controls = dependency.target := by
        simp [marked, Naming.set]
      obtain ⟨last, hlast, hnames', added, hedges, hgrown, hpasses⟩ := ih issue.controls
        ⟨if symbol = issue.symbols.length then issue.symbols ++ [written.slot] else issue.symbols,
          issue.controls + 1, issue.edges ++ [⟨⟨source, issue.controls, written.path symbol⟩,
            dependency.traitDerived, dependency.automatic, dependency.span⟩]⟩ hmarked
        (fun operation hmem => hoperations operation (List.mem_cons_of_mem _ hmem))
        (by omega) (by simp only; omega) (by simp only; omega) hset.1 (fun _ => hset.2)
      simp only at hlast hgrown
      refine ⟨last, hagrees.trans (hlast.mono (by omega)), hnames',
        ⟨⟨source, issue.controls, written.path symbol⟩, dependency.traitDerived,
          dependency.automatic, dependency.span⟩ :: added, ?_, by omega, ?_⟩
      · rw [hedges, List.append_assoc, List.singleton_append]
      · refine List.forall_mem_cons.mpr ⟨⟨?_, ?_⟩, hpasses⟩
        · have hpass : Passes parameters marked dependency
              ⟨source, issue.controls, written.path symbol⟩ := by
            obtain ⟨hsame, hsame'⟩ := hagrees source hlt
            refine operation_passes hwritten symbol (hsame ▸ hbefore)
              (fun hprivate => hsame' ▸ hafter hprivate) hset.2 ?_ (fun _ => hlt)
            rw [hset.1, if_neg (by omega)]
          exact hpass.congr hlast (by simp only; omega) (by simp only; omega)
        · exact validTransition_path ⟨hnonneg, by omega, by omega, by omega⟩ written symbol

/-- What has been issued for the dependencies so far. -/
structure Issued (parameters : List TypeParameterId) (done : List ParameterDependency)
    (issue : GraphIssue) (naming : Naming) : Prop where
  controls_le : (parameters.length : Int) ≤ issue.controls
  names : naming.Names parameters
  valid : ∀ edge ∈ issue.edges, validTransition issue.controls edge.path = true
  passes : ∀ edge ∈ issue.edges, ∃ dependency ∈ done,
    Passes parameters naming dependency edge.path

theorem issueDependency_issued {done : List ParameterDependency} {issue : GraphIssue}
    (h : Issued parameters done issue naming) (hsource : dependency.source ∈ parameters)
    (htarget : dependency.target ∈ parameters) :
    ∃ last, Issued parameters (done ++ [dependency]) (issueDependency parameters issue dependency)
      last := by
  obtain ⟨hs, hs'⟩ := parameterIndex_lt hsource
  obtain ⟨ht, ht'⟩ := parameterIndex_lt htarget
  obtain ⟨hsourceNamed, hsourceNamed'⟩ := h.names _ hsource
  obtain ⟨htargetNamed, htargetNamed'⟩ := h.names _ htarget
  have hcontrols := h.controls_le
  unfold issueDependency
  by_cases hempty : dependency.operations.isEmpty = true
  · simp only [hempty, ↓reduceIte]
    refine ⟨naming, h.controls_le, h.names, fun edge hedge => ?_, fun edge hedge => ?_⟩
    · rcases List.mem_append.mp hedge with hold | hnew
      · exact h.valid edge hold
      · obtain rfl := List.mem_singleton.mp hnew
        rw [validTransition_iff]
        exact ⟨⟨hs, by simp only; omega, ht, by simp only; omega⟩, by simp, by simp⟩
    · rcases List.mem_append.mp hedge with hold | hnew
      · obtain ⟨other, hother, hpasses⟩ := h.passes edge hold
        exact ⟨other, List.mem_append_left _ hother, hpasses⟩
      · obtain rfl := List.mem_singleton.mp hnew
        refine ⟨dependency, by simp, hsourceNamed, fun hle => ?_, htargetNamed', fun hle => ?_,
          fun _ => htargetNamed, by simp, by simp⟩
        all_goals
          simp only at hle
          omega
  · simp only [hempty, Bool.false_eq_true, ↓reduceIte]
    obtain ⟨last, hagrees, hnames, added, hedges, hgrown, hadded⟩ :=
      issueOperations_passes htarget dependency.operations
        (parameterIndex parameters dependency.source) issue h.names (fun _ hmem => hmem) hs
        (by omega) hcontrols hsourceNamed (by omega)
    refine ⟨last, by omega, hnames, fun edge hedge => ?_, fun edge hedge => ?_⟩
    · rw [hedges] at hedge
      rcases List.mem_append.mp hedge with hold | hnew
      · exact validTransition_mono hgrown (h.valid edge hold)
      · exact (hadded edge hnew).2
    · rw [hedges] at hedge
      rcases List.mem_append.mp hedge with hold | hnew
      · obtain ⟨other, hother, hpasses⟩ := h.passes edge hold
        obtain ⟨⟨-, hlt, -, hlt'⟩, -⟩ := validTransition_iff.mp (h.valid edge hold)
        exact ⟨other, List.mem_append_left _ hother, hpasses.congr hagrees hlt hlt'⟩
      · exact ⟨dependency, by simp, (hadded edge hnew).1⟩

theorem issueDependencies_issued : ∀ (rest : List ParameterDependency)
    {done : List ParameterDependency} {issue : GraphIssue} {naming : Naming},
    Issued parameters done issue naming →
    (∀ dependency ∈ rest, dependency.source ∈ parameters ∧ dependency.target ∈ parameters) →
    ∃ last, Issued parameters (done ++ rest) (rest.foldl (issueDependency parameters) issue)
      last := by
  intro rest
  induction rest with
  | nil =>
    intro done issue naming h _
    rw [List.append_nil]
    exact ⟨naming, h⟩
  | cons dependency rest ih =>
    intro done issue naming h hrest
    obtain ⟨hsource, htarget⟩ := hrest dependency List.mem_cons_self
    obtain ⟨next, hnext⟩ := issueDependency_issued h hsource htarget
    have hlast := ih hnext fun other hother => hrest other (List.mem_cons_of_mem _ hother)
    rwa [List.append_assoc, List.singleton_append] at hlast

end

theorem dependencyGraph_issued (dependencies : List ParameterDependency) :
    ∃ naming, Issued (graphParameters dependencies) dependencies
      (dependencies.foldl (issueDependency (graphParameters dependencies))
        ⟨[], (graphParameters dependencies).length, []⟩) naming := by
  let own (control : Int) : TypeParameterId :=
    ((graphParameters dependencies)[control.toNat]?).getD ⟨.functionDeclaration 0, 0⟩
  have hstart : Issued (graphParameters dependencies) []
      ⟨[], (graphParameters dependencies).length, []⟩ ⟨own, own⟩ := by
    refine ⟨Int.le_refl _, fun parameter hparameter => ?_, by simp, by simp⟩
    have hown : own (parameterIndex (graphParameters dependencies) parameter) = parameter := by
      simp [own, getElem?_parameterIndex hparameter]
    exact ⟨hown, hown⟩
  exact issueDependencies_issued dependencies hstart fun dependency hdependency =>
    mem_graphParameters hdependency

/-! ## Words along the edges -/

def GraphIssue.paths (issue : GraphIssue) : List InstantiationPath := issue.edges.map (·.path)

section

variable {parameters : List TypeParameterId} {dependency : ParameterDependency}

theorem issueOperations_grows (target : Int) : ∀ (operations : List ConstructorOperation)
    (source : Int) (issue : GraphIssue),
    issue.paths ⊆ (issueOperations dependency target operations source issue).paths := by
  intro operations
  induction operations with
  | nil => exact fun _ _ => List.Subset.refl _
  | cons written rest ih =>
    intro source issue
    refine List.Subset.trans ?_ (ih _ _)
    simp only [GraphIssue.paths, List.map_append]
    exact List.subset_append_left _ _

theorem issueOperations_leads (dependency : ParameterDependency) (target : Int) : ∀ (rest : List ConstructorOperation)
    (written : ConstructorOperation) (source : Int) (issue : GraphIssue),
    ∃ (symbol : Nat) (next : Int), ⟨source, next, written.path symbol⟩ ∈
        (issueOperations dependency target (written :: rest) source issue).paths ∧
      PathReaches (issueOperations dependency target (written :: rest) source issue).paths next
        target := by
  intro rest
  induction rest with intro written source issue
  | nil =>
    refine ⟨issue.symbols.findIdx fun existing => decide (existing = written.slot), target, ?_,
      .refl⟩
    simp [issueOperations, GraphIssue.paths]
  | cons second rest ih =>
    refine ⟨issue.symbols.findIdx fun existing => decide (existing = written.slot),
      issue.controls, ?_⟩
    rw [issueOperations]
    refine ⟨issueOperations_grows _ _ _ _ (by simp [GraphIssue.paths]), ?_⟩
    obtain ⟨symbol, next, hpath, hreaches⟩ := ih second issue.controls _
    exact Relation.ReflTransGen.head ⟨_, hpath, rfl, rfl⟩ hreaches

theorem issueDependency_grows (issue : GraphIssue) :
    issue.paths ⊆ (issueDependency parameters issue dependency).paths := by
  unfold issueDependency
  split
  · simp only [GraphIssue.paths, List.map_append]
    exact List.subset_append_left _ _
  · exact issueOperations_grows _ _ _ _

theorem issueDependency_leads (parameters : List TypeParameterId)
    (dependency : ParameterDependency) (issue : GraphIssue) :
    PathReaches (issueDependency parameters issue dependency).paths
        (parameterIndex parameters dependency.source)
        (parameterIndex parameters dependency.target) ∧
      (dependency.Ordinary → dependency.operations ≠ [] → ∃ symbol next,
        ⟨parameterIndex parameters dependency.source, next, .pushPath symbol⟩ ∈
          (issueDependency parameters issue dependency).paths ∧
        PathReaches (issueDependency parameters issue dependency).paths next
          (parameterIndex parameters dependency.target)) := by
  unfold issueDependency
  cases hoperations : dependency.operations with
  | nil =>
    refine ⟨.single ⟨⟨parameterIndex parameters dependency.source,
      parameterIndex parameters dependency.target, .keepPath⟩, ?_, rfl, rfl⟩,
      fun _ hne => absurd rfl hne⟩
    simp [GraphIssue.paths]
  | cons written rest =>
    obtain ⟨symbol, next, hpath, hreaches⟩ := issueOperations_leads dependency
      (parameterIndex parameters dependency.target) rest written
      (parameterIndex parameters dependency.source) issue
    refine ⟨.head ⟨_, hpath, rfl, rfl⟩ hreaches, fun hordinary _ => ?_⟩
    obtain ⟨slot, rfl⟩ := hordinary.2 written (hoperations ▸ List.mem_cons_self)
    exact ⟨symbol, next, hpath, hreaches⟩

end

/-! ## Paths of edges are paths of dependencies -/

section

variable {dependencies : List ParameterDependency}

/-- Each dependency leads from its source's control to its target's, by a push first when it
wraps. -/
theorem dependencyGraph_leads {dependency : ParameterDependency}
    (hdependency : dependency ∈ dependencies) :
    PathReaches (dependencyGraph dependencies).paths
        (parameterIndex (graphParameters dependencies) dependency.source)
        (parameterIndex (graphParameters dependencies) dependency.target) ∧
      (dependency.Ordinary → dependency.operations ≠ [] → ∃ symbol next,
        ⟨parameterIndex (graphParameters dependencies) dependency.source, next,
          .pushPath symbol⟩ ∈ (dependencyGraph dependencies).paths ∧
        PathReaches (dependencyGraph dependencies).paths next
          (parameterIndex (graphParameters dependencies) dependency.target)) := by
  have hturn : ∀ dependency ∈ dependencies, ∀ issue : GraphIssue,
      issue.paths ⊆ (issueDependency (graphParameters dependencies) issue dependency).paths :=
    fun _ _ issue => issueDependency_grows issue
  obtain ⟨between, -, hafter⟩ := foldl_visits (r := fun first second : GraphIssue =>
      first.paths ⊆ second.paths) (fun _ => List.Subset.refl _) List.Subset.trans dependencies
    hturn hdependency ⟨[], (graphParameters dependencies).length, []⟩
  obtain ⟨hleads, hpush⟩ :=
    issueDependency_leads (graphParameters dependencies) dependency between
  refine ⟨hleads.mono hafter, fun hordinary hne => ?_⟩
  obtain ⟨symbol, next, hpath, hreaches⟩ := hpush hordinary hne
  exact ⟨symbol, next, hafter hpath, hreaches.mono hafter⟩

theorem pathReaches_of_reaches {source target : TypeParameterId}
    (h : ReachesByCalls dependencies source target) :
    PathReaches (dependencyGraph dependencies).paths
      (parameterIndex (graphParameters dependencies) source)
      (parameterIndex (graphParameters dependencies) target) := by
  induction h with
  | refl => exact .refl
  | tail _ hleads ih =>
    obtain ⟨dependency, hdependency, -, rfl, rfl⟩ := hleads
    exact ih.trans (dependencyGraph_leads hdependency).1

/-- A path of edges goes from what its first control leads to, to what its last one comes from,
unless it stays inside one word. -/
theorem reaches_of_pathReaches (hordinary : ∀ dependency ∈ dependencies, dependency.Ordinary)
    {parameters : List TypeParameterId} {paths : List InstantiationPath} {naming : Naming}
    (hpasses : ∀ path ∈ paths, ∃ dependency ∈ dependencies,
      Passes parameters naming dependency path) {first last : Int}
    (hfirst : first < (parameters.length : Int) → naming.before first = naming.after first)
    (h : PathReaches paths first last) :
    ReachesByCalls dependencies (naming.after first) (naming.before last) ∨
      (parameters.length : Int) ≤ first ∧ (parameters.length : Int) ≤ last ∧ first ≤ last ∧
        naming.after first = naming.after last := by
  induction h with
  | refl =>
    rcases Int.lt_or_le first parameters.length with hlt | hle
    · rw [hfirst hlt]
      exact .inl .refl
    · exact .inr ⟨hle, hle, Int.le_refl _, rfl⟩
  | tail _ hedge ih =>
    obtain ⟨path, hpath, rfl, rfl⟩ := hedge
    obtain ⟨dependency, hdependency, hpass⟩ := hpasses path hpath
    have hleads : Leads dependencies dependency.source dependency.target :=
      ⟨dependency, hdependency, (hordinary dependency hdependency).1, rfl, rfl⟩
    rcases ih with hreaches | ⟨hprivate, hsource, hle, hsame⟩
    · rw [hpass.source_before] at hreaches
      rcases Int.lt_or_le path.target parameters.length with hlt | hge
      · rw [hpass.target_parameter hlt]
        exact .inl (hreaches.tail hleads)
      · rw [(hpass.target_private hge).1]
        exact .inl hreaches
    · rw [hpass.source_private hsource] at hsame
      rcases Int.lt_or_le path.target parameters.length with hlt | hge
      · rw [hpass.target_parameter hlt, hsame]
        exact .inl .refl
      · have hless := (hpass.target_private hge).2
        exact .inr ⟨hprivate, hge, by omega, hsame.trans hpass.target_after.symm⟩

/-- **A push of the graph can be come back from exactly when some dependency grows.** -/
theorem pumpFree_iff (hordinary : ∀ dependency ∈ dependencies, dependency.Ordinary) :
    PumpFree (dependencyGraph dependencies).paths ↔
      ¬ ∃ dependency ∈ dependencies, Grows dependencies dependency := by
  obtain ⟨naming, hissued⟩ := dependencyGraph_issued dependencies
  have hpasses : ∀ path ∈ (dependencyGraph dependencies).paths, ∃ dependency ∈ dependencies,
      Passes (graphParameters dependencies) naming dependency path := by
    intro path hpath
    obtain ⟨edge, hedge, rfl⟩ := List.mem_map.mp hpath
    exact hissued.passes edge hedge
  have hpops : ∀ path ∈ (dependencyGraph dependencies).paths, ∀ symbol,
      path.operation ≠ .popPath symbol := by
    intro path hpath symbol hpop
    obtain ⟨dependency, hdependency, hpass⟩ := hpasses path hpath
    obtain ⟨slot, hslot⟩ := hpass.pops symbol hpop
    obtain ⟨other, hother⟩ := (hordinary dependency hdependency).2 _ hslot
    cases hother
  constructor
  · rintro hfree ⟨dependency, hdependency, -, hne, hreaches⟩
    obtain ⟨symbol, next, hpush, hnext⟩ :=
      (dependencyGraph_leads hdependency).2 (hordinary dependency hdependency) hne
    refine hfree _ symbol next hpush ((ahead_iff_pathReaches hpops).mpr ?_)
    exact hnext.trans (pathReaches_of_reaches hreaches)
  · intro hnone source symbol target hpush hahead
    obtain ⟨dependency, hdependency, hpass⟩ := hpasses _ hpush
    have hreaches := reaches_of_pathReaches hordinary hpasses
      (fun hlt => (hpass.target_parameter hlt).trans hpass.target_after.symm)
      ((ahead_iff_pathReaches hpops).mp hahead)
    rcases hreaches with hgrows | ⟨hprivate, -, hle, -⟩
    · rw [hpass.target_after, hpass.source_before] at hgrows
      exact hnone ⟨dependency, hdependency, (hordinary dependency hdependency).1,
        hpass.pushes symbol rfl, hgrows⟩
    · have hlt := (hpass.target_private hprivate).2
      simp only at hlt hle
      omega

theorem validTransitions_of_forall {count : Int} : ∀ {transitions : List InstantiationPath},
    (∀ transition ∈ transitions, validTransition count transition = true) →
    validTransitions count true transitions = true := by
  intro transitions
  induction transitions with
  | nil => exact fun _ => rfl
  | cons transition rest ih =>
    intro h
    obtain ⟨hfirst, hrest⟩ := List.forall_mem_cons.mp h
    rw [validTransitions, hfirst]
    exact ih hrest

theorem validEntry_dependencyGraph (dependencies : List ParameterDependency) :
    validEntry (dependencyGraph dependencies).controls (dependencyGraph dependencies).paths = true ↔
      (dependencyGraph dependencies).controls * (dependencyGraph dependencies).controls ≤ intMax := by
  obtain ⟨naming, hissued⟩ := dependencyGraph_issued dependencies
  have hnonneg : 0 ≤ (dependencyGraph dependencies).controls :=
    Int.le_trans (Int.natCast_nonneg _) hissued.controls_le
  constructor
  · exact fun hvalid => (validEntry_dense hvalid).1.2
  · intro hsquare
    have hvalid : ∀ path ∈ (dependencyGraph dependencies).paths,
        validTransition (dependencyGraph dependencies).controls path = true := by
      intro path hpath
      obtain ⟨edge, hedge, rfl⟩ := List.mem_map.mp hpath
      exact hissued.valid edge hedge
    unfold validEntry
    have hcount : (if (dependencyGraph dependencies).controls > 0 then
        decide ((dependencyGraph dependencies).controls ≤
          intMax.tdiv (dependencyGraph dependencies).controls)
        else decide ((dependencyGraph dependencies).controls ≥ 0)) = true := by
      split
      · next hpos =>
        rw [decide_eq_true_eq, Int.tdiv_eq_ediv_of_nonneg (by decide)]
        exact (Int.le_ediv_iff_mul_le hpos).mpr hsquare
      · exact decide_eq_true hnonneg
    simp only [hcount]
    exact validTransitions_of_forall hvalid

/-! ## The two checks -/

theorem validateBaseDependencies_ordinary
    (hordinary : ∀ dependency ∈ dependencies, dependency.Ordinary) :
    ∃ outcome, Outcome.Settles (fun n => validateBaseDependencies n dependencies) outcome ∧
      ((∃ error, outcome = .err error) ↔ ∃ dependency ∈ dependencies, Grows dependencies dependency) := by
  obtain ⟨found, hfound, hgrows⟩ :=
    growingDependency_settles dependencies dependencies
  rw [← hgrows]
  cases found with
  | some span =>
    refine ⟨.err (recursionError span .growingRecursiveInstantiation), ?_, by simp⟩
    exact Outcome.Settles.bind_ok hfound.ofEmpty Outcome.Settles.err
  | none =>
    have htraits : dependencies.any (·.traitDerived) = false := by
      rw [List.any_eq_false]
      intro dependency hdependency
      simp [(hordinary dependency hdependency).1]
    refine ⟨.ok (), ?_, by simp⟩
    refine Outcome.Settles.bind_ok hfound.ofEmpty ?_
    simp only [htraits, Bool.false_eq_true, ↓reduceIte]
    exact Outcome.Settles.ok

/-- The boundedness of the graph decides the same, where the graph is a well-formed entry. -/
theorem boundInstantiationPaths_graph
    (hordinary : ∀ dependency ∈ dependencies, dependency.Ordinary) :
    ∃ answer, Outcome.Settles (fun n => boundInstantiationPaths n
        (dependencyGraph dependencies).controls (dependencyGraph dependencies).paths)
        (.ok answer) ∧
      ((dependencyGraph dependencies).controls * (dependencyGraph dependencies).controls ≤ intMax →
        ((∃ marked, answer = some (.unboundedPaths marked)) ↔
          ∃ dependency ∈ dependencies, Grows dependencies dependency)) ∧
      (intMax < (dependencyGraph dependencies).controls * (dependencyGraph dependencies).controls →
        answer = none) := by
  have hvalid := validEntry_dependencyGraph dependencies
  by_cases hsquare : (dependencyGraph dependencies).controls *
      (dependencyGraph dependencies).controls ≤ intMax
  · rcases boundInstantiationPaths_settles (hvalid.mpr hsquare) with ⟨hfree, hrun⟩ |
      ⟨hpump, marked, hrun, -⟩
    · refine ⟨_, hrun, fun _ => ?_, fun hlt => absurd hsquare (by omega)⟩
      exact ⟨by simp, fun hgrows => absurd hgrows ((pumpFree_iff hordinary).mp hfree)⟩
    · refine ⟨_, hrun, fun _ => ?_, fun hlt => absurd hsquare (by omega)⟩
      rw [pumpFree_iff hordinary, not_not] at hpump
      exact ⟨fun _ => hpump, fun _ => ⟨marked, rfl⟩⟩
  · have hnone : ∀ n, boundInstantiationPaths n (dependencyGraph dependencies).controls
        (dependencyGraph dependencies).paths = .ok none := by
      intro n
      unfold boundInstantiationPaths
      rw [if_pos (by simpa using fun h => hsquare (hvalid.mp h))]
    exact ⟨none, .closed 0 (by simp) hnone, fun hle => absurd hle hsquare, fun _ => rfl⟩

/-- **The two checks agree on ordinary calls.**  On dependencies none of which a trait issued,
the growth check reports an error exactly when the paths of the dependency graph are unbounded,
where the square of the graph's controls is an Int; where it is not, the paths have no answer. -/
theorem ordinary_checks_agree (dependencies : List ParameterDependency)
    (hordinary : ∀ dependency ∈ dependencies, dependency.Ordinary) :
    ∃ outcome answer,
      Outcome.Settles (fun n => validateBaseDependencies n dependencies) outcome ∧
      Outcome.Settles (fun n => boundInstantiationPaths n
        (dependencyGraph dependencies).controls (dependencyGraph dependencies).paths)
        (.ok answer) ∧
      ((dependencyGraph dependencies).controls * (dependencyGraph dependencies).controls ≤ intMax →
        ((∃ error, outcome = .err error) ↔ ∃ marked, answer = some (.unboundedPaths marked))) ∧
      (intMax < (dependencyGraph dependencies).controls * (dependencyGraph dependencies).controls →
        answer = none) := by
  obtain ⟨outcome, houtcome, hrejects⟩ := validateBaseDependencies_ordinary hordinary
  obtain ⟨answer, hanswer, hunbounded, hnone⟩ := boundInstantiationPaths_graph hordinary
  exact ⟨outcome, answer, houtcome, hanswer,
    fun hle => hrejects.trans (hunbounded hle).symm, hnone⟩

end

/-- A function that calls itself at a list of its own parameter. -/
theorem ordinary_checks_agree_list : ∃ outcome answer,
      Outcome.Settles (fun n => validateBaseDependencies n
        (appendNamedDependencies [] 0 [.listType (.parameterType ⟨.functionDeclaration 0, 0⟩)] []
          compilerSpan)) outcome ∧
      Outcome.Settles (fun n => boundInstantiationPaths n 1 [⟨0, 0, .pushPath 0⟩]) (.ok answer) ∧
      ((∃ error, outcome = .err error) ↔ ∃ marked, answer = some (.unboundedPaths marked)) := by
  obtain ⟨outcome, answer, houtcome, hanswer, hagree, -⟩ := ordinary_checks_agree
    (appendNamedDependencies [] 0 [.listType (.parameterType ⟨.functionDeclaration 0, 0⟩)] []
      compilerSpan)
    (appendNamedDependencies_ordinary (by simp) 0 _)
  exact ⟨outcome, answer, houtcome, hanswer, hagree (by decide)⟩

/-! ## Too many controls -/

theorem issueOperations_controls (dependency : ParameterDependency) (target : Int) :
    ∀ (rest : List ConstructorOperation) (written : ConstructorOperation) (source : Int)
      (issue : GraphIssue),
      (issueOperations dependency target (written :: rest) source issue).controls =
        issue.controls + rest.length := by
  intro rest
  induction rest with
  | nil =>
    intro written source issue
    simp [issueOperations]
  | cons second rest ih =>
    intro written source issue
    rw [issueOperations, ih]
    simp only [List.isEmpty_cons, Bool.false_eq_true, ↓reduceIte, List.length_cons]
    omega

/-- A function that calls itself at a list of lists, so deep, of its own parameter. -/
def deepDependency (depth : Nat) : ParameterDependency :=
  ⟨⟨.functionDeclaration 0, 0⟩, ⟨.functionDeclaration 0, 0⟩,
    List.replicate (depth + 1) (.pushConstructor .listElement), false, [], compilerSpan⟩

theorem deepDependency_controls (depth : Nat) :
    (dependencyGraph [deepDependency depth]).controls = 1 + depth := by
  show (issueOperations _ _ (List.replicate (depth + 1) _) _ _).controls = _
  rw [List.replicate_succ, issueOperations_controls, List.length_replicate]
  rfl

theorem deepDependency_ordinary (depth : Nat) :
    ∀ dependency ∈ [deepDependency depth], dependency.Ordinary := by
  intro dependency hdependency
  obtain rfl := List.mem_singleton.mp hdependency
  exact ⟨rfl, fun operation hoperation => ⟨_, List.eq_of_mem_replicate hoperation⟩⟩

theorem deepDependency_grows (depth : Nat) : Grows [deepDependency depth] (deepDependency depth) :=
  ⟨rfl, List.ne_nil_of_mem (List.mem_replicate.mpr ⟨Nat.succ_ne_zero depth, rfl⟩), .refl⟩

/-- A word of 3037000500 constructors: the growth check rejects it, and the paths of its graph
have no answer. -/
theorem ordinary_checks_differ : ¬ ∀ dependencies : List ParameterDependency,
      (∀ dependency ∈ dependencies, dependency.Ordinary) →
      ((∃ error, Outcome.Settles (fun n => validateBaseDependencies n dependencies)
          (.err error)) ↔
        ∃ marked, Outcome.Settles (fun n => boundInstantiationPaths n
          (dependencyGraph dependencies).controls (dependencyGraph dependencies).paths)
          (.ok (some (.unboundedPaths marked)))) := by
  intro hagree
  have hordinary := deepDependency_ordinary 3037000499
  obtain ⟨outcome, houtcome, hrejects⟩ := validateBaseDependencies_ordinary hordinary
  obtain ⟨answer, hanswer, -, hnone⟩ := boundInstantiationPaths_graph hordinary
  obtain ⟨error, rfl⟩ := hrejects.mpr ⟨_, List.mem_singleton.mpr rfl, deepDependency_grows _⟩
  obtain ⟨marked, hmarked⟩ := (hagree _ hordinary).mp ⟨error, houtcome⟩
  have hlarge : intMax < (dependencyGraph [deepDependency 3037000499]).controls *
      (dependencyGraph [deepDependency 3037000499]).controls := by
    rw [deepDependency_controls]
    decide
  have hsame := hanswer.unique hmarked
  rw [hnone hlarge] at hsame
  simp at hsame

end Blorp.Check
