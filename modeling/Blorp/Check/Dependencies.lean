import Blorp.Check.Model
import Blorp.Check.InstantiationPaths

/-!
# Instantiation dependencies

The dependencies between type parameters that `check/recursion.brp` reads off calls: the
written constructor path of an argument wraps the parameter inside it, a trait method's
receiver also unwraps one.  Growing instantiation is rejected twice: by reachability
between parameters for ordinary calls, and by the boundedness of the instantiation paths
that the same dependencies issue.

`Bool.and` is an ordinary function, so both its operands are evaluated.
-/

namespace Blorp.Check

open Fuel

inductive ConstructorSlot where
  | listElement
  | nominalArgument (owner : NominalId) (position : Nat)
  | tupleElement (length position : Nat)
  | callableElement (purity : Purity) (parameters position : Nat)
  deriving DecidableEq

inductive ConstructorOperation where
  | pushConstructor (slot : ConstructorSlot)
  | popConstructor (slot : ConstructorSlot)
  deriving DecidableEq

structure ParameterDependency where
  source : TypeParameterId
  target : TypeParameterId
  operations : List ConstructorOperation
  traitDerived : Bool
  automatic : List AggregateId
  span : Span

/-! ## Reading dependencies -/

section

variable (target : TypeParameterId) (traitDerived : Bool) (automatic : List AggregateId)
  (span : Span)

mutual

def appendDependencies (dependencies : List ParameterDependency) :
    TypeRef → List ConstructorOperation → List ParameterDependency
  | .parameterType source, operations =>
      dependencies ++ [⟨source, target, operations, traitDerived, automatic, span⟩]
  | .callableType purity parameters result, operations =>
      let collected := appendChildren dependencies (.callableElement purity parameters.length) 0
        parameters operations
      appendDependencies collected result
        (.pushConstructor (.callableElement purity parameters.length parameters.length) ::
          operations)
  | .tupleType elements, operations =>
      appendChildren dependencies (.tupleElement elements.length) 0 elements operations
  | .listType element, operations =>
      appendDependencies dependencies element (.pushConstructor .listElement :: operations)
  | .nominalType owner arguments, operations =>
      appendChildren dependencies (.nominalArgument owner) 0 arguments operations
  | .voidType, _ | .intType, _ | .floatType, _ | .stringType, _ => dependencies

/-- The children of one constructor from a position on, each under its slot. -/
def appendChildren (dependencies : List ParameterDependency) (slot : Nat → ConstructorSlot)
    (position : Nat) : List TypeRef → List ConstructorOperation → List ParameterDependency
  | [], _ => dependencies
  | child :: rest, operations =>
      let collected := appendDependencies dependencies child
        (.pushConstructor (slot position) :: operations)
      appendChildren collected slot (position + 1) rest operations

end

end

def typeParameterId (owner : TypeParameterOwner) (position : Nat) : TypeParameterId :=
  ⟨owner, position⟩

def appendNamedDependencies (previous : List ParameterDependency) (id : FunctionId)
    (types : List TypeRef) (automatic : List AggregateId) (span : Span) :
    List ParameterDependency :=
  types.zipIdx.foldl (fun dependencies value => appendDependencies
    (typeParameterId (.functionDeclaration id) value.2) false automatic span dependencies value.1
    []) previous

/-! ## The check of ordinary calls -/

def containsParameterId (parameters : List TypeParameterId) (requested : TypeParameterId) : Bool :=
  parameters.any fun parameter => decide (parameter = requested)

/-- The parameters reached so far, and those reached in the last round. -/
structure ParameterSearch where
  reached : List TypeParameterId
  frontier : List TypeParameterId

def reachTarget (current : TypeParameterId) (search : ParameterSearch)
    (dependency : ParameterDependency) : ParameterSearch :=
  if (!dependency.traitDerived && decide (dependency.source = current)) &&
      !containsParameterId search.reached dependency.target then
    ⟨search.reached ++ [dependency.target], search.frontier ++ [dependency.target]⟩
  else search

/-- One round: the targets of the last round's parameters that are new. -/
def searchRound (dependencies : List ParameterDependency) (search : ParameterSearch) :
    ParameterSearch :=
  search.frontier.foldl (fun search current => dependencies.foldl (reachTarget current) search)
    ⟨search.reached, []⟩

/-- Whether a dependency path leads from `start` to `target`. -/
def parameterReaches (fuel : Nat) (start target : TypeParameterId)
    (dependencies : List ParameterDependency) : Outcome Empty Bool := do
  let last ← repeatWhile (fun search : ParameterSearch => !search.frontier.isEmpty)
    (fun search => .ok (searchRound dependencies search)) fuel ⟨[start], [start]⟩
  .ok (containsParameterId last.reached target)

/-! ## The paths that dependencies issue -/

structure IssuedDependency where
  path : InstantiationPath
  traitDerived : Bool
  automatic : List AggregateId
  span : Span

structure DependencyGraph where
  controls : Int
  edges : List IssuedDependency

def parameterIndex (parameters : List TypeParameterId) (requested : TypeParameterId) : Int :=
  parameters.findIdx fun parameter => decide (parameter = requested)

def graphParameters (dependencies : List ParameterDependency) : List TypeParameterId :=
  dependencies.foldl (fun parameters dependency =>
    [dependency.source, dependency.target].foldl (fun parameters parameter =>
      if containsParameterId parameters parameter then parameters
      else parameters ++ [parameter]) parameters) []

/-- The symbols, controls and edges issued so far. -/
structure GraphIssue where
  symbols : List ConstructorSlot
  controls : Int
  edges : List IssuedDependency

def ConstructorOperation.slot : ConstructorOperation → ConstructorSlot
  | .pushConstructor value => value
  | .popConstructor value => value

def ConstructorOperation.path (symbol : Int) : ConstructorOperation → PathOperation
  | .pushConstructor _ => .pushPath symbol
  | .popConstructor _ => .popPath symbol

/-- The rest of a dependency's written word, from the control its beginning led to.  A
private control follows each operation but the last. -/
def issueOperations (dependency : ParameterDependency) (target : Int) :
    List ConstructorOperation → Int → GraphIssue → GraphIssue
  | [], _, issue => issue
  | written :: rest, source, issue =>
      let symbol := issue.symbols.findIdx fun existing => decide (existing = written.slot)
      let symbols := if symbol = issue.symbols.length then issue.symbols ++ [written.slot]
        else issue.symbols
      let next := if rest.isEmpty then target else issue.controls
      let controls := if rest.isEmpty then issue.controls else issue.controls + 1
      issueOperations dependency target rest next ⟨symbols, controls, issue.edges ++
        [⟨⟨source, next, written.path symbol⟩, dependency.traitDerived, dependency.automatic,
          dependency.span⟩]⟩

def issueDependency (parameters : List TypeParameterId) (issue : GraphIssue)
    (dependency : ParameterDependency) : GraphIssue :=
  let source := parameterIndex parameters dependency.source
  let target := parameterIndex parameters dependency.target
  if dependency.operations.isEmpty then
    { issue with
      edges := issue.edges ++ [⟨⟨source, target, .keepPath⟩, dependency.traitDerived,
        dependency.automatic, dependency.span⟩] }
  else issueOperations dependency target dependency.operations source issue

/-- Each genuine parameter receives one control.  Private intermediate controls belong to
one written operation word. -/
def dependencyGraph (dependencies : List ParameterDependency) : DependencyGraph :=
  let parameters := graphParameters dependencies
  let last := dependencies.foldl (issueDependency parameters) ⟨[], parameters.length, []⟩
  ⟨last.controls, last.edges⟩

def DependencyGraph.paths (graph : DependencyGraph) : List InstantiationPath :=
  graph.edges.map (·.path)

def boundDependencies (fuel : Nat) (graph : DependencyGraph) :
    Outcome CheckError PathBoundedness := do
  let bounded ← Outcome.ofEmpty (boundInstantiationPaths fuel graph.controls graph.paths)
  orCheckerInvariant bounded compilerSpan .invalidFunctionContract

/-! ## Validation of the base -/

/-- The first dependency that wraps a parameter its own target reaches.  Ordinary
substitutions contain only pushes, so a nonempty word is exactly the positive-growth
condition. -/
def growingDependency (fuel : Nat) (dependencies : List ParameterDependency) :
    List ParameterDependency → Outcome Empty (Option Span)
  | [] => .ok none
  | dependency :: rest => do
      let reaches ← parameterReaches fuel dependency.target dependency.source dependencies
      if !dependency.traitDerived && (!dependency.operations.isEmpty && reaches) then
        .ok (some dependency.span)
      else growingDependency fuel dependencies rest

def markedTraitEdge (marked : List Int) : List (IssuedDependency × Nat) → Option Span
  | [] => none
  | edge :: rest =>
      if edge.1.traitDerived && marked.any fun found => decide (found = edge.2) then
        some edge.1.span
      else markedTraitEdge marked rest

def validateBaseDependencies (fuel : Nat) (dependencies : List ParameterDependency) :
    Outcome CheckError Unit := do
  let growing ← Outcome.ofEmpty (growingDependency fuel dependencies dependencies)
  match growing with
  | some span => .err (recursionError span .growingRecursiveInstantiation)
  | none => .ok ()
  -- Trait-free inputs need only the existing ordinary check, not closure.
  if dependencies.any (·.traitDerived) then
    let graph := dependencyGraph dependencies
    match ← boundDependencies fuel graph with
    | .boundedPaths => .ok ()
    | .unboundedPaths marked =>
        match markedTraitEdge marked graph.edges.zipIdx with
        | some span => .err (recursionError span .unprovenTraitInstantiation)
        | none => .err (checkerInvariant compilerSpan .invalidFunctionContract)
  else .ok ()

end Blorp.Check
