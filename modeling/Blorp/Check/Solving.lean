import Blorp.Check.EqualityBodies
import Blorp.Check.Inference

/-!
# Equalities of one expression

`check/inference.brp` with every origin a constraint can have, and the equalities that the
worklist of `check/expressions.brp` solves.

The types, slots, heads and the occurs check are those of `Check.Inference`, which has the
equalities of receiver overlap only.
-/

namespace Blorp.Check.Solver

open Fuel

/-! ## Errors -/

inductive ExpectedTypeSite where
  /-- A `SourceAnnotation`. -/
  | annotationSite (span : Span)
  | inferredBindingDeclaration (site : BindingSite)
  | firstArmValue
  | firstIfBranchValue
  | forRangeBound
  | opaqueConstruction (id : OpaqueId)
  | opaqueProjection (id : OpaqueId)

structure ArgumentMismatch where
  expected : TypeRef
  actual : TypeUse
  argumentPosition : Nat
  expectedSite : ExpectedTypeSite

structure ExpressionMismatch where
  expected : TypeRef
  actual : TypeUse
  expectedSite : ExpectedTypeSite

structure InfiniteInference where
  parameter : TypeParameterId
  callSpan : Span
  recursiveType : TypeRef
  expectedSite : ExpectedTypeSite

structure GenericConflict where
  mismatch : ArgumentMismatch
  parameter : TypeParameterId
  previous : TypeUse
  current : TypeUse

inductive CallError where
  | genericArgumentConflict (conflict : GenericConflict)
  | textJoinConflict (conflict : GenericConflict)
  | uninferableTypeParameter (parameter : TypeParameterId)
  | infiniteTypeArgument (infinite : InfiniteInference)

inductive ValueError where
  | expressionTypeMismatch (mismatch : ExpressionMismatch)

/-- The rejections of solving: those of the shared functions, and calls' and values' own. -/
inductive SolverError where
  | checkRejection (error : CheckError)
  /-- The checker invariant of a constructor without the field its constraint is about. -/
  | genericConstructorContract (span : Span)
  | callRejection (span : Span) (error : CallError)
  | valueRejection (span : Span) (error : ValueError)

def shared {α : Type} : Outcome CheckError α → Outcome SolverError α
  | .ok value => .ok value
  | .err error => .err (.checkRejection error)
  | .timeout => .timeout

def orInvariant {α : Type} (value : Option α) (span : Span) (invariant : CheckerInvariant) :
    Outcome SolverError α :=
  shared (liftM (orCheckerInvariant value span invariant))

/-! ## Constraints -/

/-- What a call is scheduled on; the operation and the stored callee are read when the call is
published. -/
inductive PendingCallTarget where
  | pendingRuntime
  | pendingMethod (method : TraitMethodId)
  | pendingDeclared (function : FunctionId)
  | pendingParameter (parameter : CallableParameterId)
  | pendingStored

structure PendingCall where
  target : PendingCallTarget
  signature : FunctionSignature
  span : Span
  variableStart : Nat

structure PendingVariantContract where
  variant : VariantId
  resultType : InferenceType
  fields : List InferenceUse
  span : Span

structure ExpectedValue where
  valueType : TypeRef
  site : ExpectedTypeSite

structure CallResultContext where
  expected : ExpectedValue
  span : Span

inductive ConstraintOrigin where
  | argumentConstraint (call : PendingCall) (position : Nat) (actual : InferenceUse)
      (written : TypeUse)
  | resultConstraint (result : CallResultContext)
  | lambdaConstraint (span : Span)
  | opaqueOperandConstraint (site : ExpectedTypeSite) (span : Span)
  | interpolationConstraint (span : Span)
  | variantConstraint (contract : PendingVariantContract) (position : Nat)
  | recordFieldConstraint (field : FieldId) (expected : InferenceUse) (span : Span)
  | listElementConstraint (position : Nat) (span : Span)
  | receiverOverlapConstraint (span : Span)

inductive InferenceRelation where
  | collectArguments
  | requireEquality

structure InferenceParameterConstraint where
  variableId : InferenceVariableId
  actual : InferenceType

structure InferenceEquality where
  expected : InferenceType
  actual : InferenceType
  origin : ConstraintOrigin
  relation : InferenceRelation
  parameter : Option InferenceParameterConstraint

inductive InferencePublication where
  | completeInference
  | diagnosticInference
  | occursInference (root : InferenceVariableId) (parameter : TypeParameterId)

abbrev CanonicalOperation := TraitMethodId

def ConstraintOrigin.inferenceOriginSpan : ConstraintOrigin → Span
  | .argumentConstraint _ _ actual _ => actual.span
  | .resultConstraint result => result.span
  | .lambdaConstraint span => span
  | .opaqueOperandConstraint _ span => span
  | .interpolationConstraint span => span
  | .variantConstraint contract _ => contract.span
  | .recordFieldConstraint _ _ span => span
  | .listElementConstraint _ span => span
  | .receiverOverlapConstraint span => span

/-! ## Published types -/

/-- The variable asked for names the diagnostic, whichever root it is linked to. -/
def requestedVariable (valueType : InferenceType) (id : InferenceVariableId) :
    InferenceVariableId :=
  match valueType with
  | .callVariable original => original
  | _ => id

def publishVariable (slot : InferenceSlot) (id : InferenceVariableId) :
    InferencePublication → Outcome SolverError TypeRef
  | .completeInference =>
      .err (.callRejection slot.callSpan (.uninferableTypeParameter slot.parameter))
  | .diagnosticInference => .ok (.parameterType slot.parameter)
  | .occursInference root parameter =>
      if root = id then .ok (.parameterType parameter) else .ok (.parameterType slot.parameter)

def publishInferenceType (slots : List InferenceSlot) (publication : InferencePublication)
    (span : Span) : Nat → InferenceType → Outcome SolverError TypeRef
  | 0, _ => .timeout
  | fuel + 1, valueType => do
      match ← shared (inferenceHead slots span fuel valueType) with
      | .acceptedType value => .ok value
      | .callVariable id =>
          let requested := requestedVariable valueType id
          let slot ← orInvariant slots[requested]? span (.invalidInferenceVariable requested)
          publishVariable slot id publication
      | .inferredCallable purity parameters result =>
          let values ← parameters.mapM (publishInferenceType slots publication span fuel)
          let value ← publishInferenceType slots publication span fuel result
          return .callableType purity values value
      | .inferredList element =>
          let value ← publishInferenceType slots publication span fuel element
          return .listType value
      | .inferredTuple arguments =>
          let values ← arguments.mapM (publishInferenceType slots publication span fuel)
          return .tupleType values
      | .inferredNominal owner arguments =>
          let values ← arguments.mapM (publishInferenceType slots publication span fuel)
          return .nominalType owner values

/-! ## Rejections -/

/-- At the canonical add, a String against another type is text joined with `+`. -/
def joinsText (target : PendingCallTarget) (addition : Option CanonicalOperation)
    (first current : TypeRef) : Bool :=
  match target, addition with
  | .pendingMethod method, some canonical =>
      decide (canonical = method) &&
        (decide (first = .stringType) != decide (current = .stringType))
  | _, _ => false

def genericArgumentConflict (fuel : Nat) (call : PendingCall) (position : Nat)
    (occurrence : InferenceUse) (written : TypeUse)
    (parameter : Option InferenceParameterConstraint) (slots : List InferenceSlot)
    (addition : Option CanonicalOperation) : Outcome SolverError SolverError := do
  let constraint ← orInvariant parameter occurrence.span .invalidInferenceWorklist
  let slot ← orInvariant slots[constraint.variableId]? occurrence.span
    (.invalidInferenceVariable constraint.variableId)
  let previous ← orInvariant slot.firstArgument occurrence.span .invalidInferenceWorklist
  let expected ← publishInferenceType slots .diagnosticInference occurrence.span fuel
    (inferenceType call.signature.typeParameters call.variableStart written.valueType)
  let first ← publishInferenceType slots .diagnosticInference previous.span fuel previous.valueType
  let current ←
    publishInferenceType slots .diagnosticInference occurrence.span fuel constraint.actual
  let actualType ←
    publishInferenceType slots .diagnosticInference occurrence.span fuel occurrence.valueType
  let conflict : GenericConflict :=
    { parameter := slot.parameter
      previous := ⟨first, previous.span⟩
      current := ⟨current, occurrence.span⟩
      mismatch :=
        { expected := expected
          actual := ⟨actualType, occurrence.span⟩
          argumentPosition := position
          expectedSite := .annotationSite written.span } }
  if joinsText call.target addition first current then
    return .callRejection occurrence.span (.textJoinConflict conflict)
  else return .callRejection occurrence.span (.genericArgumentConflict conflict)

def inferenceConflict (fuel : Nat) (equality : InferenceEquality) (slots : List InferenceSlot)
    (addition : Option CanonicalOperation) : Outcome SolverError SolverError :=
  match equality.origin with
  | .argumentConstraint call position occurrence written =>
      genericArgumentConflict fuel call position occurrence written equality.parameter slots
        addition
  | origin => shared (.err (checkerInvariant origin.inferenceOriginSpan .invalidInferenceWorklist))

def lambdaConstraintError (fuel : Nat) (equality : InferenceEquality) (slots : List InferenceSlot)
    (span : Span) : Outcome SolverError SolverError := do
  let expected ← publishInferenceType slots .completeInference span fuel equality.expected
  let actual ← publishInferenceType slots .completeInference span fuel equality.actual
  return .valueRejection span (.expressionTypeMismatch
    { expected := expected, actual := ⟨actual, span⟩, expectedSite := .annotationSite span })

def ConstraintOrigin.occursSite (origin : ConstraintOrigin) : Outcome SolverError ExpectedTypeSite :=
  match origin with
  | .argumentConstraint _ _ _ written => .ok (.annotationSite written.span)
  | .resultConstraint result => .ok result.expected.site
  | .lambdaConstraint lambdaSpan => .ok (.annotationSite lambdaSpan)
  | .opaqueOperandConstraint site _ => .ok site
  | .interpolationConstraint holeSpan => .ok (.annotationSite holeSpan)
  | .recordFieldConstraint _ expected _ => .ok (.annotationSite expected.span)
  | .listElementConstraint _ elementSpan => .ok (.annotationSite elementSpan)
  | .receiverOverlapConstraint span =>
      shared (.err (checkerInvariant span .invalidInferenceWorklist))
  | .variantConstraint contract position =>
      match contract.fields[position]? with
      | some field => .ok (.annotationSite field.span)
      | none => .err (.genericConstructorContract contract.span)

def inferenceOccursError (fuel : Nat) (equality : InferenceEquality) (root : InferenceVariableId)
    (value : InferenceType) (slots : List InferenceSlot) : Outcome SolverError SolverError := do
  let span := equality.origin.inferenceOriginSpan
  let originId := (equality.parameter.map (·.variableId)).getD root
  let origin ← orInvariant slots[originId]? span (.invalidInferenceVariable originId)
  let snapshot ←
    publishInferenceType slots (.occursInference root origin.parameter) span fuel value
  let site ← equality.origin.occursSite
  return .callRejection span (.infiniteTypeArgument
    { parameter := origin.parameter
      callSpan := origin.callSpan
      recursiveType := snapshot
      expectedSite := site })

/-! ## One equality -/

/-- Known types are not another variable's identity. -/
def sameUnboundVariable (fuel : Nat) (expected actual : InferenceVariableId)
    (slots : List InferenceSlot) (span : Span) : Outcome SolverError Bool := do
  let left ← shared (inferenceHead slots span fuel (.callVariable expected))
  let right ← shared (inferenceHead slots span fuel (.callVariable actual))
  match left, right with
  | .callVariable expectedRoot, .callVariable actualRoot => return decide (expectedRoot = actualRoot)
  | _, _ => return false

def selfEquation (fuel : Nat) (id : InferenceVariableId) (actual : InferenceType)
    (slots : List InferenceSlot) (span : Span) : Outcome SolverError Bool :=
  match actual with
  | .callVariable actualId =>
      if id = actualId then .ok true else sameUnboundVariable fuel id actualId slots span
  | _ => .ok false

/-- The first argument that is about a parameter alone is kept for its conflicts. -/
def recordArgumentOrigin (fuel : Nat) (equality : InferenceEquality)
    (slots : List InferenceSlot) : Outcome SolverError (Option InferenceSlotUpdate) :=
  match equality.origin, equality.parameter, equality.expected with
  | .argumentConstraint _ _ actual _, none, .callVariable id => do
      if ← selfEquation fuel id equality.actual slots actual.span then return none
      else
        let slot ← orInvariant slots[id]? actual.span (.invalidInferenceVariable id)
        match slot.firstArgument with
        | some _ => return none
        | none =>
            return some ⟨id, { slot with firstArgument := some ⟨equality.actual, actual.span⟩ }⟩
  | _, _, _ => .ok none

inductive InferenceStep where
  | incompatibleResult
  | completeEquality
  | updateInferenceSlots (updates : List InferenceSlotUpdate)
  | expandInferenceList (child : InferenceEquality)
  | expandInferenceArguments (parent : InferenceEquality) (left right : List InferenceType)

def InferenceEquality.constrained (equality : InferenceEquality) : InferenceEquality :=
  match equality.expected with
  | .callVariable id =>
      { equality with
        parameter := equality.parameter.or (some ⟨id, equality.actual⟩)
        relation := .requireEquality }
  | _ => equality

def rejectMismatch (fuel : Nat) (current : InferenceEquality) (slots : List InferenceSlot)
    (addition : Option CanonicalOperation) : Outcome SolverError InferenceStep :=
  match current.relation with
  | .collectArguments => .ok .completeEquality
  | .requireEquality =>
      match current.origin with
      | .lambdaConstraint site => do
          let error ← lambdaConstraintError fuel current slots site
          .err error
      -- The enclosing expression or field owns this mismatch diagnostic.
      | .resultConstraint _ => .ok .incompatibleResult
      | .receiverOverlapConstraint _ => .ok .incompatibleResult
      | .argumentConstraint _ _ _ _ => do
          let error ← inferenceConflict fuel current slots addition
          .err error
      -- Operand freezing owns this mismatch; sibling constraints keep solving.
      | .opaqueOperandConstraint _ _ => .ok .completeEquality
      | .interpolationConstraint _ => .ok .completeEquality
      | .variantConstraint _ _ => .ok .completeEquality
      | .recordFieldConstraint _ _ _ => .ok .completeEquality
      | .listElementConstraint _ _ => .ok .completeEquality

def rejectOccurrence (fuel : Nat) (current : InferenceEquality) (id : InferenceVariableId)
    (value : InferenceType) (slots : List InferenceSlot) : Outcome SolverError InferenceStep :=
  match current.origin with
  | .receiverOverlapConstraint _ => .ok .incompatibleResult
  | _ => do
      let error ← inferenceOccursError fuel current id value slots
      .err error

def inspectInferenceEquality (fuel : Nat) (equality : InferenceEquality)
    (slots : List InferenceSlot) (addition : Option CanonicalOperation) :
    Outcome SolverError InferenceStep := do
  let span := equality.origin.inferenceOriginSpan
  let left ← shared (inferenceHead slots span fuel equality.expected)
  let right ← shared (inferenceHead slots span fuel equality.actual)
  let current := equality.constrained
  match inferenceAction left right with
  | .sameInference => return .completeEquality
  | .mergeInference leftId rightId =>
      let updates ← shared (liftM (linkInferenceVariables leftId rightId slots span))
      return .updateInferenceSlots updates
  | .bindInference id value =>
      let slot ← orInvariant slots[id]? span (.invalidInferenceVariable id)
      if ← shared (inferenceOccurs fuel id value slots span) then
        rejectOccurrence fuel current id value slots
      else return .updateInferenceSlots [⟨id, { slot with state := .boundVariable value }⟩]
  | .callableEquality _ parameters others result other =>
      return .expandInferenceArguments current (parameters ++ [result]) (others ++ [other])
  | .listEquality leftElement rightElement =>
      return .expandInferenceList
        { current with expected := leftElement, actual := rightElement }
  | .nominalEquality _ leftArguments rightArguments =>
      return .expandInferenceArguments current leftArguments rightArguments
  | .tupleEquality leftArguments rightArguments =>
      return .expandInferenceArguments current leftArguments rightArguments
  | .inferenceMismatch => rejectMismatch fuel current slots addition

def inferenceChild (equality : InferenceEquality) (left right : List InferenceType)
    (position : Nat) : Except CheckError InferenceEquality := do
  let sides ← inferencePair left right position equality.origin.inferenceOriginSpan
  return { equality with expected := sides.1, actual := sides.2 }

/-! ## The worklist -/

/-- What solving reads and writes: the pending equalities are the constraints on the work
stack, top first. -/
structure InferenceState where
  slots : List InferenceSlot
  work : List InferenceEquality
  resultIncompatible : Bool
  failure : Option SolverError

/-- Pushes the children below `position`, the first last. -/
def pushChildren (current : InferenceEquality) (left right : List InferenceType) :
    Nat → InferenceState → InferenceState
  | 0, state => state
  | position + 1, state =>
      match inferenceChild current left right position with
      | .error error => { state with failure := some (.checkRejection error) }
      | .ok child => pushChildren current left right position
          { state with work := child :: state.work }

def InferenceStep.applyTo (state : InferenceState) : InferenceStep → InferenceState
  | .incompatibleResult => { state with resultIncompatible := true }
  | .completeEquality => state
  | .updateInferenceSlots updates => { state with slots := applyUpdates state.slots updates }
  | .expandInferenceList child => { state with work := child :: state.work }
  | .expandInferenceArguments current left right =>
      pushChildren current left right left.length state

def InferenceState.skips (state : InferenceState) (equality : InferenceEquality) : Bool :=
  match equality.origin with
  | .resultConstraint _ => state.resultIncompatible
  | _ => false

def InferenceState.orFail {α : Type} (state : InferenceState) (x : Outcome SolverError α)
    (next : α → Outcome Empty InferenceState) : Outcome Empty InferenceState :=
  match x with
  | .ok value => next value
  | .err error => .ok { state with failure := some error }
  | .timeout => .timeout

/-- One `SolveConstraint` of the worklist. -/
def solveConstraint (fuel : Nat) (addition : Option CanonicalOperation)
    (equality : InferenceEquality) (state : InferenceState) : Outcome Empty InferenceState :=
  if state.skips equality then .ok state
  else
    state.orFail (recordArgumentOrigin fuel equality state.slots) fun update =>
      let recorded := { state with slots := applyUpdates state.slots update.toList }
      recorded.orFail (inspectInferenceEquality fuel equality recorded.slots addition) fun step =>
        .ok (step.applyTo recorded)

end Blorp.Check.Solver
