import Blorp.Check.Traits

/-!
# Overlap of receiver types

The part of `check/inference.brp` that decides whether two types can be one: inference
types over call variables, slots that bind or link the variables, and `types_overlap`, the
unifier's use with both declarations' parameters flexible.

Every equality here has the origin `ReceiverOverlapConstraint` and the relation
`RequireEquality`, so of an equality its two sides and its span are kept; the diagnostics
of other origins are not modelled.  A stack of pending types is kept as the list of its
live items, top first.
-/

namespace Blorp.Check

open Fuel

abbrev InferenceVariableId := Nat

inductive InferenceType where
  | acceptedType (valueType : TypeRef)
  | callVariable (id : InferenceVariableId)
  | inferredCallable (purity : Purity) (parameters : List InferenceType) (result : InferenceType)
  | inferredTuple (elements : List InferenceType)
  | inferredList (element : InferenceType)
  | inferredNominal (owner : NominalId) (arguments : List InferenceType)

structure InferenceUse where
  valueType : InferenceType
  span : Span

inductive InferenceVariableState where
  | unboundVariable (rank : Nat)
  | boundVariable (value : InferenceType)
  | linkedVariable (next : InferenceVariableId)

structure InferenceSlot where
  parameter : TypeParameterId
  callSpan : Span
  firstArgument : Option InferenceUse
  state : InferenceVariableState

/-- An equality of origin `ReceiverOverlapConstraint span`. -/
structure InferenceEquality where
  expected : InferenceType
  actual : InferenceType
  span : Span

/-! ## Inference types -/

def InferenceType.isAccepted : InferenceType → Bool
  | .acceptedType _ => true
  | _ => false

section

variable (parametersOfCall : List TypeParameterId) (variableStart : Nat)

mutual

/-- Complete accepted subtrees contain no expression-local variables and are retained
intact. -/
def inferenceType : TypeRef → InferenceType
  | .callableType purity parameters result =>
      let values := inferenceTypes parameters
      let returnType := inferenceType result
      if parametersOfCall.isEmpty || (values.all (·.isAccepted) && returnType.isAccepted) then
        .acceptedType (.callableType purity parameters result)
      else .inferredCallable purity values returnType
  | .listType element =>
      let elementType := inferenceType element
      if parametersOfCall.isEmpty || elementType.isAccepted then .acceptedType (.listType element)
      else .inferredList elementType
  | .tupleType elements =>
      let values := inferenceTypes elements
      if parametersOfCall.isEmpty || values.all (·.isAccepted) then
        .acceptedType (.tupleType elements)
      else .inferredTuple values
  | .nominalType owner arguments =>
      let values := inferenceTypes arguments
      if parametersOfCall.isEmpty || values.all (·.isAccepted) then
        .acceptedType (.nominalType owner arguments)
      else .inferredNominal owner values
  | .parameterType parameter =>
      if parametersOfCall[parameter.position]? = some parameter then
        .callVariable (variableStart + parameter.position)
      else .acceptedType (.parameterType parameter)
  | .voidType => .acceptedType .voidType
  | .intType => .acceptedType .intType
  | .floatType => .acceptedType .floatType
  | .stringType => .acceptedType .stringType

def inferenceTypes : List TypeRef → List InferenceType
  | [] => []
  | value :: values => inferenceType value :: inferenceTypes values

end

end

def InferenceType.inferenceShape : InferenceType → InferenceType
  | .acceptedType (.callableType purity parameters result) =>
      .inferredCallable purity (parameters.map .acceptedType) (.acceptedType result)
  | .acceptedType (.tupleType elements) => .inferredTuple (elements.map .acceptedType)
  | .acceptedType (.listType element) => .inferredList (.acceptedType element)
  | .acceptedType (.nominalType owner arguments) =>
      .inferredNominal owner (arguments.map .acceptedType)
  | value => value

/-- Follows bindings and links to the first type that is not a solved variable. -/
def inferenceHead (slots : List InferenceSlot) (span : Span) :
    Nat → InferenceType → Outcome CheckError InferenceType
  | 0, _ => .timeout
  | fuel + 1, .callVariable id =>
      match slots[id]? with
      | some slot =>
          match slot.state with
          | .unboundVariable _ => .ok (.callVariable id)
          | .boundVariable value => inferenceHead slots span fuel value
          | .linkedVariable next => inferenceHead slots span fuel (.callVariable next)
      | none => .err (checkerInvariant span (.invalidInferenceVariable id))
  | _ + 1, value => .ok value

def InferenceType.children : InferenceType → List InferenceType
  | .inferredCallable _ parameters result => parameters ++ [result]
  | .inferredTuple elements => elements
  | .inferredList element => [element]
  | .inferredNominal _ arguments => arguments
  | .acceptedType _ | .callVariable _ => []

/-- Whether the sought variable occurs in a pending type, under the slots.  Children are pushed in
order, so the last is popped first. -/
def occursPending (sought : InferenceVariableId) (slots : List InferenceSlot) (span : Span) :
    Nat → List InferenceType → Outcome CheckError Bool
  | 0, _ => .timeout
  | _ + 1, [] => .ok false
  | fuel + 1, value :: pending => do
      match ← inferenceHead slots span fuel value with
      | .callVariable id =>
          if id = sought then .ok true else occursPending sought slots span fuel pending
      | resolved => occursPending sought slots span fuel (resolved.children.reverse ++ pending)

def inferenceOccurs (fuel : Nat) (sought : InferenceVariableId) (value : InferenceType)
    (slots : List InferenceSlot) (span : Span) : Outcome CheckError Bool :=
  occursPending sought slots span fuel [value]

/-! ## One equality -/

inductive InferenceAction where
  | sameInference
  | bindInference (id : InferenceVariableId) (value : InferenceType)
  | mergeInference (left right : InferenceVariableId)
  | listEquality (left right : InferenceType)
  | nominalEquality (owner : NominalId) (left right : List InferenceType)
  | tupleEquality (left right : List InferenceType)
  | callableEquality (purity : Purity) (parameters others : List InferenceType)
      (result other : InferenceType)
  | inferenceMismatch

def inferenceShapeAction : InferenceType → InferenceType → InferenceAction
  | .inferredCallable purity parameters result, .inferredCallable otherPurity others other =>
      if purity = otherPurity ∧ parameters.length = others.length then
        .callableEquality purity parameters others result other
      else .inferenceMismatch
  | .inferredList left, .inferredList right => .listEquality left right
  | .inferredTuple elements, .inferredTuple others =>
      if elements.length = others.length then .tupleEquality elements others
      else .inferenceMismatch
  | .inferredNominal leftOwner left, .inferredNominal rightOwner right =>
      if leftOwner = rightOwner ∧ left.length = right.length then
        .nominalEquality leftOwner left right
      else .inferenceMismatch
  | _, _ => .inferenceMismatch

def inferenceAction : InferenceType → InferenceType → InferenceAction
  | .callVariable left, .callVariable right =>
      if left = right then .sameInference else .mergeInference left right
  | .callVariable left, right => .bindInference left right
  | left, .callVariable right => .bindInference right left
  | .acceptedType left, .acceptedType right =>
      if left = right then .sameInference else .inferenceMismatch
  | left, right => inferenceShapeAction left.inferenceShape right.inferenceShape

def InferenceVariableState.inferenceRank (state : InferenceVariableState) (span : Span) :
    Except CheckError Nat :=
  match state with
  | .unboundVariable rank => .ok rank
  | _ => .error (checkerInvariant span .invalidInferenceWorklist)

structure InferenceSlotUpdate where
  position : Nat
  slot : InferenceSlot

inductive InferenceStep where
  | incompatibleResult
  | completeEquality
  | updateInferenceSlots (updates : List InferenceSlotUpdate)
  | expandInferenceList (child : InferenceEquality)
  | expandInferenceArguments (parent : InferenceEquality) (left right : List InferenceType)

/-- The updates that make two unbound variables one: the lower-ranked links to the other. -/
def linkInferenceVariables (left right : InferenceVariableId) (slots : List InferenceSlot)
    (span : Span) : Except CheckError (List InferenceSlotUpdate) := do
  let leftSlot ← orCheckerInvariant slots[left]? span (.invalidInferenceVariable left)
  let rightSlot ← orCheckerInvariant slots[right]? span (.invalidInferenceVariable right)
  let leftRank ← leftSlot.state.inferenceRank span
  let rightRank ← rightSlot.state.inferenceRank span
  if leftRank < rightRank then
    return [⟨left, { leftSlot with state := .linkedVariable right }⟩]
  else
    let linked : InferenceSlotUpdate := ⟨right, { rightSlot with state := .linkedVariable left }⟩
    let raised : InferenceSlotUpdate :=
      ⟨left, { leftSlot with state := .unboundVariable (leftRank + 1) }⟩
    if leftRank = rightRank then return [linked, raised]
    else return [linked]

def inspectInferenceEquality (fuel : Nat) (equality : InferenceEquality)
    (slots : List InferenceSlot) : Outcome CheckError InferenceStep := do
  let left ← inferenceHead slots equality.span fuel equality.expected
  let right ← inferenceHead slots equality.span fuel equality.actual
  match inferenceAction left right with
  | .sameInference => .ok .completeEquality
  | .mergeInference leftId rightId => do
      let updates ← liftM (linkInferenceVariables leftId rightId slots equality.span)
      return .updateInferenceSlots updates
  | .bindInference id value =>
      let slot ← liftM (orCheckerInvariant slots[id]? equality.span (.invalidInferenceVariable id))
      let occurs ← inferenceOccurs fuel id value slots equality.span
      if occurs then .ok .incompatibleResult
      else .ok (.updateInferenceSlots [⟨id, { slot with state := .boundVariable value }⟩])
  | .callableEquality _ parameters others result other =>
      .ok (.expandInferenceArguments equality (parameters ++ [result]) (others ++ [other]))
  | .listEquality leftElement rightElement =>
      .ok (.expandInferenceList { equality with expected := leftElement, actual := rightElement })
  | .nominalEquality _ leftArguments rightArguments =>
      .ok (.expandInferenceArguments equality leftArguments rightArguments)
  | .tupleEquality leftArguments rightArguments =>
      .ok (.expandInferenceArguments equality leftArguments rightArguments)
  | .inferenceMismatch => .ok .incompatibleResult

def inferencePair (left right : List InferenceType) (position : Nat) (span : Span) :
    Except CheckError (InferenceType × InferenceType) := do
  let expected ← orCheckerInvariant left[position]? span .invalidInferenceWorklist
  let actual ← orCheckerInvariant right[position]? span .invalidInferenceWorklist
  return (expected, actual)

theorem inferencePair_ok {left right : List InferenceType} {position : Nat}
    (hleft : position < left.length) (hright : position < right.length) (span : Span) :
    inferencePair left right position span = .ok (left[position], right[position]) := by
  simp only [inferencePair, List.getElem?_eq_getElem hleft, List.getElem?_eq_getElem hright,
    orCheckerInvariant, bind, Except.bind]
  rfl

def inferenceChild (equality : InferenceEquality) (left right : List InferenceType)
    (position : Nat) : Except CheckError InferenceEquality := do
  let sides ← inferencePair left right position equality.span
  return { equality with expected := sides.1, actual := sides.2 }

/-! ## Overlap -/

def applyUpdates (slots : List InferenceSlot) (updates : List InferenceSlotUpdate) :
    List InferenceSlot :=
  updates.foldl (fun slots update => slots.set update.position update.slot) slots

mutual

/-- The slots with the equality solved, or none when it has no solution. -/
def solveOverlap : Nat → InferenceEquality → List InferenceSlot →
    Outcome CheckError (Option (List InferenceSlot))
  | 0, _, _ => .timeout
  | fuel + 1, equality, slots => do
      match ← inspectInferenceEquality fuel equality slots with
      | .incompatibleResult => .ok none
      | .completeEquality => .ok (some slots)
      | .updateInferenceSlots updates => .ok (some (applyUpdates slots updates))
      | .expandInferenceList child => solveOverlap fuel child slots
      | .expandInferenceArguments parent left right =>
          solveOverlapArguments fuel parent left right 0 slots

def solveOverlapArguments : Nat → InferenceEquality → List InferenceType → List InferenceType →
    Nat → List InferenceSlot → Outcome CheckError (Option (List InferenceSlot))
  | 0, _, _, _, _, _ => .timeout
  | fuel + 1, parent, left, right, position, slots =>
      if position = left.length then .ok (some slots)
      else do
        let child ← liftM (inferenceChild parent left right position)
        match ← solveOverlap fuel child slots with
        | none => .ok none
        | some next => solveOverlapArguments fuel parent left right (position + 1) next

end

/-- Different concrete constructors are the unifier's immediate mismatch rule. -/
def disjointHeads (left right : TypeRef) : Bool :=
  match left.typeHead with
  | none => false
  | some leftHead =>
      match right.typeHead with
      | none => false
      | some rightHead => leftHead != rightHead

/-- Both declarations' parameters are flexible, in separate variable ranges.  A call supplies
no parameters for its actual receiver, which keeps the caller's parameters rigid. -/
def typesOverlap (fuel : Nat) (left : TypeRef) (leftParameters : List TypeParameterId)
    (right : TypeRef) (rightParameters : List TypeParameterId) (span : Span) :
    Outcome CheckError Bool :=
  if leftParameters.isEmpty && rightParameters.isEmpty then .ok (decide (left = right))
  else if disjointHeads left right then .ok false
  else do
    let slots := (leftParameters ++ rightParameters).map fun parameter =>
      (⟨parameter, span, none, .unboundVariable 0⟩ : InferenceSlot)
    let equality : InferenceEquality :=
      ⟨inferenceType leftParameters 0 left,
        inferenceType rightParameters leftParameters.length right, span⟩
    let unified ← solveOverlap fuel equality slots
    return unified.isSome

end Blorp.Check
