import Blorp.Check.Pending

/-!
# Freezing pending values

`check/expressions.brp` publishes a solved value as a checked expression.  Every function
here is written over `freeze`, its recursive call, and closed in two ways.

A loop `while position > 0` that counts down is a fold over the reversed list.
-/

namespace Blorp.Check.Freezing

open Fuel
open Solver (ExpectedTypeSite)

/-- The formal0 operand a caller has already frozen: a receiver, which the values exclude,
or a first written argument. -/
inductive FrozenOperand where
  | noFrozenOperand
  | frozenReceiver (receiver : CheckedExpr)
  | frozenFirstArgument (first : CheckedExpr)

/-- A direct call and the value it forms: one link of a left-nested chain. -/
structure PendingCallLink where
  value : PendingValue
  call : PendingCall
  arguments : List PendingValue

def chainedArgument : List PendingValue → Option PendingCallLink
  | first :: _ =>
      match first.base with
      | .pendingDirectCall call inner => some ⟨first, call, inner⟩
      | _ => none
  | [] => none

theorem sizeOf_chainedArgument {arguments : List PendingValue} {link : PendingCallLink}
    (h : chainedArgument arguments = some link) :
    sizeOf link.arguments < sizeOf arguments := by
  cases arguments with
  | nil => cases h
  | cons first rest =>
    obtain ⟨span, base, baseType, baseSpan, operations⟩ := first
    cases base with
    | pendingDirectCall call inner =>
      cases h
      simp only [List.cons.sizeOf_spec, PendingValue.mk.sizeOf_spec,
        PendingBase.pendingDirectCall.sizeOf_spec]
      omega
    | _ => cases h

/-! ## Texts -/

/-- Balancing keeps the binary runtime operation while bounding its consumers' depth. -/
def concatCheckedParts (parts : List CheckedExpr) (first count : Nat) (span : Span) :
    Outcome FreezeError CheckedExpr :=
  if count = 0 then .ok ⟨.literalString "", .stringType, span⟩
  else if count = 1 then present parts[first]? (worklistInvariant span)
  else do
    let left ← concatCheckedParts parts first (count / 2) span
    let right ← concatCheckedParts parts (first + count / 2) (count - count / 2) span
    let call : CheckedCall :=
      ⟨.runtimeFunction .stringConcat, [.valueOperand left, .valueOperand right], span⟩
    .ok ⟨.invokeFunction call, .stringType, span⟩
  termination_by count

section
variable (context : FreezeContext) (freeze : PendingValue → Outcome FreezeError CheckedExpr)

def freezeInterpolatedPart (part : PendingValue) : Outcome FreezeError CheckedExpr := do
  let value ← freeze part
  if value.valueType = .stringType then .ok value
  else .err (.interpolationRequiresString part.span value.valueType)

def freezeInterpolated (parts : List PendingValue) (span : Span) :
    Outcome FreezeError CheckedExpr := do
  let values ← parts.mapM (freezeInterpolatedPart freeze)
  concatCheckedParts values 0 values.length span

/-! ## Callables -/

/-- A method whose receiver nothing decides needs an expected type. -/
def methodContextError (method : TraitMethodId) (span : Span) : FreezeError → FreezeError
  | .solverRejection (.callRejection _ (.uninferableTypeParameter _)) =>
      .methodNeedsExpectedType span method
  | error => error

def freezeMethodCallable (method : TraitMethodId) (signature : FunctionSignature) (start : Nat)
    (span : Span) : Outcome FreezeError CallableChoice := do
  let parameter ← present signature.typeParameters.head? (contractInvariant span)
  let receiver ← relabel (methodContextError method span)
    (publish context span (inferenceType signature.typeParameters start (.parameterType parameter)))
  let selected ← acceptMethodCall context method receiver span
  .ok (.methodCallable selected)

def freezeNamedCallable (id : FunctionId) (signature : FunctionSignature) (start : Nat)
    (span : Span) : Outcome FreezeError CallableChoice := do
  let arguments ← signature.typeParameters.mapM fun parameter =>
    publish context span (inferenceType signature.typeParameters start (.parameterType parameter))
  proveRequirements context signature arguments span
  .ok (.namedCallable id arguments)

def freezeLambda (id : LambdaId) (span : Span) : Outcome FreezeError CallableChoice :=
  match context.captures with
  | .noCaptures => .err (.nonClosedInitializer span)
  | .bodyCaptures owner lambdas => do
      let environment ← captureOperands id owner lambdas span
      .ok (.lambdaCallable id environment)

def freezeCallableChoice (value : PendingValue) : Outcome FreezeError CallableChoice :=
  match value.base with
  | .pendingNamedCallable id signature start =>
      freezeNamedCallable context id signature start value.span
  | .pendingMethodCallable method signature start =>
      freezeMethodCallable context method signature start value.span
  | .pendingForwardedCallable parameter => .ok (.forwardedCallable parameter)
  | .pendingLambda id => freezeLambda context id value.span
  | _ => do
      let frozen ← freeze value
      .ok (.storedCallable frozen)

/-! ## Calls -/

def receiverOperands (call : PendingCall) :
    FrozenOperand → Outcome FreezeError (List CheckedCallOperand)
  | .frozenReceiver receiver =>
      match call.target with
      | .pendingDeclared owner => do
          let parameter ← present call.signature.parameters[0]? (.missingCallParameter call.span 0)
          match parameter.valueType with
          | .callableType _ _ _ =>
              .ok [.callableOperand ⟨owner, 0⟩ (.storedCallable receiver) call.span]
          | _ => .ok [.valueOperand receiver]
      | .pendingRuntime _ | .pendingMethod _ | .pendingParameter _ | .pendingStored _ =>
          .ok [.valueOperand receiver]
  | .noFrozenOperand | .frozenFirstArgument _ => .ok []

def FrozenOperand.firstPosition : FrozenOperand → Nat
  | .frozenReceiver _ => 1
  | .noFrozenOperand | .frozenFirstArgument _ => 0

def FrozenOperand.argumentAt (position : Nat) : FrozenOperand → Option CheckedExpr
  | .frozenFirstArgument first => if position = 0 then some first else none
  | .noFrozenOperand | .frozenReceiver _ => none

def FrozenOperand.actualArguments (call : PendingCall) (values : List PendingValue) :
    FrozenOperand → List InferenceUse
  | .frozenReceiver receiver =>
      ⟨.acceptedType receiver.valueType, call.span⟩ :: pendingArguments values
  | .noFrozenOperand | .frozenFirstArgument _ => pendingArguments values

def argumentValue (frozen : Option CheckedExpr) (value : PendingValue) :
    Outcome FreezeError CheckedExpr :=
  match frozen with
  | some first => .ok first
  | none => freeze value

/-- A callable formal stores a first argument the loop froze, as the choice would. -/
def argumentChoice (frozen : Option CheckedExpr) (value : PendingValue) :
    Outcome FreezeError CallableChoice :=
  match frozen with
  | some first => .ok (.storedCallable first)
  | none => freezeCallableChoice context freeze value

def freezeOperand (call : PendingCall) (operand : FrozenOperand) (argument : PendingValue × Nat) :
    Outcome FreezeError CheckedCallOperand := do
  let parameter ← present call.signature.parameters[argument.2]?
    (.missingCallParameter argument.1.span argument.2)
  match call.target, parameter.valueType with
  | .pendingDeclared owner, .callableType _ _ _ => do
      let choice ← argumentChoice context freeze (operand.argumentAt argument.2) argument.1
      .ok (.callableOperand ⟨owner, argument.2⟩ choice argument.1.span)
  | _, _ => do
      let frozen ← argumentValue freeze (operand.argumentAt argument.2) argument.1
      .ok (.valueOperand frozen)

def completePendingCall (call : PendingCall) (actual : List InferenceUse)
    (operands : List CheckedCallOperand) : Outcome FreezeError CheckedCall := do
  let checkedCall ← publishPendingCall context call operands
  let parameters ← admitCallParameters context call
  let returnType ← admitCallType context call call.span call.signature.returnType.valueType
  let _ ← validateCompleteArguments context call parameters returnType actual
  .ok checkedCall

def freezePendingCall (call : PendingCall) (values : List PendingValue) (operand : FrozenOperand) :
    Outcome FreezeError CheckedCall := do
  let receiver ← receiverOperands call operand
  let arguments ← (values.zipIdx operand.firstPosition).mapM (freezeOperand context freeze call operand)
  completePendingCall context call (operand.actualArguments call values) (receiver ++ arguments)

/-! ## Constructions -/

def freezeOpaqueOperand (operand : PendingValue) (operandType : InferenceType)
    (site : ExpectedTypeSite) : Outcome FreezeError CheckedExpr := do
  let value ← freeze operand
  let expected ← publish context operand.span operandType
  if value.valueType = expected then .ok value
  else .err (.solverRejection (.valueRejection operand.span (.expressionTypeMismatch
    { expected := expected
      actual := ⟨value.valueType, operand.span⟩
      expectedSite := site })))

def freezeRecordFields (fields : List PendingRecordField) :
    Outcome FreezeError (List CheckedRecordField) := do
  let frozen ← fields.mapM fun field => do
    let value ← freeze field.value
    .ok (⟨field.field, value, field.value.span⟩ : CheckedRecordField)
  validateRecordFields context fields
  .ok frozen

def freezeRecordUpdate (base : PendingValue) (expressionSpan : Span)
    (fields : List PendingRecordField) (inherited : List PendingRetainedField) :
    Outcome FreezeError CheckedRecordUpdate := do
  let frozenBase ← freeze base
  let replacements ← freezeRecordFields context freeze fields
  let frozenInherited ← freezeRetainedFields context inherited expressionSpan
  .ok ⟨frozenBase, expressionSpan, replacements, frozenInherited⟩

/-! ## Values -/

def freezePendingForm (value : PendingValue) : Outcome FreezeError CheckedForm :=
  match value.base with
  | .pendingContext id =>
      match context.constructions[id]? with
      | some (.completedContext completed) => do
          let frozen ← freeze completed
          .ok frozen.form
      | _ => .err (worklistInvariant value.span)
  | .pendingNamedCallable _ _ _ | .pendingMethodCallable _ _ _ | .pendingForwardedCallable _
  | .pendingLambda _ => do
      let choice ← freezeCallableChoice context freeze value
      .ok (.makeCallable choice)
  | .acceptedVoid => .ok .literalVoid
  | .acceptedInteger integer => .ok (.literalInteger integer)
  | .acceptedFloat number => .ok (.literalFloat number)
  | .acceptedString text => .ok (.literalString text)
  | .acceptedConstant template => .ok template.form
  | .acceptedBinding id => .ok (.readBinding id)
  | .acceptedCapture id => .ok (.readCapture id)
  | .pendingCapture _ => .err (worklistInvariant value.span)
  | .pendingConstructOpaque conversion operand => do
      let frozen ← freezeOpaqueOperand context freeze operand conversion.underlyingType
        (.opaqueConstruction conversion.id)
      .ok (.constructOpaque conversion.id frozen)
  | .pendingProjectOpaque conversion operand => do
      let frozen ← freezeOpaqueOperand context freeze operand conversion.opaqueType
        (.opaqueProjection conversion.id)
      .ok (.projectOpaque conversion.id frozen)
  | .pendingConstructRecord owner fields => do
      let frozen ← freezeRecordFields context freeze fields
      .ok (.constructRecord owner frozen)
  | .pendingUpdateRecord owner base expressionSpan fields inherited => do
      let update ← freezeRecordUpdate context freeze base expressionSpan fields inherited
      .ok (.updateRecord owner update)
  | .pendingConstructVariant contract values => do
      let frozen ← values.mapM freeze
      validateVariantFields context contract values
      .ok (.constructVariant contract.variant frozen)
  | .pendingInterpolatedString values => do
      let joined ← freezeInterpolated freeze values value.baseSpan
      .ok joined.form
  | .pendingConstructTuple values => do
      let frozen ← values.mapM freeze
      .ok (.constructTuple frozen)
  | .pendingConstructList source values => do
      let frozen ← values.mapM freeze
      let _ ← validateListElements context source values value.baseSpan
      .ok (.constructList frozen)
  | .pendingDirectCall call arguments => do
      let resolved ← freezePendingCall context freeze call arguments .noFrozenOperand
      .ok (.invokeFunction resolved)

def freezePendingStep (receiver : CheckedExpr) (step : PendingStep) :
    Outcome FreezeError CheckedExpr := do
  let form ← match step.operation with
    | .acceptedTupleElement position => .ok (.readTupleElement receiver position)
    | .acceptedField field => .ok (.readRecordField receiver field)
    | .pendingInvocation call values => do
        let resolved ← freezePendingCall context freeze call values (.frozenReceiver receiver)
        .ok (.invokeFunction resolved)
  let valueType ← publish context step.span step.valueType
  .ok ⟨form, valueType, step.span⟩

/-- `into_opaque` takes its arguments from its operand, so it proves the declared bounds. -/
def proveOpaqueBounds (base : CheckedForm) (baseType : TypeRef) (span : Span) :
    Outcome FreezeError Unit :=
  match base with
  | .constructOpaque _ _ => proveDeclaredBounds context baseType span
  | _ => .ok ()

def finishPendingValue (value : PendingValue) (base : CheckedForm) :
    Outcome FreezeError CheckedExpr := do
  let baseType ← publish context value.baseSpan value.baseType
  proveOpaqueBounds context base baseType value.baseSpan
  value.operations.steps.reverse.foldlM (freezePendingStep context freeze)
    ⟨base, baseType, value.baseSpan⟩

def freezeWholeValue (value : PendingValue) : Outcome FreezeError CheckedExpr := do
  let form ← freezePendingForm context freeze value
  finishPendingValue context freeze value form

/-! ## Chains -/

def frozenBelow : Option CheckedExpr → FrozenOperand
  | some first => .frozenFirstArgument first
  | none => .noFrozenOperand

/-- `below` is the link's first argument when the chain loop has frozen it. -/
def freezeCallLink (link : PendingCallLink) (below : Option CheckedExpr) :
    Outcome FreezeError CheckedExpr := do
  let resolved ← freezePendingCall context freeze link.call link.arguments (frozenBelow below)
  finishPendingValue context freeze link.value (.invokeFunction resolved)

def collectLinks (links : List PendingCallLink) (innermost : PendingCallLink) :
    List PendingCallLink × PendingCallLink :=
  match _h : chainedArgument innermost.arguments with
  | none => (links, innermost)
  | some next => collectLinks (links ++ [innermost]) next
  termination_by sizeOf innermost.arguments
  decreasing_by exact sizeOf_chainedArgument _h

/-- A chain freezes from its innermost link outward, each link taking the one below it as its
first argument. -/
def freezeCallChain (link first : PendingCallLink) : Outcome FreezeError CheckedExpr := do
  let (links, innermost) := collectLinks [] first
  let current ← freezeCallLink context freeze innermost none
  let below ← links.reverse.foldlM
    (fun below link => freezeCallLink context freeze link (some below)) current
  freezeCallLink context freeze link (some below)

def freezeLinkedValue (value : PendingValue) : Outcome FreezeError CheckedExpr :=
  match value.base with
  | .pendingDirectCall call arguments =>
      match chainedArgument arguments with
      | some first => freezeCallChain context freeze ⟨value, call, arguments⟩ first
      | none => freezeWholeValue context freeze value
  | _ => freezeWholeValue context freeze value

end

/-! ## The two recursions -/

def freezePendingValue (context : FreezeContext) : Nat → PendingValue → Outcome FreezeError CheckedExpr
  | 0, _ => .timeout
  | fuel + 1, value => freezeLinkedValue context (freezePendingValue context fuel) value

def freezeRecursively (context : FreezeContext) : Nat → PendingValue → Outcome FreezeError CheckedExpr
  | 0, _ => .timeout
  | fuel + 1, value => freezeWholeValue context (freezeRecursively context fuel) value

end Blorp.Check.Freezing
