import Blorp.Check.Solving
import Blorp.Lib.Following

/-!
# Pending values

The values that `check/inference.brp` holds until their types are solved, and the checks that
publishing one makes (`check/inference.brp`, `check/constructors.brp`, `check/well_formed.brp`).

Every check is about types only; the values are frozen elsewhere.
-/

namespace Blorp.Check.Freezing

open Fuel
open Solver (SolverError ArgumentMismatch PendingVariantContract)

/-! ## Errors -/

inductive ListElementReference where
  | expectedElement
  | earlierElement

inductive FreezeError where
  | solverRejection (error : SolverError)
  /-- The checker invariant of a call without the parameter an argument is for. -/
  | missingCallParameter (span : Span) (position : Nat)
  /-- The checker invariant of a constructor without the field a value is for. -/
  | argumentTypeMismatch (span : Span) (mismatch : ArgumentMismatch)
  | recordFieldTypeMismatch (span : Span) (field : FieldId) (actual expected : TypeUse)
  | listElementTypeMismatch (span : Span) (position : Nat) (actual expected : TypeRef)
      (reference : ListElementReference)
  | interpolationRequiresString (span : Span) (actual : TypeRef)
  | nonClosedInitializer (span : Span)
  | methodNeedsExpectedType (span : Span) (method : TraitMethodId)
  | missingImplementation (span : Span) (method : TraitMethodId) (receiver : TypeRef)
  | declaredBoundUnsatisfied (span : Span) (applied argument : TypeRef) (required : TraitId)

def checked (error : CheckError) : FreezeError := .solverRejection (.checkRejection error)

def worklistInvariant (span : Span) : FreezeError :=
  checked (checkerInvariant span .invalidInferenceWorklist)

def contractInvariant (span : Span) : FreezeError :=
  checked (checkerInvariant span .invalidFunctionContract)

def relabel {ε δ α : Type} (label : ε → δ) : Outcome ε α → Outcome δ α
  | .ok value => .ok value
  | .err error => .err (label error)
  | .timeout => .timeout

def present {α : Type} (value : Option α) (error : FreezeError) : Outcome FreezeError α :=
  match value with
  | some found => .ok found
  | none => .err error

/-! ## Data -/

deriving instance DecidableEq for BodyOwner
deriving instance DecidableEq for ScopedBindingId

inductive PendingCallTarget where
  | pendingRuntime (operation : RuntimeOperation VariantId TypeRef)
  | pendingMethod (method : TraitMethodId)
  | pendingDeclared (function : FunctionId)
  | pendingParameter (parameter : CallableParameterId)
  | pendingStored (callee : CheckedExpr)

structure PendingCall where
  target : PendingCallTarget
  signature : FunctionSignature
  span : Span
  variableStart : Nat

abbrev ConstructionId := Nat

structure OpaqueConversion where
  id : OpaqueId
  opaqueType : InferenceType
  underlyingType : InferenceType

inductive ListElementSource where
  | expectedElementType (element : InferenceType)
  | firstElementType

structure PendingRetainedField where
  field : FieldId
  valueType : InferenceType

mutual

structure PendingValue where
  span : Span
  base : PendingBase
  baseType : InferenceType
  baseSpan : Span
  operations : PendingOperations

inductive PendingBase where
  | pendingContext (id : ConstructionId)
  | acceptedVoid
  | acceptedInteger (value : Int)
  | acceptedFloat (value : Float)
  | acceptedString (text : String)
  | acceptedConstant (template : CheckedExpr)
  | acceptedBinding (id : BindingId)
  | acceptedCapture (id : CaptureId)
  | pendingCapture (id : ScopedBindingId)
  | pendingNamedCallable (id : FunctionId) (signature : FunctionSignature) (start : Nat)
  | pendingMethodCallable (method : TraitMethodId) (signature : FunctionSignature) (start : Nat)
  | pendingForwardedCallable (id : CallableParameterId)
  | pendingLambda (id : LambdaId)
  | pendingDirectCall (call : PendingCall) (arguments : List PendingValue)
  | pendingConstructRecord (id : RecordId) (fields : List PendingRecordField)
  | pendingUpdateRecord (id : RecordId) (base : PendingValue) (expressionSpan : Span)
      (fields : List PendingRecordField) (inherited : List PendingRetainedField)
  | pendingConstructVariant (contract : PendingVariantContract) (values : List PendingValue)
  | pendingConstructTuple (values : List PendingValue)
  | pendingInterpolatedString (values : List PendingValue)
  | pendingConstructList (source : ListElementSource) (values : List PendingValue)
  | pendingConstructOpaque (conversion : OpaqueConversion) (operand : PendingValue)
  | pendingProjectOpaque (conversion : OpaqueConversion) (operand : PendingValue)

inductive PendingOperations where
  | noPendingOperations
  | pendingOperationLink (step : PendingStep) (previous : PendingOperations)

structure PendingStep where
  operation : PendingOperation
  valueType : InferenceType
  span : Span

inductive PendingOperation where
  | acceptedTupleElement (position : Nat)
  | acceptedField (field : FieldId)
  | pendingInvocation (call : PendingCall) (values : List PendingValue)

structure PendingRecordField where
  field : FieldId
  expected : InferenceUse
  value : PendingValue

end

inductive ContextWork where
  | awaitingContext
  | completedContext (value : PendingValue)

structure CheckedCapture where
  binding : ScopedBindingId
  valueType : TypeUse

inductive LambdaRow where
  | collectingLambda (captures : List CheckedCapture)
  | checkedLambdaRow (captures : List CheckedCapture)

inductive CaptureScope where
  | noCaptures
  | bodyCaptures (owner : BodyOwner) (lambdas : List LambdaRow)

/-- What freezing reads.  `declarations` are the written bounds of the declared types, and
`fuel` bounds the walks over types and traits. -/
structure FreezeContext where
  slots : List InferenceSlot
  captures : CaptureScope
  constructions : List ContextWork
  assumptions : List TraitRequirement
  traits : TraitAvailability
  declarations : NominalId → Option (List TraitRequirement)
  fuel : Nat

def PendingValue.pendingType (value : PendingValue) : InferenceType :=
  match value.operations with
  | .pendingOperationLink step _ => step.valueType
  | .noPendingOperations => value.baseType

def pendingArguments (values : List PendingValue) : List InferenceUse :=
  values.map fun value => ⟨value.pendingType, value.span⟩

def PendingOperations.steps : PendingOperations → List PendingStep
  | .noPendingOperations => []
  | .pendingOperationLink step previous => step :: previous.steps

/-! ## Publishing types -/

section
variable (context : FreezeContext)

def publish (span : Span) (valueType : InferenceType) : Outcome FreezeError TypeRef :=
  relabel .solverRejection
    (Solver.publishInferenceType context.slots .completeInference span context.fuel valueType)

def callType (call : PendingCall) (written : TypeRef) : InferenceType :=
  inferenceType call.signature.typeParameters call.variableStart written

mutual

/-- Traverses the written callee signature; replacements remain terminal. -/
def admitCallType (call : PendingCall) (span : Span) : TypeRef → Outcome FreezeError TypeRef
  | .tupleType elements =>
      if call.signature.typeParameters.isEmpty then .ok (.tupleType elements)
      else publish context span (callType call (.tupleType elements))
  | .callableType purity parameters result =>
      if call.signature.typeParameters.isEmpty then .ok (.callableType purity parameters result)
      else publish context span (callType call (.callableType purity parameters result))
  | .parameterType parameter =>
      if call.signature.typeParameters.isEmpty then .ok (.parameterType parameter)
      else publish context span (callType call (.parameterType parameter))
  | .listType element => do
      let value ← admitCallType call span element
      .ok (.listType value)
  | .nominalType owner arguments => do
      let values ← admitCallTypes call span arguments
      .ok (.nominalType owner values)
  | .voidType => .ok .voidType
  | .intType => .ok .intType
  | .floatType => .ok .floatType
  | .stringType => .ok .stringType

def admitCallTypes (call : PendingCall) (span : Span) :
    List TypeRef → Outcome FreezeError (List TypeRef)
  | [] => .ok []
  | argument :: arguments => do
      let value ← admitCallType call span argument
      let values ← admitCallTypes call span arguments
      .ok (value :: values)

end

def admitCallParameters (call : PendingCall) : Outcome FreezeError (List TypeUse) :=
  if call.signature.typeParameters.isEmpty then .ok call.signature.parameters
  else call.signature.parameters.mapM fun written => do
    let value ← admitCallType context call written.span written.valueType
    .ok { written with valueType := value }

/-! ## Arguments -/

def validateCompleteArgument (contract : PendingCall) (parameters : List TypeUse)
    (actual : InferenceUse × Nat) : Outcome FreezeError Unit := do
  let written ← present parameters[actual.2]? (.missingCallParameter contract.span actual.2)
  let value ← publish context actual.1.span actual.1.valueType
  if written.valueType = value then .ok ()
  else
    let span := if contract.signature.parameters.length = 1 then contract.span
      else actual.1.span
    .err (.argumentTypeMismatch span
      { expected := written.valueType
        actual := ⟨value, actual.1.span⟩
        argumentPosition := actual.2
        expectedSite := .annotationSite written.span })

def validateCompleteArguments (contract : PendingCall) (parameters : List TypeUse)
    (returnType : TypeRef) (actual : List InferenceUse) : Outcome FreezeError TypeRef := do
  actual.zipIdx.forM (validateCompleteArgument context contract parameters)
  .ok returnType

/-! ## Traits -/

def proveRequirements (signature : FunctionSignature) (arguments : List TypeRef) (span : Span) :
    Outcome FreezeError Unit :=
  signature.requirements.forM fun required => relabel checked do
    let receiver ← substituteType ⟨required.parameter.owner, arguments⟩ span
      (.parameterType required.parameter)
    proveTrait context.traits context.assumptions span context.fuel required.requiredTrait receiver

def acceptMethodCall (method : TraitMethodId) (receiver : TypeRef) (span : Span) :
    Outcome FreezeError AcceptedMethodCall := do
  let accepted : AcceptedMethodCall := ⟨method, receiver⟩
  match receiver with
  | .parameterType _ => .ok ()
  | _ =>
      match methodBody context.traits.accepted accepted with
      | some _ => .ok ()
      | none => do
          let rejection ← relabel checked
            (equalityError context.traits context.fuel method.owner receiver span)
          .err (match rejection with
            | some error => checked error
            | none => .missingImplementation span method receiver)
  relabel checked
    (proveTrait context.traits context.assumptions span context.fuel method.owner receiver)
  .ok accepted

def boundError (applied argument : TypeRef) (required : TraitId) (span : Span)
    (error : CheckError) : FreezeError :=
  match error.kind with
  | .traitRejection (.missingTraitBound _ _) =>
      .declaredBoundUnsatisfied span applied argument required
  | _ => checked error

def proveBound (applied : TypeRef) (arguments : List TypeRef) (span : Span)
    (required : TraitRequirement) : Outcome FreezeError Unit := do
  let argument ← present arguments[required.parameter.position]? (contractInvariant span)
  relabel (boundError applied argument required.requiredTrait span)
    (proveTrait context.traits context.assumptions span context.fuel required.requiredTrait
      argument)

/-- The type was inferred, so every argument is located at `span`. -/
def proveDeclaredBounds (applied : TypeRef) (span : Span) : Outcome FreezeError Unit :=
  match applied with
  | .nominalType owner arguments => do
      let requirements ← present (context.declarations owner) (contractInvariant span)
      requirements.forM (proveBound context applied arguments span)
  | _ => .ok ()

/-! ## Calls -/

def publishOperation (call : PendingCall) :
    RuntimeOperation VariantId TypeRef → Outcome FreezeError (RuntimeOperation VariantId TypeRef)
  | .listAppend element => do
      let concrete ← admitCallType context call call.span element
      .ok (.listAppend concrete)
  | .listSet element => do
      let concrete ← admitCallType context call call.span element
      .ok (.listSet concrete)
  | .listConcat element => do
      let concrete ← admitCallType context call call.span element
      .ok (.listConcat concrete)
  | operation => .ok operation

def publishTarget (call : PendingCall) (types : List TypeRef) : Outcome FreezeError CallTarget :=
  match call.target with
  | .pendingRuntime operation => do
      let published ← publishOperation context call operation
      .ok (.runtimeFunction published)
  | .pendingMethod method =>
      match types with
      | [receiver] => do
          let accepted ← acceptMethodCall context method receiver call.span
          .ok (.traitMethod accepted)
      | _ => .err (contractInvariant call.span)
  | .pendingDeclared function => .ok (.userFunction function types)
  | .pendingParameter parameter => .ok (.callableParameter parameter)
  | .pendingStored callee => .ok (.valueCall callee)

def publishPendingCall (call : PendingCall) (operands : List CheckedCallOperand) :
    Outcome FreezeError CheckedCall := do
  let types ← call.signature.typeParameters.mapM fun parameter =>
    publish context call.span (callType call (.parameterType parameter))
  match call.target with
  | .pendingDeclared _ | .pendingRuntime _ =>
      proveRequirements context call.signature types call.span
  | .pendingMethod _ | .pendingParameter _ | .pendingStored _ => .ok ()
  let target ← publishTarget context call types
  .ok ⟨target, operands, call.span⟩

/-! ## Constructions -/

def validateVariantField (contract : PendingVariantContract) (value : PendingValue × Nat) :
    Outcome FreezeError Unit := do
  let field ← present contract.fields[value.2]?
    (.solverRejection (.genericConstructorContract contract.span))
  let expected ← publish context field.span field.valueType
  let actual ← publish context value.1.span value.1.pendingType
  if expected = actual then .ok ()
  else .err (.argumentTypeMismatch contract.span
    { expected := expected
      actual := ⟨actual, value.1.span⟩
      argumentPosition := value.2
      expectedSite := .annotationSite field.span })

def validateVariantFields (contract : PendingVariantContract) (values : List PendingValue) :
    Outcome FreezeError Unit :=
  values.zipIdx.forM (validateVariantField context contract)

def validateRecordField (field : PendingRecordField) : Outcome FreezeError Unit := do
  let expected ← publish context field.expected.span field.expected.valueType
  let actual ← publish context field.value.span field.value.pendingType
  if expected = actual then .ok ()
  else .err (.recordFieldTypeMismatch field.value.span field.field ⟨actual, field.value.span⟩
    ⟨expected, field.expected.span⟩)

def validateRecordFields (fields : List PendingRecordField) : Outcome FreezeError Unit :=
  fields.forM (validateRecordField context)

def listElementType (source : ListElementSource) (values : List PendingValue) (span : Span) :
    Outcome FreezeError InferenceType :=
  match source with
  | .expectedElementType element => .ok element
  | .firstElementType => do
      let first ← present values.head? (worklistInvariant span)
      .ok first.pendingType

def ListElementSource.reference : ListElementSource → ListElementReference
  | .expectedElementType _ => .expectedElement
  | .firstElementType => .earlierElement

def validateListElement (expected : TypeRef) (reference : ListElementReference)
    (value : PendingValue × Nat) : Outcome FreezeError Unit := do
  let actual ← publish context value.1.span value.1.pendingType
  if expected = actual then .ok ()
  else .err (.listElementTypeMismatch value.1.span (value.2 + 1) actual expected reference)

def validateListElements (source : ListElementSource) (values : List PendingValue) (span : Span) :
    Outcome FreezeError TypeRef := do
  let element ← listElementType source values span
  let expected ← publish context span element
  values.zipIdx.forM (validateListElement context expected source.reference)
  .ok expected

def freezeRetainedFields (fields : List PendingRetainedField) (span : Span) :
    Outcome FreezeError (List (FieldId × TypeRef)) :=
  fields.mapM fun field => do
    let valueType ← publish context span field.valueType
    .ok (field.field, valueType)

/-! ## Captures -/

def LambdaRow.captures : LambdaRow → List CheckedCapture
  | .collectingLambda captures => captures
  | .checkedLambdaRow captures => captures

def lambdaCaptures (lambdas : List LambdaRow) (owner : LambdaId) (span : Span) :
    Outcome FreezeError (List CheckedCapture) := do
  let row ← present lambdas[owner]? (worklistInvariant span)
  .ok row.captures

def capturePosition (captures : List CheckedCapture) (binding : ScopedBindingId) : Option Nat :=
  captures.findIdx? fun capture => decide (capture.binding = binding)

/-- A capture in the parent's own terms: its binding, or its own capture of it. -/
def captureForm (parentBody : BodyOwner) (lambdas : List LambdaRow) (span : Span)
    (capture : CheckedCapture) : Outcome FreezeError CheckedForm :=
  if parentBody = capture.binding.owner then .ok (.readBinding capture.binding.binding)
  else
    match parentBody with
    | .declaredBody _ | .derivedEqualityBody _ => .err (worklistInvariant span)
    | .lambdaBody owner => do
        let parent ← lambdaCaptures lambdas owner span
        let position ← present (capturePosition parent capture.binding) (worklistInvariant span)
        .ok (.readCapture ⟨owner, position⟩)

def captureOperands (id : LambdaId) (parentBody : BodyOwner) (lambdas : List LambdaRow)
    (span : Span) : Outcome FreezeError (List CheckedExpr) := do
  let captures ← lambdaCaptures lambdas id span
  captures.mapM fun capture => do
    let form ← captureForm parentBody lambdas span capture
    .ok ⟨form, capture.valueType.valueType, capture.valueType.span⟩

end

end Blorp.Check.Freezing
