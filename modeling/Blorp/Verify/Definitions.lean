import Blorp.Verify.Places

/-!
# Verifying a value definition

Every operand is a known value of the contracted type, every borrowed operand is
live, every consumed or stored operand gives up its own obligation exactly once,
and the definition's result has the ownership its type asks for.
-/

namespace Blorp.Verify

open Check (Span)
open Specialize
open Lower (ValueId)
open Own
open Fuel

/-- What verification reads and never changes: the rows of the function, all
functions of the program and its layouts.  `fuel` bounds chains of projections. -/
structure Context where
  fuel : Nat
  rows : List OwnedParameter
  functions : List OwnedFunction
  unions : List ConcreteUnion
  records : List ConcreteRecord

def Context.needsOwnership (context : Context) (valueType : TypeRef) : Except Diagnostic Bool :=
  valueType.valueNeedsOwnership context.unions context.records

inductive ProjectionContext where
  | noProjection
  | selectionProjection (root : OwnedArgument) (facts : List PlaceFact)

section

variable (context : Context)

/-! ## Arguments -/

def verifyArgument (state : VerificationState) (span : Span) (argument : OwnedArgument)
    (expected : TypeRef) : Outcome Diagnostic Unit := do
  let known ← knownValue state.facts (argumentValue argument) span
  if known.valueType ≠ expected then
    .err (verificationError span "call argument type does not match its contract")
  else
    match argument with
    | .consumedArgument _ _ =>
        .err (verificationError span
          "consumed argument requires an owned parameter or an in-place operand")
    | .unmanagedArgument _ => do
        let needsOwner ← context.needsOwnership expected
        require (!needsOwner) span "managed call argument requires an owner-dependent borrow"
    | .borrowedArgument borrow => verifyBorrow context.fuel borrow state span

def verifyArguments (state : VerificationState) (span : Span) (arguments : List OwnedArgument)
    (parameters : List TypeRef) : Outcome Diagnostic Unit :=
  if arguments.length < parameters.length then
    .err (verificationError span "call is missing its argument")
  else if parameters.length < arguments.length then
    .err (verificationError span "call has an unexpected argument")
  else (arguments.zip parameters).forM fun (argument, expected) =>
    verifyArgument context state span argument expected

def asBorrow : OwnedArgument → OwnedArgument
  | .consumedArgument value owner => .borrowedArgument ⟨value, .ownerBorrow owner⟩
  | argument => argument

/-- One operand of a user call: an owned row must receive a transfer. -/
def transferredBorrow (rows : List OwnedParameter) (span : Span) (index : Nat)
    (argument : OwnedArgument) : Except Diagnostic OwnedArgument :=
  match rows[index]?, argument with
  | some row, .consumedArgument _ _ => .ok (if row.parameterOwned then asBorrow argument else argument)
  | some row, _ =>
      if row.parameterOwned then
        .error (verificationError span "owned parameter requires a transferred argument")
      else .ok argument
  | none, _ => .ok argument

/-- Borrow validation uses the complete pre-call state, in which each transferred
operand is still a borrow of its owner.  A reusing runtime operand 0 may receive a
transfer and otherwise borrows; an owned row of the callee must receive one. -/
def transferredBorrows (target : CallTarget) (arguments : List OwnedArgument)
    (functions : List OwnedFunction) (span : Span) : Except Diagnostic (List OwnedArgument) :=
  match target with
  | .runtimeFunction operation =>
      match arguments with
      | .consumedArgument value owner :: rest =>
          if operation.reusesFirstOperand then .ok (asBorrow (.consumedArgument value owner) :: rest)
          else .ok arguments
      | _ => .ok arguments
  | .userFunction id =>
      match functions[id]? with
      | none => .error (verificationError span "unknown called function")
      | some callee =>
          arguments.zipIdx.mapM fun (argument, index) =>
            transferredBorrow callee.parameters span index argument

def verifyMatchArgument (state : VerificationState) (span : Span) (argument : OwnedArgument) :
    Outcome Diagnostic Unit :=
  match argument with
  | .consumedArgument _ _ =>
      .err (verificationError span "match or projection cannot consume a call argument")
  | .borrowedArgument borrow => verifyBorrow context.fuel borrow state span
  | .unmanagedArgument id => do
      let known ← knownValue state.facts id span
      let needsOwner ← context.needsOwnership known.valueType
      require (!needsOwner) span "managed match scrutinee requires an owner-dependent borrow"

/-! ## Discharging operands -/

def verifiedDrop (state : VerificationState) (id : OwnerId) (span : Span) :
    Except Diagnostic OwnerSlot := do
  match ← knownOwner state id span with
  | .dischargedOwner =>
      .error (verificationError span ("owner " ++ toString id ++ " has already been discharged"))
  | .activeOwner _ => ownerSlot state.facts state.owners.length id span

def dropOwner (state : VerificationState) (id : OwnerId) (span : Span) :
    Except Diagnostic VerificationState := do
  let slot ← verifiedDrop state id span
  .ok (state.dischargeSlot slot)

def isConsumed : OwnedArgument → Bool
  | .consumedArgument _ _ => true
  | _ => false

def consumeArgument (span : Span) (state : VerificationState) (argument : OwnedArgument) :
    Except Diagnostic VerificationState :=
  match argument with
  | .consumedArgument _ owner => dropOwner state owner span
  | _ => .ok state

section

variable (state : VerificationState) (span : Span)

def consumeArguments (arguments : List OwnedArgument) : Except Diagnostic VerificationState :=
  arguments.foldlM (consumeArgument span) state

def revalidateBorrow (argument : OwnedArgument) : Outcome Diagnostic Unit :=
  match argument with
  | .borrowedArgument borrow => verifyBorrow context.fuel borrow state span
  | _ => .ok ()

/-- Consumed owners discharge in argument order, so one owner consumed at two
positions fails at the second.  Every remaining borrow is then revalidated against
the state after; a call that transfers nothing leaves its borrows valid. -/
def dischargeCallArguments (arguments : List OwnedArgument) :
    Outcome Diagnostic VerificationState := do
  let moved ← consumeArguments state span arguments
  if arguments.any isConsumed then do
    arguments.forM (revalidateBorrow context moved span)
    .ok moved
  else .ok moved

def storedPayloadTransfer (payload : StoredPayload) : Except Diagnostic (Option OwnerSlot) := do
  let known ← knownValue state.facts (payloadValue payload) span
  let needsOwner ← context.needsOwnership known.valueType
  match payload, needsOwner with
  | .unmanagedPayload _, false => .ok none
  | .unmanagedPayload _, true =>
      .error (verificationError span "managed payload requires an owner transfer")
  | .ownedPayload _ _, false =>
      .error (verificationError span "unmanaged payload cannot transfer an owner")
  | .ownedPayload value transferred, true => do
      match ← knownOwner state transferred span with
      | .dischargedOwner =>
          .error (verificationError span "payload owner has already been discharged")
      | .activeOwner owned =>
          if value = owned then do
            let slot ← ownerSlot state.facts state.owners.length transferred span
            .ok (some slot)
          else .error (verificationError span "payload owner does not own the stored value")

end

def storePayload (span : Span) (state : VerificationState) (payload : StoredPayload) :
    Except Diagnostic VerificationState := do
  match ← storedPayloadTransfer context state span payload with
  | some slot => .ok (state.dischargeSlot slot)
  | none => .ok state

def dischargePayloads (state : VerificationState) (span : Span) (payloads : List StoredPayload) :
    Except Diagnostic VerificationState :=
  payloads.foldlM (storePayload context span) state

/-! ## The type of a definition -/

def definitionValue (definition : OwnedDefinition) (expected : TypeRef)
    (projectionParent : Option BorrowedValue) (projectionPlace : Option ConcretePatternPlace) :
    Except Diagnostic KnownValue :=
  if expected = definition.valueType then
    .ok ⟨definition.valueType, definition.span, definition.result, projectionParent,
      projectionPlace⟩
  else
    .error (verificationError definition.span "definition type does not match its operation")

/-- A callable invocation and the entry wrapper pass every argument borrowed, so an
instance taken as a callable, and the entry, are pinned: none of their parameters
may own. -/
def borrowedContract (function : OwnedFunction) (span : Span) : Except Diagnostic Unit :=
  require (!function.parameters.any (·.parameterOwned)) span
    "pinned instance has an owned parameter"

def pinnedCallable (id : FunctionInstanceId) (functions : List OwnedFunction) (span : Span) :
    Except Diagnostic OwnedFunction := do
  let function ← orVerificationError functions[id]? span "unknown callable body"
  borrowedContract function span
  .ok function

def constructedField (state : VerificationState) (owner : RecordInstanceId)
    (layout : ConcreteRecord) (span : Span) (seen : List Nat) (field : OwnedRecordField) :
    Except Diagnostic (List Nat) := do
  require (!seen.contains field.field.position) span "record construction repeats a field"
  let expected ← recordFieldType field.field owner layout span
  let known ← knownValue state.facts (payloadValue field.value) span
  require (known.valueType = expected) span "record field value type does not match its layout"
  .ok (seen ++ [field.field.position])

def constructedRecord (state : VerificationState) (definition : OwnedDefinition)
    (owner : RecordInstanceId) (fields : List OwnedRecordField) : Except Diagnostic KnownValue := do
  let layout ← recordLayout owner context.records definition.span
  if fields.length = layout.recordFields.length then do
    let _ ← fields.foldlM (constructedField state owner layout definition.span) []
    definitionValue definition (.recordType owner) none none
  else
    .error (verificationError definition.span
      "record construction must provide every field exactly once")

def capturedCallable (state : VerificationState) (definition : OwnedDefinition)
    (body : FunctionInstanceId) (payload : StoredPayload) : Except Diagnostic KnownValue := do
  let environment ← knownValue state.facts (payloadValue payload) definition.span
  let function ← pinnedCallable body context.functions definition.span
  match environment.valueType, function.parameters.map (·.parameterType) with
  | .recordType owner, parameter :: parameters => do
      match ← recordLayout owner context.records definition.span with
      | .inlineFields _ | .valueFields _ =>
          .error (verificationError definition.span "callable environment must be a counted record")
      | .countedFields _ =>
          if parameter = environment.valueType then
            definitionValue definition (.callableType parameters function.returnType) none none
          else
            .error (verificationError definition.span
              "callable body environment type does not match its stored environment")
  | _, _ =>
      .error (verificationError definition.span
        "captured callable requires an environment parameter")

/-! ## Projections -/

def argumentBorrow : OwnedArgument → Option BorrowedValue
  | .borrowedArgument borrow => some borrow
  | .unmanagedArgument _ | .consumedArgument _ _ => none

def valuePlace (value : ValueId) (facts : VerificationFacts) (projection : ProjectionContext)
    (span : Span) : Except Diagnostic ConcretePatternPlace := do
  let known ← knownValue facts value span
  match projection with
  | .noProjection =>
      .error (verificationError span "payload projection outside its selected match arm")
  | .selectionProjection root _ =>
      if value = argumentValue root then .ok ⟨known.valueType, .matchRoot⟩
      else
        orVerificationError known.projectionPlace span
          "selection projection parent is not one of its verified places"

/-- The selected root's explicit borrow may differ from its definition result.
Descendants instead depend on their already verified immediate parent. -/
structure ProjectionParent where
  place : ConcretePatternPlace
  borrow : Option BorrowedValue
  facts : List PlaceFact

section

variable (state : VerificationState) (projection : ProjectionContext)

def verifiedProjectionParent (span : Span) (value : ValueId) :
    Outcome Diagnostic ProjectionParent := do
  let place ← valuePlace value state.facts projection span
  let known ← knownValue state.facts value span
  match projection with
  | .noProjection =>
      .err (verificationError span "payload projection outside its selected match arm")
  | .selectionProjection root facts => do
      let argument := projectionArgument root value known.result
      verifyMatchArgument context state span argument
      let rootValue ← knownValue state.facts (argumentValue root) span
      verifyMatchArgument context state span root
      verifyPatternPlace rootValue.valueType facts context.unions span context.records place
      .ok ⟨place, argumentBorrow argument, facts⟩

/-- Ordinary record reads and selected product fields use the same layout and borrow
checks.  Selection reads additionally publish their verified path. -/
def recordProjectionValue (definition : OwnedDefinition) (field : FieldInstanceId)
    (argument : OwnedArgument) : Outcome Diagnostic KnownValue := do
  let known ← knownValue state.facts (argumentValue argument) definition.span
  let owner ← recordOwner known.valueType definition.span "field projection requires a record value"
  let layout ← recordLayout owner context.records definition.span
  verifyArguments context state definition.span [argument] [known.valueType]
  let expected ← recordFieldType field owner layout definition.span
  match projection with
  | .noProjection => definitionValue definition expected (argumentBorrow argument) none
  | .selectionProjection _ _ => do
      let parent ← verifiedProjectionParent context state projection definition.span
        (argumentValue argument)
      definitionValue definition expected parent.borrow
        (some ⟨expected, .recordField parent.place field⟩)

def payloadProjectionValue (definition : OwnedDefinition) (field : VariantFieldInstanceId)
    (source : ValueId) : Outcome Diagnostic KnownValue := do
  let parent ← verifiedProjectionParent context state projection definition.span source
  let fields ← variantShape field.variant context.unions definition.span
  let payloadType ← orVerificationError fields[field.position]? definition.span
    "unknown variant field identity"
  require (parent.place.valueType = .unionType field.variant.owner) definition.span
    "payload projection does not belong to this match arm"
  let possible ← variantPossibilities parent.place parent.facts context.unions definition.span
  require (projectionIncludes possible field.variant.position) definition.span
    "payload projection does not belong to this match arm"
  require (singletonVariant possible field.variant.position) definition.span
    "payload projection outside its selected match arm"
  definitionValue definition payloadType parent.borrow
    (some ⟨definition.valueType, .unionField parent.place field⟩)

def elementProjectionValue (definition : OwnedDefinition) (index : Nat) (source : ValueId) :
    Outcome Diagnostic KnownValue := do
  let parent ← verifiedProjectionParent context state projection definition.span source
  let element ← listElementType parent.place.valueType definition.span
  verifyElementBound parent.place index parent.facts definition.span
  definitionValue definition element parent.borrow
    (some ⟨definition.valueType, .listElement parent.place index⟩)

def suffixProjectionType (span : Span) (argument : OwnedArgument) (skip : Nat) :
    Outcome Diagnostic TypeRef := do
  verifyMatchArgument context state span argument
  let parent ← verifiedProjectionParent context state projection span (argumentValue argument)
  let element ← listElementType parent.place.valueType span
  require (skip ≤ (lengthBounds parent.place parent.facts).minimum) span
    "list suffix lacks its required length guard"
  .ok (.listType element)

end

/-! ## Operations -/

/-- Finite self-subtraction is zero; infinity and NaN produce NaN. -/
def isFinite (value : Float) : Bool := value - value == 0.0

/-- Every stored element must carry exactly the list's element type. -/
def verifyListElements (state : VerificationState) (span : Span) (element : TypeRef)
    (payloads : List StoredPayload) : Except Diagnostic Unit :=
  payloads.forM fun payload => do
    let known ← knownValue state.facts (payloadValue payload) span
    require (known.valueType = element) span "list element type does not match its List"

def payloadTypes (state : VerificationState) (span : Span) (payloads : List StoredPayload) :
    Except Diagnostic (List TypeRef) :=
  payloads.mapM fun payload => do
    let known ← knownValue state.facts (payloadValue payload) span
    .ok known.valueType

/-- The operation's operands are well typed and live; its type is the definition's. -/
def operationValue (state : VerificationState) (projection : ProjectionContext)
    (definition : OwnedDefinition) : Outcome Diagnostic KnownValue :=
  let span := definition.span
  match definition.operation with
  | .constructRecordDefinition owner fields =>
      constructedRecord context state definition owner fields
  | .readRecordFieldDefinition field argument =>
      recordProjectionValue context state projection definition field argument
  | .parameterDefinition index =>
      if index < state.facts.parameters.length then
        .err (verificationError span "function parameter is defined more than once")
      else if index ≠ state.facts.parameters.length then
        .err (verificationError span
          "function parameter position is not the next signature position")
      else do
        let row ← orVerificationError context.rows[index]? span
          "parameter value in a zero-argument function"
        definitionValue definition row.parameterType none none
  | .voidDefinition => definitionValue definition .voidType none none
  | .stringDefinition _ => definitionValue definition .stringType none none
  | .integerDefinition _ => definitionValue definition .intType none none
  | .floatDefinition value =>
      if isFinite value then definitionValue definition .floatType none none
      else .err (verificationError span "Float literal must be finite")
  | .freeCallableDefinition id => do
      let function ← pinnedCallable id context.functions span
      definitionValue definition
        (.callableType (function.parameters.map (·.parameterType)) function.returnType) none none
  | .capturedCallableDefinition id payload => capturedCallable context state definition id payload
  | .invokeCallableDefinition callee arguments => do
      let known ← knownValue state.facts (argumentValue callee) span
      verifyArgument context state span callee known.valueType
      match known.valueType with
      | .callableType parameters result => do
          verifyArguments context state span arguments parameters
          definitionValue definition result none none
      | _ => .err (verificationError span "indirect call requires a callable value")
  | .callDefinition target arguments => do
      let contract ← callSignature target span context.functions context.unions context.records
      let borrows ← transferredBorrows target arguments context.functions span
      verifyArguments context state span borrows contract.parameters
      require (contract.returnType = definition.valueType) span
        "call result type does not match its contract"
      definitionValue definition contract.returnType none none
  | .constructDefinition id payloads => do
      let types ← payloadTypes state span payloads
      let expected ← variantType id types context.unions span
      definitionValue definition expected none none
  | .constructListDefinition payloads =>
      match definition.valueType with
      | .listType element => do
          verifyListElements state span element payloads
          definitionValue definition definition.valueType none none
      | _ => .err (verificationError span "list construction result must be a List")
  | .payloadDefinition field source =>
      payloadProjectionValue context state projection definition field source
  | .listElementDefinition index source =>
      elementProjectionValue context state projection definition index source
  | .listSuffixDefinition argument skip => do
      let expected ← suffixProjectionType context state projection span argument skip
      definitionValue definition expected none none

/-- Only lists and callables name types of their own; the rest are checked where they
are used. -/
def verifyNamedMembership (valueType : TypeRef) (span : Span) : Except Diagnostic Unit :=
  match valueType with
  | .listType _ | .callableType _ _ =>
      verifyTypeMembership context.unions context.records span valueType
  | _ => .ok ()

def verifyDefinitionType (state : VerificationState) (projection : ProjectionContext)
    (definition : OwnedDefinition) : Outcome Diagnostic KnownValue := do
  require (definition.id = state.facts.firstValue + state.facts.values.length) definition.span
    "value identity is not the next function ordinal"
  verifyNamedMembership context definition.valueType definition.span
  operationValue context state projection definition

/-! ## The result of a definition -/

section

variable (definition : OwnedDefinition)

/-- A managed projection borrows from its parent value and introduces no owner. -/
def verifyProjectionBorrow (parent : ValueId) : Except Diagnostic (Option OwnerId) :=
  match definition.result with
  | .borrowedResult (.payloadBorrow source) =>
      if parent = source then .ok none
      else .error (verificationError definition.span "payload borrow has the wrong parent value")
  | _ => .error (verificationError definition.span "managed projection requires its parent borrow")

/-- An owned parameter is an obligation the function must discharge. -/
def verifyParameterResult (index : Nat) : Except Diagnostic (Option OwnerId) :=
  match context.rows[index]?, definition.result with
  | some (.managedParameter passing), .ownedResult owner =>
      if passing.owned then .ok (some owner)
      else
        .error (verificationError definition.span "borrowed parameter cannot introduce an owner")
  | some (.managedParameter passing), .borrowedResult (.parameterBorrow source) =>
      if passing.owned then
        .error (verificationError definition.span "owned parameter must introduce its owner")
      else if source = definition.id then .ok none
      else
        .error (verificationError definition.span "managed parameter has the wrong borrow source")
  | _, _ => .error (verificationError definition.span "managed parameter must follow its row")

def verifyOwnedResult : Except Diagnostic (Option OwnerId) :=
  match definition.result with
  | .ownedResult owner => .ok (some owner)
  | _ => .error (verificationError definition.span "managed result requires an owner")

def verifyManagedResult : Except Diagnostic (Option OwnerId) :=
  match definition.operation with
  | .parameterDefinition index => verifyParameterResult context definition index
  | .payloadDefinition _ parent => verifyProjectionBorrow definition parent
  | .listElementDefinition _ parent => verifyProjectionBorrow definition parent
  | .readRecordFieldDefinition _ argument =>
      verifyProjectionBorrow definition (argumentValue argument)
  | .stringDefinition _ | .callDefinition _ _ | .invokeCallableDefinition _ _
  | .freeCallableDefinition _ | .capturedCallableDefinition _ _ | .constructDefinition _ _
  | .constructListDefinition _ | .constructRecordDefinition _ _ | .listSuffixDefinition _ _ =>
      verifyOwnedResult definition
  | .voidDefinition | .integerDefinition _ | .floatDefinition _ =>
      .error (verificationError definition.span "unsupported managed value operation")

def verifyDefinitionResult : Except Diagnostic (Option OwnerId) := do
  let needsOwner ← context.needsOwnership definition.valueType
  if needsOwner then verifyManagedResult context definition
  else
    match definition.result with
    | .unmanagedResult => .ok none
    | _ =>
        .error (verificationError definition.span "unmanaged value carries an ownership obligation")

end

end

end Blorp.Verify
