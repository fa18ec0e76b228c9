import Blorp.Own.Uses

/-!
# Passing values

How ownership insertion passes one operand.  Every owned slot (a call's owned
position, a stored payload, a loop header's entry, an edge's output) asks
`transfer`: an occurrence moves its value's owner when that obligation ends here
and no earlier occurrence took it, and acquires a fresh one otherwise.
-/

namespace Blorp.Own

open Check (Span)
open Specialize
open Lower (ValueId ValueDefinition LoopTarget)
open Fuel

/-! ## Scopes and schedules -/

structure Layouts where
  unions : List ConcreteUnion
  records : List ConcreteRecord

def Layouts.needsOwnership (layouts : Layouts) (valueType : TypeRef) : Except Diagnostic Bool :=
  valueType.valueNeedsOwnership layouts.unions layouts.records

structure ScheduledDrop where
  owner : OwnerId
  span : Span
  last : Nat

/-- A block enclosing a join arm, as of that join: its values before the join
with their ownership. -/
structure EnclosingBlock where
  firstValue : Nat
  sources : List ResultOwnership
  owners : List ScheduledDrop
  position : Nat
  consumed : List OwnerId

/-- The nearest loop owns cleanup only inside this lexical boundary. -/
structure LoopScope where
  target : LoopTarget
  preBlocks : Nat

/-- The values an operand may name: those of this block so far, and those of the
enclosing blocks. -/
structure ValueScope where
  sources : List ResultOwnership
  enclosing : List EnclosingBlock
  firstValue : Nat

def enclosingIntervals (enclosing : List EnclosingBlock) : List ValueInterval :=
  enclosing.map fun block => ⟨block.firstValue, block.sources.length⟩

/-- Each callee's rows, by instance number.  Inserting one function on its own
treats every call as borrowing. -/
inductive CalleeContracts where
  | everyCallBorrows
  | instanceRows (rows : List (List OwnedParameter))

/-- The contracts one insertion reads: its function's own rows and its callees'. -/
structure CallContracts where
  parameters : List OwnedParameter
  callees : CalleeContracts

def valueSource (value : ValueId) (scope : ValueScope) (span : Span) :
    Except Diagnostic ResultOwnership :=
  let entry :=
    if inInterval value scope.firstValue scope.sources.length then
      scope.sources[value - scope.firstValue]?
    else
      match scope.enclosing.find? fun block =>
          inInterval value block.firstValue block.sources.length with
      | some block => block.sources[value - block.firstValue]?
      | none => none
  orInternalError entry span "value used before definition in ownership insertion"

def borrowArgument (value : ValueId) (scope : ValueScope) (span : Span) :
    Except Diagnostic OwnedArgument := do
  match ← valueSource value scope span with
  | .unmanagedResult => .ok (.unmanagedArgument value)
  | .borrowedResult source => .ok (.borrowedArgument ⟨value, source⟩)
  | .ownedResult owner => .ok (.borrowedArgument ⟨value, .ownerBorrow owner⟩)

/-! ## The move rule -/

def hasConsumed (consumed : List OwnerId) (owner : OwnerId) : Bool :=
  consumed.any (· = owner)

def matchesLastUse (rows : List ScheduledDrop) (owner : OwnerId) (position : Nat) : Bool :=
  rows.any fun row => decide (row.owner = owner) && decide (row.last = position)

/-- An obligation ends at a point of a block when `ending` holds it, or it is a
row of the nearest loop whose last use is `position`, and nothing at an earlier
point consumed it. -/
def transferableHere (ending loopUses : List ScheduledDrop) (consumed : List OwnerId)
    (owner : OwnerId) (position : Nat) : Bool :=
  (ending.any (·.owner = owner) || matchesLastUse loopUses owner position) &&
    !hasConsumed consumed owner

inductive Transfer where
  | moves (owner : OwnerId)
  | acquires

def transfer (source : ResultOwnership) (ending loopUses : List ScheduledDrop)
    (consumed : List OwnerId) (position : Nat) (taken : List OwnerId) : Transfer :=
  match source with
  | .ownedResult owner =>
      if transferableHere ending loopUses consumed owner position && !hasConsumed taken owner then
        .moves owner
      else .acquires
  | _ => .acquires

/-- The point of a block a step stands at: the drop bucket before the step, the
loop rows, and what earlier steps consumed. -/
structure StepPoint where
  preStepDrops : Option (List ScheduledDrop)
  loopUses : List ScheduledDrop
  consumed : List OwnerId
  position : Nat

def StepPoint.stepDrops (point : StepPoint) (span : Span) :
    Except Diagnostic (List ScheduledDrop) :=
  orInternalError point.preStepDrops span "missing drop schedule row"

/-! ## Stored payloads -/

/-- Stored payloads of a record, a variant, a list literal or a callable
environment, with what filling them acquired and took. -/
structure StoredPayloads where
  stored : List StoredPayload
  acquisitions : List OwnerAcquisition
  taken : List OwnerId
  next : Nat

def StoredPayloads.acquire (state : StoredPayloads) (value : ValueId) (borrow : BorrowSource) :
    StoredPayloads :=
  { stored := state.stored ++ [.ownedPayload value state.next]
    acquisitions := state.acquisitions ++ [⟨state.next, ⟨value, borrow⟩⟩]
    taken := state.taken
    next := state.next + 1 }

def storePayload (scope : ValueScope) (span : Span) (stepDrops : List ScheduledDrop)
    (point : StepPoint) (state : StoredPayloads) (value : ValueId) :
    Except Diagnostic StoredPayloads := do
  match ← valueSource value scope span with
  | .unmanagedResult => .ok { state with stored := state.stored ++ [.unmanagedPayload value] }
  | .borrowedResult borrowed => .ok (state.acquire value borrowed)
  | .ownedResult owner =>
      -- One obligation fills one slot: the second of `[x, x]` acquires.
      match transfer (.ownedResult owner) stepDrops point.loopUses point.consumed point.position
          state.taken with
      | .moves moved =>
          .ok { state with
            stored := state.stored ++ [.ownedPayload value moved]
            taken := state.taken ++ [moved] }
      | .acquires => .ok (state.acquire value (.ownerBorrow owner))

def storePayloads (values : List ValueId) (scope : ValueScope) (span : Span) (point : StepPoint)
    (nextOwner : Nat) : Except Diagnostic StoredPayloads := do
  let stepDrops ← point.stepDrops span
  values.foldlM (storePayload scope span stepDrops point) ⟨[], [], [], nextOwner⟩

/-! ## Definitions -/

/-- Stored payloads acquire before their definition, or take an owner whose last
use is the definition.  A managed record projection borrows its parent, and
insertion decides at its step whether that borrow lasts. -/
inductive AcquisitionPlan where
  | storedAcquisitions (acquisitions : List OwnerAcquisition) (taken : List OwnerId)
  | projection (borrow : BorrowedValue)

structure BuiltDefinition where
  definition : OwnedDefinition
  nextOwner : Nat
  acquisitions : AcquisitionPlan

def borrowedArguments (values : List ValueId) (scope : ValueScope) (span : Span) :
    Except Diagnostic (List OwnedArgument) :=
  values.mapM fun value => borrowArgument value scope span

/-- A definition's operation with its operands passed, and what passing them
acquired and took. -/
structure BuiltOperation where
  operation : OwnedValueOperation
  acquisitions : List OwnerAcquisition
  taken : List OwnerId
  next : Nat

def StoredPayloads.build (payloads : StoredPayloads) (operation : OwnedValueOperation) :
    BuiltOperation :=
  ⟨operation, payloads.acquisitions, payloads.taken, payloads.next⟩

def storedFields (fields : List Lower.RecordFieldValue) (payloads : List StoredPayload) :
    List OwnedRecordField :=
  List.zipWith (fun field payload => ⟨field.field, payload⟩) fields payloads

def buildOperation (definition : ValueDefinition) (scope : ValueScope) (nextOwner : Nat)
    (point : StepPoint) : Except Diagnostic BuiltOperation := do
  let plain (operation : OwnedValueOperation) : BuiltOperation := ⟨operation, [], [], nextOwner⟩
  match definition.operation with
  | .constructRecordValue owner fields => do
      let payloads ← storePayloads (fields.map (·.value)) scope definition.span point nextOwner
      let stored := storedFields fields payloads.stored
      if stored.length = fields.length then
        .ok (payloads.build (.constructRecordDefinition owner stored))
      else .error (internalError definition.span "record field has no stored payload")
  | .readRecordFieldValue field value => do
      let parent ← borrowArgument value scope definition.span
      .ok (plain (.readRecordFieldDefinition field parent))
  | .parameterValue index => .ok (plain (.parameterDefinition index))
  | .voidValue => .ok (plain .voidDefinition)
  | .stringValue bytes => .ok (plain (.stringDefinition bytes))
  | .integerValue value => .ok (plain (.integerDefinition value))
  | .floatValue value => .ok (plain (.floatDefinition value))
  | .constructValue id values => do
      let payloads ← storePayloads values scope definition.span point nextOwner
      .ok (payloads.build (.constructDefinition id payloads.stored))
  | .constructListValue values => do
      let payloads ← storePayloads values scope definition.span point nextOwner
      .ok (payloads.build (.constructListDefinition payloads.stored))
  | .payloadValue variant value => .ok (plain (.payloadDefinition variant value))
  | .listElementValue index value => .ok (plain (.listElementDefinition index value))
  | .listSuffixValue value skipped => do
      let argument ← borrowArgument value scope definition.span
      .ok (plain (.listSuffixDefinition argument skipped))
  | .freeCallableValue body => .ok (plain (.freeCallableDefinition body))
  | .capturedCallableValue body environment => do
      let payloads ← storePayloads [environment] scope definition.span point nextOwner
      let payload ← orInternalError payloads.stored[0]? definition.span
        "missing callable environment payload"
      .ok (payloads.build (.capturedCallableDefinition body payload))
  | .invokeCallableValue callee written => do
      let callable ← borrowArgument callee scope definition.span
      let arguments ← borrowedArguments written scope definition.span
      .ok (plain (.invokeCallableDefinition callable arguments))
  | .callValue target written => do
      let arguments ← borrowedArguments written scope definition.span
      .ok (plain (.callDefinition target arguments))

def managedResult (definition : ValueDefinition) (operation : OwnedValueOperation) (next : Nat)
    (parameters : List OwnedParameter) : Except Diagnostic ResultOwnership :=
  match operation with
  -- An owned parameter is an ordinary local obligation of the callee.
  | .parameterDefinition index =>
      match parameters[index]? with
      | some (.managedParameter passing) =>
          if passing.owned then .ok (.ownedResult next)
          else .ok (.borrowedResult (.parameterBorrow definition.id))
      | _ => .error (internalError definition.span "managed parameter has no managed row")
  | .payloadDefinition _ source => .ok (.borrowedResult (.payloadBorrow source))
  | .listElementDefinition _ source => .ok (.borrowedResult (.payloadBorrow source))
  | .readRecordFieldDefinition _ argument => .ok (.borrowedResult (.payloadBorrow (argumentValue argument)))
  | .stringDefinition _ | .callDefinition _ _ | .invokeCallableDefinition _ _
  | .freeCallableDefinition _ | .capturedCallableDefinition _ _ | .constructDefinition _ _
  | .constructListDefinition _ | .listSuffixDefinition _ _ | .constructRecordDefinition _ _ =>
      .ok (.ownedResult next)
  | _ => .error (internalError definition.span "unsupported managed value operation")

def ResultOwnership.renumbered (result : ResultOwnership) (owner : OwnerId) : ResultOwnership :=
  match result with
  | .ownedResult _ => .ownedResult owner
  | _ => result

def ResultOwnership.after (result : ResultOwnership) (next : Nat) : Nat :=
  match result with
  | .ownedResult _ => next + 1
  | _ => next

def acquisitionPlan (id : ValueId) (built : BuiltOperation) (result : ResultOwnership) :
    AcquisitionPlan :=
  match built.operation, result with
  | .readRecordFieldDefinition _ _, .borrowedResult source => .projection ⟨id, source⟩
  | _, _ => .storedAcquisitions built.acquisitions built.taken

def definitionResult (needsOwner : Bool) (definition : ValueDefinition) (built : BuiltOperation)
    (parameters : List OwnedParameter) : Except Diagnostic ResultOwnership :=
  if needsOwner then managedResult definition built.operation built.next parameters
  else .ok .unmanagedResult

def buildDefinition (definition : ValueDefinition) (scope : ValueScope) (nextOwner : Nat)
    (point : StepPoint) (parameters : List OwnedParameter) (layouts : Layouts) :
    Except Diagnostic BuiltDefinition := do
  let needsOwner ← layouts.needsOwnership definition.valueType
  let built ← buildOperation definition scope nextOwner point
  let result ← definitionResult needsOwner definition built parameters
  .ok
    { definition :=
        { id := definition.id
          valueType := definition.valueType
          operation := built.operation
          result := result
          span := definition.span }
      nextOwner := result.after built.next
      acquisitions := acquisitionPlan definition.id built result }

/-! ## Calls -/

/-- Borrow dependencies follow their published provenance, including
projections. -/
def dependencyOwner : Nat → ValueId → ValueScope → Span → Outcome Diagnostic (Option OwnerId)
  | 0, _, _, _ => .timeout
  | fuel + 1, value, scope, span => do
      match ← valueSource value scope span with
      | .ownedResult owner => .ok (some owner)
      | .borrowedResult (.ownerBorrow owner) => .ok (some owner)
      | .borrowedResult (.payloadBorrow parent) => dependencyOwner fuel parent scope span
      | _ => .ok none

/-- How a call passes its operands: the owners it moves into transferring
positions, and the obligations it acquires for owned positions whose owner may
not move here. -/
structure PassedCall where
  definition : OwnedDefinition
  acquisitions : List OwnerAcquisition
  taken : List OwnerId
  nextOwner : Nat

/-- Which positions of a call may move their argument's owner.  An unmovable
in-place operand stays borrowed and its helper copies; an unmovable owned
parameter receives a fresh acquisition. -/
inductive PassingRule where
  | inPlaceOperand
  | ownedPositions (rows : List Bool)

def PassingRule.transfers (rule : PassingRule) (arguments : List OwnedArgument) : List Bool :=
  match rule with
  | .inPlaceOperand => (arguments.map fun _ => false).set 0 true
  | .ownedPositions rows => rows

def borrowedBacker (fuel : Nat) (scope : ValueScope) (span : Span) (transfers : List Bool)
    (backers : List OwnerId) (argument : OwnedArgument × Nat) :
    Outcome Diagnostic (List OwnerId) :=
  match argument.1, transfers[argument.2]? with
  | .borrowedArgument borrow, some false => do
      match ← dependencyOwner fuel borrow.value scope span with
      | some owner => .ok (backers ++ [owner])
      | none => .ok backers
  | _, _ => .ok backers

structure Passing where
  passed : List OwnedArgument
  acquisitions : List OwnerAcquisition
  taken : List OwnerId
  next : Nat

/-- Passes one argument: a position the rule marks moves its owner when that may
transfer here and backs no borrowed position. -/
def passArgument (scope : ValueScope) (span : Span) (stepDrops : List ScheduledDrop)
    (point : StepPoint) (rule : PassingRule) (transfers : List Bool) (backers : List OwnerId)
    (state : Passing) (argument : OwnedArgument × Nat) : Except Diagnostic Passing :=
  match argument.1, transfers[argument.2]? with
  | .borrowedArgument borrow, some true => do
      let source ← valueSource borrow.value scope span
      let backsBorrow :=
        match source with
        | .ownedResult owner => backers.contains owner
        | _ => false
      let decided :=
        if backsBorrow then .acquires
        else transfer source stepDrops point.loopUses point.consumed point.position state.taken
      match decided, rule with
      | .moves owner, _ =>
          .ok { state with
            passed := state.passed ++ [.consumedArgument borrow.value owner]
            taken := state.taken ++ [owner] }
      | .acquires, .ownedPositions _ =>
          .ok
            { passed := state.passed ++ [.consumedArgument borrow.value state.next]
              acquisitions := state.acquisitions ++ [⟨state.next, borrow⟩]
              taken := state.taken
              next := state.next + 1 }
      | .acquires, .inPlaceOperand => .ok { state with passed := state.passed ++ [argument.1] }
  -- An unmanaged value never fills an owned position; verification rejects one.
  | _, _ => .ok { state with passed := state.passed ++ [argument.1] }

/-- The one move rule of a call.  `none` when the call transfers nothing. -/
def passArguments (fuel : Nat) (definition : OwnedDefinition) (target : CallTarget)
    (arguments : List OwnedArgument) (rule : PassingRule) (firstOwner : Nat) (scope : ValueScope)
    (point : StepPoint) : Outcome Diagnostic (Option PassedCall) := do
  let stepDrops ← point.stepDrops definition.span
  let transfers := rule.transfers arguments
  if arguments.length ≠ transfers.length then
    .err (internalError definition.span "call argument count differs from its contract")
  else do
    let backed ← Outcome.loop (borrowedBacker fuel scope definition.span transfers)
      arguments.zipIdx ([], none)
    let passing ← Outcome.loop
      (fun state argument =>
        liftM (passArgument scope definition.span stepDrops point rule transfers backed.1 state
          argument))
      arguments.zipIdx (⟨[], [], [], firstOwner⟩, backed.2)
    let state ← Outcome.settle passing
    if state.taken.isEmpty && state.acquisitions.isEmpty then .ok none
    else
      -- The result's owner follows the acquisitions made before the call.
      .ok (some
        { definition :=
            { definition with
              operation := .callDefinition target state.passed
              result := definition.result.renumbered state.next }
          acquisitions := state.acquisitions
          taken := state.taken
          nextOwner := definition.result.after state.next })

/-- A reusing runtime operand 0 may take its owner; an owned user position must
receive an obligation. -/
def passCall (fuel : Nat) (definition : OwnedDefinition) (callees : CalleeContracts)
    (firstOwner : Nat) (scope : ValueScope) (point : StepPoint) :
    Outcome Diagnostic (Option PassedCall) :=
  match definition.operation with
  | .callDefinition (.runtimeFunction operation) arguments =>
      if operation.reusesFirstOperand then
        passArguments fuel definition (.runtimeFunction operation) arguments .inPlaceOperand
          firstOwner scope point
      else .ok none
  | .callDefinition (.userFunction callee) arguments =>
      match callees with
      | .everyCallBorrows => .ok none
      | .instanceRows rows =>
          match rows[callee]? with
          | none => .err (internalError definition.span "call to an instance with no contract")
          | some calleeRows =>
              if calleeRows.any (·.parameterOwned) then
                passArguments fuel definition (.userFunction callee) arguments
                  (.ownedPositions (calleeRows.map (·.parameterOwned))) firstOwner scope point
              else .ok none
  | _ => .ok none

end Blorp.Own
