import Blorp.Lower.Model

/-!
# Owned functions

The data model of `own/own.brp`: a lowered function in which every managed
operand says how it is passed, and explicit operations acquire and drop the
obligations the function holds.
-/

namespace Blorp.Own

open Check (Span LiteralPattern ListLengthTest MatchArmId DecisionNodeId)
open Specialize
open Lower (ValueId LoopTarget ValueParameter FunctionLabel)

abbrev OwnerId := Nat

inductive BorrowSource where
  | parameterBorrow (value : ValueId)
  | ownerBorrow (owner : OwnerId)
  | payloadBorrow (value : ValueId)
  deriving DecidableEq, Repr

structure BorrowedValue where
  value : ValueId
  source : BorrowSource
  deriving DecidableEq, Repr

inductive OwnedArgument where
  | unmanagedArgument (value : ValueId)
  | borrowedArgument (borrow : BorrowedValue)
  | consumedArgument (value : ValueId) (owner : OwnerId)
  deriving DecidableEq, Repr

inductive ResultOwnership where
  | unmanagedResult
  | borrowedResult (source : BorrowSource)
  | ownedResult (owner : OwnerId)
  deriving DecidableEq, Repr

inductive StoredPayload where
  | unmanagedPayload (value : ValueId)
  | ownedPayload (value : ValueId) (owner : OwnerId)
  deriving DecidableEq, Repr

structure OwnedRecordField where
  field : FieldInstanceId
  value : StoredPayload
  deriving DecidableEq, Repr

inductive OwnedValueOperation where
  | constructRecordDefinition (owner : RecordInstanceId) (fields : List OwnedRecordField)
  | readRecordFieldDefinition (field : FieldInstanceId) (parent : OwnedArgument)
  | parameterDefinition (index : Nat)
  | voidDefinition
  | integerDefinition (value : Int)
  | floatDefinition (value : Float)
  | stringDefinition (bytes : String)
  | callDefinition (target : CallTarget) (arguments : List OwnedArgument)
  | invokeCallableDefinition (callee : OwnedArgument) (arguments : List OwnedArgument)
  | freeCallableDefinition (body : FunctionInstanceId)
  | capturedCallableDefinition (body : FunctionInstanceId) (environment : StoredPayload)
  | constructDefinition (variant : VariantInstanceId) (payloads : List StoredPayload)
  | constructListDefinition (elements : List StoredPayload)
  | payloadDefinition (field : VariantFieldInstanceId) (value : ValueId)
  | listElementDefinition (index : Nat) (value : ValueId)
  | listSuffixDefinition (argument : OwnedArgument) (skipped : Nat)

structure OwnedDefinition where
  id : ValueId
  valueType : TypeRef
  operation : OwnedValueOperation
  result : ResultOwnership
  span : Span

structure OwnerAcquisition where
  owner : OwnerId
  borrow : BorrowedValue
  deriving DecidableEq, Repr

/-- A value leaving its block on a return or yield edge, with the owner a
managed value moves. -/
inductive ReturnTransfer where
  | unmanagedReturn (value : ValueId)
  | ownedReturn (value : ValueId) (owner : OwnerId)
  deriving DecidableEq, Repr

inductive OwnedJoinParameter where
  | unmanagedJoinParameter (parameter : ValueParameter)
  | managedJoinParameter (parameter : ValueParameter) (owner : OwnerId)

def OwnedJoinParameter.joinParameter : OwnedJoinParameter → ValueParameter
  | .unmanagedJoinParameter parameter => parameter
  | .managedJoinParameter parameter _ => parameter

def OwnedJoinParameter.joinOwnership : OwnedJoinParameter → ResultOwnership
  | .unmanagedJoinParameter _ => .unmanagedResult
  | .managedJoinParameter _ owner => .ownedResult owner

structure OwnedJoinOutputs where
  transfer : ReturnTransfer
  carried : List ReturnTransfer

structure OwnedLoopOutputs where
  value : ReturnTransfer
  carried : List ReturnTransfer
  span : Span

inductive OwnedLoopExit where
  | break (outputs : OwnedLoopOutputs)
  | recur (transfers : List ReturnTransfer) (span : Span)

structure OwnedLoopHeader where
  parameter : OwnedJoinParameter
  initial : ReturnTransfer

mutual

inductive OwnershipOperation where
  | defineValue (definition : OwnedDefinition)
  | executeJoin (join : OwnedJoin)
  | executeLoop (loop : OwnedLoop)
  | acquireOwner (owner : OwnerId) (borrow : BorrowedValue) (span : Span)
  | dropOwner (owner : OwnerId) (span : Span)

/-- `entering` are the obligations whose last enclosing use is this join: every
yielding arm discharges each exactly once, and abrupt arms retire them at the
edge. -/
structure OwnedJoin where
  result : OwnedJoinParameter
  carried : List OwnedJoinParameter
  entering : List OwnerId
  selection : OwnedSelection
  arms : List OwnedJoinArm

structure OwnedSelection where
  scrutinee : OwnedArgument
  nodes : List OwnedDecisionNode
  entry : DecisionNodeId

inductive OwnedDecisionNode where
  | testVariant (place : ConcretePatternPlace) (variant : VariantInstanceId)
      (yes no : DecisionNodeId)
  | testListLength (place : ConcretePatternPlace) (test : ListLengthTest) (yes no : DecisionNodeId)
  | testLiteral (place : ConcretePatternPlace) (literal : LiteralPattern) (yes no : DecisionNodeId)
  | enterArm (edge : OwnedSelectionEdge)

structure OwnedSelectionEdge where
  arm : MatchArmId
  operations : List OwnershipOperation
  transfers : List ReturnTransfer

structure OwnedJoinArm where
  id : MatchArmId
  inputs : List OwnedJoinParameter
  operations : List OwnershipOperation
  exit : OwnedJoinExit

inductive OwnedJoinExit where
  | yield (outputs : OwnedJoinOutputs)
  | transferLoop (target : LoopTarget) (tail : OwnedLoopTail)

inductive OwnedLoopTail where
  | exitLoop (exit : OwnedLoopExit)
  | matchLoop (matched : OwnedLoopMatch)

structure OwnedLoopMatch where
  selection : OwnedSelection
  arms : List OwnedLoopArm

structure OwnedLoopArm where
  id : MatchArmId
  inputs : List OwnedJoinParameter
  body : OwnedLoopBlock

structure OwnedLoopBlock where
  operations : List OwnershipOperation
  tail : OwnedLoopTail

structure OwnedLoop where
  entryAcquisitions : List OwnerAcquisition
  headers : List OwnedLoopHeader
  result : OwnedJoinParameter
  carried : List OwnedJoinParameter
  body : OwnedLoopBlock

end

/-- How the ownership stage passes one managed parameter.  When it is `owned`,
the caller transfers one obligation and the callee discharges it. -/
structure ManagedPassing where
  valueType : TypeRef
  owned : Bool

inductive OwnedParameter where
  | unmanagedParameter (valueType : TypeRef)
  | managedParameter (passing : ManagedPassing)

def OwnedParameter.parameterType : OwnedParameter → TypeRef
  | .unmanagedParameter valueType => valueType
  | .managedParameter passing => passing.valueType

def OwnedParameter.parameterOwned : OwnedParameter → Bool
  | .unmanagedParameter _ => false
  | .managedParameter passing => passing.owned

structure OwnedFunction where
  label : FunctionLabel
  parameters : List OwnedParameter
  returnType : TypeRef
  operations : List OwnershipOperation
  result : ReturnTransfer

structure OwnershipProgram where
  records : List ConcreteRecord
  unions : List ConcreteUnion
  functions : List OwnedFunction
  entrypoint : Entrypoint FunctionInstanceId

/-! ## Operands -/

def argumentValue : OwnedArgument → ValueId
  | .unmanagedArgument id => id
  | .consumedArgument id _ => id
  | .borrowedArgument borrow => borrow.value

def payloadValue : StoredPayload → ValueId
  | .unmanagedPayload value => value
  | .ownedPayload value _ => value

def transferValue : ReturnTransfer → ValueId
  | .unmanagedReturn value => value
  | .ownedReturn value _ => value

def storedPayloads : OwnedValueOperation → List StoredPayload
  | .constructListDefinition payloads => payloads
  | .constructDefinition _ payloads => payloads
  | .capturedCallableDefinition _ payload => [payload]
  | .constructRecordDefinition _ fields => fields.map (·.value)
  | _ => []

/-- How a value is read again: as its own definition's borrow. -/
def valueArgument (value : ValueId) (result : ResultOwnership) : OwnedArgument :=
  match result with
  | .unmanagedResult => .unmanagedArgument value
  | .borrowedResult source => .borrowedArgument ⟨value, source⟩
  | .ownedResult owner => .borrowedArgument ⟨value, .ownerBorrow owner⟩

/-- A projection reads the selection's own scrutinee as the selection does, and any
other parent as its definition. -/
def projectionArgument (root : OwnedArgument) (value : ValueId) (result : ResultOwnership) :
    OwnedArgument :=
  if value = argumentValue root then root else valueArgument value result

def OwnedLoopExit.transfers : OwnedLoopExit → List ReturnTransfer
  | .break outputs => outputs.value :: outputs.carried
  | .recur transfers _ => transfers

/-- A header initial whose owner is not one of the loop's entry acquisitions takes
that existing obligation.  Membership, not origin, decides. -/
def takesExistingOwner (loop : OwnedLoop) (owner : OwnerId) : Bool :=
  loop.entryAcquisitions.all fun acquisition => acquisition.owner ≠ owner

end Blorp.Own
