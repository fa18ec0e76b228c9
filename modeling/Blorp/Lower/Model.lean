import Blorp.Specialize.Model

/-!
# Lowered functions

The data model of `lower/lower.brp`: a function is a list of steps, each a value
definition, a join over the arms of a match, or a loop with carried headers.
Values are numbered through the whole function, so a `ValueId` is a `Nat`.
-/

namespace Blorp.Lower

open Check (Span LiteralPattern ListLengthTest MatchArmId DecisionNodeId)
open Specialize

/-- A value identity belongs to one lowered function, including its branches. -/
abbrev ValueId := Nat

abbrev LoopTarget := ValueId

abbrev FunctionLabel := String

structure RecordFieldValue where
  field : FieldInstanceId
  value : ValueId
  deriving DecidableEq, Repr

inductive ValueOperation where
  | constructRecordValue (owner : RecordInstanceId) (fields : List RecordFieldValue)
  | readRecordFieldValue (field : FieldInstanceId) (value : ValueId)
  | parameterValue (index : Nat)
  | voidValue
  | integerValue (value : Int)
  | floatValue (value : Float)
  | stringValue (bytes : String)
  | callValue (target : CallTarget) (arguments : List ValueId)
  | invokeCallableValue (callee : ValueId) (arguments : List ValueId)
  | freeCallableValue (body : FunctionInstanceId)
  | capturedCallableValue (body : FunctionInstanceId) (environment : ValueId)
  | constructValue (variant : VariantInstanceId) (arguments : List ValueId)
  | constructListValue (elements : List ValueId)
  | payloadValue (field : VariantFieldInstanceId) (value : ValueId)
  | listElementValue (index : Nat) (value : ValueId)
  | listSuffixValue (value : ValueId) (skipped : Nat)

def ValueOperation.valueReads : ValueOperation → List ValueId
  | .constructRecordValue _ fields => fields.map (·.value)
  | .readRecordFieldValue _ value => [value]
  | .callValue _ arguments => arguments
  | .invokeCallableValue callee arguments => [callee] ++ arguments
  | .capturedCallableValue _ environment => [environment]
  | .freeCallableValue _ => []
  | .constructValue _ arguments => arguments
  | .constructListValue elements => elements
  | .payloadValue _ value => [value]
  | .listElementValue _ value => [value]
  | .listSuffixValue value _ => [value]
  | .parameterValue _ | .voidValue | .integerValue _ | .floatValue _ | .stringValue _ => []

structure ValueDefinition where
  id : ValueId
  valueType : TypeRef
  operation : ValueOperation
  span : Span

structure ValueParameter where
  id : ValueId
  valueType : TypeRef
  span : Span

structure LoopHeader where
  parameter : ValueParameter
  initial : ValueId

structure LoopOutputs where
  value : ValueId
  carried : List ValueId
  span : Span

inductive LoopExit where
  | break (outputs : LoopOutputs)
  | recur (arguments : List ValueId) (span : Span)

structure JoinOutputs where
  value : ValueId
  carried : List ValueId

/-- Successful selection edges can only borrow guarded fields. -/
inductive SelectionDefinition where
  | borrowUnionField (parameter : ValueParameter) (field : VariantFieldInstanceId)
      (parent : ValueId)
  | borrowRecordField (parameter : ValueParameter) (field : FieldInstanceId) (parent : ValueId)
  | borrowListElement (parameter : ValueParameter) (index : Nat) (parent : ValueId)
  | copyListSuffix (parameter : ValueParameter) (parent : ValueId) (skipped : Nat)

structure SelectionEdge where
  arm : MatchArmId
  definitions : List SelectionDefinition
  arguments : List ValueId

inductive LoweredDecisionNode where
  | testVariant (place : ConcretePatternPlace) (variant : VariantInstanceId)
      (yes no : DecisionNodeId)
  | testListLength (place : ConcretePatternPlace) (test : ListLengthTest) (yes no : DecisionNodeId)
  | testLiteral (place : ConcretePatternPlace) (literal : LiteralPattern) (yes no : DecisionNodeId)
  | enterArm (edge : SelectionEdge)

structure LoweredSelection where
  scrutinee : ValueId
  nodes : List LoweredDecisionNode
  entry : DecisionNodeId

mutual

inductive LoweredStep where
  | define (definition : ValueDefinition)
  | join (join : LoweredJoin)
  | loop (loop : LoweredLoop)

/-- `reads` are the values the scrutinee and arms read from outside the arms,
published with the join so use analysis never walks its arms. -/
structure LoweredJoin where
  result : ValueParameter
  carried : List ValueParameter
  selection : LoweredSelection
  arms : List JoinArm
  reads : List ValueId

structure JoinArm where
  id : MatchArmId
  inputs : List ValueParameter
  steps : List LoweredStep
  exit : JoinExit

inductive JoinExit where
  | yield (outputs : JoinOutputs)
  | transferLoop (target : LoopTarget) (tail : LoopTail)

inductive LoopTail where
  | exitLoop (exit : LoopExit)
  | matchLoop (matched : LoopMatch)

structure LoopMatch where
  selection : LoweredSelection
  arms : List LoopArm

structure LoopArm where
  id : MatchArmId
  inputs : List ValueParameter
  body : LoopBlock

structure LoopBlock where
  steps : List LoweredStep
  tail : LoopTail

/-- `bodyReads` are the values the body reads from outside the loop.  Header
initials are not body reads: they are read once, at entry. -/
structure LoweredLoop where
  headers : List LoopHeader
  result : ValueParameter
  carried : List ValueParameter
  body : LoopBlock
  bodyReads : List ValueId

end

structure LoweredFunction where
  label : FunctionLabel
  signature : FunctionSignature
  steps : List LoweredStep
  result : ValueId

structure LoweredProgram where
  records : List ConcreteRecord
  unions : List ConcreteUnion
  functions : List LoweredFunction
  entrypoint : Entrypoint FunctionInstanceId

namespace LoweredStep

def stepReads : LoweredStep → List ValueId
  | .define definition => definition.operation.valueReads
  | .join joined => joined.reads
  | .loop looped => looped.headers.map (·.initial) ++ looped.bodyReads

def stepSpan : LoweredStep → Span
  | .define definition => definition.span
  | .join joined => joined.result.span
  | .loop looped => looped.result.span

def stepValueCount : LoweredStep → Nat
  | .define _ => 1
  | .join joined => 1 + joined.carried.length
  | .loop looped => 1 + looped.carried.length

end LoweredStep

def blockValueCount (steps : List LoweredStep) : Nat :=
  steps.foldl (fun count step => count + step.stepValueCount) 0

/-- The span of the parameter of this identity; a later one of the same identity
takes its place. -/
def parameterSpan (value : ValueId) (found : Option Span) (parameters : List ValueParameter) :
    Option Span :=
  parameters.foldl
    (fun found parameter => if parameter.id = value then some parameter.span else found) found

def LoweredStep.introducedSpan (value : ValueId) : LoweredStep → Option Span
  | .define definition => if definition.id = value then some definition.span else none
  | .join joined => parameterSpan value none (joined.result :: joined.carried)
  | .loop looped => parameterSpan value none (looped.result :: looped.carried)

/-- Value ordinals index introductions, never execution steps, so a local
operand's span is resolved at the first step that introduces it. -/
def valueSpan (steps : List LoweredStep) (value : ValueId) : Option Span :=
  steps.findSome? (LoweredStep.introducedSpan value)

end Blorp.Lower
