import Blorp.Own.Labels

/-!
# Erasing ownership

`eraseProgram` takes the ownership out of an owned program: acquisitions, drops
and loop entry acquisitions go, and parameters, arguments, payloads, results and
transfers lose their tags.  What is left is a lowered program again, except that a
selection edge may only hold the definitions a lowered edge can hold, so erasure
is partial.  The `reads` of a join and the `bodyReads` of a loop are notes for the
use analysis that an owned program does not keep; `withoutReads` clears them.
-/

namespace Blorp

/-! ## Lowered programs without their read notes -/

namespace Lower

mutual

def LoweredStep.withoutReads : LoweredStep → LoweredStep
  | .define definition => .define definition
  | .join joined => .join (LoweredJoin.withoutReads joined)
  | .loop looped => .loop (LoweredLoop.withoutReads looped)

def stepsWithoutReads : List LoweredStep → List LoweredStep
  | [] => []
  | step :: steps => LoweredStep.withoutReads step :: stepsWithoutReads steps

def LoweredJoin.withoutReads : LoweredJoin → LoweredJoin
  | ⟨result, carried, selection, arms, _⟩ =>
      ⟨result, carried, selection, joinArmsWithoutReads arms, []⟩

def joinArmsWithoutReads : List JoinArm → List JoinArm
  | [] => []
  | arm :: arms => JoinArm.withoutReads arm :: joinArmsWithoutReads arms

def JoinArm.withoutReads : JoinArm → JoinArm
  | ⟨id, inputs, steps, exit⟩ => ⟨id, inputs, stepsWithoutReads steps, JoinExit.withoutReads exit⟩

def JoinExit.withoutReads : JoinExit → JoinExit
  | .yield outputs => .yield outputs
  | .transferLoop target tail => .transferLoop target (LoopTail.withoutReads tail)

def LoopTail.withoutReads : LoopTail → LoopTail
  | .exitLoop exit => .exitLoop exit
  | .matchLoop matched => .matchLoop (LoopMatch.withoutReads matched)

def LoopMatch.withoutReads : LoopMatch → LoopMatch
  | ⟨selection, arms⟩ => ⟨selection, loopArmsWithoutReads arms⟩

def loopArmsWithoutReads : List LoopArm → List LoopArm
  | [] => []
  | arm :: arms => LoopArm.withoutReads arm :: loopArmsWithoutReads arms

def LoopArm.withoutReads : LoopArm → LoopArm
  | ⟨id, inputs, body⟩ => ⟨id, inputs, LoopBlock.withoutReads body⟩

def LoopBlock.withoutReads : LoopBlock → LoopBlock
  | ⟨steps, tail⟩ => ⟨stepsWithoutReads steps, LoopTail.withoutReads tail⟩

def LoweredLoop.withoutReads : LoweredLoop → LoweredLoop
  | ⟨headers, result, carried, body, _⟩ =>
      ⟨headers, result, carried, LoopBlock.withoutReads body, []⟩

end

def LoweredFunction.withoutReads (function : LoweredFunction) : LoweredFunction :=
  { function with steps := stepsWithoutReads function.steps }

def LoweredProgram.withoutReads (program : LoweredProgram) : LoweredProgram :=
  { program with functions := program.functions.map LoweredFunction.withoutReads }

theorem stepsWithoutReads_eq_map : ∀ steps : List LoweredStep,
    stepsWithoutReads steps = steps.map LoweredStep.withoutReads
  | [] => rfl
  | step :: steps => by simp [stepsWithoutReads, stepsWithoutReads_eq_map steps]

theorem joinArmsWithoutReads_eq_map : ∀ arms : List JoinArm,
    joinArmsWithoutReads arms = arms.map JoinArm.withoutReads
  | [] => rfl
  | arm :: arms => by simp [joinArmsWithoutReads, joinArmsWithoutReads_eq_map arms]

theorem loopArmsWithoutReads_eq_map : ∀ arms : List LoopArm,
    loopArmsWithoutReads arms = arms.map LoopArm.withoutReads
  | [] => rfl
  | arm :: arms => by simp [loopArmsWithoutReads, loopArmsWithoutReads_eq_map arms]

theorem LoweredJoin.withoutReads_eq (joined : LoweredJoin) : joined.withoutReads =
      ⟨joined.result, joined.carried, joined.selection, joined.arms.map JoinArm.withoutReads, []⟩ := by
  obtain ⟨result, carried, selection, arms, reads⟩ := joined
  rw [LoweredJoin.withoutReads, joinArmsWithoutReads_eq_map]

theorem JoinArm.withoutReads_eq (arm : JoinArm) :
    arm.withoutReads = ⟨arm.id, arm.inputs, stepsWithoutReads arm.steps, arm.exit.withoutReads⟩ := by
  obtain ⟨id, inputs, steps, exit⟩ := arm
  rw [JoinArm.withoutReads]

theorem LoopArm.withoutReads_eq (arm : LoopArm) :
    arm.withoutReads = ⟨arm.id, arm.inputs, arm.body.withoutReads⟩ := by
  obtain ⟨id, inputs, body⟩ := arm
  rw [LoopArm.withoutReads]

theorem LoweredLoop.withoutReads_eq (looped : LoweredLoop) : looped.withoutReads =
      ⟨looped.headers, looped.result, looped.carried, looped.body.withoutReads, []⟩ := by
  obtain ⟨headers, result, carried, body, reads⟩ := looped
  rw [LoweredLoop.withoutReads]

theorem LoopMatch.withoutReads_eq (matched : LoopMatch) :
    matched.withoutReads = ⟨matched.selection, matched.arms.map LoopArm.withoutReads⟩ := by
  obtain ⟨selection, arms⟩ := matched
  rw [LoopMatch.withoutReads, loopArmsWithoutReads_eq_map]

end Lower

namespace Own

open Specialize
open Lower (ValueParameter ValueDefinition ValueOperation LoweredStep LoweredJoin
  LoweredLoop LoweredSelection LoweredFunction LoweredProgram LoopExit LoopHeader LoopTail
  LoopBlock LoopMatch LoopArm JoinArm JoinExit SelectionDefinition SelectionEdge)
open Fuel Outcome

/-! ## Erasure -/

def eraseValueOperation : OwnedValueOperation → ValueOperation
  | .constructRecordDefinition owner fields =>
      .constructRecordValue owner (fields.map fun field => ⟨field.field, payloadValue field.value⟩)
  | .readRecordFieldDefinition field parent => .readRecordFieldValue field (argumentValue parent)
  | .parameterDefinition index => .parameterValue index
  | .voidDefinition => .voidValue
  | .integerDefinition value => .integerValue value
  | .floatDefinition value => .floatValue value
  | .stringDefinition bytes => .stringValue bytes
  | .callDefinition target arguments => .callValue target (arguments.map argumentValue)
  | .invokeCallableDefinition callee arguments =>
      .invokeCallableValue (argumentValue callee) (arguments.map argumentValue)
  | .freeCallableDefinition body => .freeCallableValue body
  | .capturedCallableDefinition body environment => .capturedCallableValue body (payloadValue environment)
  | .constructDefinition variant payloads => .constructValue variant (payloads.map payloadValue)
  | .constructListDefinition elements => .constructListValue (elements.map payloadValue)
  | .payloadDefinition field value => .payloadValue field value
  | .listElementDefinition index value => .listElementValue index value
  | .listSuffixDefinition argument skipped => .listSuffixValue (argumentValue argument) skipped

def eraseDefinition (definition : OwnedDefinition) : ValueDefinition :=
  ⟨definition.id, definition.valueType, eraseValueOperation definition.operation, definition.span⟩

def selectionDefinition (definition : ValueDefinition) : Option SelectionDefinition :=
  let parameter : ValueParameter := ⟨definition.id, definition.valueType, definition.span⟩
  match definition.operation with
  | .readRecordFieldValue field parent => some (.borrowRecordField parameter field parent)
  | .payloadValue field parent => some (.borrowUnionField parameter field parent)
  | .listElementValue index parent => some (.borrowListElement parameter index parent)
  | .listSuffixValue parent skipped => some (.copyListSuffix parameter parent skipped)
  | _ => none

def eraseEdgeOperation : OwnershipOperation → Option (List SelectionDefinition)
  | .defineValue definition => do
      let lowered ← selectionDefinition (eraseDefinition definition)
      some [lowered]
  | .acquireOwner _ _ _ | .dropOwner _ _ => some []
  | .executeJoin _ | .executeLoop _ => none

def eraseEdge (edge : OwnedSelectionEdge) : Option SelectionEdge := do
  let definitions ← edge.operations.mapM eraseEdgeOperation
  some ⟨edge.arm, definitions.flatten, edge.transfers.map transferValue⟩

def eraseNode : OwnedDecisionNode → Option Lower.LoweredDecisionNode
  | .testVariant place variant yes no => some (.testVariant place variant yes no)
  | .testListLength place test yes no => some (.testListLength place test yes no)
  | .testLiteral place literal yes no => some (.testLiteral place literal yes no)
  | .enterArm edge => do
      let lowered ← eraseEdge edge
      some (.enterArm lowered)

def eraseSelection (selection : OwnedSelection) : Option LoweredSelection := do
  let nodes ← selection.nodes.mapM eraseNode
  some ⟨argumentValue selection.scrutinee, nodes, selection.entry⟩

def eraseLoopExit : OwnedLoopExit → LoopExit
  | .break outputs => .break ⟨transferValue outputs.value, outputs.carried.map transferValue, outputs.span⟩
  | .recur transfers span => .recur (transfers.map transferValue) span

def eraseHeader (header : OwnedLoopHeader) : LoopHeader :=
  ⟨header.parameter.joinParameter, transferValue header.initial⟩

mutual

/-- The steps an operation leaves behind: none for an acquisition or a drop. -/
def eraseOperation : OwnershipOperation → Option (List LoweredStep)
  | .defineValue definition => some [.define (eraseDefinition definition)]
  | .executeJoin join => do
      let lowered ← eraseJoin join
      some [.join lowered]
  | .executeLoop loop => do
      let lowered ← eraseLoop loop
      some [.loop lowered]
  | .acquireOwner _ _ _ | .dropOwner _ _ => some []

def eraseOperations : List OwnershipOperation → Option (List LoweredStep)
  | [] => some []
  | operation :: operations => do
      let first ← eraseOperation operation
      let rest ← eraseOperations operations
      some (first ++ rest)

def eraseJoin : OwnedJoin → Option LoweredJoin
  | ⟨result, carried, _, selection, arms⟩ => do
      let lowered ← eraseSelection selection
      let erased ← eraseJoinArms arms
      some ⟨result.joinParameter, carried.map (·.joinParameter), lowered, erased, []⟩

def eraseJoinArms : List OwnedJoinArm → Option (List JoinArm)
  | [] => some []
  | arm :: arms => do
      let first ← eraseJoinArm arm
      let rest ← eraseJoinArms arms
      some (first :: rest)

def eraseJoinArm : OwnedJoinArm → Option JoinArm
  | ⟨id, inputs, operations, exit⟩ => do
      let steps ← eraseOperations operations
      let erased ← eraseJoinExit exit
      some ⟨id, inputs.map (·.joinParameter), steps, erased⟩

def eraseJoinExit : OwnedJoinExit → Option JoinExit
  | .yield outputs => some (.yield ⟨transferValue outputs.transfer, outputs.carried.map transferValue⟩)
  | .transferLoop target tail => do
      let erased ← eraseTail tail
      some (.transferLoop target erased)

def eraseTail : OwnedLoopTail → Option LoopTail
  | .exitLoop exit => some (.exitLoop (eraseLoopExit exit))
  | .matchLoop matched => do
      let erased ← eraseLoopMatch matched
      some (.matchLoop erased)

def eraseLoopMatch : OwnedLoopMatch → Option LoopMatch
  | ⟨selection, arms⟩ => do
      let lowered ← eraseSelection selection
      let erased ← eraseLoopArms arms
      some ⟨lowered, erased⟩

def eraseLoopArms : List OwnedLoopArm → Option (List LoopArm)
  | [] => some []
  | arm :: arms => do
      let first ← eraseLoopArm arm
      let rest ← eraseLoopArms arms
      some (first :: rest)

def eraseLoopArm : OwnedLoopArm → Option LoopArm
  | ⟨id, inputs, body⟩ => do
      let erased ← eraseLoopBlock body
      some ⟨id, inputs.map (·.joinParameter), erased⟩

def eraseLoopBlock : OwnedLoopBlock → Option LoopBlock
  | ⟨operations, tail⟩ => do
      let steps ← eraseOperations operations
      let erased ← eraseTail tail
      some ⟨steps, erased⟩

def eraseLoop : OwnedLoop → Option LoweredLoop
  | ⟨_, headers, result, carried, body⟩ => do
      let erased ← eraseLoopBlock body
      some ⟨headers.map eraseHeader, result.joinParameter, carried.map (·.joinParameter), erased, []⟩

end

def eraseFunction (function : OwnedFunction) : Option LoweredFunction := do
  let steps ← eraseOperations function.operations
  some
    { label := function.label
      signature := ⟨function.parameters.map (·.parameterType), function.returnType⟩
      steps := steps
      result := transferValue function.result }

def eraseProgram (program : OwnershipProgram) : Option LoweredProgram := do
  let functions ← program.functions.mapM eraseFunction
  some ⟨program.records, program.unions, functions, program.entrypoint⟩

end Own

end Blorp
