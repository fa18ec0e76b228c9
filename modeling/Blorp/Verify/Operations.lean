import Blorp.Verify.Definitions

/-!
# Verifying the operations of a block

The operations of one block, in order.  A join or loop is checked at its step only
as far as the block itself sees it: its entry, and the outputs it leaves.  Its arms
or body are numbered after the whole block, so they wait in `pending`.
-/

namespace Blorp.Verify

open Check (Span)
open Specialize
open Lower (ValueId)
open Own
open Fuel

/-- A join or loop whose blocks are verified after its own block.  An arm starts
from the state just before the join; a loop starts after its entry transfers. -/
inductive PendingControl where
  | verifyJoin (join : OwnedJoin) (start : VerificationState)
  | verifyLoop (loop : OwnedLoop) (start : VerificationState)

structure VerifiedBlock where
  state : VerificationState
  pending : List PendingControl

def introduceOwner (state : VerificationState) (id : OwnerId) (value : ValueId) (span : Span) :
    Except Diagnostic VerificationState := do
  validateNextOwner state.facts.firstOwner state.owners id span
  .ok { state with owners := state.owners ++ [.activeOwner value] }

def VerificationState.withValue (state : VerificationState) (known : KnownValue) :
    VerificationState :=
  { state with facts := { state.facts with values := state.facts.values ++ [known] } }

section

variable (context : Context)

/-! ## Definitions -/

section

variable (state : VerificationState) (definition : OwnedDefinition)

def dischargeOperands : Outcome Diagnostic VerificationState :=
  match definition.operation with
  | .callDefinition _ arguments => dischargeCallArguments context state definition.span arguments
  | operation => dischargePayloads context state definition.span (storedPayloads operation)

def introduceResult : Option OwnerId → Except Diagnostic VerificationState
  | none => .ok state
  | some id => introduceOwner state id definition.id definition.span

def noteParameter : VerificationState :=
  match definition.operation with
  | .parameterDefinition _ =>
      { state with
        facts := { state.facts with parameters := state.facts.parameters ++ [definition.id] } }
  | _ => state

end

def verifyDefinition (state : VerificationState) (projection : ProjectionContext)
    (definition : OwnedDefinition) : Outcome Diagnostic VerificationState := do
  let candidate ← verifyDefinitionType context state projection definition
  let moved ← dischargeOperands context state definition
  let introduced ← verifyDefinitionResult context definition
  let owned ← introduceResult moved definition introduced
  .ok ((noteParameter owned definition).withValue candidate)

/-! ## Outputs -/

def introduceJoinParameter (output : OwnedJoinParameter) (initial : VerificationState) :
    Except Diagnostic VerificationState := do
  let parameter := output.joinParameter
  let known : KnownValue :=
    ⟨parameter.valueType, parameter.span, output.joinOwnership, none, none⟩
  let needsOwner ← context.needsOwnership parameter.valueType
  match needsOwner, output with
  | false, .unmanagedJoinParameter _ => .ok (initial.withValue known)
  | false, .managedJoinParameter _ _ =>
      .error (verificationError parameter.span "unmanaged value carries an ownership obligation")
  | true, .unmanagedJoinParameter _ =>
      .error (verificationError parameter.span "managed result requires an owner")
  | true, .managedJoinParameter _ owner => do
      let owned ← introduceOwner initial owner parameter.id parameter.span
      .ok (owned.withValue known)

def introduceCarriedParameter (start : VerificationState) (output : OwnedJoinParameter) :
    Except Diagnostic VerificationState := do
  let parameter := output.joinParameter
  require (parameter.id = start.facts.firstValue + start.facts.values.length) parameter.span
    "value identity is not the next function ordinal"
  verifyTypeMembership context.unions context.records parameter.span parameter.valueType
  introduceJoinParameter context output start

def introduceOutputs (outputs : List OwnedJoinParameter) (start : VerificationState) :
    Except Diagnostic VerificationState :=
  outputs.foldlM (introduceCarriedParameter context) start

/-! ## Joins and loops at their own step -/

def yields (arm : OwnedJoinArm) : Bool :=
  match arm.exit with
  | .yield _ => true
  | .transferLoop _ _ => false

def verifyJoinHeader (state : VerificationState) (join : OwnedJoin) : Outcome Diagnostic Unit := do
  let parameter := join.result.joinParameter
  require (join.arms.any yields) parameter.span "join has no yielding arm"
  require (parameter.id = state.facts.firstValue + state.facts.values.length) parameter.span
    "value identity is not the next function ordinal"
  verifyNamedMembership context parameter.valueType parameter.span
  verifyMatchArgument context state parameter.span join.selection.scrutinee

def dropOwners (state : VerificationState) (drops : List (OwnerId × Span)) :
    Except Diagnostic VerificationState :=
  drops.foldlM (fun state (owner, span) => dropOwner state owner span) state

/-- Each entering owner is discharged at the join step, checked as a drop there.  The
arms start from the state before it and the continuation from the state after. -/
def transferJoinEntry (join : OwnedJoin) (state : VerificationState) :
    Except Diagnostic VerificationState :=
  dropOwners state (join.entering.map fun owner => (owner, join.result.joinParameter.span))

structure TakenInitial where
  value : ValueId
  owner : OwnerId
  span : Span

def takenInitial (loop : OwnedLoop) (header : OwnedLoopHeader) : Option TakenInitial :=
  match header.initial with
  | .unmanagedReturn _ => none
  | .ownedReturn value owner =>
      if takesExistingOwner loop owner then
        some ⟨value, owner, header.parameter.joinParameter.span⟩
      else none

/-- Each taken header owner must own its initial, as an owner borrow would, and is
then discharged by a drop at the loop step.  The loop and its continuation both
start from that one state. -/
def transferLoopEntry (loop : OwnedLoop) (state : VerificationState) :
    Outcome Diagnostic VerificationState := do
  let taken := loop.headers.filterMap (takenInitial loop)
  taken.forM fun initial =>
    verifyBorrow context.fuel ⟨initial.value, .ownerBorrow initial.owner⟩ state initial.span
  dropOwners state (taken.map fun initial => (initial.owner, initial.span))

/-! ## Blocks -/

def verifyOperation (projection : ProjectionContext) (block : VerifiedBlock)
    (operation : OwnershipOperation) : Outcome Diagnostic VerifiedBlock :=
  match operation with
  | .defineValue definition => do
      let state ← verifyDefinition context block.state projection definition
      .ok { block with state := state }
  | .executeJoin join => do
      verifyJoinHeader context block.state join
      let entered ← transferJoinEntry join block.state
      let introduced ← introduceOutputs context (join.result :: join.carried) entered
      .ok ⟨introduced, block.pending ++ [.verifyJoin join block.state]⟩
  | .executeLoop loop => do
      let start ← transferLoopEntry context loop block.state
      let introduced ← introduceOutputs context (loop.result :: loop.carried) start
      .ok ⟨introduced, block.pending ++ [.verifyLoop loop start]⟩
  | .acquireOwner id borrow span => do
      verifyBorrow context.fuel borrow block.state span
      let state ← introduceOwner block.state id borrow.value span
      .ok { block with state := state }
  | .dropOwner id span => do
      let state ← dropOwner block.state id span
      .ok { block with state := state }

def verifyOperations (projection : ProjectionContext) (operations : List OwnershipOperation)
    (initial : VerificationState) : Outcome Diagnostic VerifiedBlock :=
  operations.foldlM (verifyOperation context projection) ⟨initial, []⟩

end

end Blorp.Verify
