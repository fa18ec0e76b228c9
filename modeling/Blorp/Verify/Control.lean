import Blorp.Verify.Operations

/-!
# Verifying joins, loops and functions

The edges out of a block.  A yield moves its values into its join's outputs and
agrees with every other arm on the enclosing owners it discharges; a loop edge
leaves the owners of before the loop as they were and retires every loop-local one;
a return leaves none.
-/

namespace Blorp.Verify

open Check (Span compilerSpan MatchArmId)
open Specialize
open Lower (ValueId ValueParameter)
open Own
open Fuel

/-! ## Owners left live -/

inductive ExitEdge where
  | returnEdge
  | yieldEdge

def ExitEdge.description : ExitEdge → String
  | .returnEdge => " remains live at return"
  | .yieldEdge => " remains live at yield"

def remainsLive (excluded : Option OwnerId) : OwnerState × Nat → Bool
  | (.activeOwner _, position) => decide (excluded ≠ some position)
  | (.dischargedOwner, _) => false

def completeOwners (owners : List OwnerState) (firstOwner : Nat) (excluded : Option OwnerId)
    (edge : ExitEdge) (span : Span) : Except Diagnostic Unit :=
  match (owners.zipIdx firstOwner).find? (remainsLive excluded) with
  | some (_, id) => .error (verificationError span ("owner " ++ toString id ++ edge.description))
  | none => .ok ()

def VerificationFacts.enclosingOwners (facts : VerificationFacts) : List (OwnerState × Nat) :=
  facts.enclosing.flatMap fun scope => scope.owners.zipIdx scope.firstOwner

/-- Every enclosing owner is discharged when the function returns from a nested
block. -/
def completeEnclosing (state : VerificationState) (excluded : Option OwnerId) (span : Span) :
    Except Diagnostic Unit :=
  match state.facts.enclosingOwners.find? fun entry =>
      remainsLive excluded entry && !dischargedAlready state.discharged entry.2 with
  | some (_, id) =>
      .error (verificationError span ("owner " ++ toString id ++ " remains live at return"))
  | none => .ok ()

/-- A nested block's starting state: the enclosing block's state becomes one more
enclosing scope, and its own values and owners begin at the given ordinals. -/
def VerificationState.scope (state : VerificationState) : EnclosingScope :=
  ⟨state.facts.firstValue, state.facts.values, state.facts.firstOwner, state.owners⟩

def enter (start : VerificationState) (firstValue firstOwner : Nat) : VerificationState where
  facts := { start.facts with
    enclosing := start.facts.enclosing ++ [start.scope]
    firstValue := firstValue
    values := []
    firstOwner := firstOwner }
  discharged := start.discharged
  owners := []

structure BlockEnd where
  nextValue : Nat
  nextOwner : Nat
  deriving DecidableEq, Repr

def VerificationState.blockEnd (state : VerificationState) : BlockEnd :=
  ⟨state.facts.firstValue + state.facts.values.length,
    state.facts.firstOwner + state.owners.length⟩

section

variable (context : Context)

/-! ## Returns and yields -/

def verifyReturnedOwner (state : VerificationState) (span : Span) (returned : ValueId)
    (needsOwner : Bool) (returnedOwner : Option OwnerId) : Except Diagnostic Unit :=
  match needsOwner, returnedOwner with
  | false, none => .ok ()
  | false, some _ => .error (verificationError span "unmanaged return cannot transfer an owner")
  | true, none => .error (verificationError span "managed return requires an owner transfer")
  | true, some id => do
      match ← knownOwner state id span with
      | .dischargedOwner =>
          .error (verificationError span ("return refers to discharged owner " ++ toString id))
      | .activeOwner owned =>
          require (owned = returned) span "returned owner does not own the returned value"

def verifyReturn (state : VerificationState) (returnType : TypeRef) (returned : ValueId)
    (returnedOwner : Option OwnerId) : Except Diagnostic Unit := do
  let result ← knownValue state.facts returned compilerSpan
  require (result.valueType = returnType) result.span "return type does not match its contract"
  let needsOwner ← context.needsOwnership returnType
  verifyReturnedOwner state result.span returned needsOwner returnedOwner
  completeEnclosing state returnedOwner result.span
  completeOwners state.owners state.facts.firstOwner returnedOwner .returnEdge result.span

def transferOwner : ReturnTransfer → Option OwnerId
  | .unmanagedReturn _ => none
  | .ownedReturn _ owner => some owner

def verifyTransfer (state : VerificationState) (returnType : TypeRef) (result : ReturnTransfer) :
    Except Diagnostic Unit :=
  verifyReturn context state returnType (transferValue result) (transferOwner result)

/-- Whether an edge may move the owner in a slot: one made in its own block, or on a
loop exit a loop-local one of an enclosing block. -/
def movable (loopFloor : Option Nat) : OwnerSlot → Bool
  | .localSlot _ => true
  | .enclosingSlot ordinal =>
      match loopFloor with
      | some first => decide (first ≤ ordinal)
      | none => false

def yieldedSlot (state : VerificationState) (loopFloor : Option Nat) (span : Span)
    (yielded : ValueId) (id : OwnerId) : Except Diagnostic OwnerSlot := do
  let slot ← ownerSlot state.facts state.owners.length id span
  if movable loopFloor slot then
    match ← knownOwner state id span with
    | .activeOwner owned =>
        if owned = yielded then .ok slot
        else .error (verificationError span "yielded owner does not own the yielded value")
    | .dischargedOwner =>
        .error (verificationError span ("yield refers to discharged owner " ++ toString id))
  else
    .error (verificationError span
      ("yield must transfer an owner made in its arm, not owner " ++ toString id))

/-- A yield moves the joined value into the join's own definition, and a loop entry or
exit moves each value into its header or output.  `loopFloor` is the loop's first
owner ordinal on a loop exit and `none` elsewhere. -/
def consumeYield (loopFloor : Option Nat) (state : VerificationState) (transfer : ReturnTransfer)
    (joinType : TypeRef) (span : Span) : Except Diagnostic VerificationState := do
  let known ← knownValue state.facts (transferValue transfer) span
  require (known.valueType = joinType) span "yield type does not match its join"
  let needsOwner ← context.needsOwnership joinType
  match needsOwner, transferOwner transfer with
  | false, none => .ok state
  | false, some _ => .error (verificationError span "unmanaged yield cannot transfer an owner")
  | true, none => .error (verificationError span "managed yield requires an owner transfer")
  | true, some id => do
      let slot ← yieldedSlot state loopFloor span (transferValue transfer) id
      .ok (state.dischargeSlot slot)

section

variable (entering : List OwnerId) (entry : List Bool) (state : VerificationState) (span : Span)

/-- A yielding arm discharges exactly its join's entering owners, so every edge into
the continuation agrees on which enclosing owners remain live. -/
def verifyEnteringDischarge : OwnerState × Nat → Except Diagnostic Unit
  | (.dischargedOwner, _) => .ok ()
  | (.activeOwner _, current) =>
      let newly := dischargedAlready state.discharged current && !dischargedAlready entry current
      let enters := entering.any (· = current)
      if enters && !newly then
        .error (verificationError span
          ("join arm leaves entering owner " ++ toString current ++ " live"))
      else if newly && !enters then
        .error (verificationError span ("join arm discharges owner " ++ toString current ++
          ", which does not enter its join"))
      else .ok ()

def verifyEnteringDischarges : Except Diagnostic Unit :=
  state.facts.enclosingOwners.forM (verifyEnteringDischarge entering entry state span)

end

def consumeCarried (state : VerificationState)
    (carried : List (ReturnTransfer × OwnedJoinParameter)) : Except Diagnostic VerificationState :=
  carried.foldlM
    (fun state (transfer, output) =>
      consumeYield context none state transfer output.joinParameter.valueType
        output.joinParameter.span)
    state

def verifyJoinTransfers (join : OwnedJoin) (entry : List Bool) (state : VerificationState)
    (outputs : OwnedJoinOutputs) : Except Diagnostic Unit := do
  let result := join.result.joinParameter
  require (outputs.carried.length = join.carried.length) result.span
    "join arm carries the wrong number of values"
  let first ← consumeYield context none state outputs.transfer result.valueType result.span
  let moved ← consumeCarried context first (outputs.carried.zip join.carried)
  completeOwners moved.owners state.facts.firstOwner none .yieldEdge result.span
  verifyEnteringDischarges join.entering entry state result.span

/-! ## Selection edges -/

/-- Canonical arm identity is independent of the variant route used to enter it. -/
structure SelectionTarget where
  id : MatchArmId
  inputs : List OwnedJoinParameter

def selectionTarget (id : MatchArmId) (targets : List SelectionTarget) (span : Span) :
    Except Diagnostic SelectionTarget :=
  orVerificationError (targets.find? fun target => id = target.id) span
    "selection enters an unknown arm"

def edgeValueAllowed (id root : ValueId) (firstValue : Nat) : Bool :=
  if id = root then true else decide (firstValue ≤ id)

/-- The restricted edge cannot create calls or control or consume its enclosing
owners. -/
def edgeOperationAllowed (root : ValueId) (facts : VerificationFacts) : OwnershipOperation → Bool
  | .defineValue definition =>
      match definition.operation with
      | .readRecordFieldDefinition _ argument =>
          edgeValueAllowed (argumentValue argument) root facts.firstValue
      | .payloadDefinition _ source => edgeValueAllowed source root facts.firstValue
      | .listElementDefinition _ source => edgeValueAllowed source root facts.firstValue
      | .listSuffixDefinition source _ =>
          edgeValueAllowed (argumentValue source) root facts.firstValue
      | _ => false
  | .acquireOwner _ borrow _ => edgeValueAllowed borrow.value root facts.firstValue
  | .dropOwner owner _ => decide (facts.firstOwner ≤ owner)
  | .executeJoin _ | .executeLoop _ => false

def consumeEdgeTransfer (root : ValueId) (firstValue : Nat) (span : Span)
    (state : VerificationState) (moved : ReturnTransfer × OwnedJoinParameter) :
    Except Diagnostic VerificationState :=
  if edgeValueAllowed (transferValue moved.1) root firstValue then
    consumeYield context none state moved.1 moved.2.joinParameter.valueType span
  else
    .error (verificationError span "selection edge argument is outside its local projections")

def consumeEdgeTransfers (root : ValueId) (firstValue : Nat) (span : Span)
    (state : VerificationState) (moved : List (ReturnTransfer × OwnedJoinParameter)) :
    Except Diagnostic VerificationState :=
  moved.foldlM (consumeEdgeTransfer context root firstValue span) state

def verifySelectionEdge (selection : OwnedSelection) (facts : List PlaceFact) (span : Span)
    (initial : VerificationState) (edge : OwnedSelectionEdge) (target : SelectionTarget) :
    Outcome Diagnostic BlockEnd := do
  let root := argumentValue selection.scrutinee
  require (edge.operations.all (edgeOperationAllowed root initial.facts)) span
    "selection edge contains an operation outside its local projections"
  let verified ← verifyOperations context (.selectionProjection selection.scrutinee facts)
    edge.operations initial
  require (edge.transfers.length = target.inputs.length) span
    "selection edge argument count does not match its arm inputs"
  let moved ← consumeEdgeTransfers context root initial.facts.firstValue span verified.state
    (edge.transfers.zip target.inputs)
  completeOwners moved.owners moved.facts.firstOwner none .yieldEdge span
  .ok moved.blockEnd

/-! ## Selections -/

/-- Arms are identified by their source ordinals, so none appears twice. -/
def verifyTarget (span : Span) (seen : List Nat) (entry : SelectionTarget × Nat) :
    Except Diagnostic (List Nat) := do
  require (!seen.contains entry.1.id) span "selection arm identity appears more than once"
  require (entry.1.id = entry.2) span "selection arm identity is not its source ordinal"
  .ok (seen ++ [entry.1.id])

def verifyTargets (targets : List SelectionTarget) (span : Span) : Except Diagnostic (List Nat) :=
  targets.zipIdx.foldlM (verifyTarget span) []

structure SelectionCursor where
  cursor : BlockEnd
  entered : List MatchArmId

section

variable (selection : OwnedSelection) (targets : List SelectionTarget) (state : VerificationState)

def verifySelectionNode (incoming : Incoming) (span : Span) (at_ : SelectionCursor)
    (entry : OwnedDecisionNode × Nat) : Outcome Diagnostic SelectionCursor :=
  match entry.1 with
  | .testVariant _ _ _ _ | .testListLength _ _ _ _ | .testLiteral _ _ _ _ => .ok at_
  | .enterArm edge => do
      let target ← selectionTarget edge.arm targets span
      match incoming[entry.2]? with
      | none => .err (verificationError span "selection node is missing")
      | some none => .err (verificationError span "selection contains an unreachable node")
      | some (some facts) => do
          let after ← verifySelectionEdge context selection facts span
            (enter state at_.cursor.nextValue at_.cursor.nextOwner) edge target
          .ok ⟨after, at_.entered ++ [edge.arm]⟩

def verifySelection (cursor : BlockEnd) : Outcome Diagnostic BlockEnd := do
  let scrutinee ← knownValue state.facts (argumentValue selection.scrutinee) compilerSpan
  verifyMatchArgument context state scrutinee.span selection.scrutinee
  let incoming ← selectionPossibilities selection scrutinee context.unions context.records
  let _ ← verifyTargets targets scrutinee.span
  let reached ← selection.nodes.zipIdx.foldlM
    (verifySelectionNode context selection targets state incoming scrutinee.span) ⟨cursor, []⟩
  require (targets.all fun target => reached.entered.contains target.id) scrutinee.span
    "selection arm has no incoming edge"
  .ok reached.cursor

end

/-! ## Loop edges -/

def loopExitSpan : OwnedLoopExit → Span
  | .recur _ span => span
  | .break outputs => outputs.span

def loopTailSpan : OwnedLoopTail → Span
  | .exitLoop exit => loopExitSpan exit
  | .matchLoop ⟨_, ⟨_, _, ⟨_, tail⟩⟩ :: _⟩ => loopTailSpan tail
  | .matchLoop ⟨_, []⟩ => compilerSpan

/-- A loop edge discharges no owner of before the loop. -/
def preservesCaptured (pre state : VerificationState) : OwnerState × Nat → Bool
  | (.activeOwner _, ordinal) =>
      dischargedAlready pre.discharged ordinal || !dischargedAlready state.discharged ordinal
  | (.dischargedOwner, _) => true

def retiresLocal (firstOwner : Nat) (state : VerificationState) : OwnerState × Nat → Bool
  | (.activeOwner _, ordinal) =>
      decide (ordinal < firstOwner) || dischargedAlready state.discharged ordinal
  | (.dischargedOwner, _) => true

/-- `pre` is the actual state captured before the loop publishes any output. -/
def completeLoopOwners (pre state : VerificationState) (firstOwner : Nat) (span : Span) :
    Except Diagnostic Unit := do
  let captured := pre.facts.enclosingOwners ++ pre.owners.zipIdx pre.facts.firstOwner
  require (captured.all (preservesCaptured pre state)) span "loop edge discharges a captured owner"
  require (state.facts.enclosingOwners.all (retiresLocal firstOwner state)) span
    "loop-local owner remains live at an edge"
  completeOwners state.owners state.facts.firstOwner none .yieldEdge span

/-- The nearest lexical loop owns abrupt join exits.  A nested loop replaces it. -/
structure ActiveLoop where
  loop : OwnedLoop
  pre : VerificationState
  firstOwner : Nat

def exitParameters (loop : OwnedLoop) : OwnedLoopExit → List ValueParameter
  | .recur _ _ => loop.headers.map (·.parameter.joinParameter)
  | .break _ => (loop.result :: loop.carried).map (·.joinParameter)

def consumeExit (firstOwner : Nat) (span : Span) (state : VerificationState)
    (moved : List (ReturnTransfer × ValueParameter)) : Except Diagnostic VerificationState :=
  moved.foldlM
    (fun state (transfer, parameter) =>
      consumeYield context (some firstOwner) state transfer parameter.valueType span)
    state

def verifyLoopExit (active : ActiveLoop) (state : VerificationState) (exit : OwnedLoopExit) :
    Except Diagnostic Unit := do
  let parameters := exitParameters active.loop exit
  let transfers := exit.transfers
  let span := loopExitSpan exit
  require (parameters.length = transfers.length) span "loop edge has the wrong number of values"
  let moved ← consumeExit context active.firstOwner span state (transfers.zip parameters)
  completeLoopOwners active.pre moved active.firstOwner span

/-! ## Loop entry -/

/-- A header's initial is a value of before the loop; one whose owner the loop step
already took moves nothing here. -/
def initializeHeader (loop : OwnedLoop) (pre : VerificationState) (current : VerificationState)
    (header : OwnedLoopHeader) : Except Diagnostic VerificationState := do
  let parameter := header.parameter.joinParameter
  let source ← knownValue pre.facts (transferValue header.initial) parameter.span
  require (source.valueType = parameter.valueType) parameter.span
    "loop initial type does not match its header"
  match takenInitial loop header with
  | some _ => .ok current
  | none => consumeYield context none current header.initial parameter.valueType parameter.span

def introduceHeader (current : VerificationState) (header : OwnedLoopHeader) :
    Except Diagnostic VerificationState := do
  let parameter := header.parameter.joinParameter
  require (parameter.id = current.facts.firstValue + current.facts.values.length) parameter.span
    "loop header identity is not the next function ordinal"
  introduceCarriedParameter context current header.parameter

def initializeHeaders (loop : OwnedLoop) (pre acquired : VerificationState) :
    Except Diagnostic VerificationState :=
  loop.headers.foldlM (initializeHeader context loop pre) acquired

def introduceHeaders (loop : OwnedLoop) (current : VerificationState) :
    Except Diagnostic VerificationState :=
  loop.headers.foldlM (introduceHeader context) current

/-- Acquisitions live only between the loop step and the header parameters; every
managed initial that is not taken consumes one. -/
def initializeLoop (loop : OwnedLoop) (pre : VerificationState) (cursor : BlockEnd) :
    Outcome Diagnostic VerificationState := do
  let span := loop.result.joinParameter.span
  let acquisitions := loop.entryAcquisitions.map fun acquisition =>
    OwnershipOperation.acquireOwner acquisition.owner acquisition.borrow span
  let acquired ← verifyOperations context .noProjection acquisitions
    (enter pre cursor.nextValue cursor.nextOwner)
  let moved ← initializeHeaders context loop pre acquired.state
  completeOwners moved.owners moved.facts.firstOwner none .yieldEdge span
  introduceHeaders context loop moved

/-! ## Joins, loops and their blocks -/

def joinTargets (join : OwnedJoin) : List SelectionTarget :=
  join.arms.map fun arm => ⟨arm.id, arm.inputs⟩

def matchTargets (matched : OwnedLoopMatch) : List SelectionTarget :=
  matched.arms.map fun arm => ⟨arm.id, arm.inputs⟩

mutual

/-- Verifies every pending join's arms and loop's body after their block, in the order
their values and owners are numbered, and returns the ordinals after them. -/
def verifyJoins : Nat → Option ActiveLoop → List PendingControl → BlockEnd →
    Outcome Diagnostic BlockEnd
  | 0, _, _, _ => .timeout
  | fuel + 1, active, pending, cursor =>
      pending.foldlM (fun cursor control => verifyControl fuel active control cursor) cursor
termination_by structural fuel => fuel

def verifyControl : Nat → Option ActiveLoop → PendingControl → BlockEnd →
    Outcome Diagnostic BlockEnd
  | 0, _, _, _ => .timeout
  | fuel + 1, _, .verifyLoop loop start, cursor => do
      let initial ← initializeLoop context loop start cursor
      verifyLoopBlock fuel ⟨loop, start, cursor.nextOwner⟩ initial loop.body
  | fuel + 1, active, .verifyJoin join start, cursor => do
      let after ← verifySelection context join.selection (joinTargets join) start cursor
      join.arms.foldlM (fun cursor arm => verifyJoinArm fuel active join start arm cursor) after
termination_by structural fuel => fuel

def verifyJoinArm : Nat → Option ActiveLoop → OwnedJoin → VerificationState → OwnedJoinArm →
    BlockEnd → Outcome Diagnostic BlockEnd
  | 0, _, _, _, _, _ => .timeout
  | fuel + 1, active, join, joinStart, arm, cursor => do
      let start ← introduceOutputs context arm.inputs
        (enter joinStart cursor.nextValue cursor.nextOwner)
      match arm.exit with
      | .yield outputs => do
          let verified ← verifyOperations context .noProjection arm.operations start
          verifyJoinTransfers context join joinStart.discharged verified.state outputs
          verifyJoins fuel active verified.pending verified.state.blockEnd
      | .transferLoop target tail => do
          let scope ← orVerificationError active (loopTailSpan tail)
            "loop transfer has no active loop"
          require (target = scope.loop.result.joinParameter.id) (loopTailSpan tail)
            "loop transfer does not target the nearest active loop"
          verifyLoopBlock fuel scope start ⟨arm.operations, tail⟩
termination_by structural fuel => fuel

def verifyLoopBlock : Nat → ActiveLoop → VerificationState → OwnedLoopBlock →
    Outcome Diagnostic BlockEnd
  | 0, _, _, _ => .timeout
  | fuel + 1, active, initial, body => do
      let verified ← verifyOperations context .noProjection body.operations initial
      match body.tail with
      | .exitLoop exit => do
          verifyLoopExit context active verified.state exit
          verifyJoins fuel (some active) verified.pending verified.state.blockEnd
      | .matchLoop matched => do
          let completed ← verifyJoins fuel (some active) verified.pending verified.state.blockEnd
          let selected ← verifySelection context matched.selection (matchTargets matched)
            verified.state completed
          matched.arms.foldlM
            (fun cursor arm => verifyLoopArm fuel active verified.state arm cursor) selected
termination_by structural fuel => fuel

def verifyLoopArm : Nat → ActiveLoop → VerificationState → OwnedLoopArm → BlockEnd →
    Outcome Diagnostic BlockEnd
  | 0, _, _, _, _ => .timeout
  | fuel + 1, active, state, arm, cursor => do
      let start ← introduceOutputs context arm.inputs
        (enter state cursor.nextValue cursor.nextOwner)
      verifyLoopBlock fuel active start arm.body
termination_by structural fuel => fuel

end

end

/-! ## Functions and programs -/

def initialState : VerificationState where
  facts := ⟨[], 0, [], 0, []⟩
  discharged := []
  owners := []

def verifyFunction (fuel : Nat) (program : OwnershipProgram) (function : OwnedFunction) :
    Outcome Diagnostic Unit := do
  let context : Context :=
    ⟨fuel, function.parameters, program.functions, program.unions, program.records⟩
  let verified ← verifyOperations context .noProjection function.operations initialState
  require (verified.state.facts.parameters.length = function.parameters.length) compilerSpan
    "function parameter has no value definition"
  verifyTransfer context verified.state function.returnType function.result
  let _ ← verifyJoins context fuel none verified.pending verified.state.blockEnd
  .ok ()

/-- The row's type exists, and the row is managed exactly when its type needs
ownership. -/
def verifyRow (program : OwnershipProgram) (row : OwnedParameter) : Except Diagnostic Unit := do
  verifyTypeMembership program.unions program.records compilerSpan row.parameterType
  let managed ← row.parameterType.valueNeedsOwnership program.unions program.records
  let agrees :=
    match row with
    | .managedParameter _ => managed
    | .unmanagedParameter _ => !managed
  require agrees compilerSpan "parameter row disagrees with its type's ownership"

def verifyRows (program : OwnershipProgram) (function : OwnedFunction) :
    Except Diagnostic Unit := do
  verifyTypeMembership program.unions program.records compilerSpan function.returnType
  function.parameters.forM (verifyRow program)

def operationSpan : OwnershipOperation → Span
  | .defineValue definition => definition.span
  | .executeJoin join => join.result.joinParameter.span
  | .executeLoop loop => loop.result.joinParameter.span
  | .acquireOwner _ _ occurrence => occurrence
  | .dropOwner _ occurrence => occurrence

/-- Independently checks the accepted wrapper convention against its target
signature. -/
def verifyEntry (entry : OwnedFunction) (convention : Entrypoint FunctionInstanceId) :
    Except Diagnostic Unit := do
  let parametersMatch :=
    match convention, entry.parameters with
    | .noArguments _ _, parameters => parameters.isEmpty
    | .withArguments _ _, [value] => decide (value.parameterType = .listType .stringType)
    | .withArguments _ _, _ => false
  let result :=
    match convention with
    | .noArguments _ result => result
    | .withArguments _ result => result
  let resultMatches :=
    match result with
    | .integerExitStatus => decide (entry.returnType = .intType)
    | .successfulExit => decide (entry.returnType = .voidType)
  let span := (entry.operations.head?.map operationSpan).getD compilerSpan
  require (parametersMatch && resultMatches) span
    "entrypoint signature does not match its accepted argument and result conventions"
  -- The entry wrapper passes its arguments borrowed, so the entry is pinned.
  borrowedContract entry span

def validRecordLayouts (records : List ConcreteRecord) : Except Diagnostic Unit :=
  records.forM fun layout => do
    let _ ← validRecordLayout layout compilerSpan
    .ok ()

def validUnionLayouts (records : List ConcreteRecord) (unions : List ConcreteUnion) :
    Except Diagnostic Unit :=
  unions.zipIdx.forM fun (layout, position) => validUnionLayout layout position records unions

/-- Accepts exactly the programs whose layouts, signatures, functions and entry all
verify; the accepted program is the one given. -/
def verify (fuel : Nat) (program : OwnershipProgram) : Outcome Diagnostic OwnershipProgram := do
  let entry ← orVerificationError program.functions[program.entrypoint.entryFunction]? compilerSpan
    "entrypoint function is not defined"
  validRecordLayouts program.records
  validUnionLayouts program.records program.unions
  verifyLayoutGraph fuel program.records program.unions
  program.functions.forM fun function => do
    verifyRows program function
    verifyFunction fuel program function
  verifyEntry entry program.entrypoint
  .ok program

end Blorp.Verify
