import Blorp.Own.Steps

/-!
# Ownership insertion

Rebuilds a lowered function with explicit ownership.  Once a block's steps are
inserted and its exit has left, `completeJoins` inserts the joins and loops that
were waiting, descending into their arms, so the recursion runs on fuel.
-/

namespace Blorp.Own

open Check (Span compilerSpan)
open Specialize
open Lower (ValueId ValueParameter ValueDefinition LoweredStep LoweredLoop LoweredSelection
  LoweredFunction LoopTarget LoopExit JoinArm JoinOutputs LoopTail LoopBlock LoopMatch
  SelectionDefinition SelectionEdge)
open Fuel

/-! ## Leaving a block -/

/-- How a managed value leaves its block: an owner it already holds, or one
acquired from its borrow now. -/
structure LeavingValue where
  entries : List InsertedEntry
  transfer : ReturnTransfer
  nextOwner : Nat

/-- An owned result read as a borrow of its owner, so the edge acquires a fresh
owner instead of moving the existing one. -/
def ResultOwnership.borrowedSource : ResultOwnership → ResultOwnership
  | .ownedResult owner => .borrowedResult (.ownerBorrow owner)
  | source => source

/-- An outgoing occurrence that moves leaves with its owner, any other with a
borrow that `leaveWith` acquires. -/
def leavingSource (source : ResultOwnership) (decided : Transfer) : ResultOwnership :=
  match decided with
  | .moves owner => .ownedResult owner
  | .acquires => source.borrowedSource

def afterTransfer (moved : List OwnerId) (decided : Transfer) : List OwnerId :=
  match decided with
  | .moves owner => moved ++ [owner]
  | .acquires => moved

def leaveWith (value : ValueId) (source : ResultOwnership) (entries : List InsertedEntry)
    (nextOwner : Nat) (span : Span) : LeavingValue :=
  match source with
  | .unmanagedResult => ⟨entries, .unmanagedReturn value, nextOwner⟩
  | .ownedResult owner => ⟨entries, .ownedReturn value owner, nextOwner⟩
  | .borrowedResult borrow =>
      ⟨entries ++ [.inserted (.acquireOwner nextOwner ⟨value, borrow⟩ span)],
        .ownedReturn value nextOwner, nextOwner + 1⟩

/-- One outgoing occurrence: how it leaves, and what the edge has moved then. -/
structure LeftOccurrence extends LeavingValue where
  moved : List OwnerId

def leaveOccurrence (scope : ValueScope) (ending : List ScheduledDrop) (position : Nat)
    (moved : List OwnerId) (entries : List InsertedEntry) (nextOwner : Nat) (value : ValueId)
    (span : Span) : Except Diagnostic LeftOccurrence := do
  let source ← valueSource value scope span
  let decided := transfer source ending [] [] position moved
  .ok
    { toLeavingValue := leaveWith value (leavingSource source decided) entries nextOwner span
      moved := afterTransfer moved decided }

/-- The outgoing occurrences of an edge passed so far. -/
structure LeavingState where
  entries : List InsertedEntry
  transfers : List ReturnTransfer
  moved : List OwnerId
  nextOwner : Nat

def LeavingState.leave (scope : ValueScope) (ending : List ScheduledDrop) (position : Nat)
    (state : LeavingState) (value : ValueId) (span : Span) : Except Diagnostic LeavingState := do
  let left ← leaveOccurrence scope ending position state.moved state.entries state.nextOwner
    value span
  .ok ⟨left.entries, state.transfers ++ [left.transfer], left.moved, left.nextOwner⟩

def dropUnmoved (ending : List ScheduledDrop) (moved : List OwnerId) : List OwnershipOperation :=
  (ending.filter fun row => !hasConsumed moved row.owner).map fun row =>
    .dropOwner row.owner row.span

/-! ## Selections -/

def selectionValue : SelectionDefinition → ValueDefinition
  | .borrowRecordField parameter field parent =>
      ⟨parameter.id, parameter.valueType, .readRecordFieldValue field parent, parameter.span⟩
  | .borrowUnionField parameter field parent =>
      ⟨parameter.id, parameter.valueType, .payloadValue field parent, parameter.span⟩
  | .borrowListElement parameter index parent =>
      ⟨parameter.id, parameter.valueType, .listElementValue index parent, parameter.span⟩
  | .copyListSuffix parameter parent skipped =>
      ⟨parameter.id, parameter.valueType, .listSuffixValue parent skipped, parameter.span⟩

/-- The definitions of a selection edge inserted so far. -/
structure EdgeState where
  sources : List ResultOwnership
  operations : List OwnershipOperation
  nextOwner : Nat

/-- An edge's projections store nothing, and no obligation ends before its
outputs: an empty drop row and no loop rows. -/
def insertEdgeDefinition (enclosing : List EnclosingBlock) (firstValue : Nat) (layouts : Layouts)
    (state : EdgeState) (definition : SelectionDefinition) : Except Diagnostic EdgeState := do
  let lowered := selectionValue definition
  let built ← buildDefinition lowered ⟨state.sources, enclosing, firstValue⟩ state.nextOwner
    ⟨some [], [], [], 0⟩ [] layouts
  let acquired :=
    match built.acquisitions with
    | .storedAcquisitions acquisitions _ =>
        acquisitions.map fun acquired =>
          OwnershipOperation.acquireOwner acquired.owner acquired.borrow lowered.span
    -- The scrutinee outlives its selection edges, so a record field stays borrowed.
    | .projection _ => []
  .ok
    { sources := state.sources ++ [built.definition.result]
      operations := state.operations ++ acquired ++ [.defineValue built.definition]
      nextOwner := built.nextOwner }

def plainOperations (entries : List InsertedEntry) (failure : Diagnostic) :
    Except Diagnostic (List OwnershipOperation) :=
  entries.mapM fun entry =>
    match entry with
    | .inserted operation => .ok operation
    | _ => .error failure

def edgeEnding (sources : List ResultOwnership) : List ScheduledDrop :=
  sources.filterMap fun source =>
    match source with
    | .ownedResult owner => some ⟨owner, compilerSpan, sources.length⟩
    | _ => none

structure InsertedSelectionEdge where
  edge : OwnedSelectionEdge
  nextValue : Nat
  nextOwner : Nat

def insertSelectionEdge (edge : SelectionEdge) (enclosing : List EnclosingBlock)
    (firstValue initialOwner : Nat) (layouts : Layouts) :
    Except Diagnostic InsertedSelectionEdge := do
  let defined ← edge.definitions.foldlM (insertEdgeDefinition enclosing firstValue layouts)
    ⟨[], [], initialOwner⟩
  let ending := edgeEnding defined.sources
  let left ← edge.arguments.foldlM
    (fun (state : LeavingState) value =>
      state.leave ⟨defined.sources, enclosing, firstValue⟩ ending defined.sources.length value
        compilerSpan)
    ⟨[], [], [], defined.nextOwner⟩
  let acquired ← plainOperations left.entries
    (internalError compilerSpan "selection edge contains control flow")
  .ok
    { edge :=
        { arm := edge.arm
          operations := defined.operations ++ acquired ++ dropUnmoved ending left.moved
          transfers := left.transfers }
      nextValue := firstValue + defined.sources.length
      nextOwner := left.nextOwner }

structure InsertedNodes where
  nodes : List OwnedDecisionNode
  nextValue : Nat
  nextOwner : Nat

def insertNode (enclosing : List EnclosingBlock) (layouts : Layouts) (state : InsertedNodes)
    (node : Lower.LoweredDecisionNode) : Except Diagnostic InsertedNodes := do
  match node with
  | .testVariant place variant yes no =>
      .ok { state with nodes := state.nodes ++ [.testVariant place variant yes no] }
  | .testListLength place test yes no =>
      .ok { state with nodes := state.nodes ++ [.testListLength place test yes no] }
  | .testLiteral place literal yes no =>
      .ok { state with nodes := state.nodes ++ [.testLiteral place literal yes no] }
  | .enterArm edge => do
      let inserted ← insertSelectionEdge edge enclosing state.nextValue state.nextOwner layouts
      .ok ⟨state.nodes ++ [.enterArm inserted.edge], inserted.nextValue, inserted.nextOwner⟩

structure InsertedSelection where
  selection : OwnedSelection
  nextValue : Nat
  nextOwner : Nat

def insertSelection (selection : LoweredSelection) (scrutinee : OwnedArgument)
    (enclosing : List EnclosingBlock) (firstValue initialOwner : Nat) (layouts : Layouts) :
    Except Diagnostic InsertedSelection := do
  let inserted ← selection.nodes.foldlM (insertNode enclosing layouts)
    ⟨[], firstValue, initialOwner⟩
  .ok ⟨⟨scrutinee, inserted.nodes, selection.entry⟩, inserted.nextValue, inserted.nextOwner⟩

/-! ## Leaving an arm -/

/-- The owners a yield retires: the arm's own sources still live at its end. -/
def terminalOwners (sources : List ResultOwnership) (uses : List (Option Nat)) (position : Nat)
    (span : Span) : Except Diagnostic (List ScheduledDrop) :=
  sources.zipIdx.foldlM
    (fun rows (source, slot) =>
      match uses[slot]? with
      | none => .error (internalError span "missing value-use row")
      | some lastUse =>
          match source, lastUse with
          | .ownedResult owner, some last =>
              .ok (if last = position then rows ++ [⟨owner, span, position⟩] else rows)
          | _, _ => .ok rows)
    []

structure LeavingJoin where
  entries : List InsertedEntry
  transfer : ReturnTransfer
  carried : List ReturnTransfer
  nextOwner : Nat

def dropYieldReads (discharges : List EnteringDischarge) (stepCount : Nat) (span : Span) :
    List OwnershipOperation :=
  discharges.filterMap fun discharge =>
    match discharge with
    | .lastReadInArm row => if row.last = stepCount then some (.dropOwner row.owner span) else none
    | .dropOnEntry _ _ => none

def leaveJoin (outputs : JoinOutputs) (stepCount : Nat) (parameters : List ValueParameter)
    (inserted : InsertedSteps) (uses : List (Option Nat)) (discharges : List EnteringDischarge)
    (enclosing : List EnclosingBlock) (firstValue : Nat) (span : Span) :
    Except Diagnostic LeavingJoin := do
  let ending ← terminalOwners inserted.sources uses stepCount span
  let scope : ValueScope := ⟨inserted.sources, enclosing, firstValue⟩
  let result ← leaveOccurrence scope ending stepCount [] inserted.entries inserted.nextOwner
    outputs.value span
  let left ← parameters.zipIdx.foldlM
    (fun (state : LeavingState) (parameter, position) =>
      match outputs.carried[position]? with
      | none => .error (internalError span "join arm carries the wrong number of values")
      | some value => state.leave scope ending stepCount value parameter.span)
    ⟨result.entries, [], result.moved, result.nextOwner⟩
  -- Only after every acquisition of the yield may the owners it did not move
  -- retire.  An entering obligation the yield reads retires here too.
  let dropped := dropUnmoved ending left.moved ++ dropYieldReads discharges stepCount span
  .ok ⟨left.entries ++ dropped.map .inserted, result.transfer, left.transfers, left.nextOwner⟩

def joinTerminalSpan (arm : JoinArm) (result : ValueId) (outer : List ValueInterval) :
    Except Diagnostic Span :=
  match arm.inputs.find? (·.id = result) with
  | some parameter => .ok parameter.span
  | none => terminalSpan arm.steps result outer

def enteringDischarges (fuel : Nat) (arm : JoinArm) (outputs : JoinOutputs)
    (entering : List ScheduledDrop) (enclosing : List EnclosingBlock) (span : Span) :
    Outcome Diagnostic (List EnteringDischarge) := do
  let reads ← enclosingOwnerUses fuel arm.steps ([outputs.value] ++ outputs.carried) entering
    enclosing span
  .ok (entering.map fun row =>
    match reads.find? (·.owner = row.owner) with
    | some read => .lastReadInArm read
    | none => .dropOnEntry row.owner row.span)

/-- A yielding arm's own block: its inserted steps, and how its outputs leave. -/
def insertYieldingBlock (fuel : Nat) (arm : JoinArm) (outputs : JoinOutputs)
    (parameters : List ValueParameter) (resultSpan : Span) (entering : List ScheduledDrop)
    (enclosing : List EnclosingBlock) (loopScope : Option LoopScope) (firstValue : Nat)
    (inputs : BuiltInputs) (contracts : CallContracts) (layouts : Layouts) :
    Outcome Diagnostic (InsertedSteps × LeavingJoin) := do
  if outputs.carried.length ≠ parameters.length then
    .err (internalError resultSpan "join arm carries the wrong number of values")
  else do
    let outer := enclosingIntervals enclosing
    let span ← joinTerminalSpan arm outputs.value outer
    let uses ← blockUses arm.steps (.terminalJoin outputs.value outputs.carried parameters) outer
      firstValue arm.inputs.length (.ok span)
    let discharges ← enteringDischarges fuel arm outputs entering enclosing span
    let inserted ← insertSteps fuel
      ⟨arm.steps, .dropAtLastUse uses, enclosing, firstValue, loopScope, [], discharges, contracts,
        layouts⟩
      inputs.nextOwner inputs.parameters
    let leaving ← leaveJoin outputs arm.steps.length parameters inserted uses discharges enclosing
      firstValue span
    .ok (inserted, leaving)

/-! ## Leaving a loop -/

def requireLoopScope (scope : Option LoopScope) (target : LoopTarget) (span : Span) :
    Except Diagnostic LoopScope :=
  match scope with
  | none => .error (internalError span "loop transfer has no active loop")
  | some active =>
      if active.target = target then .ok active
      else .error (internalError span "loop transfer does not target the nearest loop")

/-- The owners a loop edge retires: this block's and the loop scope's enclosing
owners still live at the edge. -/
def edgeLiveOwners (inserted : InsertedSteps) (enclosing : List EnclosingBlock) (scope : LoopScope)
    (position : Nat) : List ScheduledDrop :=
  liveOwners inserted.consumed inserted.owners position ++
    (enclosing.drop scope.preBlocks).flatMap fun block =>
      liveOwners inserted.consumed block.owners block.position

structure LoopEdgeEntries where
  entries : List InsertedEntry
  exit : OwnedLoopExit
  nextOwner : Nat

def ownedLoopExit (exit : LoopExit) (transfers : List ReturnTransfer) :
    Except Diagnostic OwnedLoopExit :=
  match exit with
  | .recur _ occurrence => .ok (.recur transfers occurrence)
  | .break outputs =>
      match transfers with
      | first :: carried => .ok (.break ⟨first, carried, outputs.span⟩)
      | [] => .error (internalError outputs.span "missing loop result transfer")

/-- Each outgoing occurrence asks `transfer` against the owners the edge retires;
the edge drops the rest after every acquisition. -/
def leaveLoop (exit : LoopExit) (inserted : InsertedSteps) (enclosing : List EnclosingBlock)
    (scope : LoopScope) (firstValue position : Nat) : Except Diagnostic LoopEdgeEntries := do
  let span := loopExitSpan exit
  let retiring := edgeLiveOwners inserted enclosing scope position
  let left ← (loopExitValues exit).foldlM
    (fun (state : LeavingState) value =>
      state.leave ⟨inserted.sources, enclosing, firstValue⟩ retiring position value span)
    ⟨inserted.entries, [], [], inserted.nextOwner⟩
  let ownedExit ← ownedLoopExit exit left.transfers
  .ok ⟨left.entries ++ (dropUnmoved retiring left.moved).map .inserted, ownedExit, left.nextOwner⟩

/-- Headers stay owned to the edge, and one read before it may be taken there. -/
def holdHeaders (heldHeaders stepCount : Nat) (seedInputs : List OwnedJoinParameter)
    (uses : List (Option Nat)) : List (Option Nat) × List ScheduledDrop :=
  (List.range heldHeaders).foldl
    (fun ((heldUses, loopUses) : List (Option Nat) × List ScheduledDrop) slot =>
      let taken : List ScheduledDrop :=
        match seedInputs[slot]?, uses[slot]? with
        | some (OwnedJoinParameter.managedJoinParameter parameter owner), some (some last) =>
            [⟨owner, parameter.span, last⟩]
        | _, _ => []
      (heldUses.set slot (some stepCount), loopUses ++ taken))
    (uses, [])

/-- The block of a loop that ends in an exit: its inserted steps, and its edge. -/
def insertExitBlock (fuel : Nat) (steps : List LoweredStep) (exit : LoopExit)
    (seedInputs : List OwnedJoinParameter) (heldHeaders : Nat) (enclosing : List EnclosingBlock)
    (scope : LoopScope) (firstValue initialOwner : Nat) (span : Span) (contracts : CallContracts)
    (layouts : Layouts) : Outcome Diagnostic (InsertedSteps × LoopEdgeEntries) := do
  let uses ← blockUses steps (.terminalArguments (loopExitValues exit))
    (enclosingIntervals enclosing) firstValue seedInputs.length (.ok span)
  let enclosingUses ← loopConsumptionUses fuel steps exit enclosing scope
  -- Header obligations survive until the complete edge batch, including old
  -- values that are not outgoing.  Arm inputs keep last-use scheduling.
  let held := holdHeaders heldHeaders steps.length seedInputs uses
  let inserted ← insertSteps fuel
    ⟨steps, .dropAtLastUse held.1, enclosing, firstValue, some scope, enclosingUses ++ held.2, [],
      contracts, layouts⟩
    initialOwner seedInputs
  let leaving ← leaveLoop exit inserted enclosing scope firstValue steps.length
  .ok (inserted, leaving)

/-! ## Entering a loop -/

structure EntryState where
  acquisitions : List OwnerAcquisition
  initials : List ReturnTransfer
  nextOwner : Nat

def entryAcquisitions (entries : List InsertedEntry) (span : Span) :
    Except Diagnostic (List OwnerAcquisition) :=
  entries.mapM fun entry =>
    match entry with
    | .inserted (.acquireOwner owner borrow _) => .ok ⟨owner, borrow⟩
    | _ => .error (internalError span "loop entry contains a non-acquisition operation")

def enterHeader (enclosing : List EnclosingBlock) (firstValue : Nat) (state : EntryState)
    (decided : EnteringHeader) : Except Diagnostic EntryState := do
  match decided.entry with
  | .takeOwner owner =>
      .ok { state with
        initials := state.initials ++ [.ownedReturn decided.header.initial owner] }
  | .acquireAtEntry => do
      let span := decided.header.parameter.span
      let source ← valueSource decided.header.initial ⟨[], enclosing, firstValue⟩ span
      let left := leaveWith decided.header.initial source.borrowedSource [] state.nextOwner span
      let acquired ← entryAcquisitions left.entries span
      .ok
        { acquisitions := state.acquisitions ++ acquired
          initials := state.initials ++ [left.transfer]
          nextOwner := left.nextOwner }

def enterHeaders (entering : List EnteringHeader) (enclosing : List EnclosingBlock)
    (firstValue initialOwner : Nat) : Except Diagnostic EntryState :=
  entering.foldlM (enterHeader enclosing firstValue) ⟨[], [], initialOwner⟩

structure EnteredLoop where
  acquisitions : List OwnerAcquisition
  headers : List OwnedLoopHeader
  inputs : BuiltInputs

def enterLoop (entering : List EnteringHeader) (enclosing : List EnclosingBlock)
    (firstValue initialOwner : Nat) (layouts : Layouts) : Outcome Diagnostic EnteredLoop := do
  let entry ← enterHeaders entering enclosing firstValue initialOwner
  let inputs ← buildInputs (entering.map (·.header.parameter)) entry.nextOwner layouts
  let headers ← Outcome.loop
    (fun headers (parameter, position) =>
      match entry.initials[position]? with
      | none => .err (internalError parameter.joinParameter.span "missing loop initial transfer")
      | some initial => .ok (headers ++ [⟨parameter, initial⟩]))
    inputs.parameters.zipIdx ([], none)
  let headers ← Outcome.settle headers
  .ok ⟨entry.acquisitions, headers, inputs⟩

/-! ## Completing a block -/

structure CompletedJoins where
  operations : List OwnershipOperation
  nextValue : Nat
  nextOwner : Nat

structure InsertedJoinArm where
  arm : OwnedJoinArm
  nextValue : Nat
  nextOwner : Nat

structure CompletedOwnedJoin where
  join : OwnedJoin
  nextValue : Nat
  nextOwner : Nat

structure InsertedLoopBlock where
  body : OwnedLoopBlock
  nextValue : Nat
  nextOwner : Nat

structure InsertedLoop where
  acquisitions : List OwnerAcquisition
  headers : List OwnedLoopHeader
  body : OwnedLoopBlock
  nextValue : Nat
  nextOwner : Nat

structure InsertedArms (Arm : Type) where
  arms : List Arm
  nextValue : Nat
  nextOwner : Nat

mutual

/-- Builds each join and loop once its block is complete: its arms follow the
block's own values and owners, selection edges first, then arm inputs and bodies
in arm order. -/
def completeJoins : Nat → List InsertedEntry → Nat → Nat → CallContracts → Layouts →
    Outcome Diagnostic CompletedJoins
  | 0, _, _, _, _, _ => .timeout
  | fuel + 1, entries, firstValue, firstOwner, contracts, layouts =>
      entries.foldlM
        (fun state entry =>
          match entry with
          | .inserted operation => .ok { state with operations := state.operations ++ [operation] }
          | .awaitingLoop pending => do
              let built ← insertLoop fuel pending.loop pending.headers pending.enclosing
                state.nextValue state.nextOwner contracts layouts
              .ok
                { operations := state.operations ++
                    [.executeLoop
                      { entryAcquisitions := built.acquisitions
                        headers := built.headers
                        result := pending.result
                        carried := pending.carried
                        body := built.body }]
                  nextValue := built.nextValue
                  nextOwner := built.nextOwner }
          | .awaitingArms pending => do
              let completed ← completePendingJoin fuel pending state.nextValue state.nextOwner
                contracts layouts
              .ok
                { operations := state.operations ++ [.executeJoin completed.join]
                  nextValue := completed.nextValue
                  nextOwner := completed.nextOwner })
        ⟨[], firstValue, firstOwner⟩
  termination_by structural fuel => fuel

def completePendingJoin : Nat → PendingOwnedJoin → Nat → Nat → CallContracts → Layouts →
    Outcome Diagnostic CompletedOwnedJoin
  | 0, _, _, _, _, _ => .timeout
  | fuel + 1, pending, firstValue, initialOwner, contracts, layouts => do
      let selected ← insertSelection pending.join.selection pending.scrutinee pending.enclosing
        firstValue initialOwner layouts
      let inserted ← pending.join.arms.foldlM
        (fun (state : InsertedArms OwnedJoinArm) arm => do
          let inserted ← insertJoinArm fuel arm pending.join.carried pending.join.result.span
            pending.entering pending.enclosing pending.loopScope state.nextValue state.nextOwner
            contracts layouts
          .ok ⟨state.arms ++ [inserted.arm], inserted.nextValue, inserted.nextOwner⟩)
        ⟨[], selected.nextValue, selected.nextOwner⟩
      .ok
        { join :=
            { result := pending.result
              carried := pending.carried
              entering := pending.entering.map (·.owner)
              selection := selected.selection
              arms := inserted.arms }
          nextValue := inserted.nextValue
          nextOwner := inserted.nextOwner }
  termination_by structural fuel => fuel

/-- Abrupt arms receive no entering obligations: their edge retires every live
loop-scope owner, and the snapshot does not count those consumed. -/
def insertJoinArm : Nat → JoinArm → List ValueParameter → Span → List ScheduledDrop →
    List EnclosingBlock → Option LoopScope → Nat → Nat → CallContracts → Layouts →
    Outcome Diagnostic InsertedJoinArm
  | 0, _, _, _, _, _, _, _, _, _, _ => .timeout
  | fuel + 1, arm, parameters, resultSpan, entering, enclosing, loopScope, firstValue,
      initialOwner, contracts, layouts => do
      let inputs ← buildInputs arm.inputs initialOwner layouts
      match arm.exit with
      | .yield outputs =>
          insertYieldingArm fuel arm outputs parameters resultSpan entering enclosing loopScope
            firstValue inputs contracts layouts
      | .transferLoop target tail =>
          insertAbruptArm fuel arm target tail resultSpan enclosing loopScope firstValue inputs
            contracts layouts
  termination_by structural fuel => fuel

def insertYieldingArm : Nat → JoinArm → JoinOutputs → List ValueParameter → Span →
    List ScheduledDrop → List EnclosingBlock → Option LoopScope → Nat → BuiltInputs →
    CallContracts → Layouts → Outcome Diagnostic InsertedJoinArm
  | 0, _, _, _, _, _, _, _, _, _, _, _ => .timeout
  | fuel + 1, arm, outputs, parameters, resultSpan, entering, enclosing, loopScope, firstValue,
      inputs, contracts, layouts => do
      let (inserted, leaving) ← insertYieldingBlock fuel arm outputs parameters resultSpan entering
        enclosing loopScope firstValue inputs contracts layouts
      let completed ← completeJoins fuel leaving.entries (firstValue + inserted.sources.length)
        leaving.nextOwner contracts layouts
      .ok
        { arm :=
            { id := arm.id
              inputs := inputs.parameters
              operations := completed.operations
              exit := .yield ⟨leaving.transfer, leaving.carried⟩ }
          nextValue := completed.nextValue
          nextOwner := completed.nextOwner }
  termination_by structural fuel => fuel

def insertAbruptArm : Nat → JoinArm → LoopTarget → LoopTail → Span → List EnclosingBlock →
    Option LoopScope → Nat → BuiltInputs → CallContracts → Layouts →
    Outcome Diagnostic InsertedJoinArm
  | 0, _, _, _, _, _, _, _, _, _, _ => .timeout
  | fuel + 1, arm, target, tail, resultSpan, enclosing, loopScope, firstValue, inputs, contracts,
      layouts => do
      let scope ← requireLoopScope loopScope target resultSpan
      let body ← insertLoopBlock fuel ⟨arm.steps, tail⟩ inputs.parameters 0 enclosing scope
        firstValue inputs.nextOwner resultSpan contracts layouts
      .ok
        { arm :=
            { id := arm.id
              inputs := inputs.parameters
              operations := body.body.operations
              exit := .transferLoop target body.body.tail }
          nextValue := body.nextValue
          nextOwner := body.nextOwner }
  termination_by structural fuel => fuel

def insertLoopBlock : Nat → LoopBlock → List OwnedJoinParameter → Nat → List EnclosingBlock →
    LoopScope → Nat → Nat → Span → CallContracts → Layouts → Outcome Diagnostic InsertedLoopBlock
  | 0, _, _, _, _, _, _, _, _, _, _ => .timeout
  | fuel + 1, block, seedInputs, heldHeaders, enclosing, scope, firstValue, initialOwner, span,
      contracts, layouts =>
      match block.tail with
      | .exitLoop exit =>
          insertLoopExitBlock fuel block.steps exit seedInputs heldHeaders enclosing scope
            firstValue initialOwner span contracts layouts
      | .matchLoop matched =>
          insertLoopMatchBlock fuel block.steps matched seedInputs enclosing scope firstValue
            initialOwner span contracts layouts
  termination_by structural fuel => fuel

def insertLoopExitBlock : Nat → List LoweredStep → LoopExit → List OwnedJoinParameter → Nat →
    List EnclosingBlock → LoopScope → Nat → Nat → Span → CallContracts → Layouts →
    Outcome Diagnostic InsertedLoopBlock
  | 0, _, _, _, _, _, _, _, _, _, _, _ => .timeout
  | fuel + 1, steps, exit, seedInputs, heldHeaders, enclosing, scope, firstValue, initialOwner,
      span, contracts, layouts => do
      let (inserted, leaving) ← insertExitBlock fuel steps exit seedInputs heldHeaders enclosing
        scope firstValue initialOwner span contracts layouts
      let completed ← completeJoins fuel leaving.entries (firstValue + inserted.sources.length)
        leaving.nextOwner contracts layouts
      .ok
        ⟨⟨completed.operations, .exitLoop leaving.exit⟩, completed.nextValue, completed.nextOwner⟩
  termination_by structural fuel => fuel

def insertLoopMatchBlock : Nat → List LoweredStep → LoopMatch → List OwnedJoinParameter →
    List EnclosingBlock → LoopScope → Nat → Nat → Span → CallContracts → Layouts →
    Outcome Diagnostic InsertedLoopBlock
  | 0, _, _, _, _, _, _, _, _, _, _ => .timeout
  | fuel + 1, steps, matched, seedInputs, enclosing, scope, firstValue, initialOwner, span,
      contracts, layouts => do
      let leading ← insertSteps fuel
        ⟨steps, .dropInEachArm, enclosing, firstValue, some scope, [], [], contracts, layouts⟩
        initialOwner seedInputs
      let scrutinee ← borrowArgument matched.selection.scrutinee
        ⟨leading.sources, enclosing, firstValue⟩ span
      let completed ← completeJoins fuel leading.entries (firstValue + leading.sources.length)
        leading.nextOwner contracts layouts
      let outer := enclosing ++
        [⟨firstValue, leading.sources, leading.owners, steps.length, leading.consumed⟩]
      let selected ← insertSelection matched.selection scrutinee outer completed.nextValue
        completed.nextOwner layouts
      let inserted ← matched.arms.foldlM
        (fun (state : InsertedArms OwnedLoopArm) arm => do
          let inputs ← buildInputs arm.inputs state.nextOwner layouts
          let built ← insertLoopBlock fuel arm.body inputs.parameters 0 outer scope state.nextValue
            inputs.nextOwner span contracts layouts
          .ok
            ⟨state.arms ++ [⟨arm.id, inputs.parameters, built.body⟩], built.nextValue,
              built.nextOwner⟩)
        ⟨[], selected.nextValue, selected.nextOwner⟩
      .ok
        ⟨⟨completed.operations, .matchLoop ⟨selected.selection, inserted.arms⟩⟩,
          inserted.nextValue, inserted.nextOwner⟩
  termination_by structural fuel => fuel

def insertLoop : Nat → LoweredLoop → List EnteringHeader → List EnclosingBlock → Nat → Nat →
    CallContracts → Layouts → Outcome Diagnostic InsertedLoop
  | 0, _, _, _, _, _, _, _ => .timeout
  | fuel + 1, looped, entering, enclosing, firstValue, initialOwner, contracts, layouts => do
      let entered ← enterLoop entering enclosing firstValue initialOwner layouts
      let body ← insertLoopBlock fuel looped.body entered.inputs.parameters entering.length
        enclosing ⟨looped.result.id, enclosing.length⟩ firstValue entered.inputs.nextOwner
        looped.result.span contracts layouts
      .ok ⟨entered.acquisitions, entered.headers, body.body, body.nextValue, body.nextOwner⟩
  termination_by structural fuel => fuel

end

/-! ## Functions -/

/-- One inserted function with its owner and value ordinal counts, which size the
reach walk's tables. -/
structure InsertedFunction where
  function : OwnedFunction
  ownerCount : Nat
  valueCount : Nat

def insertContractedFunction (fuel : Nat) (function : LoweredFunction) (contracts : CallContracts)
    (layouts : Layouts) : Outcome Diagnostic InsertedFunction := do
  let span ← terminalSpan function.steps function.result []
  let uses ← blockUses function.steps (.terminalValue function.result) [] 0 0 (.ok span)
  let inserted ← insertSteps fuel
    ⟨function.steps, .dropAtLastUse uses, [], 0, none, [], [], contracts, layouts⟩ 0 []
  let source ← valueSource function.result ⟨inserted.sources, [], 0⟩ span
  let leaving := leaveWith function.result source inserted.entries inserted.nextOwner span
  let completed ← completeJoins fuel leaving.entries inserted.sources.length leaving.nextOwner
    contracts layouts
  .ok
    { function :=
        { label := function.label
          parameters := contracts.parameters
          returnType := function.signature.returnType
          operations := completed.operations
          result := leaving.transfer }
      ownerCount := completed.nextOwner
      valueCount := completed.nextValue }

def borrowedRows (parameters : List TypeRef) (layouts : Layouts) :
    Except Diagnostic (List OwnedParameter) :=
  parameters.mapM fun valueType => do
    if ← layouts.needsOwnership valueType then .ok (.managedParameter ⟨valueType, false⟩)
    else .ok (.unmanagedParameter valueType)

end Blorp.Own
