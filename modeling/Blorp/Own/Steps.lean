import Blorp.Own.Transfer

/-!
# Inserting the steps of a block

A block's steps are inserted in order, with the acquisitions their operands need
before them and the drops of what they used last after them.  Joins and loops
wait in `InsertedEntry`s until the block is complete, because their arms are
numbered after the whole block.
-/

namespace Blorp.Own

open Check (Span)
open Specialize
open Lower (ValueId ValueParameter ValueDefinition LoweredStep LoweredJoin LoweredLoop LoopExit
  LoopHeader)
open Fuel

/-! ## Pending joins and loops -/

/-- How a block schedules its owners' drops.  A tail match's prefix keeps every
owner until each arm's exit, which drops it. -/
inductive DropSchedule where
  | dropAtLastUse (uses : List (Option Nat))
  | dropInEachArm

/-- A pending join sees the snapshot before its outputs.  `entering` rows are the
obligations the join takes. -/
structure PendingOwnedJoin where
  join : LoweredJoin
  scrutinee : OwnedArgument
  result : OwnedJoinParameter
  carried : List OwnedJoinParameter
  entering : List ScheduledDrop
  enclosing : List EnclosingBlock
  loopScope : Option LoopScope

/-- Where a yielding arm discharges an obligation entering its join: on entry
when the arm never reads it, else at its last read there. -/
inductive EnteringDischarge where
  | dropOnEntry (owner : OwnerId) (span : Span)
  | lastReadInArm (row : ScheduledDrop)

inductive HeaderEntry where
  | acquireAtEntry
  | takeOwner (owner : OwnerId)

structure EnteringHeader where
  header : LoopHeader
  entry : HeaderEntry

structure PendingOwnedLoop where
  loop : LoweredLoop
  headers : List EnteringHeader
  result : OwnedJoinParameter
  carried : List OwnedJoinParameter
  enclosing : List EnclosingBlock

/-- A block's operations while it is inserted: complete ones, and joins and loops
whose bodies are inserted once the block is complete. -/
inductive InsertedEntry where
  | inserted (operation : OwnershipOperation)
  | awaitingArms (pending : PendingOwnedJoin)
  | awaitingLoop (pending : PendingOwnedLoop)

structure InsertedSteps where
  consumed : List OwnerId
  entries : List InsertedEntry
  sources : List ResultOwnership
  owners : List ScheduledDrop
  nextOwner : Nat

/-! ## Outputs and inputs -/

def ownedJoinParameter (parameter : ValueParameter) (nextOwner : Nat) (layouts : Layouts) :
    Except Diagnostic OwnedJoinParameter := do
  if ← layouts.needsOwnership parameter.valueType then
    .ok (.managedJoinParameter parameter nextOwner)
  else .ok (.unmanagedJoinParameter parameter)

def OwnedJoinParameter.after (parameter : OwnedJoinParameter) (nextOwner : Nat) : Nat :=
  match parameter with
  | .unmanagedJoinParameter _ => nextOwner
  | .managedJoinParameter _ _ => nextOwner + 1

structure BuiltInputs where
  parameters : List OwnedJoinParameter
  nextOwner : Nat

/-- Canonical inputs own separate occurrences, even when an edge supplies the
same borrowed value more than once. -/
def buildInputs (parameters : List ValueParameter) (initialOwner : Nat) (layouts : Layouts) :
    Except Diagnostic BuiltInputs :=
  parameters.foldlM
    (fun state parameter => do
      let input ← ownedJoinParameter parameter state.nextOwner layouts
      .ok ⟨state.parameters ++ [input], input.after state.nextOwner⟩)
    ⟨[], initialOwner⟩

structure BuiltOutputs where
  result : OwnedJoinParameter
  carried : List OwnedJoinParameter
  nextOwner : Nat

def buildOutputs (resultParameter : ValueParameter) (parameters : List ValueParameter)
    (nextOwner : Nat) (layouts : Layouts) : Except Diagnostic BuiltOutputs := do
  let result ← ownedJoinParameter resultParameter nextOwner layouts
  let carried ← buildInputs parameters (result.after nextOwner) layouts
  .ok ⟨result, carried.parameters, carried.nextOwner⟩

/-! ## What ends where -/

/-- A join takes every obligation that may transfer at its step: the step's drop
bucket, which holds an arm's entering rows, and the loop rows. -/
def joinEntering (point : StepPoint) (span : Span) : Except Diagnostic (List ScheduledDrop) := do
  let stepDrops ← point.stepDrops span
  .ok ((stepDrops ++ point.loopUses).filter fun row =>
    transferableHere stepDrops point.loopUses point.consumed row.owner point.position)

def recordOwnerUse (uses : List ScheduledDrop) (read : ScheduledDrop) : List ScheduledDrop :=
  match uses.findIdx? (·.owner = read.owner) with
  | some index => uses.set index read
  | none => uses ++ [read]

/-- One read of a block, at `position`, of a candidate enclosing obligation. -/
def enclosingOwnerUse (fuel : Nat) (candidates : List ScheduledDrop)
    (enclosing : List EnclosingBlock) (span : Span) (uses : List ScheduledDrop)
    (read : ValueId × Nat) : Outcome Diagnostic (List ScheduledDrop) :=
  if visibleOutside read.1 (enclosingIntervals enclosing) then do
    match ← dependencyOwner fuel read.1 ⟨[], enclosing, 0⟩ span with
    | none => .ok uses
    | some owner =>
        match candidates.find? (·.owner = owner) with
        | none => .ok uses
        | some row => .ok (recordOwnerUse uses { row with last := read.2 })
  else .ok uses

/-- The candidate enclosing obligations a block reads, directly or through a
borrow, each at its last read: a step, or the terminal after the last step. -/
def enclosingOwnerUses (fuel : Nat) (steps : List LoweredStep) (terminal : List ValueId)
    (candidates : List ScheduledDrop) (enclosing : List EnclosingBlock) (span : Span) :
    Outcome Diagnostic (List ScheduledDrop) := do
  let reads := (steps.map (·.stepReads) ++ [terminal]).zipIdx.flatMap fun (reads, position) =>
    reads.map fun value => (value, position)
  let state ← Outcome.loop (enclosingOwnerUse fuel candidates enclosing span) reads ([], none)
  Outcome.settle state

def loopExitValues : LoopExit → List ValueId
  | .recur arguments _ => arguments
  | .break outputs => [outputs.value] ++ outputs.carried

def loopExitSpan : LoopExit → Span
  | .recur _ span => span
  | .break outputs => outputs.span

/-- Rows still live at the point, that nothing consumed. -/
def liveOwners (consumed : List OwnerId) (owners : List ScheduledDrop) (position : Nat) :
    List ScheduledDrop :=
  owners.filter fun row => decide (position ≤ row.last) && !hasConsumed consumed row.owner

/-- Only the nearest loop's enclosing values receive rows, once for this terminal
block.  A row the block never reads stays live to the edge, which retires it. -/
def loopConsumptionUses (fuel : Nat) (steps : List LoweredStep) (exit : LoopExit)
    (enclosing : List EnclosingBlock) (scope : LoopScope) :
    Outcome Diagnostic (List ScheduledDrop) :=
  let candidates := (enclosing.drop scope.preBlocks).flatMap fun block =>
    liveOwners block.consumed block.owners block.position
  enclosingOwnerUses fuel steps (loopExitValues exit) candidates enclosing (loopExitSpan exit)

/-- A transferable owner moves into its header only when its own initial is the
one read of the loop step it backs. -/
def soleBackerEntry (fuel : Nat) (owner : OwnerId) (reads : List ValueId) (scope : ValueScope)
    (span : Span) : Outcome Diagnostic HeaderEntry := do
  let backed ← reads.foldlM
    (fun backed value => do
      match ← dependencyOwner fuel value scope span with
      | some other => .ok (if other = owner then backed + 1 else backed)
      | none => .ok backed)
    0
  .ok (if backed = 1 then .takeOwner owner else .acquireAtEntry)

/-- A header takes its initial's obligation when the owner holds the initial
itself, may transfer at this step and backs no other read of the step. -/
def headerEntry (fuel : Nat) (header : LoopHeader) (reads : List ValueId)
    (stepDrops : List ScheduledDrop) (point : StepPoint) (scope : ValueScope) :
    Outcome Diagnostic HeaderEntry := do
  let source ← valueSource header.initial scope header.parameter.span
  match transfer source stepDrops point.loopUses point.consumed point.position [] with
  | .moves owner => soleBackerEntry fuel owner reads scope header.parameter.span
  | .acquires => .ok .acquireAtEntry

def enteringHeaders (fuel : Nat) (looped : LoweredLoop) (reads : List ValueId) (point : StepPoint)
    (scope : ValueScope) : Outcome Diagnostic (List EnteringHeader) := do
  let stepDrops ← point.stepDrops looped.result.span
  looped.headers.mapM fun header => do
    let entry ← headerEntry fuel header reads stepDrops point scope
    .ok ⟨header, entry⟩

/-! ## Record projections -/

def extendParent (extents : List (Option Nat)) (parent : ValueId) (firstValue read : Nat) :
    List (Option Nat) :=
  if firstValue ≤ parent then
    match extents[parent - firstValue]? with
    | some (some known) =>
        if known < read then extents.set (parent - firstValue) (some read) else extents
    | some none => extents.set (parent - firstValue) (some read)
    | none => extents
  else extents

/-- Each value's last read in this block, extended through the record projections
read from it, the last step first. -/
def borrowedExtents (steps : List LoweredStep) (uses : List (Option Nat)) (firstValue : Nat) :
    List (Option Nat) :=
  steps.foldr
    (fun step extents =>
      match step with
      | .define definition =>
          match definition.operation with
          | .readRecordFieldValue _ parent =>
              if firstValue ≤ definition.id then
                match extents[definition.id - firstValue]? with
                | some (some read) => extendParent extents parent firstValue read
                | _ => extents
              else extents
          | _ => extents
      | _ => extents)
    uses

/-- The first point of this block, from `position` on, where the obligation may
end, or else the block's end. -/
def retirement (owner : OwnerId) (drops : List (List ScheduledDrop))
    (loopUses : List ScheduledDrop) (consumed : List OwnerId) (position : Nat) : Nat :=
  match (drops.zipIdx.drop position).find? fun (bucket, at_) =>
      transferableHere bucket loopUses consumed owner at_ with
  | some (_, at_) => at_
  | none => drops.length

/-- Whether a record projection may stay a borrow of `parent`: the obligation
behind the parent outlives the projection's extended last read, or both end at
the block's end. -/
def projectionLasts (fuel : Nat) (parent : ValueId) (extents : Option (List (Option Nat)))
    (slot : Nat) (drops : List (List ScheduledDrop)) (point : StepPoint) (scope : ValueScope)
    (span : Span) : Outcome Diagnostic Bool := do
  let backing ← dependencyOwner fuel parent scope span
  match backing, extents with
  | none, _ => .ok true
  | some _, none => .ok false
  | some owner, some rows =>
      match rows[slot]? with
      | none => .err (internalError span "missing value-use row")
      -- An unread projection has no read after its parent's.
      | some none => .ok true
      | some (some last) =>
          let retired := retirement owner drops point.loopUses point.consumed point.position
          .ok (decide (last < retired) || decide (retired = drops.length))

/-! ## The steps of a block -/

structure BlockFrame where
  steps : List LoweredStep
  schedule : DropSchedule
  enclosing : List EnclosingBlock
  firstValue : Nat
  loopScope : Option LoopScope
  loopUses : List ScheduledDrop
  discharges : List EnteringDischarge
  contracts : CallContracts
  layouts : Layouts

namespace BlockFrame

def count (frame : BlockFrame) : Nat := frame.steps.length

def extents (frame : BlockFrame) : Option (List (Option Nat)) :=
  match frame.schedule with
  | .dropAtLastUse uses => some (borrowedExtents frame.steps uses frame.firstValue)
  | .dropInEachArm => none

end BlockFrame

/-- The insertion of a block so far, with the drops scheduled for each step. -/
structure BlockState extends InsertedSteps where
  drops : List (List ScheduledDrop)

namespace BlockState

def scope (state : BlockState) (frame : BlockFrame) : ValueScope :=
  ⟨state.sources, frame.enclosing, frame.firstValue⟩

def point (state : BlockState) (frame : BlockFrame) (position : Nat) : StepPoint :=
  ⟨state.drops[position]?, frame.loopUses, state.consumed, position⟩

/-- The snapshot of this block that a join or loop at `position` encloses. -/
def snapshot (state : BlockState) (frame : BlockFrame) (position : Nat) : List EnclosingBlock :=
  frame.enclosing ++
    [⟨frame.firstValue, state.sources, state.owners, position, state.consumed⟩]

def append (state : BlockState) (entries : List InsertedEntry) : BlockState :=
  { state with entries := state.entries ++ entries }

def acquire (state : BlockState) (acquisitions : List OwnerAcquisition) (span : Span) :
    BlockState :=
  state.append (acquisitions.map fun acquisition =>
    .inserted (.acquireOwner acquisition.owner acquisition.borrow span))

end BlockState

/-- A managed seed input is an owner of the block, dropped at once when unread. -/
def seedInput (frame : BlockFrame) (state : BlockState) (input : OwnedJoinParameter × Nat) :
    Except Diagnostic BlockState :=
  match input.1.joinOwnership with
  | .ownedResult owner =>
      let span := input.1.joinParameter.span
      match frame.schedule with
      | .dropInEachArm => .ok { state with owners := state.owners ++ [⟨owner, span, frame.count⟩] }
      | .dropAtLastUse uses =>
          match uses[input.2]? with
          | none => .error (internalError span "missing input-use row")
          | some none => .ok (state.append [.inserted (.dropOwner owner span)])
          | some (some last) =>
              let owned := { state with owners := state.owners ++ [⟨owner, span, last⟩] }
              if last < frame.count then
                match state.drops[last]? with
                | some bucket =>
                    .ok { owned with
                      drops := state.drops.set last (bucket ++ [⟨owner, span, last⟩]) }
                | none => .error (internalError span "invalid input last-use position")
              else .ok owned
  | _ => .ok state

/-- Entering obligations go into drop buckets, never into `owners`: the enclosing
snapshot keeps the one row an abrupt edge retires. -/
def enterDischarge (frame : BlockFrame) (state : BlockState) (discharge : EnteringDischarge) :
    Except Diagnostic BlockState :=
  match discharge with
  | .dropOnEntry owner span =>
      .ok { state.append [.inserted (.dropOwner owner span)] with
        consumed := state.consumed ++ [owner] }
  | .lastReadInArm row =>
      if row.last < frame.count then
        match state.drops[row.last]? with
        | some bucket => .ok { state with drops := state.drops.set row.last (bucket ++ [row]) }
        | none => .error (internalError row.span "invalid entering last-use position")
      else .ok state

/-- What a step made available: its first value's ownership, its further outputs,
and the owners it took. -/
structure StepOutputs where
  state : BlockState
  available : ResultOwnership
  carried : List OwnedJoinParameter
  takenHere : List OwnerId

def insertJoinStep (frame : BlockFrame) (state : BlockState) (position : Nat)
    (joined : LoweredJoin) : Except Diagnostic StepOutputs := do
  let built ← buildOutputs joined.result joined.carried state.nextOwner frame.layouts
  let scrutinee ← borrowArgument joined.selection.scrutinee (state.scope frame) joined.result.span
  let taken ← joinEntering (state.point frame position) joined.result.span
  -- The arms' snapshot precedes the transfer, so they can discharge what enters;
  -- only the continuation counts it consumed.
  let pending : PendingOwnedJoin :=
    { join := joined
      scrutinee := scrutinee
      result := built.result
      carried := built.carried
      entering := taken
      enclosing := state.snapshot frame position
      loopScope := frame.loopScope }
  .ok
    { state :=
        { state.append [.awaitingArms pending] with
          consumed := state.consumed ++ taken.map (·.owner)
          nextOwner := built.nextOwner }
      available := built.result.joinOwnership
      carried := built.carried
      takenHere := [] }

def takenByHeaders (entering : List EnteringHeader) : List OwnerId :=
  entering.filterMap fun decided =>
    match decided.entry with
    | .takeOwner owner => some owner
    | .acquireAtEntry => none

section

variable (fuel : Nat) (frame : BlockFrame) (state : BlockState) (position : Nat)

def insertLoopStep (looped : LoweredLoop) : Outcome Diagnostic StepOutputs := do
  let built ← buildOutputs looped.result looped.carried state.nextOwner frame.layouts
  let entering ← enteringHeaders fuel looped (LoweredStep.loop looped).stepReads
    (state.point frame position) (state.scope frame)
  -- Taken owners belong to their headers: no drop after this step, and no
  -- retirement at an enclosing loop's edge.
  let after := { state with consumed := state.consumed ++ takenByHeaders entering }
  let pending : PendingOwnedLoop :=
    { loop := looped
      headers := entering
      result := built.result
      carried := built.carried
      enclosing := after.snapshot frame position }
  .ok
    { state := { after.append [.awaitingLoop pending] with nextOwner := built.nextOwner }
      available := built.result.joinOwnership
      carried := built.carried
      takenHere := [] }

/-- Whether a projection's borrow lasts; it must be one of a parent value. -/
def projectionStays (borrow : BorrowedValue) (span : Span) : Outcome Diagnostic Bool :=
  match borrow.source with
  | .payloadBorrow parent =>
      projectionLasts fuel parent frame.extents state.sources.length state.drops
        (state.point frame position) (state.scope frame) span
  | _ => .err (internalError span "record projection has no parent borrow")

/-- A projection borrows its parent where that borrow lasts, and else acquires
its own owner after the read. -/
def insertProjection (definition : OwnedDefinition) (borrow : BorrowedValue) :
    Outcome Diagnostic StepOutputs := do
  let defined := state.append [.inserted (.defineValue definition)]
  let lasts ← projectionStays fuel frame state position borrow definition.span
  if lasts then
    .ok ⟨defined, definition.result, [], []⟩
  else
    .ok
      { state :=
          { defined.append
              [.inserted (.acquireOwner defined.nextOwner borrow definition.span)] with
            nextOwner := defined.nextOwner + 1 }
        available := .ownedResult defined.nextOwner
        carried := []
        takenHere := [] }

def insertDefineStep (definition : ValueDefinition) : Outcome Diagnostic StepOutputs := do
  let scope := state.scope frame
  let point := state.point frame position
  let built ← buildDefinition definition scope state.nextOwner point frame.contracts.parameters
    frame.layouts
  match ← passCall fuel built.definition frame.contracts.callees state.nextOwner scope point with
  -- A call stores no payloads: transfers are its only acquisitions.
  | some passed =>
      match built.acquisitions with
      | .storedAcquisitions [] [] =>
          .ok
            { state :=
                { (state.acquire passed.acquisitions definition.span).append
                    [.inserted (.defineValue passed.definition)] with
                  nextOwner := passed.nextOwner }
              available := passed.definition.result
              carried := []
              takenHere := passed.taken }
      | _ =>
          .err (internalError definition.span
            "a call that transfers an obligation cannot store payloads")
  | none =>
      let numbered := { state with nextOwner := built.nextOwner }
      match built.acquisitions with
      | .storedAcquisitions acquired taken =>
          .ok
            { state :=
                (numbered.acquire acquired definition.span).append
                  [.inserted (.defineValue built.definition)]
              available := built.definition.result
              carried := []
              takenHere := taken }
      | .projection borrow => insertProjection fuel frame numbered position built.definition borrow

end

/-- The position after which the block drops an owner made at `stepPosition`. -/
def dropPosition (schedule : DropSchedule) (valueSlot stepPosition count : Nat) (span : Span) :
    Except Diagnostic Nat :=
  match schedule with
  | .dropInEachArm => .ok count
  | .dropAtLastUse uses =>
      match uses[valueSlot]? with
      | some (some last) => .ok last
      | some none => .ok stepPosition
      | none => .error (internalError span "missing value-use row")

/-- Schedules the drop of an owner this step made.  A use at the block's end
transfers or keeps the obligation. -/
def scheduleOwner (frame : BlockFrame) (state : BlockState) (slot position : Nat)
    (owner : OwnerId) (span : Span) : Except Diagnostic BlockState := do
  let until_ ← dropPosition frame.schedule slot position frame.count span
  let owned := { state with owners := state.owners ++ [⟨owner, span, until_⟩] }
  if until_ < frame.count then
    match state.drops[until_]? with
    | none => .error (internalError span "missing drop schedule row")
    | some bucket =>
        match frame.steps[until_]? with
        | none => .error (internalError span "invalid last-use position")
        | some last =>
            .ok { owned with
              drops := state.drops.set until_ (bucket ++ [⟨owner, last.stepSpan, until_⟩]) }
  else .ok owned

def publishResult (frame : BlockFrame) (outputs : StepOutputs) (position : Nat) (span : Span) :
    Except Diagnostic BlockState :=
  let slot := outputs.state.sources.length
  -- A loop row this step took is consumed: no later step or edge of the loop may
  -- take or retire it.
  let published :=
    { outputs.state with
      sources := outputs.state.sources ++ [outputs.available]
      consumed := outputs.state.consumed ++
        outputs.takenHere.filter fun owner => matchesLastUse frame.loopUses owner position }
  match outputs.available with
  | .ownedResult owner => scheduleOwner frame published slot position owner span
  | _ => .ok published

/-- Several outputs share one execution position, but each owns a value slot and,
when managed, an independently scheduled obligation. -/
def publishCarried (frame : BlockFrame) (position : Nat) (state : BlockState)
    (output : OwnedJoinParameter) : Except Diagnostic BlockState :=
  let slot := state.sources.length
  let published := { state with sources := state.sources ++ [output.joinOwnership] }
  match output with
  | .unmanagedJoinParameter _ => .ok published
  | .managedJoinParameter parameter owner =>
      scheduleOwner frame published slot position owner parameter.span

def retireRow (frame : BlockFrame) (takenHere : List OwnerId) (state : BlockState)
    (dropped : ScheduledDrop) : BlockState :=
  if hasConsumed state.consumed dropped.owner then state
  else
    let retired :=
      if hasConsumed takenHere dropped.owner then state
      else state.append [.inserted (.dropOwner dropped.owner dropped.span)]
    -- An entering obligation read here leaves the arm at this step.
    if frame.discharges.any fun discharge =>
        match discharge with
        | .lastReadInArm row => decide (row.owner = dropped.owner)
        | .dropOnEntry _ _ => false then
      { retired with consumed := retired.consumed ++ [dropped.owner] }
    else retired

def insertAvailable (fuel : Nat) (frame : BlockFrame) (state : BlockState) (position : Nat) :
    LoweredStep → Outcome Diagnostic StepOutputs
  | .join joined => liftM (insertJoinStep frame state position joined)
  | .loop looped => insertLoopStep fuel frame state position looped
  | .define definition => insertDefineStep fuel frame state position definition

def insertStep (fuel : Nat) (frame : BlockFrame) (state : BlockState) (step : LoweredStep × Nat) :
    Outcome Diagnostic BlockState := do
  let position := step.2
  let span := step.1.stepSpan
  let outputs ← insertAvailable fuel frame state position step.1
  let published ← publishResult frame outputs position span
  let carried ← outputs.carried.foldlM
    (fun state output => (liftM (publishCarried frame position state output) :
      Outcome Diagnostic BlockState)) published
  let bucket ← orInternalError carried.drops[position]? span "missing drop schedule row"
  .ok (bucket.foldl (retireRow frame outputs.takenHere) carried)

/-- The rows an arm starts with: what its enclosing block already consumed. -/
def inheritedConsumed (enclosing : List EnclosingBlock) : List OwnerId :=
  match enclosing.getLast? with
  | some block => block.consumed
  | none => []

def insertSteps (fuel : Nat) (frame : BlockFrame) (initialOwner : Nat)
    (seedInputs : List OwnedJoinParameter) : Outcome Diagnostic InsertedSteps := do
  let start : BlockState :=
    { consumed := inheritedConsumed frame.enclosing
      entries := []
      sources := seedInputs.map (·.joinOwnership)
      owners := []
      nextOwner := initialOwner
      drops := frame.steps.map fun _ => [] }
  let seeded ← Outcome.loop (fun state input => liftM (seedInput frame state input))
    seedInputs.zipIdx (start, none)
  let entered ← Outcome.loop (fun state discharge => liftM (enterDischarge frame state discharge))
    frame.discharges seeded
  let state ← Outcome.settle entered
  let state ← frame.steps.zipIdx.foldlM (insertStep fuel frame) state
  .ok state.toInsertedSteps

end Blorp.Own
