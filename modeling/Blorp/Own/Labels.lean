import Blorp.Own.Insert

/-!
# Parameter labels

Which parameters own.  The call facts scan finds the parameters that may reach an
in-place operand; each such instance is inserted with them provisionally owned,
and the reach walk keeps those whose obligation the inserted body really
consumes.  Labels only flip from borrowed to owned.  `insertOwnership` inserts
every instance with the labels it ends with.
-/

namespace Blorp.Own

open Check (compilerSpan MatchArmId)
open Specialize
open Lower (ValueId ValueParameter ValueDefinition LoweredStep LoweredFunction LoweredProgram
  LoopTail)
open Fuel

/-- A row of an inference table, which is sized for every index it is read at. -/
def rowAt {α : Type} (rows : List α) (index : Nat) : Except Diagnostic α :=
  orInternalError rows[index]? compilerSpan "ownership inference row is missing"

/-! ## What a value carries -/

inductive Carried where
  | carriesNothing
  | carriesParameter (index : Nat)
  | carriesSeveral
  deriving DecidableEq, Repr

def Carried.carriedUnion : Carried → Carried → Carried
  | .carriesNothing, right => right
  | left, .carriesNothing => left
  | .carriesParameter first, .carriesParameter second =>
      if first = second then .carriesParameter first else .carriesSeveral
  | _, _ => .carriesSeveral

def markCarried (rows : List Bool) (carried : Carried) : List Bool :=
  match carried with
  | .carriesNothing => rows
  | .carriesParameter index => rows.set index true
  | .carriesSeveral => rows.map fun _ => true

/-- `stored` joined with what one stored payload's owner carries now. -/
def carriedWith (carrier : List (Option Nat)) (stored : Carried) (payload : StoredPayload) :
    Except Diagnostic Carried :=
  match payload with
  | .unmanagedPayload _ => .ok stored
  | .ownedPayload _ owner => do
      match ← rowAt carrier owner with
      | some origin => .ok (stored.carriedUnion (.carriesParameter origin))
      | none => .ok stored

def storedCarried (carrier : List (Option Nat)) (operation : OwnedValueOperation) :
    Except Diagnostic Carried :=
  match operation with
  | .constructRecordDefinition _ fields =>
      (fields.map (·.value)).foldlM (carriedWith carrier) .carriesNothing
  | .constructDefinition _ payloads | .constructListDefinition payloads =>
      payloads.foldlM (carriedWith carrier) .carriesNothing
  | .capturedCallableDefinition _ payload => carriedWith carrier .carriesNothing payload
  | _ => .ok .carriesNothing

/-! ## The reach walk -/

/-- Blocks are walked in execution order along a path and alternatives one after
another.  `reachInputs` moves each transfer's obligation into its parameter's
owner. -/
inductive ReachWork where
  | reachOperations (operations : List OwnershipOperation) (enclosing : Option OwnedLoop)
  | reachTail (tail : OwnedLoopTail) (enclosing : Option OwnedLoop)
  | reachInputs (transfers : List ReturnTransfer) (parameters : List OwnedJoinParameter)

def armWork (selection : OwnedSelection) (arm : MatchArmId) (inputs : List OwnedJoinParameter)
    (enclosing : Option OwnedLoop) : List ReachWork :=
  selection.nodes.flatMap fun node =>
    match node with
    | .enterArm edge =>
        if edge.arm = arm then
          [.reachOperations edge.operations enclosing, .reachInputs edge.transfers inputs]
        else []
    | _ => []

/-- `carrier` and `pending` are indexed by owner, `backing` by value, `reached` by
parameter. -/
structure ReachState where
  carrier : List (Option Nat)
  pending : List (Option Nat)
  pendingCount : Nat
  backing : List (Option Nat)
  reached : List Bool

def reachInput (transfers : List ReturnTransfer) (state : ReachState)
    (input : OwnedJoinParameter × Nat) : Except Diagnostic ReachState :=
  match input.1, transfers[input.2]? with
  | .managedJoinParameter value owner, some (.ownedReturn _ source) => do
      let carried ← rowAt state.carrier source
      let acquired ← rowAt state.pending source
      .ok
        { carrier :=
            match carried with
            | some origin => state.carrier.set owner (some origin)
            | none => state.carrier
          pending :=
            match acquired with
            | some acquiredFrom => state.pending.set owner (some acquiredFrom)
            | none => state.pending
          pendingCount := state.pendingCount + acquired.toList.length
          backing := state.backing.set value.id (some owner)
          reached := state.reached }
  | _, _ => .ok state

def reachInputs (transfers : List ReturnTransfer) (parameters : List OwnedJoinParameter)
    (state : ReachState) : Except Diagnostic ReachState :=
  parameters.zipIdx.foldlM (reachInput transfers) state

def tailWork (tail : OwnedLoopTail) (enclosing : Option OwnedLoop) : List ReachWork :=
  match tail with
  -- A break links the loop's result and carried outputs, as a yield does.
  | .exitLoop (.break outputs) =>
      match enclosing with
      | some loop =>
          [.reachInputs ([outputs.value] ++ outputs.carried) ([loop.result] ++ loop.carried)]
      | none => []
  | .exitLoop (.recur _ _) => []
  | .matchLoop matched =>
      matched.arms.flatMap fun arm =>
        armWork matched.selection arm.id arm.inputs enclosing ++
          [.reachOperations arm.body.operations enclosing, .reachTail arm.body.tail enclosing]

def backingOwner (backing : List (Option Nat)) : ResultOwnership → Except Diagnostic (Option Nat)
  | .ownedResult owner => .ok (some owner)
  | .borrowedResult (.ownerBorrow owner) => .ok (some owner)
  | .borrowedResult (.payloadBorrow parent) => rowAt backing parent
  | _ => .ok none

def reachArgument (carrier : List (Option Nat)) (reached : List Bool) (argument : OwnedArgument) :
    Except Diagnostic (List Bool) :=
  match argument with
  | .consumedArgument _ owner => do
      match ← rowAt carrier owner with
      | some origin => .ok (reached.set origin true)
      | none => .ok reached
  | _ => .ok reached

def reachDefinition (state : ReachState) (definition : OwnedDefinition) :
    Except Diagnostic ReachState := do
  let backer ← backingOwner state.backing definition.result
  let backed := { state with backing := state.backing.set definition.id backer }
  match definition.operation with
  | .parameterDefinition position =>
      match definition.result with
      | .ownedResult owner => .ok { backed with carrier := state.carrier.set owner (some position) }
      | _ => .ok backed
  | .callDefinition _ arguments => do
      let reached ← arguments.foldlM (reachArgument state.carrier) state.reached
      .ok { backed with reached := reached }
  | .constructRecordDefinition _ _ | .constructDefinition _ _ | .constructListDefinition _
  | .capturedCallableDefinition _ _ => do
      match ← storedCarried state.carrier definition.operation, definition.result with
      | .carriesParameter origin, .ownedResult owner =>
          .ok { backed with carrier := state.carrier.set owner (some origin) }
      | _, _ => .ok backed
  | _ => .ok backed

def reachAcquisition (state : ReachState) (owner : OwnerId) (borrow : BorrowedValue) :
    Except Diagnostic ReachState := do
  match ← backingOwner state.backing (.borrowedResult borrow.source) with
  | none => .ok state
  | some source =>
      match ← rowAt state.carrier source with
      | some _ =>
          .ok { state with
            pending := state.pending.set owner (some source)
            pendingCount := state.pendingCount + 1 }
      | none => .ok state

/-- Dropping a carrier leaves the acquisitions still pending on it as possibly
the only reference to its value. -/
def reachDrop (state : ReachState) (owner : OwnerId) : Except Diagnostic ReachState := do
  match ← rowAt state.carrier owner with
  | none => .ok state
  | some origin =>
      if 0 < state.pendingCount then
        .ok (state.pending.zipIdx.foldl
          (fun state (acquiredFrom, acquired) =>
            if acquiredFrom = some owner then
              { state with
                carrier := state.carrier.set acquired (some origin)
                pending := state.pending.set acquired none
                pendingCount := state.pendingCount - 1 }
            else state)
          state)
      else .ok state

def backOutputs (state : ReachState) (outputs : List OwnedJoinParameter) : ReachState :=
  { state with
    backing := outputs.foldl
      (fun backing output =>
        match output with
        | .managedJoinParameter value owner => backing.set value.id (some owner)
        | .unmanagedJoinParameter _ => backing)
      state.backing }

def joinWork (join : OwnedJoin) (enclosing : Option OwnedLoop) : List ReachWork :=
  join.arms.flatMap fun arm =>
    armWork join.selection arm.id arm.inputs enclosing ++
      [.reachOperations arm.operations enclosing,
        match arm.exit with
        | .yield outputs =>
            .reachInputs ([outputs.transfer] ++ outputs.carried) ([join.result] ++ join.carried)
        | .transferLoop _ tail => .reachTail tail enclosing]

def loopWork (loop : OwnedLoop) (enclosing : Option OwnedLoop) : List ReachWork :=
  -- Entry acquisitions precede the headers, as acquisitions do.
  [.reachOperations
      (loop.entryAcquisitions.map fun entry =>
        .acquireOwner entry.owner entry.borrow loop.result.joinParameter.span)
      enclosing,
    .reachInputs (loop.headers.map (·.initial)) (loop.headers.map (·.parameter)),
    .reachOperations loop.body.operations (some loop),
    .reachTail loop.body.tail (some loop)]

def reachOperation (state : ReachState) (enclosing : Option OwnedLoop) :
    OwnershipOperation → Except Diagnostic (ReachState × List ReachWork)
  | .defineValue definition => do .ok (← reachDefinition state definition, [])
  | .acquireOwner owner borrow _ => do .ok (← reachAcquisition state owner borrow, [])
  | .dropOwner owner _ => do .ok (← reachDrop state owner, [])
  | .executeJoin join =>
      .ok (backOutputs state ([join.result] ++ join.carried), joinWork join enclosing)
  | .executeLoop loop =>
      .ok (backOutputs state ([loop.result] ++ loop.carried), loopWork loop enclosing)

def reachWalk : Nat → ReachState → List ReachWork → Outcome Diagnostic ReachState
  | 0, _, _ => .timeout
  | _ + 1, state, [] => .ok state
  | fuel + 1, state, .reachInputs transfers parameters :: rest => do
      let state ← reachInputs transfers parameters state
      reachWalk fuel state rest
  | fuel + 1, state, .reachTail tail enclosing :: rest =>
      reachWalk fuel state (tailWork tail enclosing ++ rest)
  | fuel + 1, state, .reachOperations [] _ :: rest => reachWalk fuel state rest
  | fuel + 1, state, .reachOperations (operation :: operations) enclosing :: rest => do
      let (state, nested) ← reachOperation state enclosing operation
      reachWalk fuel state (nested ++ .reachOperations operations enclosing :: rest)

/-- Parameter p reaches reuse when its owner, or an owner carrying its obligation,
is consumed at a reusing runtime operand or an owned user position. -/
def reachedParameters (fuel : Nat) (inserted : InsertedFunction) :
    Outcome Diagnostic (List Bool) := do
  let state ← reachWalk fuel
    { carrier := List.replicate inserted.ownerCount none
      pending := List.replicate inserted.ownerCount none
      pendingCount := 0
      backing := List.replicate inserted.valueCount none
      reached := List.replicate inserted.function.parameters.length false }
    [.reachOperations inserted.function.operations none]
  .ok state.reached

/-! ## Call facts -/

structure CallEdge where
  caller : Nat
  callee : Nat
  arguments : List Carried

/-- One function's calls as the inference reads them: the parameters that may
reach a reusing runtime operand, its user calls, and the instances it takes as
callables. -/
structure CallFacts where
  reusing : List Bool
  calls : List CallEdge
  taken : List Nat

structure ScannedBlock where
  steps : List LoweredStep
  tail : Option LoopTail

def carriedBy (table : List Carried) (values : List ValueId) : Except Diagnostic Carried :=
  values.foldlM
    (fun (carried : Carried) value => do .ok (carried.carriedUnion (← rowAt table value)))
    .carriesNothing

def writeCarried (table : List Carried) (value : ValueId) (carried : Carried) : List Carried :=
  (table ++ List.replicate (value + 1 - table.length) Carried.carriesNothing).set value carried

structure ScanState where
  facts : CallFacts
  table : List Carried
  blocks : List ScannedBlock

namespace ScanState

def write (state : ScanState) (value : ValueId) (carried : Carried) : ScanState :=
  { state with table := writeCarried state.table value carried }

def writeAll (state : ScanState) (parameters : List ValueParameter) (carried : Carried) :
    ScanState :=
  parameters.foldl (fun state parameter => state.write parameter.id carried) state

end ScanState

def scanOperation (caller : Nat) (state : ScanState) (definition : ValueDefinition) :
    Except Diagnostic (CallFacts × Carried) := do
  match definition.operation with
  | .parameterValue position => .ok (state.facts, .carriesParameter position)
  | .readRecordFieldValue _ parent | .payloadValue _ parent | .listElementValue _ parent =>
      .ok (state.facts, ← rowAt state.table parent)
  | .callValue (.runtimeFunction operation) arguments =>
      if operation.reusesFirstOperand then
        match arguments[0]? with
        | some operand => do
            let carried ← rowAt state.table operand
            .ok
              ({ state.facts with reusing := markCarried state.facts.reusing carried },
                .carriesNothing)
        | none => .ok (state.facts, .carriesNothing)
      else .ok (state.facts, .carriesNothing)
  | .callValue (.userFunction callee) arguments => do
      let carried ← arguments.mapM (rowAt state.table)
      .ok
        ({ state.facts with calls := state.facts.calls ++ [⟨caller, callee, carried⟩] },
          .carriesNothing)
  | .constructRecordValue _ fields =>
      .ok (state.facts, ← carriedBy state.table (fields.map (·.value)))
  | .constructValue _ values | .constructListValue values =>
      .ok (state.facts, ← carriedBy state.table values)
  | .freeCallableValue body =>
      .ok ({ state.facts with taken := state.facts.taken ++ [body] }, .carriesNothing)
  | .capturedCallableValue body environment => do
      let carried ← rowAt state.table environment
      .ok ({ state.facts with taken := state.facts.taken ++ [body] }, carried)
  | _ => .ok (state.facts, .carriesNothing)

def scanStep (caller : Nat) (state : ScanState) (step : LoweredStep) :
    Except Diagnostic ScanState := do
  match step with
  | .define definition => do
      let (facts, carried) ← scanOperation caller state definition
      .ok ({ state with facts := facts }.write definition.id carried)
  | .join joined => do
      let read ← carriedBy state.table joined.reads
      let matched ← rowAt state.table joined.selection.scrutinee
      let outputs := state.writeAll ([joined.result] ++ joined.carried) read
      .ok (joined.arms.foldl
        (fun state arm =>
          let tail :=
            match arm.exit with
            | .yield _ => none
            | .transferLoop _ tail => some tail
          { state.writeAll arm.inputs matched with
            blocks := state.blocks ++ [⟨arm.steps, tail⟩] })
        outputs)
  | .loop looped => do
      let read ← carriedBy state.table (looped.headers.map (·.initial) ++ looped.bodyReads)
      let headers ← looped.headers.mapM fun header => do
        .ok (header.parameter.id, ← rowAt state.table header.initial)
      let outputs := state.writeAll ([looped.result] ++ looped.carried) read
      let entered := headers.foldl (fun state (value, carried) => state.write value carried) outputs
      .ok { entered with blocks := entered.blocks ++ [⟨looped.body.steps, some looped.body.tail⟩] }

def scanTail (state : ScanState) (tail : Option LoopTail) : Except Diagnostic ScanState := do
  match tail with
  | some (.matchLoop matched) => do
      let carried ← rowAt state.table matched.selection.scrutinee
      .ok (matched.arms.foldl
        (fun state arm =>
          { state.writeAll arm.inputs carried with
            blocks := state.blocks ++ [⟨arm.body.steps, some arm.body.tail⟩] })
        state)
  | _ => .ok state

/-- Blocks are visited breadth first, each after the block that encloses it, so
every value a step reads is already written. -/
def scanBlocks (caller : Nat) : Nat → ScanState → Outcome Diagnostic CallFacts
  | 0, _ => .timeout
  | fuel + 1, state =>
      match state.blocks with
      | [] => .ok state.facts
      | scanned :: rest => do
          let stepped ← (scanned.steps.foldlM (scanStep caller) { state with blocks := rest } :
            Except Diagnostic ScanState)
          let next ← scanTail stepped scanned.tail
          scanBlocks caller fuel next

def callFacts (fuel : Nat) (function : LoweredFunction) (caller : Nat) :
    Outcome Diagnostic CallFacts :=
  scanBlocks caller fuel
    { facts := ⟨List.replicate function.signature.parameters.length false, [], []⟩
      table := []
      blocks := [⟨function.steps, none⟩] }

/-! ## Solving the labels -/

/-- Labels only add owned positions, so two rows of one function compare by how
many positions they own. -/
def ownedCount (rows : List OwnedParameter) : Nat := rows.countP (·.parameterOwned)

/-- Marks the parameters a call's arguments carry into the positions `owned`
flags. -/
def markOwnedPositions (rows : List Bool) (arguments : List Carried) (owned : List Bool) :
    Except Diagnostic (List Bool) :=
  arguments.zipIdx.foldlM
    (fun marked (argument, position) => do
      if ← rowAt owned position then .ok (markCarried marked argument) else .ok marked)
    rows

def OwnedParameter.owning : OwnedParameter → OwnedParameter
  | .unmanagedParameter valueType => .unmanagedParameter valueType
  | .managedParameter passing => .managedParameter { passing with owned := true }

/-- `rows` with the managed parameters `owning` flags owned. -/
def owningRows (rows : List OwnedParameter) (owning : List Bool) :
    Except Diagnostic (List OwnedParameter) :=
  rows.zipIdx.mapM fun (row, position) => do
    if ← rowAt owning position then .ok row.owning else .ok row

/-- One analysis: the insertion with provisional rows, and the current labels
plus the parameters found consumed. -/
structure Analysis where
  inserted : InsertedFunction
  merged : List OwnedParameter

def analyse (fuel : Nat) (function : LoweredFunction) (tried current : List OwnedParameter)
    (labels : List (List OwnedParameter)) (layouts : Layouts) : Outcome Diagnostic Analysis := do
  let inserted ← insertContractedFunction fuel function ⟨tried, .instanceRows labels⟩ layouts
  let reached ← reachedParameters fuel inserted
  let merged ← owningRows current reached
  .ok ⟨inserted, merged⟩

/-- One function instance as the inference reads it.  Instances taken as callables
keep the borrowed callable ABI, and the entry wrapper passes its arguments
borrowed: both are pinned. -/
structure Instance where
  function : LoweredFunction
  facts : CallFacts
  pinned : Bool

/-- The labels of every instance, and the analysis insertions whose rows equal
the final labels. -/
structure SolvedLabels where
  labels : List (List OwnedParameter)
  kept : List (Option InsertedFunction)

/-- Whether `call` passes one of its caller's parameters into an `owned`
position. -/
def passesAParameter (call : CallEdge) (instances : List Instance) (owned : List Bool) :
    Except Diagnostic Bool := do
  let caller ← rowAt instances call.caller
  let fed ← markOwnedPositions (List.replicate caller.facts.reusing.length false) call.arguments
    owned
  .ok (fed.any id)

/-- The labels while they are solved.  `cursor` is one more than the highest
instance still to visit. -/
structure SolveState extends SolvedLabels where
  queued : List Bool
  cursor : Nat

/-- The borrowed parameters that may reach reuse, directly or through an owned
callee position. -/
def reachingParameters (facts : CallFacts) (labels : List (List OwnedParameter)) :
    Except Diagnostic (List Bool) :=
  facts.calls.foldlM
    (fun reaching call => do
      let callee ← rowAt labels call.callee
      markOwnedPositions reaching call.arguments (callee.map (·.parameterOwned)))
    facts.reusing

/-- A caller of a flipped instance: its kept insertion is stale, and it is queued
again when it passes a parameter into an owned position. -/
def requeueCaller (instances : List Instance) (owned : List Bool) (state : SolveState)
    (call : CallEdge) : Except Diagnostic SolveState := do
  let dropped := { state with kept := state.kept.set call.caller none }
  if ← passesAParameter call instances owned then
    .ok { dropped with
      queued := state.queued.set call.caller true
      cursor := max (call.caller + 1) state.cursor }
  else .ok dropped

/-- Publishes one analysis: keeps its insertion when its rows are final, and
flips the labels it found owned. -/
def publishAnalysis (instances : List Instance) (analysed : Nat)
    (tried current : List OwnedParameter) (incoming : List CallEdge) (analysis : Analysis) (state : SolveState) :
    Except Diagnostic SolveState :=
  let kept :=
    if ownedCount analysis.merged = ownedCount tried then some analysis.inserted else none
  let recorded := { state with kept := state.kept.set analysed kept }
  if ownedCount current < ownedCount analysis.merged then
    incoming.foldlM (requeueCaller instances (analysis.merged.map (·.parameterOwned)))
      { recorded with labels := state.labels.set analysed analysis.merged }
  else .ok recorded

/-- Analyses one queued instance with every parameter that may reach reuse
provisionally owned. -/
def solveInstance (fuel : Nat) (instances : List Instance) (layouts : Layouts) (analysed : Nat)
    (one : Instance) (current : List OwnedParameter) (incoming : List CallEdge)
    (state : SolveState) : Outcome Diagnostic SolveState := do
  let state := { state with queued := state.queued.set analysed false }
  let reaching ← reachingParameters one.facts state.labels
  let tried ← owningRows current reaching
  -- A pinned caller re-queued by a flip tries nothing.
  if !one.pinned && decide (ownedCount current < ownedCount tried) then do
    let analysis ← analyse fuel one.function tried current state.labels layouts
    publishAnalysis instances analysed tried current incoming analysis state
  else .ok state

/-- Visits the highest queued instance first, which settles callees before their
callers more often. -/
def solveWalk (instances : List Instance) (callers : List (List CallEdge)) (layouts : Layouts) :
    Nat → SolveState → Outcome Diagnostic SolvedLabels
  | 0, _ => .timeout
  | fuel + 1, state =>
      match state.cursor with
      | 0 => .ok state.toSolvedLabels
      | analysed + 1 =>
          match state.queued[analysed]?, instances[analysed]?, state.labels[analysed]?,
              callers[analysed]? with
          | some false, _, _, _ =>
              solveWalk instances callers layouts fuel { state with cursor := analysed }
          | some true, some one, some current, some incoming => do
              let next ← solveInstance fuel instances layouts analysed one current incoming state
              solveWalk instances callers layouts fuel next
          | _, _, _, _ => .err (internalError compilerSpan "analysed instance is missing a row")

def incomingCalls (instances : List Instance) : Except Diagnostic (List (List CallEdge)) :=
  (instances.flatMap (·.facts.calls)).foldlM
    (fun callers call =>
      match callers[call.callee]? with
      | some found => .ok (callers.set call.callee (found ++ [call]))
      | none => .error (internalError compilerSpan "call to an unknown instance"))
    (List.replicate instances.length [])

def solveLabels (fuel : Nat) (instances : List Instance) (borrowed : List (List OwnedParameter))
    (layouts : Layouts) : Outcome Diagnostic SolvedLabels := do
  let callers ← incomingCalls instances
  solveWalk instances callers layouts fuel
    { labels := borrowed
      kept := List.replicate instances.length none
      queued := instances.map fun one => !one.pinned && one.facts.reusing.any id
      cursor := instances.length }

/-! ## Inserting a program -/

/-- Which parameters own.  Production infers them from insertion's own transfers;
the other two are oracles that show labels never change behaviour. -/
inductive Labelling where
  | inferredLabels
  | allBorrowed
  | allOwnedExceptPinned
  deriving DecidableEq, Repr

structure GatheredFunctions where
  pinned : List Bool
  scanned : List CallFacts
  borrowed : List (List OwnedParameter)

def gatherFunction (fuel : Nat) (layouts : Layouts) (state : GatheredFunctions)
    (function : LoweredFunction) : Outcome Diagnostic GatheredFunctions := do
  let found ← callFacts fuel function state.scanned.length
  let rows ← borrowedRows function.signature.parameters layouts
  .ok
    { pinned := found.taken.foldl (fun pinned body => pinned.set body true) state.pinned
      scanned := state.scanned ++ [found]
      borrowed := state.borrowed ++ [rows] }

def gatherFunctions (fuel : Nat) (layouts : Layouts) : List LoweredFunction → GatheredFunctions →
      Outcome Diagnostic (GatheredFunctions × Option Diagnostic)
  | [], state => .ok (state, none)
  | function :: rest, state =>
      match gatherFunction fuel layouts state function with
      | .ok next => gatherFunctions fuel layouts rest next
      | .err error => .ok (state, some error)
      | .timeout => .timeout

def gatherInstance (gathered : GatheredFunctions) (instances : List Instance)
    (function : LoweredFunction × Nat) : Except Diagnostic (List Instance) := do
  let found ← rowAt gathered.scanned function.2
  let pinned ← rowAt gathered.pinned function.2
  .ok (instances ++ [⟨function.1, found, pinned⟩])

def gatherInstances (fuel : Nat) (program : LoweredProgram) (layouts : Layouts) :
    Outcome Diagnostic (List Instance × List (List OwnedParameter)) := do
  let pinned := (List.replicate program.functions.length false).set
    program.entrypoint.entryFunction true
  let gathered ← gatherFunctions fuel layouts program.functions ⟨pinned, [], []⟩
  let instances ← Outcome.loop
    (fun instances function => liftM (gatherInstance gathered.1 instances function))
    program.functions.zipIdx ([], gathered.2)
  let instances ← Outcome.settle instances
  .ok (instances, gathered.1.borrowed)

def ownInstance (borrowed : List (List OwnedParameter)) (owned : List (List OwnedParameter))
    (one : Instance) : Except Diagnostic (List (List OwnedParameter)) := do
  let rows ← rowAt borrowed owned.length
  let allOwned ← owningRows rows (rows.map fun _ => !one.pinned)
  .ok (owned ++ [allOwned])

def solvedLabels (fuel : Nat) (labelling : Labelling) (instances : List Instance)
    (borrowed : List (List OwnedParameter)) (layouts : Layouts) :
    Outcome Diagnostic (SolvedLabels × Option Diagnostic) := do
  let none_ : List (Option InsertedFunction) := List.replicate instances.length none
  match labelling with
  | .inferredLabels => do
      let solved ← solveLabels fuel instances borrowed layouts
      .ok (solved, none)
  | .allBorrowed => .ok (⟨borrowed, none_⟩, none)
  | .allOwnedExceptPinned => do
      let owned ← Outcome.loop (fun owned one => liftM (ownInstance borrowed owned one)) instances
        ([], none)
      .ok (⟨owned.1, none_⟩, owned.2)

def insertInstance (fuel : Nat) (layouts : Layouts) (solved : SolvedLabels)
    (functions : List InsertedFunction) (one : Instance × Nat) :
    Outcome Diagnostic (List InsertedFunction) := do
  match ← rowAt solved.kept one.2 with
  | some kept => .ok (functions ++ [kept])
  | none => do
      let rows ← rowAt solved.labels one.2
      let inserted ← insertContractedFunction fuel one.1.function
        ⟨rows, .instanceRows solved.labels⟩ layouts
      .ok (functions ++ [inserted])

/-- Inserts every instance; a failure the labelling left behind stops after the
first. -/
def insertInstances (fuel : Nat) (layouts : Layouts) (solved : SolvedLabels)
    (failure : Option Diagnostic) (instances : List (Instance × Nat)) :
    Outcome Diagnostic (List InsertedFunction) :=
  match failure with
  | none => instances.foldlM (insertInstance fuel layouts solved) []
  | some error => do
      let _ ← (instances.take 1).foldlM (insertInstance fuel layouts solved) []
      .err error

def insertedInstances (fuel : Nat) (program : LoweredProgram) (labelling : Labelling) :
    Outcome Diagnostic (List InsertedFunction) := do
  let layouts : Layouts := ⟨program.unions, program.records⟩
  let (instances, borrowed) ← gatherInstances fuel program layouts
  let (solved, failure) ← solvedLabels fuel labelling instances borrowed layouts
  insertInstances fuel layouts solved failure instances.zipIdx

def insertOwnership (fuel : Nat) (program : LoweredProgram) (labelling : Labelling) :
    Outcome Diagnostic OwnershipProgram := do
  let inserted ← insertedInstances fuel program labelling
  .ok
    { records := program.records
      unions := program.unions
      functions := inserted.map (·.function)
      entrypoint := program.entrypoint }

def own (fuel : Nat) (program : LoweredProgram) : Outcome Diagnostic OwnershipProgram :=
  insertOwnership fuel program .inferredLabels

end Blorp.Own
