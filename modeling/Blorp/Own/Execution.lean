import Blorp.Own.Model
import Blorp.Lib.Runs
import Blorp.Lib.Obligations

/-!
# What an owned program does with its obligations

An execution of a function, as far as its obligations go.  Every introduction makes
a fresh obligation, every drop, store, transfer and consumed argument discharges the
one its owner is bound to, and every borrowed read uses the obligation its chain
ends in.  Which way a test goes and which function an indirect call reaches are
choices, so a run over all choice lists covers every path; fuel bounds the depth, so
a run that is stopped is an initial part of a longer one.

A parameter definition binds the argument its caller passed: an owned argument's
obligation is introduced by the call, once, and not by the definition.
-/

namespace Blorp.Own

open Lower (ValueId LoopTarget)
open Specialize
open Runs Obligations

/-! ## Machines and frames -/

/-- What a chain of borrows ends in: an obligation, or a parameter that the caller
of the whole execution keeps live. -/
inductive Root where
  | obligation (number : Nat)
  | outside
  deriving DecidableEq, Repr

structure Machine where
  next : Nat
  trace : List (Event Nat)
  choices : List Nat
  deriving DecidableEq, Repr

abbrev Exec := Run Machine

def introduce : Exec Nat :=
  .step fun machine =>
    (machine.next,
      { machine with
        next := machine.next + 1
        trace := machine.trace ++ [.introduced machine.next] })

def emit (event : Event Nat) : Exec Unit :=
  .step fun machine => ((), { machine with trace := machine.trace ++ [event] })

def readRoot : Root → Exec Unit
  | .obligation number => emit (.used number)
  | .outside => pure ()

def choose : Exec Nat := fun machine =>
  match machine.choices with
  | [] => (.stopped, machine)
  | choice :: rest => (.done choice, { machine with choices := rest })

inductive Argument where
  | plain
  | borrowed (root : Root)
  | owned (number : Nat)
  deriving DecidableEq, Repr

/-- A value with its definition's ownership and, when it is borrowed, what its chain
ends in. -/
structure Binding where
  result : ResultOwnership
  root : Option Root

/-- One execution of a function: its arguments, its values, and the obligation and
value each owner holds. -/
structure Frame where
  arguments : List Argument
  values : ValueId → Option Binding
  owners : OwnerId → Option (Nat × ValueId)

namespace Frame

def bindValue (frame : Frame) (id : ValueId) (binding : Binding) : Frame :=
  { frame with values := fun value => if value = id then some binding else frame.values value }

def bindOwner (frame : Frame) (id : OwnerId) (number : Nat) (value : ValueId) : Frame :=
  { frame with
    owners := fun owner => if owner = id then some (number, value) else frame.owners owner }

/-- What a borrow's chain ends in.  An owner keeps only its own value live. -/
def resolve (frame : Frame) (borrow : BorrowedValue) : Option Root :=
  match borrow.source with
  | .ownerBorrow owner =>
      match frame.owners owner with
      | some (number, value) => if value = borrow.value then some (.obligation number) else none
      | none => none
  | .parameterBorrow _ | .payloadBorrow _ => (frame.values borrow.value).bind (·.root)

end Frame

/-! ## Operands -/

section

variable (frame : Frame)

def readBorrow (borrow : BorrowedValue) : Exec Root :=
  match frame.resolve borrow with
  | some root => do
      readRoot root
      pure root
  | none => .fail

def releaseOwner (owner : OwnerId) : Exec Unit :=
  match frame.owners owner with
  | some (number, _) => emit (.discharged number)
  | none => .fail

def moveOwner (value : ValueId) (owner : OwnerId) : Exec Unit :=
  match frame.owners owner with
  | some (number, held) => if held = value then emit (.discharged number) else .fail
  | none => .fail

def readOperand : OwnedArgument → Exec (Option Root)
  | .unmanagedArgument _ => pure none
  | .borrowedArgument borrow => do
      let root ← readBorrow frame borrow
      pure (some root)
  | .consumedArgument _ _ => .fail

def readArgument : OwnedArgument → Exec Argument
  | .unmanagedArgument _ => pure .plain
  | .borrowedArgument borrow => do
      let root ← readBorrow frame borrow
      pure (.borrowed root)
  | .consumedArgument value owner => do
      let root ← readBorrow frame ⟨value, .ownerBorrow owner⟩
      pure (.borrowed root)

def consumeOperand : OwnedArgument → Exec Unit
  | .consumedArgument value owner => moveOwner frame value owner
  | _ => pure ()

/-- What the callee receives once the transferred operands are discharged: a fresh
obligation for each of them, and its borrows read again. -/
def passOperand : OwnedArgument → Exec Argument
  | .unmanagedArgument _ => pure .plain
  | .borrowedArgument borrow => do
      let root ← readBorrow frame borrow
      pure (.borrowed root)
  | .consumedArgument _ _ => do
      let number ← introduce
      pure (.owned number)

def storeOperand : StoredPayload → Exec Unit
  | .unmanagedPayload _ => pure ()
  | .ownedPayload value owner => moveOwner frame value owner

def moveTransfer : ReturnTransfer → Exec Unit
  | .unmanagedReturn _ => pure ()
  | .ownedReturn value owner => moveOwner frame value owner

def moveTransfers (transfers : List ReturnTransfer) : Exec Unit :=
  transfers.foldlM (fun _ transfer => moveTransfer frame transfer) ()

/-! ## Results -/

def introduceParameter : OwnedJoinParameter → Exec Frame
  | .unmanagedJoinParameter parameter =>
      pure (frame.bindValue parameter.id ⟨.unmanagedResult, none⟩)
  | .managedJoinParameter parameter owner => do
      let number ← introduce
      pure ((frame.bindOwner owner number parameter.id).bindValue parameter.id
        ⟨.ownedResult owner, none⟩)

def introduceParameters (parameters : List OwnedJoinParameter) : Exec Frame :=
  parameters.foldlM introduceParameter frame

/-- Binds a defined value, whose chain ends in `root` when it is borrowed. -/
def bindResult (definition : OwnedDefinition) (root : Option Root) : Exec Frame :=
  match definition.result with
  | .unmanagedResult => pure (frame.bindValue definition.id ⟨.unmanagedResult, none⟩)
  | .borrowedResult source => pure (frame.bindValue definition.id ⟨.borrowedResult source, root⟩)
  | .ownedResult owner => do
      let number ← introduce
      pure ((frame.bindOwner owner number definition.id).bindValue definition.id
        ⟨.ownedResult owner, none⟩)

def bindParameter (definition : OwnedDefinition) (index : Nat) : Exec Frame :=
  match definition.result, frame.arguments[index]? with
  | .unmanagedResult, some _ => pure (frame.bindValue definition.id ⟨.unmanagedResult, none⟩)
  | .borrowedResult source, some (.borrowed root) =>
      pure (frame.bindValue definition.id ⟨.borrowedResult source, some root⟩)
  | .ownedResult owner, some (.owned number) =>
      pure ((frame.bindOwner owner number definition.id).bindValue definition.id
        ⟨.ownedResult owner, none⟩)
  | _, _ => .fail

end

def readParent (scrutinee : Option OwnedArgument) (frame : Frame) (parent : ValueId) :
    Exec (Option Root) :=
  match scrutinee, frame.values parent with
  | some scrutinee, some binding => readOperand frame (projectionArgument scrutinee parent binding.result)
  | _, _ => .fail

def storeOperands (frame : Frame) (payloads : List StoredPayload) : Exec Unit :=
  payloads.foldlM (fun _ payload => storeOperand frame payload) ()

/-! ## Calls -/

def passOperands (frame : Frame) (arguments : List OwnedArgument) : Exec (List Argument) := do
  arguments.foldlM
    (fun _ argument => do
      let _ ← readArgument frame argument
      pure ()) ()
  arguments.foldlM (fun _ argument => consumeOperand frame argument) ()
  arguments.foldlM
    (fun passed argument => do
      let received ← passOperand frame argument
      pure (passed ++ [received])) []

/-- A runtime operation reads its borrows with its reused operand already taken. -/
def runRuntimeCall (frame : Frame) (arguments : List OwnedArgument) : Exec Unit := do
  arguments.foldlM
    (fun _ argument => do
      let _ ← readArgument frame argument
      pure ()) ()
  arguments.foldlM (fun _ argument => consumeOperand frame argument) ()
  arguments.foldlM
    (fun _ argument =>
      match argument with
      | .borrowedArgument borrow => do
          let _ ← readBorrow frame borrow
          pure ()
      | _ => pure ()) ()

def OwnedParameter.receives (row : OwnedParameter) (argument : Argument) : Bool :=
  match row, argument with
  | .unmanagedParameter _, .plain => true
  | .managedParameter passing, .borrowed _ => !passing.owned
  | .managedParameter passing, .owned _ => passing.owned
  | _, _ => false

def receivesAll : List OwnedParameter → List Argument → Bool
  | [], [] => true
  | row :: rows, argument :: arguments => row.receives argument && receivesAll rows arguments
  | _, _ => false

/-- The body an indirect call reaches: a function that takes the arguments as they
are, behind its environment if it has one.  Others are not what the callable holds. -/
def invokedArguments (function : OwnedFunction) (callee : Option Root)
    (arguments : List Argument) : Option (List Argument) :=
  if receivesAll function.parameters arguments then some arguments
  else
    match callee with
    | some root =>
        if receivesAll function.parameters (.borrowed root :: arguments) then
          some (.borrowed root :: arguments)
        else none
    | none => none

/-! ## Control -/

inductive LoopEdge where
  | break
  | recur
  deriving DecidableEq, Repr

/-- Where control is after an operation: at the next one, or on an edge of the loop
that `target` names. -/
inductive Flow where
  | next (frame : Frame)
  | leave (target : LoopTarget) (edge : LoopEdge) (frame : Frame)

def walkSelection (nodes : List OwnedDecisionNode) : Nat → Nat → Exec OwnedSelectionEdge
  | 0, _ => .stop
  | fuel + 1, id =>
      match nodes[id]? with
      | some (.enterArm edge) => pure edge
      | some (.testVariant _ _ yes no) | some (.testListLength _ _ yes no)
      | some (.testLiteral _ _ yes no) => do
          let choice ← choose
          walkSelection nodes fuel (if choice = 0 then no else yes)
      | none => .fail

def OwnedLoopExit.edge : OwnedLoopExit → LoopEdge
  | .break _ => .break
  | .recur _ _ => .recur

/-- Whether a header takes its initial value's own obligation, not an acquisition. -/
def OwnedLoop.takes (loop : OwnedLoop) (header : OwnedLoopHeader) : Bool :=
  match header.initial with
  | .unmanagedReturn _ => false
  | .ownedReturn _ owner => takesExistingOwner loop owner

def acquireOwner (frame : Frame) (owner : OwnerId) (borrow : BorrowedValue) : Exec Frame := do
  let _ ← readBorrow frame borrow
  let number ← introduce
  pure (frame.bindOwner owner number borrow.value)

/-- A loop's entry: the taken initials move, the others move acquisitions of their
own, and the headers are introduced. -/
def runLoopEntry (frame : Frame) (loop : OwnedLoop) : Exec Frame := do
  moveTransfers frame ((loop.headers.filter loop.takes).map (·.initial))
  let acquired ← loop.entryAcquisitions.foldlM
    (fun frame acquisition => acquireOwner frame acquisition.owner acquisition.borrow) frame
  moveTransfers acquired ((loop.headers.filter fun header => !loop.takes header).map (·.initial))
  introduceParameters acquired (loop.headers.map (·.parameter))

section

variable (functions : List OwnedFunction)

mutual

def runFunction : Nat → OwnedFunction → List Argument → Exec Unit
  | 0, _, _ => .stop
  | fuel + 1, function, arguments => do
      match ← runOperations fuel none ⟨arguments, fun _ => none, fun _ => none⟩
          function.operations with
      | .next frame => moveTransfer frame function.result
      | .leave _ _ _ => .fail
termination_by structural fuel => fuel

def runDefinition : Nat → Option OwnedArgument → Frame → OwnedDefinition → Exec Frame
  | 0, _, _, _ => .stop
  | fuel + 1, scrutinee, frame, definition =>
      match definition.operation with
      | .parameterDefinition index => bindParameter frame definition index
      | .callDefinition (.userFunction id) arguments => do
          let passed ← passOperands frame arguments
          match functions[id]? with
          | some callee => do
              runFunction fuel callee passed
              bindResult frame definition none
          | none => .fail
      | .callDefinition (.runtimeFunction _) arguments => do
          runRuntimeCall frame arguments
          bindResult frame definition none
      | .invokeCallableDefinition callee arguments => do
          let root ← readOperand frame callee
          let passed ← passOperands frame arguments
          let choice ← choose
          match functions[choice]?.bind fun body =>
              (invokedArguments body root passed).map fun received => (body, received) with
          | some (body, received) => do
              runFunction fuel body received
              bindResult frame definition none
          | none => .stop
      | .readRecordFieldDefinition _ argument => do
          let root ← readOperand frame argument
          match scrutinee with
          | none => bindResult frame definition root
          | some _ => do
              let parent ← readParent scrutinee frame (argumentValue argument)
              bindResult frame definition parent
      | .payloadDefinition _ parent | .listElementDefinition _ parent => do
          let root ← readParent scrutinee frame parent
          bindResult frame definition root
      | .listSuffixDefinition argument _ => do
          let _ ← readOperand frame argument
          let _ ← readParent scrutinee frame (argumentValue argument)
          bindResult frame definition none
      | .freeCallableDefinition id =>
          match functions[id]? with
          | some body =>
              if body.parameters.any (·.parameterOwned) then .fail
              else bindResult frame definition none
          | none => .fail
      | .capturedCallableDefinition id environment =>
          match functions[id]? with
          | some body =>
              if body.parameters.any (·.parameterOwned) then .fail
              else do
                storeOperand frame environment
                bindResult frame definition none
          | none => .fail
      | operation => do
          storeOperands frame (storedPayloads operation)
          bindResult frame definition none
termination_by structural fuel => fuel

def runOperations : Nat → Option OwnedArgument → Frame → List OwnershipOperation → Exec Flow
  | 0, _, _, _ => .stop
  | _ + 1, _, frame, [] => pure (.next frame)
  | fuel + 1, scrutinee, frame, operation :: rest => do
      match ← runOperation fuel scrutinee frame operation with
      | .next frame => runOperations fuel scrutinee frame rest
      | .leave target edge frame => pure (.leave target edge frame)
termination_by structural fuel => fuel

def runOperation : Nat → Option OwnedArgument → Frame → OwnershipOperation → Exec Flow
  | 0, _, _, _ => .stop
  | fuel + 1, scrutinee, frame, .defineValue definition => do
      let defined ← runDefinition fuel scrutinee frame definition
      pure (.next defined)
  | _ + 1, _, frame, .acquireOwner owner borrow _ => do
      let acquired ← acquireOwner frame owner borrow
      pure (.next acquired)
  | _ + 1, _, frame, .dropOwner owner _ => do
      releaseOwner frame owner
      pure (.next frame)
  | fuel + 1, _, frame, .executeJoin join => do
      let (arm, entered) ← runSelection fuel frame join.selection
      match join.arms.find? fun candidate => arm = candidate.id with
      | some arm => runJoinArm fuel entered join arm
      | none => .fail
  | fuel + 1, _, frame, .executeLoop loop => do
      let entered ← runLoopEntry frame loop
      runLoop fuel entered loop
termination_by structural fuel => fuel

def runSelection : Nat → Frame → OwnedSelection → Exec (Nat × Frame)
  | 0, _, _ => .stop
  | fuel + 1, frame, selection => do
      let _ ← readOperand frame selection.scrutinee
      let edge ← walkSelection selection.nodes fuel selection.entry
      match ← runOperations fuel (some selection.scrutinee) frame edge.operations with
      | .next projected => do
          moveTransfers projected edge.transfers
          pure (edge.arm, projected)
      | .leave _ _ _ => .fail
termination_by structural fuel => fuel

def runJoinArm : Nat → Frame → OwnedJoin → OwnedJoinArm → Exec Flow
  | 0, _, _, _ => .stop
  | fuel + 1, frame, join, arm => do
      let start ← introduceParameters frame arm.inputs
      match arm.exit with
      | .yield outputs => do
          match ← runOperations fuel none start arm.operations with
          | .next frame => do
              moveTransfers frame (outputs.transfer :: outputs.carried)
              let joined ← introduceParameters frame (join.result :: join.carried)
              pure (.next joined)
          | .leave target edge frame => pure (.leave target edge frame)
      | .transferLoop target tail => runLoopBlock fuel start target ⟨arm.operations, tail⟩
termination_by structural fuel => fuel

def runLoopBlock : Nat → Frame → LoopTarget → OwnedLoopBlock → Exec Flow
  | 0, _, _, _ => .stop
  | fuel + 1, frame, target, block => do
      match ← runOperations fuel none frame block.operations with
      | .leave target edge frame => pure (.leave target edge frame)
      | .next frame =>
          match block.tail with
          | .exitLoop exit => do
              moveTransfers frame exit.transfers
              pure (.leave target exit.edge frame)
          | .matchLoop matched => do
              let (arm, entered) ← runSelection fuel frame matched.selection
              match matched.arms.find? fun candidate => arm = candidate.id with
              | some arm => do
                  let start ← introduceParameters entered arm.inputs
                  runLoopBlock fuel start target arm.body
              | none => .fail
termination_by structural fuel => fuel

def runLoop : Nat → Frame → OwnedLoop → Exec Flow
  | 0, _, _ => .stop
  | fuel + 1, frame, loop => do
      match ← runLoopBlock fuel frame loop.result.joinParameter.id loop.body with
      | .next _ => .fail
      | .leave target edge frame =>
          if target = loop.result.joinParameter.id then
            match edge with
            | .break => do
                let left ← introduceParameters frame (loop.result :: loop.carried)
                pure (.next left)
            | .recur => do
                let again ← introduceParameters frame (loop.headers.map (·.parameter))
                runLoop fuel again loop
          else pure (.leave target edge frame)
termination_by structural fuel => fuel

end

/-- What the rows of a function ask its caller to pass: an obligation for an owned
row, a live borrow for a managed one. -/
def callerArguments (rows : List OwnedParameter) : Exec (List Argument) :=
  rows.foldlM
    (fun arguments row =>
      match row with
      | .unmanagedParameter _ => pure (arguments ++ [.plain])
      | .managedParameter passing =>
          if passing.owned then do
            let number ← introduce
            pure (arguments ++ [.owned number])
          else pure (arguments ++ [.borrowed .outside]))
    []

def execute (fuel : Nat) (function : OwnedFunction) (choices : List Nat) : Status Unit × Machine :=
  (do
    let arguments ← callerArguments function.parameters
    runFunction functions fuel function arguments : Exec Unit) ⟨0, [], choices⟩

end

/-! ## Where owned parameters are defined -/

def OwnedDefinition.bindsOwned (definition : OwnedDefinition) : Bool :=
  match definition.operation, definition.result with
  | .parameterDefinition _, .ownedResult _ => true
  | _, _ => false

mutual

def operationBindsOwned : OwnershipOperation → Bool
  | .defineValue definition => definition.bindsOwned
  | .executeJoin ⟨_, _, _, _, arms⟩ => joinArmsBindOwned arms
  | .executeLoop ⟨_, _, _, _, body⟩ => loopBlockBindsOwned body
  | .acquireOwner _ _ _ => false
  | .dropOwner _ _ => false

def operationsBindOwned : List OwnershipOperation → Bool
  | [] => false
  | operation :: rest => operationBindsOwned operation || operationsBindOwned rest

def joinArmsBindOwned : List OwnedJoinArm → Bool
  | [] => false
  | arm :: rest => joinArmBindsOwned arm || joinArmsBindOwned rest

def joinArmBindsOwned : OwnedJoinArm → Bool
  | ⟨_, _, operations, exit⟩ => operationsBindOwned operations || joinExitBindsOwned exit

def joinExitBindsOwned : OwnedJoinExit → Bool
  | .yield _ => false
  | .transferLoop _ tail => loopTailBindsOwned tail

def loopTailBindsOwned : OwnedLoopTail → Bool
  | .exitLoop _ => false
  | .matchLoop ⟨_, arms⟩ => loopArmsBindOwned arms

def loopArmsBindOwned : List OwnedLoopArm → Bool
  | [] => false
  | ⟨_, _, body⟩ :: rest => loopBlockBindsOwned body || loopArmsBindOwned rest

def loopBlockBindsOwned : OwnedLoopBlock → Bool
  | ⟨operations, tail⟩ => operationsBindOwned operations || loopTailBindsOwned tail

end

def OwnershipOperation.nestsOwned : OwnershipOperation → Bool
  | .executeJoin join => joinArmsBindOwned join.arms
  | .executeLoop loop => loopBlockBindsOwned loop.body
  | _ => false

/-- Owned parameters are bound in the functions' own blocks only. -/
def OwnershipProgram.ownedAtTop (program : OwnershipProgram) : Bool :=
  program.functions.all fun function => function.operations.all fun operation =>
    !operation.nestsOwned

end Blorp.Own
