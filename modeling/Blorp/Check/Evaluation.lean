import Blorp.Check.Bodies
import Blorp.Check.Values

/-!
# What a checked body computes

A body runs on its bindings and on a `World` that only calls touch: the meaning of calls
is a parameter, the call's target being resolved to the body it selects.  Everything else
is evaluated here, children in evaluation order.  A `break` or `continue` escapes to its
loop; a run that is stuck, or whose `while` outlasts the fuel, is `none`.
-/

namespace Blorp.Check

open NodeGraph

/-! ## Values -/

mutual

/-- The values a pattern cannot look into.  A record's fields are in declaration order. -/
inductive Scalar where
  | void
  | float (value : Float)
  | record (id : RecordId) (fields : List (Value Scalar))
  | wrapped (id : OpaqueId) (content : Value Scalar)
  | callable (callee : Callee)

/-- What a call runs: a body with the type arguments it is selected at, a method whose
receiver only an instance decides, or a runtime operation. -/
inductive Callee where
  | function (id : FunctionId) (arguments : List TypeRef)
  | derivedEquality (aggregate : AggregateId) (arguments : List TypeRef)
  | lambda (id : LambdaId) (captures : List (Value Scalar))
  | method (call : AcceptedMethodCall)
  | runtime (operation : RuntimeOperation VariantId TypeRef)

end

abbrev BodyValue := Value Scalar

def integerValue (value : Int) : BodyValue := .literal (.exactInt value)

def BodyValue.field (field : FieldId) : BodyValue → Option BodyValue
  | .scalar (.record _ fields) => fields[field.position]?
  | _ => none

/-- A record from its written fields, each of which has its own position. -/
def makeRecord (id : RecordId) (fields : List (FieldId × BodyValue)) : Option BodyValue := do
  let values ← (List.range fields.length).mapM fun position =>
    (fields.find? fun field => field.1.position = position).map (·.2)
  some (.scalar (.record id values))

def updateRecord (fields : List (FieldId × BodyValue)) : BodyValue → Option BodyValue
  | .scalar (.record id values) =>
      some (.scalar (.record id (fields.foldl (fun values field =>
        values.set field.1.position field.2) values)))
  | _ => none

def isTrue (boolean : DesignatedBoolean VariantId) : BodyValue → Option Bool
  | .variant id _ => some (decide (id = boolean.trueVariant))
  | _ => none

def readArgument (subject : BodyValue) : CheckedPatternArgument → Option BodyValue
  | .borrowPlace place => readPlace subject place
  | .copyListSuffix place skip =>
      match readPlace subject place with
      | some (.list elements) => some (.list (elements.drop skip))
      | _ => none

/-- The arm a selection enters on the subject, and what it is given. -/
def enterSelection (subject : BodyValue) (selection : CheckedSelection) :
    Option (MatchArmId × List BodyValue) := do
  let (arm, arguments) ← walk subject selection selection.nodes.length
  let values ← arguments.mapM (readArgument subject)
  some (arm, values)

/-- The body a method call selects, when its receiver's head decides it. -/
def methodCallee (traits : AcceptedTraits) (call : AcceptedMethodCall) : Callee :=
  match methodBody traits call with
  | some ⟨.declaredBody id, arguments⟩ => .function id arguments
  | some ⟨.derivedEqualityBody aggregate, arguments⟩ => .derivedEquality aggregate arguments
  | _ => .method call

/-! ## Runs -/

inductive Escape where
  | breakLoop
  | continueLoop

structure Frame (World : Type) where
  bindings : BindingId → Option BodyValue
  world : World

def Run (World α : Type) : Type := Frame World → Option (Except Escape α × Frame World)

variable {World α : Type}

instance : Monad (Run World) where
  pure a := fun frame => some (.ok a, frame)
  bind run next := fun frame =>
    match run frame with
    | some (.ok a, after) => next a after
    | some (.error escape, after) => some (.error escape, after)
    | none => none

def stuck : Run World α := fun _ => none

def escape (exit : Escape) : Run World α := fun frame => some (.error exit, frame)

def present (value : Option α) : Run World α := fun frame =>
  value.map fun a => (.ok a, frame)

def Frame.bind (frame : Frame World) (id : BindingId) (value : BodyValue) : Frame World :=
  { frame with bindings := fun other => if other = id then some value else frame.bindings other }

def writeBinding (id : BindingId) (value : BodyValue) : Run World Unit := fun frame =>
  some (.ok (), frame.bind id value)

def readBinding (id : BindingId) : Run World BodyValue := fun frame =>
  (frame.bindings id).map fun value => (.ok value, frame)

def bindInputs (inputs : List BindingId) (values : List BodyValue) : Run World Unit := fun frame =>
  some (.ok (), (inputs.zip values).foldl (fun frame input => frame.bind input.1 input.2) frame)

/-- Rounds until one reports the end or breaks; a `continue` only ends its round. -/
def whileLoop (round : Run World Bool) : Nat → Run World Unit
  | 0 => stuck
  | fuel + 1 => fun frame =>
      match round frame with
      | some (.ok true, after) => whileLoop round fuel after
      | some (.ok false, after) => some (.ok (), after)
      | some (.error .continueLoop, after) => whileLoop round fuel after
      | some (.error .breakLoop, after) => some (.ok (), after)
      | none => none

def forLoop (round : BodyValue → Run World Unit) : List BodyValue → Run World Unit
  | [] => pure ()
  | item :: items => fun frame =>
      match round item frame with
      | some (.ok _, after) => forLoop round items after
      | some (.error .continueLoop, after) => forLoop round items after
      | some (.error .breakLoop, after) => some (.ok (), after)
      | none => none

def rangeItems : BodyValue → BodyValue → Option (List BodyValue)
  | .literal (.exactInt first), .literal (.exactInt last) =>
      some ((List.range (last - first).toNat).map fun (offset : Nat) => integerValue (first + offset))
  | _, _ => none

/-! ## Evaluation -/

/-- What a body is run with: the traits that resolve its method calls, the meaning of
calls, what it captures, its callable parameters, and how long a `while` may go on. -/
structure BodyContext (World : Type) where
  traits : AcceptedTraits
  call : Callee → List BodyValue → World → Option (BodyValue × World)
  captures : List BodyValue
  callables : CallableParameterId → Option Callee
  fuel : Nat

section

variable (context : BodyContext World)

def invoke (callee : Callee) (values : List BodyValue) : Run World BodyValue := fun frame =>
  (context.call callee values frame.world).map fun (value, world) =>
    (.ok value, { frame with world := world })

mutual

def evalExpr : CheckedExpr → Run World BodyValue
  | ⟨form, _, _⟩ => evalForm form

def evalForm : CheckedForm → Run World BodyValue
  | .makeCallable choice => do return .scalar (.callable (← evalChoice choice))
  | .literalVoid => pure (.scalar .void)
  | .literalInteger value => pure (integerValue value)
  | .literalFloat value => pure (.scalar (.float value))
  | .literalString text => pure (.literal (.exactBytes text))
  | .readBinding id => readBinding id
  | .readCapture id => present context.captures[id.position]?
  | .constructVariant id elements => do return .variant id (← evalExprs elements)
  | .constructRecord id fields => do present (makeRecord id (← evalFields fields))
  | .constructList elements => do return .list (← evalExprs elements)
  | .constructTuple elements => do return .tuple (← evalExprs elements)
  | .constructOpaque id child => do return .scalar (.wrapped id (← evalExpr child))
  | .projectOpaque _ child => do
      match ← evalExpr child with
      | .scalar (.wrapped _ content) => pure content
      | _ => stuck
  | .matchJoin join => evalJoin join
  | .updateRecord _ update => evalUpdate update
  | .invokeFunction call => evalCall call
  | .readRecordField child field => do present ((← evalExpr child).field field)
  | .readTupleElement child position => do
      match ← evalExpr child with
      | .tuple elements => present elements[position]?
      | _ => stuck

def evalExprs : List CheckedExpr → Run World (List BodyValue)
  | [] => pure []
  | value :: values => do
      let first ← evalExpr value
      let rest ← evalExprs values
      return first :: rest

def evalFields : List CheckedRecordField → Run World (List (FieldId × BodyValue))
  | [] => pure []
  | ⟨field, value, _⟩ :: fields => do
      let first ← evalExpr value
      let rest ← evalFields fields
      return (field, first) :: rest

def evalUpdate : CheckedRecordUpdate → Run World BodyValue
  | ⟨base, _, replacements, _⟩ => do
      let value ← evalExpr base
      let fields ← evalFields replacements
      present (updateRecord fields value)

/-- A callable as it is created or passed. -/
def evalChoice : CallableChoice → Run World Callee
  | .methodCallable method => pure (methodCallee context.traits method)
  | .namedCallable id arguments => pure (.function id arguments)
  | .forwardedCallable id => present (context.callables id)
  | .lambdaCallable id captures => do return .lambda id (← evalExprs captures)
  | .storedCallable child => evalStored child

def evalStored : CheckedExpr → Run World Callee
  | ⟨form, _, _⟩ => do
      match ← evalForm form with
      | .scalar (.callable callee) => pure callee
      | _ => stuck

def evalTarget : CallTarget → Run World Callee
  | .traitMethod method => pure (methodCallee context.traits method)
  | .userFunction id arguments => pure (.function id arguments)
  | .callableParameter id => present (context.callables id)
  | .valueCall callee => evalStored callee
  | .runtimeFunction operation => pure (.runtime operation)

def evalOperand : CheckedCallOperand → Run World BodyValue
  | .valueOperand argument => evalExpr argument
  | .callableOperand _ choice _ => do return .scalar (.callable (← evalChoice choice))

def evalOperands : List CheckedCallOperand → Run World (List BodyValue)
  | [] => pure []
  | operand :: operands => do
      let first ← evalOperand operand
      let rest ← evalOperands operands
      return first :: rest

def evalCall : CheckedCall → Run World BodyValue
  | ⟨target, operands, _⟩ => do
      let callee ← evalTarget target
      let values ← evalOperands operands
      invoke context callee values

def evalJoin : CheckedJoin → Run World BodyValue
  | ⟨scrutinee, selection, arms, _⟩ => do
      let subject ← evalExpr scrutinee
      let (arm, values) ← present (enterSelection subject selection)
      evalJoinArms arm values arms

def evalJoinArms (arm : MatchArmId) (values : List BodyValue) :
    List CheckedJoinArm → Run World BodyValue
  | [] => stuck
  | ⟨id, inputs, statements, value⟩ :: arms =>
      if arm = id then do
        bindInputs inputs values
        evalStatements statements
        evalExpr value
      else evalJoinArms arm values arms

def evalStatement : CheckedStatement → Run World Unit
  | .initializeBinding id value => do writeBinding id (← evalExpr value)
  | .reassignBinding id value => do writeBinding id (← evalExpr value)
  | .discardExpression value => do
      let _ ← evalExpr value
      pure ()
  | .runWhile loop => evalWhile loop
  | .runFor loop => evalFor loop
  | .breakSourceLoop _ => escape .breakLoop
  | .continueSourceLoop _ => escape .continueLoop

def evalStatements : List CheckedStatement → Run World Unit
  | [] => pure ()
  | statement :: statements => do
      evalStatement statement
      evalStatements statements

def evalWhile : CheckedWhile → Run World Unit
  | ⟨condition, body, _, boolean, _⟩ =>
      whileLoop (do
        let goesOn ← present (isTrue boolean (← evalExpr condition))
        if goesOn then evalStatements body
        return goesOn) context.fuel

def evalIteration : CheckedIteration → Run World (List BodyValue)
  | .listIteration iterable _ _ => do
      match ← evalExpr iterable with
      | .list elements => pure elements
      | _ => stuck
  | .ascendingIntRange first last _ => do
      let start ← evalExpr first
      let stop ← evalExpr last
      present (rangeItems start stop)

def evalFor : CheckedFor → Run World Unit
  | ⟨iteration, item, body, _, _⟩ => do
      let items ← evalIteration iteration
      forLoop (fun value => do
        bindInputs item.toList [value]
        evalStatements body) items

end

/-! ## Bodies -/

/-- An exit returns its value, or calls the function itself and returns what it does. -/
def evalExit (self : Callee) : CheckedExit → Run World BodyValue
  | .returnExpression value => evalExpr context value
  | .recurWith arguments _ => do
      let values ← evalExprs context arguments
      invoke context self values

def evalArms (self : Callee) (arm : MatchArmId) (values : List BodyValue) :
    List CheckedArm → Run World BodyValue
  | [] => stuck
  | ⟨id, inputs, statements, body⟩ :: arms =>
      if arm = id then do
        bindInputs inputs values
        evalStatements context statements
        evalExit context self body
      else evalArms self arm values arms

def evalBody (self : Callee) : CheckedBody → Run World BodyValue
  | .checkedValueBody exit => evalExit context self exit
  | .checkedMatchBody ⟨scrutinee, selection, arms⟩ => do
      let subject ← evalExpr context scrutinee
      let (arm, values) ← present (enterSelection subject selection)
      evalArms context self arm values arms

/-- A body from its arguments, which are its first bindings. -/
def runBody (self : Callee) (statements : List CheckedStatement) (body : CheckedBody)
    (arguments : List BodyValue) (world : World) : Option (BodyValue × World) :=
  let run : Run World BodyValue := do
    evalStatements context statements
    evalBody context self body
  match run ⟨fun id => arguments[id]?, world⟩ with
  | some (.ok value, after) => some (value, after.world)
  | _ => none

end

end Blorp.Check
