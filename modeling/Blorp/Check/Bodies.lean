import Blorp.Check.Traits
import Blorp.Specialize.Model

/-!
# Checked bodies

The expressions, statements and bodies of `check/model.brp`, and its two traversals:
`childExpressions` are the expressions a form evaluates directly, `statementExpressions`
those of a statement list, both in evaluation order.  A lambda is its captures here; its
body is a row of its own.
-/

namespace Blorp.Check

/-! ## Identities -/

structure FieldId where
  owner : RecordId
  position : Nat
  deriving DecidableEq, Repr

structure CaptureId where
  owner : LambdaId
  position : Nat
  deriving DecidableEq, Repr

/-! ## Expressions -/

mutual

structure CheckedExpr where
  form : CheckedForm
  valueType : TypeRef
  span : Span

/-- What an expression computes.  A payload-free variant has no arguments. -/
inductive CheckedForm where
  | makeCallable (choice : CallableChoice)
  | literalVoid
  | literalInteger (value : Int)
  | literalFloat (value : Float)
  | literalString (text : String)
  | readBinding (id : BindingId)
  | readCapture (id : CaptureId)
  | constructVariant (id : VariantId) (elements : List CheckedExpr)
  | constructRecord (id : RecordId) (fields : List CheckedRecordField)
  | constructList (elements : List CheckedExpr)
  | constructTuple (elements : List CheckedExpr)
  | constructOpaque (id : OpaqueId) (child : CheckedExpr)
  | projectOpaque (id : OpaqueId) (child : CheckedExpr)
  | matchJoin (join : CheckedJoin)
  | updateRecord (id : RecordId) (update : CheckedRecordUpdate)
  | invokeFunction (call : CheckedCall)
  | readRecordField (child : CheckedExpr) (field : FieldId)
  | readTupleElement (child : CheckedExpr) (position : Nat)

inductive CallableChoice where
  | methodCallable (method : AcceptedMethodCall)
  | namedCallable (id : FunctionId) (arguments : List TypeRef)
  | forwardedCallable (id : CallableParameterId)
  | lambdaCallable (id : LambdaId) (captures : List CheckedExpr)
  | storedCallable (child : CheckedExpr)

inductive CheckedCallOperand where
  | valueOperand (argument : CheckedExpr)
  | callableOperand (id : CallableParameterId) (choice : CallableChoice) (span : Span)

inductive CallTarget where
  | traitMethod (method : AcceptedMethodCall)
  | userFunction (id : FunctionId) (arguments : List TypeRef)
  | callableParameter (id : CallableParameterId)
  | valueCall (callee : CheckedExpr)
  | runtimeFunction (operation : RuntimeOperation VariantId TypeRef)

/-- A written receiver is the first operand; values and callbacks keep their order. -/
structure CheckedCall where
  target : CallTarget
  operands : List CheckedCallOperand
  span : Span

structure CheckedRecordField where
  field : FieldId
  value : CheckedExpr
  span : Span

/-- `replacements` are the written fields in written order, which is their evaluation
order; `inherited` are the remaining ones. -/
structure CheckedRecordUpdate where
  base : CheckedExpr
  baseExpressionSpan : Span
  replacements : List CheckedRecordField
  inherited : List (FieldId × TypeRef)

/-- A value match: the enclosing body continues with the selected arm's value. -/
structure CheckedJoin where
  scrutinee : CheckedExpr
  selection : CheckedSelection
  arms : List CheckedJoinArm
  carried : List BindingId

structure CheckedJoinArm where
  id : MatchArmId
  inputs : List BindingId
  statements : List CheckedStatement
  value : CheckedExpr

inductive CheckedStatement where
  | initializeBinding (id : BindingId) (value : CheckedExpr)
  | reassignBinding (id : BindingId) (value : CheckedExpr)
  | discardExpression (value : CheckedExpr)
  | runWhile (loop : CheckedWhile)
  | runFor (loop : CheckedFor)
  | breakSourceLoop (span : Span)
  | continueSourceLoop (span : Span)

structure CheckedWhile where
  condition : CheckedExpr
  body : List CheckedStatement
  carried : List BindingId
  boolean : DesignatedBoolean VariantId
  span : Span

inductive CheckedIteration where
  | listIteration (iterable : CheckedExpr) (element : TypeRef)
      (option : DesignatedOption VariantId)
  | ascendingIntRange (first last : CheckedExpr) (boolean : DesignatedBoolean VariantId)

structure CheckedFor where
  iteration : CheckedIteration
  item : Option BindingId
  body : List CheckedStatement
  carried : List BindingId
  span : Span

end

/-! ## Bodies -/

inductive CheckedExit where
  | returnExpression (value : CheckedExpr)
  | recurWith (arguments : List CheckedExpr) (span : Span)

structure CheckedArm where
  id : MatchArmId
  inputs : List BindingId
  statements : List CheckedStatement
  body : CheckedExit

structure CheckedMatch where
  scrutinee : CheckedExpr
  selection : CheckedSelection
  arms : List CheckedArm

inductive CheckedBody where
  | checkedValueBody (exit : CheckedExit)
  | checkedMatchBody (matched : CheckedMatch)

structure CheckedLambda where
  statements : List CheckedStatement
  body : CheckedBody

/-! ## Traversals -/

/-- The expressions a callable choice evaluates when it is created or passed.  A lambda's
body is a separate request. -/
def CallableChoice.choiceExpressions : CallableChoice → List CheckedExpr
  | .storedCallable child => [child]
  | .lambdaCallable _ captures => captures
  | .methodCallable _ | .namedCallable _ _ | .forwardedCallable _ => []

def CheckedCallOperand.operandExpressions : CheckedCallOperand → List CheckedExpr
  | .valueOperand argument => [argument]
  | .callableOperand _ choice _ => choice.choiceExpressions

def CallTarget.targetExpressions : CallTarget → List CheckedExpr
  | .valueCall callee => [callee]
  | .traitMethod _ | .userFunction _ _ | .callableParameter _ | .runtimeFunction _ => []

def CheckedIteration.headerExpressions : CheckedIteration → List CheckedExpr
  | .listIteration iterable _ _ => [iterable]
  | .ascendingIntRange first last _ => [first, last]

mutual

def CheckedStatement.expressions : CheckedStatement → List CheckedExpr
  | .initializeBinding _ value => [value]
  | .reassignBinding _ value => [value]
  | .discardExpression value => [value]
  | .runWhile loop => CheckedWhile.expressions loop
  | .runFor loop => CheckedFor.expressions loop
  | .breakSourceLoop _ => []
  | .continueSourceLoop _ => []

def CheckedWhile.expressions : CheckedWhile → List CheckedExpr
  | ⟨condition, body, _, _, _⟩ => condition :: statementExpressions body

def CheckedFor.expressions : CheckedFor → List CheckedExpr
  | ⟨iteration, _, body, _, _⟩ => iteration.headerExpressions ++ statementExpressions body

/-- The expressions a statement list evaluates, in order; a loop's body follows its header
expressions. -/
def statementExpressions : List CheckedStatement → List CheckedExpr
  | [] => []
  | statement :: statements => CheckedStatement.expressions statement ++ statementExpressions statements

end

def CheckedJoinArm.expressions (arm : CheckedJoinArm) : List CheckedExpr :=
  statementExpressions arm.statements ++ [arm.value]

/-- The expressions a form evaluates directly, in evaluation order: a call's callee then its
operands, a match's scrutinee then each arm's statements and value. -/
def CheckedForm.childExpressions : CheckedForm → List CheckedExpr
  | .constructOpaque _ child => [child]
  | .projectOpaque _ child => [child]
  | .readTupleElement child _ => [child]
  | .readRecordField child _ => [child]
  | .constructTuple elements => elements
  | .constructList elements => elements
  | .constructVariant _ elements => elements
  | .constructRecord _ fields => fields.map (·.value)
  | .updateRecord _ update => update.base :: update.replacements.map (·.value)
  | .makeCallable choice => choice.choiceExpressions
  | .matchJoin join => join.scrutinee :: join.arms.flatMap (·.expressions)
  | .invokeFunction call =>
      call.target.targetExpressions ++ call.operands.flatMap (·.operandExpressions)
  | .literalVoid | .literalInteger _ | .literalFloat _ | .literalString _ => []
  | .readBinding _ | .readCapture _ => []

def CheckedExit.exitExpressions : CheckedExit → List CheckedExpr
  | .returnExpression value => [value]
  | .recurWith arguments _ => arguments

/-! ## Children are smaller -/

variable {child : CheckedExpr}

theorem CallableChoice.sizeOf_choiceExpressions {choice : CallableChoice}
    (h : child ∈ choice.choiceExpressions) : sizeOf child < sizeOf choice := by
  cases choice with
  | storedCallable stored =>
    obtain rfl := List.mem_singleton.mp h
    simp
  | lambdaCallable id captures =>
    have hsize : sizeOf child < sizeOf captures := List.sizeOf_lt_of_mem h
    simp only [CallableChoice.lambdaCallable.sizeOf_spec]
    omega
  | _ => cases h

theorem CheckedIteration.sizeOf_headerExpressions {iteration : CheckedIteration}
    (h : child ∈ iteration.headerExpressions) : sizeOf child < sizeOf iteration := by
  cases iteration with
  | listIteration iterable element option =>
    obtain rfl := List.mem_singleton.mp h
    simp only [CheckedIteration.listIteration.sizeOf_spec]
    omega
  | ascendingIntRange first last boolean =>
    simp only [CheckedIteration.headerExpressions, List.mem_cons, List.not_mem_nil, or_false] at h
    simp only [CheckedIteration.ascendingIntRange.sizeOf_spec]
    rcases h with rfl | rfl <;> omega

mutual

theorem CheckedStatement.sizeOf_expressions {child : CheckedExpr} :
    ∀ statement : CheckedStatement, child ∈ CheckedStatement.expressions statement →
      sizeOf child < sizeOf statement
  | .initializeBinding id value, h | .reassignBinding id value, h => by
      obtain rfl := List.mem_singleton.mp h
      simp only [CheckedStatement.initializeBinding.sizeOf_spec,
        CheckedStatement.reassignBinding.sizeOf_spec]
      omega
  | .discardExpression value, h => by
      obtain rfl := List.mem_singleton.mp h
      simp
  | .runWhile loop, h => by
      have hsize := CheckedWhile.sizeOf_expressions loop h
      simp only [CheckedStatement.runWhile.sizeOf_spec]
      omega
  | .runFor loop, h => by
      have hsize := CheckedFor.sizeOf_expressions loop h
      simp only [CheckedStatement.runFor.sizeOf_spec]
      omega
  | .breakSourceLoop _, h => by cases h
  | .continueSourceLoop _, h => by cases h

theorem CheckedWhile.sizeOf_expressions {child : CheckedExpr} :
    ∀ loop : CheckedWhile, child ∈ CheckedWhile.expressions loop → sizeOf child < sizeOf loop
  | ⟨condition, body, carried, boolean, span⟩, h => by
      simp only [CheckedWhile.mk.sizeOf_spec]
      rcases List.mem_cons.mp h with rfl | h
      · omega
      · have hsize := sizeOf_statementExpressions body h
        omega

theorem CheckedFor.sizeOf_expressions {child : CheckedExpr} :
    ∀ loop : CheckedFor, child ∈ CheckedFor.expressions loop → sizeOf child < sizeOf loop
  | ⟨iteration, item, body, carried, span⟩, h => by
      simp only [CheckedFor.mk.sizeOf_spec]
      rcases List.mem_append.mp h with h | h
      · have hsize := CheckedIteration.sizeOf_headerExpressions h
        omega
      · have hsize := sizeOf_statementExpressions body h
        omega

theorem sizeOf_statementExpressions {child : CheckedExpr} :
    ∀ statements : List CheckedStatement, child ∈ statementExpressions statements →
      sizeOf child < sizeOf statements
  | [], h => by cases h
  | statement :: statements, h => by
      simp only [List.cons.sizeOf_spec]
      rcases List.mem_append.mp h with h | h
      · have hsize := CheckedStatement.sizeOf_expressions statement h
        omega
      · have hsize := sizeOf_statementExpressions statements h
        omega

end

theorem CheckedJoinArm.sizeOf_expressions {arm : CheckedJoinArm} (h : child ∈ arm.expressions) :
    sizeOf child < sizeOf arm := by
  obtain ⟨id, inputs, statements, value⟩ := arm
  simp only [CheckedJoinArm.mk.sizeOf_spec]
  rcases List.mem_append.mp h with h | h
  · have hsize := sizeOf_statementExpressions statements h
    omega
  · obtain rfl := List.mem_singleton.mp h
    omega

theorem CheckedCall.sizeOf_expressions {call : CheckedCall}
    (h : child ∈ call.target.targetExpressions ++ call.operands.flatMap (·.operandExpressions)) :
    sizeOf child < sizeOf call := by
  obtain ⟨target, operands, span⟩ := call
  simp only [CheckedCall.mk.sizeOf_spec]
  rcases List.mem_append.mp h with h | h
  · cases target with
    | valueCall callee =>
      obtain rfl := List.mem_singleton.mp h
      simp only [CallTarget.valueCall.sizeOf_spec]
      omega
    | _ => cases h
  · obtain ⟨operand, hoperand, h⟩ := List.mem_flatMap.mp h
    have hlist := List.sizeOf_lt_of_mem hoperand
    cases operand with
    | valueOperand argument =>
      obtain rfl := List.mem_singleton.mp h
      simp only [CheckedCallOperand.valueOperand.sizeOf_spec] at hlist
      omega
    | callableOperand id choice occurrence =>
      have hsize := CallableChoice.sizeOf_choiceExpressions h
      simp only [CheckedCallOperand.callableOperand.sizeOf_spec] at hlist
      omega

theorem sizeOf_fieldValue {fields : List CheckedRecordField} (h : child ∈ fields.map (·.value)) :
    sizeOf child < sizeOf fields := by
  obtain ⟨⟨id, value, span⟩, hfield, rfl⟩ := List.mem_map.mp h
  have hlist := List.sizeOf_lt_of_mem hfield
  simp only [CheckedRecordField.mk.sizeOf_spec] at hlist
  show sizeOf value < sizeOf fields
  omega

/-- **A child of a form is smaller than it.** -/
theorem CheckedForm.sizeOf_childExpressions {form : CheckedForm}
    (h : child ∈ form.childExpressions) : sizeOf child < sizeOf form := by
  cases form with
  | constructOpaque id inner | projectOpaque id inner | readTupleElement inner position
  | readRecordField inner field =>
    obtain rfl := List.mem_singleton.mp h
    simp only [CheckedForm.constructOpaque.sizeOf_spec, CheckedForm.projectOpaque.sizeOf_spec,
      CheckedForm.readTupleElement.sizeOf_spec, CheckedForm.readRecordField.sizeOf_spec]
    omega
  | constructTuple elements | constructList elements | constructVariant id elements =>
    have hsize : sizeOf child < sizeOf elements := List.sizeOf_lt_of_mem h
    simp only [CheckedForm.constructTuple.sizeOf_spec, CheckedForm.constructList.sizeOf_spec,
      CheckedForm.constructVariant.sizeOf_spec]
    omega
  | constructRecord id fields =>
    have hsize := sizeOf_fieldValue h
    simp only [CheckedForm.constructRecord.sizeOf_spec]
    omega
  | updateRecord id update =>
    obtain ⟨base, baseSpan, replacements, inherited⟩ := update
    simp only [CheckedForm.updateRecord.sizeOf_spec, CheckedRecordUpdate.mk.sizeOf_spec]
    rcases List.mem_cons.mp h with rfl | h
    · omega
    · have hsize : sizeOf child < sizeOf replacements := sizeOf_fieldValue h
      omega
  | makeCallable choice =>
    have hsize := CallableChoice.sizeOf_choiceExpressions h
    simp only [CheckedForm.makeCallable.sizeOf_spec]
    omega
  | matchJoin join =>
    obtain ⟨scrutinee, selection, arms, carried⟩ := join
    simp only [CheckedForm.matchJoin.sizeOf_spec, CheckedJoin.mk.sizeOf_spec]
    rcases List.mem_cons.mp h with rfl | h
    · omega
    · obtain ⟨arm, harm, h⟩ := List.mem_flatMap.mp h
      have harms := List.sizeOf_lt_of_mem harm
      have hsize := CheckedJoinArm.sizeOf_expressions h
      simp only at harms
      omega
  | invokeFunction call =>
    have hsize := CheckedCall.sizeOf_expressions h
    simp only [CheckedForm.invokeFunction.sizeOf_spec]
    omega
  | _ => cases h

end Blorp.Check
