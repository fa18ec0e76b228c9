import Blorp.Check.Bodies

/-!
# Searching a body for self calls

`isSelfCall` and `self_call_in` of `check/recursion.brp`.  The search steps through the
children a form evaluates; here these are compared with every place where an expression
can stand in another (`InForm`), so that no constructor is missed: a search that finds
nothing has seen every subexpression.
-/

namespace Blorp.Check

/-! ## The search -/

section

variable (current : FunctionId) (traits : AcceptedTraits)

def CheckedCall.isSelfCall (call : CheckedCall) : Bool :=
  match call.target with
  | .traitMethod method =>
      match methodBody traits method with
      | some ⟨.declaredBody function, _⟩ => function = current
      | _ => false
  | .userFunction id _ => id = current
  | .runtimeFunction _ | .callableParameter _ | .valueCall _ => false

/-- A node's children are evaluated before the node, so a call's arguments are searched
before the call itself. -/
def selfCallIn (value : CheckedExpr) : Option Span :=
  match value.form.childExpressions.attach.findSome? fun ⟨child, _⟩ => selfCallIn child with
  | some span => some span
  | none =>
      match value.form with
      | .invokeFunction call => if call.isSelfCall current traits then some value.span else none
      | _ => none
termination_by sizeOf value
decreasing_by
  rename_i hchild
  have hsize := CheckedForm.sizeOf_childExpressions hchild
  obtain ⟨form, valueType, span⟩ := value
  simp only [CheckedExpr.mk.sizeOf_spec] at hsize ⊢
  omega

def firstSelfCall (values : List CheckedExpr) : Option Span :=
  values.findSome? (selfCallIn current traits)

def rejectSelfCalls (values : List CheckedExpr) : Except CheckError Unit :=
  match firstSelfCall current traits values with
  | some span => .error (recursionError span (.nonTailSelfCall current))
  | none => .ok ()

end

theorem selfCallIn_eq (current : FunctionId) (traits : AcceptedTraits) (value : CheckedExpr) :
    selfCallIn current traits value =
      match firstSelfCall current traits value.form.childExpressions with
      | some span => some span
      | none =>
          match value.form with
          | .invokeFunction call => if call.isSelfCall current traits then some value.span else none
          | _ => none := by
  rw [selfCallIn, firstSelfCall]
  have hattach : value.form.childExpressions.attach.findSome?
      (fun ⟨child, _⟩ => selfCallIn current traits child) =
        value.form.childExpressions.findSome? (selfCallIn current traits) := by
    conv_rhs => rw [← List.attach_map_subtype_val value.form.childExpressions]
    rw [List.findSome?_map]
    rfl
  rw [hattach]

/-! ## Where an expression stands in another -/

inductive InIteration : CheckedExpr → CheckedIteration → Prop where
  | iterable (child : CheckedExpr) (element : TypeRef) (option : DesignatedOption VariantId) :
      InIteration child (.listIteration child element option)
  | first (child last : CheckedExpr) (boolean : DesignatedBoolean VariantId) :
      InIteration child (.ascendingIntRange child last boolean)
  | last (first child : CheckedExpr) (boolean : DesignatedBoolean VariantId) :
      InIteration child (.ascendingIntRange first child boolean)

inductive InStatement : CheckedExpr → CheckedStatement → Prop where
  | initialized (id : BindingId) (child : CheckedExpr) :
      InStatement child (.initializeBinding id child)
  | reassigned (id : BindingId) (child : CheckedExpr) :
      InStatement child (.reassignBinding id child)
  | discarded (child : CheckedExpr) : InStatement child (.discardExpression child)
  | condition (loop : CheckedWhile) : InStatement loop.condition (.runWhile loop)
  | whileBody {child : CheckedExpr} {loop : CheckedWhile} {statement : CheckedStatement}
      (mem : statement ∈ loop.body) (inside : InStatement child statement) :
      InStatement child (.runWhile loop)
  | header {child : CheckedExpr} {loop : CheckedFor} (inside : InIteration child loop.iteration) :
      InStatement child (.runFor loop)
  | forBody {child : CheckedExpr} {loop : CheckedFor} {statement : CheckedStatement}
      (mem : statement ∈ loop.body) (inside : InStatement child statement) :
      InStatement child (.runFor loop)

inductive InChoice : CheckedExpr → CallableChoice → Prop where
  | stored (child : CheckedExpr) : InChoice child (.storedCallable child)
  | capture {child : CheckedExpr} {captures : List CheckedExpr} (id : LambdaId)
      (mem : child ∈ captures) : InChoice child (.lambdaCallable id captures)

inductive InForm : CheckedExpr → CheckedForm → Prop where
  | wrapped (id : OpaqueId) (child : CheckedExpr) : InForm child (.constructOpaque id child)
  | unwrapped (id : OpaqueId) (child : CheckedExpr) : InForm child (.projectOpaque id child)
  | tupleBase (child : CheckedExpr) (position : Nat) : InForm child (.readTupleElement child position)
  | recordBase (child : CheckedExpr) (field : FieldId) : InForm child (.readRecordField child field)
  | tuple {child : CheckedExpr} {elements : List CheckedExpr} (mem : child ∈ elements) :
      InForm child (.constructTuple elements)
  | list {child : CheckedExpr} {elements : List CheckedExpr} (mem : child ∈ elements) :
      InForm child (.constructList elements)
  | variant {child : CheckedExpr} {elements : List CheckedExpr} (id : VariantId)
      (mem : child ∈ elements) : InForm child (.constructVariant id elements)
  | record {field : CheckedRecordField} {fields : List CheckedRecordField} (id : RecordId)
      (mem : field ∈ fields) : InForm field.value (.constructRecord id fields)
  | updated (id : RecordId) (update : CheckedRecordUpdate) :
      InForm update.base (.updateRecord id update)
  | replacement {field : CheckedRecordField} {update : CheckedRecordUpdate} (id : RecordId)
      (mem : field ∈ update.replacements) : InForm field.value (.updateRecord id update)
  | choice {child : CheckedExpr} {choice : CallableChoice} (inside : InChoice child choice) :
      InForm child (.makeCallable choice)
  | scrutinee (join : CheckedJoin) : InForm join.scrutinee (.matchJoin join)
  | armStatement {child : CheckedExpr} {join : CheckedJoin} {arm : CheckedJoinArm}
      {statement : CheckedStatement} (mem : arm ∈ join.arms) (listed : statement ∈ arm.statements)
      (inside : InStatement child statement) : InForm child (.matchJoin join)
  | armValue {join : CheckedJoin} {arm : CheckedJoinArm} (mem : arm ∈ join.arms) :
      InForm arm.value (.matchJoin join)
  | callee {child : CheckedExpr} {call : CheckedCall} (target : call.target = .valueCall child) :
      InForm child (.invokeFunction call)
  | operand {child : CheckedExpr} {call : CheckedCall}
      (mem : .valueOperand child ∈ call.operands) : InForm child (.invokeFunction call)
  | callback {child : CheckedExpr} {call : CheckedCall} {id : CallableParameterId}
      {choice : CallableChoice} {span : Span} (mem : .callableOperand id choice span ∈ call.operands)
      (inside : InChoice child choice) : InForm child (.invokeFunction call)

/-- An expression anywhere in another, itself included.  A lambda is not a part of the
expression that creates it. -/
abbrev Subexpression (value child : CheckedExpr) : Prop :=
  Relation.ReflTransGen (fun outer inner => InForm inner outer.form) value child

inductive CreatesLambda (id : LambdaId) : CheckedForm → Prop where
  | made (captures : List CheckedExpr) : CreatesLambda id (.makeCallable (.lambdaCallable id captures))
  | passed {call : CheckedCall} {parameter : CallableParameterId} {captures : List CheckedExpr}
      {span : Span} (mem : .callableOperand parameter (.lambdaCallable id captures) span ∈
        call.operands) : CreatesLambda id (.invokeFunction call)

/-! ## The traversal visits each of them -/

variable {child : CheckedExpr} {current : FunctionId} {traits : AcceptedTraits}

theorem inIteration_iff {iteration : CheckedIteration} :
    InIteration child iteration ↔ child ∈ iteration.headerExpressions := by
  constructor
  · intro h
    cases h <;> simp [CheckedIteration.headerExpressions]
  · intro h
    cases iteration with
    | listIteration iterable element option =>
      obtain rfl := List.mem_singleton.mp h
      exact .iterable child element option
    | ascendingIntRange first last boolean =>
      rcases List.mem_cons.mp h with rfl | h
      · exact .first child last boolean
      · obtain rfl := List.mem_singleton.mp h
        exact .last first child boolean

theorem mem_statementExpressions {statements : List CheckedStatement} :
    child ∈ statementExpressions statements ↔
      ∃ statement ∈ statements, child ∈ CheckedStatement.expressions statement := by
  induction statements with
  | nil => simp [statementExpressions]
  | cons statement statements ih => simp [statementExpressions, ih]

theorem InStatement.mem_expressions {statement : CheckedStatement}
    (h : InStatement child statement) : child ∈ CheckedStatement.expressions statement := by
  induction h with
  | initialized id child | reassigned id child | discarded child =>
    exact List.mem_singleton_self child
  | condition loop =>
    cases loop
    exact List.mem_cons_self
  | @whileBody child loop statement mem inside ih =>
    cases loop
    exact List.mem_cons_of_mem _ (mem_statementExpressions.mpr ⟨statement, mem, ih⟩)
  | @header child loop inside =>
    cases loop
    exact List.mem_append_left _ (inIteration_iff.mp inside)
  | @forBody child loop statement mem inside ih =>
    cases loop
    exact List.mem_append_right _ (mem_statementExpressions.mpr ⟨statement, mem, ih⟩)

mutual

theorem inStatement_of_mem {child : CheckedExpr} : ∀ statement : CheckedStatement,
    child ∈ CheckedStatement.expressions statement → InStatement child statement
  | .initializeBinding id value, h => by
      obtain rfl := List.mem_singleton.mp h
      exact .initialized id child
  | .reassignBinding id value, h => by
      obtain rfl := List.mem_singleton.mp h
      exact .reassigned id child
  | .discardExpression value, h => by
      obtain rfl := List.mem_singleton.mp h
      exact .discarded child
  | .runWhile ⟨condition, body, carried, boolean, span⟩, h => by
      rcases List.mem_cons.mp h with rfl | h
      · exact .condition ⟨child, body, carried, boolean, span⟩
      · obtain ⟨statement, hmem, hinside⟩ := inStatements_of_mem body h
        exact @InStatement.whileBody child ⟨condition, body, carried, boolean, span⟩ _ hmem hinside
  | .runFor ⟨iteration, item, body, carried, span⟩, h => by
      rcases List.mem_append.mp h with h | h
      · exact .header (inIteration_iff.mpr h)
      · obtain ⟨statement, hmem, hinside⟩ := inStatements_of_mem body h
        exact @InStatement.forBody child ⟨iteration, item, body, carried, span⟩ _ hmem hinside
  | .breakSourceLoop _, h => by cases h
  | .continueSourceLoop _, h => by cases h

theorem inStatements_of_mem {child : CheckedExpr} : ∀ statements : List CheckedStatement,
    child ∈ statementExpressions statements →
      ∃ statement ∈ statements, InStatement child statement
  | [], h => by cases h
  | statement :: statements, h => by
      rcases List.mem_append.mp h with h | h
      · exact ⟨statement, List.mem_cons_self, inStatement_of_mem statement h⟩
      · obtain ⟨found, hmem, hinside⟩ := inStatements_of_mem statements h
        exact ⟨found, List.mem_cons_of_mem _ hmem, hinside⟩

end

theorem inChoice_iff {choice : CallableChoice} :
    InChoice child choice ↔ child ∈ choice.choiceExpressions := by
  constructor
  · intro h
    cases h with
    | stored => exact List.mem_singleton_self child
    | capture id mem => exact mem
  · intro h
    cases choice with
    | storedCallable stored =>
      obtain rfl := List.mem_singleton.mp h
      exact .stored child
    | lambdaCallable id captures => exact .capture id h
    | _ => cases h

/-- **Every place of a form is one of the children that are stepped through.** -/
theorem inForm_iff {form : CheckedForm} : InForm child form ↔ child ∈ form.childExpressions := by
  constructor
  · intro h
    cases h with
    | wrapped | unwrapped | tupleBase | recordBase => exact List.mem_singleton_self child
    | tuple mem => exact mem
    | list mem => exact mem
    | variant id mem => exact mem
    | record id mem => exact List.mem_map_of_mem mem
    | updated => exact List.mem_cons_self
    | replacement id mem => exact List.mem_cons_of_mem _ (List.mem_map_of_mem mem)
    | choice inside => exact inChoice_iff.mp inside
    | scrutinee => exact List.mem_cons_self
    | armStatement mem listed inside =>
      refine List.mem_cons_of_mem _ (List.mem_flatMap.mpr ⟨_, mem, List.mem_append_left _ ?_⟩)
      exact mem_statementExpressions.mpr ⟨_, listed, inside.mem_expressions⟩
    | armValue mem =>
      refine List.mem_cons_of_mem _ (List.mem_flatMap.mpr ⟨_, mem, List.mem_append_right _ ?_⟩)
      exact List.mem_singleton_self _
    | callee target =>
      refine List.mem_append_left _ ?_
      rw [target]
      exact List.mem_singleton_self child
    | operand mem =>
      exact List.mem_append_right _ (List.mem_flatMap.mpr ⟨_, mem, List.mem_singleton_self child⟩)
    | callback mem inside =>
      exact List.mem_append_right _ (List.mem_flatMap.mpr ⟨_, mem, inChoice_iff.mp inside⟩)
  · intro h
    cases form with
    | constructOpaque id inner =>
      obtain rfl := List.mem_singleton.mp h
      exact .wrapped id child
    | projectOpaque id inner =>
      obtain rfl := List.mem_singleton.mp h
      exact .unwrapped id child
    | readTupleElement inner position =>
      obtain rfl := List.mem_singleton.mp h
      exact .tupleBase child position
    | readRecordField inner field =>
      obtain rfl := List.mem_singleton.mp h
      exact .recordBase child field
    | constructTuple elements => exact .tuple h
    | constructList elements => exact .list h
    | constructVariant id elements => exact .variant id h
    | constructRecord id fields =>
      obtain ⟨field, hmem, rfl⟩ := List.mem_map.mp h
      exact .record id hmem
    | updateRecord id update =>
      rcases List.mem_cons.mp h with rfl | h
      · exact .updated id update
      · obtain ⟨field, hmem, rfl⟩ := List.mem_map.mp h
        exact .replacement id hmem
    | makeCallable choice => exact .choice (inChoice_iff.mpr h)
    | matchJoin join =>
      rcases List.mem_cons.mp h with rfl | h
      · exact .scrutinee join
      · obtain ⟨arm, harm, h⟩ := List.mem_flatMap.mp h
        rcases List.mem_append.mp h with h | h
        · obtain ⟨statement, hlisted, hinside⟩ := inStatements_of_mem arm.statements h
          exact .armStatement harm hlisted hinside
        · obtain rfl := List.mem_singleton.mp h
          exact .armValue harm
    | invokeFunction call =>
      rcases List.mem_append.mp h with h | h
      · cases htarget : call.target with rw [htarget] at h
        | valueCall callee =>
          obtain rfl := List.mem_singleton.mp h
          exact .callee htarget
        | _ => cases h
      · obtain ⟨operand, hmem, h⟩ := List.mem_flatMap.mp h
        cases operand with
        | valueOperand argument =>
          obtain rfl := List.mem_singleton.mp h
          exact .operand hmem
        | callableOperand id choice span => exact .callback hmem (inChoice_iff.mpr h)
    | _ => cases h

/-! ## What the search finds -/

def IsSelfCall (current : FunctionId) (traits : AcceptedTraits) (value : CheckedExpr) : Prop :=
  ∃ call, value.form = .invokeFunction call ∧ call.isSelfCall current traits = true

theorem selfCallIn_eq_none {value : CheckedExpr} : selfCallIn current traits value = none ↔
      (∀ child ∈ value.form.childExpressions, selfCallIn current traits child = none) ∧
        ¬ IsSelfCall current traits value := by
  rw [selfCallIn_eq, firstSelfCall]
  cases hchildren : value.form.childExpressions.findSome? (selfCallIn current traits) with
  | some span =>
    constructor
    · intro h
      cases h
    · rintro ⟨hall, -⟩
      rw [List.findSome?_eq_none_iff.mpr hall] at hchildren
      cases hchildren
  | none =>
    have hall := List.findSome?_eq_none_iff.mp hchildren
    simp only
    split
    · next call hcall =>
      by_cases hself : call.isSelfCall current traits = true
      · rw [if_pos hself]
        constructor
        · intro h
          cases h
        · rintro ⟨-, hnot⟩
          exact absurd ⟨call, hcall, hself⟩ hnot
      · rw [if_neg hself]
        refine ⟨fun _ => ⟨hall, ?_⟩, fun _ => rfl⟩
        rintro ⟨other, hother, hselfOther⟩
        cases hcall.symm.trans hother
        exact hself hselfOther
    · next hform =>
      refine ⟨fun _ => ⟨hall, ?_⟩, fun _ => rfl⟩
      rintro ⟨call, hcall, -⟩
      exact hform call hcall

theorem CheckedExpr.sizeOf_child {value : CheckedExpr} (h : InForm child value.form) :
    sizeOf child < sizeOf value := by
  have hsize := CheckedForm.sizeOf_childExpressions (inForm_iff.mp h)
  obtain ⟨form, valueType, span⟩ := value
  simp only [CheckedExpr.mk.sizeOf_spec] at hsize ⊢
  omega

/-- **The search finds a self call exactly when some subexpression is one.** -/
theorem selfCallIn_none_iff (value : CheckedExpr) : selfCallIn current traits value = none ↔
      ∀ inner, Subexpression value inner → ¬ IsSelfCall current traits inner := by
  induction hsize : sizeOf value using Nat.strongRecOn generalizing value with
  | _ size ih =>
    subst hsize
    rw [selfCallIn_eq_none]
    constructor
    · rintro ⟨hchildren, hself⟩ inner hinner
      rcases Relation.ReflTransGen.cases_head hinner with rfl | ⟨child, hchild, hrest⟩
      · exact hself
      · have hnone := hchildren child (inForm_iff.mp hchild)
        exact (ih _ (CheckedExpr.sizeOf_child hchild) child rfl).mp hnone inner hrest
    · intro hall
      refine ⟨fun child hchild => ?_, hall value .refl⟩
      have hinside : InForm child value.form := inForm_iff.mpr hchild
      refine (ih _ (CheckedExpr.sizeOf_child hinside) child rfl).mpr fun inner hinner => ?_
      exact hall inner (.head hinside hinner)

theorem rejectSelfCalls_eq_ok {values : List CheckedExpr} :
    rejectSelfCalls current traits values = .ok () ↔
      ∀ value ∈ values, ∀ inner, Subexpression value inner → ¬ IsSelfCall current traits inner := by
  have hnone : rejectSelfCalls current traits values = .ok () ↔
      ∀ value ∈ values, selfCallIn current traits value = none := by
    unfold rejectSelfCalls firstSelfCall
    rw [← List.findSome?_eq_none_iff]
    split
    · next span hspan => simp [hspan]
    · next hspan => simp [hspan]
  rw [hnone]
  exact forall_congr' fun value => imp_congr_right fun _ => selfCallIn_none_iff value

end Blorp.Check
