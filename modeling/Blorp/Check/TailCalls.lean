import Blorp.Check.Evaluation
import Blorp.Check.SelfCalls

/-!
# Guaranteed tail calls

`check_execution` of `check/recursion.brp`: in a function annotated as tail recursive, the
self calls that are whole tail values become backedges, and any other self call is
rejected.  A body that passes has no self call left outside its backedges, and computes
what it did before.
-/

namespace Blorp.Check

/-! ## The check -/

/-- A returned value that is a direct self call; a written receiver is already its first
argument. -/
structure TailCall where
  arguments : List CheckedExpr
  span : Span

inductive FunctionExecution where
  | ordinaryCalls
  | selfTailLoop (annotated : Span)

structure CheckedExecution where
  execution : FunctionExecution
  body : CheckedBody

def CheckedCallOperand.argument? : CheckedCallOperand → Option CheckedExpr
  | .valueOperand argument => some argument
  | .callableOperand _ _ _ => none

section

variable (current : FunctionId) (traits : AcceptedTraits)

def tailCall (value : CheckedExpr) : Option TailCall :=
  match value.form with
  | .invokeFunction call =>
      if call.isSelfCall current traits then
        some ⟨call.operands.filterMap (·.argument?), value.span⟩
      else none
  | _ => none

mutual

/-- A tail value other than a direct self call.  A match there passes the tail to each arm's
value, where a self call would need a backedge out of a join. -/
def nestedTail : CheckedExpr → Except CheckError Unit
  | ⟨form, valueType, span⟩ =>
      match tailCall current traits ⟨form, valueType, span⟩ with
      | some call => .error (recursionError call.span .tailCallInNestedMatch)
      | none =>
          match form with
          | .matchJoin ⟨scrutinee, _, arms, _⟩ => do
              rejectSelfCalls current traits [scrutinee]
              nestedArms arms
          | _ => rejectSelfCalls current traits [⟨form, valueType, span⟩]

def nestedArms : List CheckedJoinArm → Except CheckError Unit
  | [] => .ok ()
  | ⟨_, _, statements, value⟩ :: arms => do
      rejectSelfCalls current traits (statementExpressions statements)
      nestedTail value
      nestedArms arms

end

def tailExit (exit : CheckedExit) : Except CheckError CheckedExit :=
  match exit with
  | .recurWith _ _ => .ok exit
  | .returnExpression value =>
      match tailCall current traits value with
      | some call => do
          rejectSelfCalls current traits call.arguments
          .ok (.recurWith call.arguments call.span)
      | none => do
          nestedTail current traits value
          .ok exit

def tailArm (arm : CheckedArm) : Except CheckError CheckedArm := do
  rejectSelfCalls current traits (statementExpressions arm.statements)
  let exit ← tailExit current traits arm.body
  .ok { arm with body := exit }

def tailArms (arms : List CheckedArm) : Except CheckError (List CheckedArm) :=
  arms.mapM (tailArm current traits)

def tailBody : CheckedBody → Except CheckError CheckedBody
  | .checkedValueBody value => do
      let exit ← tailExit current traits value
      .ok (.checkedValueBody exit)
  | .checkedMatchBody matched => do
      rejectSelfCalls current traits [matched.scrutinee]
      let arms ← tailArms current traits matched.arms
      .ok (.checkedMatchBody { matched with arms := arms })

end

def CheckedExit.recurs : CheckedExit → Bool
  | .recurWith _ _ => true
  | .returnExpression _ => false

def CheckedBody.bodyRecurs : CheckedBody → Bool
  | .checkedValueBody exit => exit.recurs
  | .checkedMatchBody matched => matched.arms.any (·.body.recurs)

/-- Of the parsed function only its tail annotation is read. -/
def checkExecution (tailAnnotated : Option Span) (parameters : List TypeParameterId)
    (statements : List CheckedStatement) (body : CheckedBody) (current : FunctionId)
    (traits : AcceptedTraits) : Except CheckError CheckedExecution :=
  match tailAnnotated with
  | none => .ok ⟨.ordinaryCalls, body⟩
  | some annotated =>
      if parameters.isEmpty then do
        rejectSelfCalls current traits (statementExpressions statements)
        let loopBody ← tailBody current traits body
        if loopBody.bodyRecurs then .ok ⟨.selfTailLoop annotated, loopBody⟩
        else .error (recursionError annotated .noSelfRecursion)
      else .error (recursionError annotated .genericTailRecursionUnsupported)

/-! ## What the check accepts -/

def CheckedBody.exits : CheckedBody → List CheckedExit
  | .checkedValueBody exit => [exit]
  | .checkedMatchBody matched => matched.arms.map (·.body)

/-- The expressions of a body: those its statements evaluate, its scrutinee, and what its
exits return or pass on. -/
def bodyExpressions (statements : List CheckedStatement) (body : CheckedBody) : List CheckedExpr :=
  statementExpressions statements ++
    match body with
    | .checkedValueBody exit => exit.exitExpressions
    | .checkedMatchBody matched => matched.scrutinee :: matched.arms.flatMap fun arm =>
        statementExpressions arm.statements ++ arm.body.exitExpressions

/-- An exit and the one it becomes: a self call turns into a backedge with the call's
operands, in order, and anything else stays. -/
inductive TailExit (current : FunctionId) (traits : AcceptedTraits) :
    CheckedExit → CheckedExit → Prop where
  | backedge {call : CheckedCall} {arguments : List CheckedExpr} (valueType : TypeRef) (span : Span)
      (self : call.isSelfCall current traits = true)
      (operands : call.operands = arguments.map .valueOperand) :
      TailExit current traits (.returnExpression ⟨.invokeFunction call, valueType, span⟩)
        (.recurWith arguments span)
  | stays (value : CheckedExpr) : TailExit current traits (.returnExpression value)
      (.returnExpression value)

structure TailArm (current : FunctionId) (traits : AcceptedTraits) (arm rewritten : CheckedArm) :
    Prop where
  id : rewritten.id = arm.id
  inputs : rewritten.inputs = arm.inputs
  statements : rewritten.statements = arm.statements
  body : TailExit current traits arm.body rewritten.body

inductive TailBody (current : FunctionId) (traits : AcceptedTraits) :
    CheckedBody → CheckedBody → Prop where
  | value {exit rewritten : CheckedExit} (body : TailExit current traits exit rewritten) :
      TailBody current traits (.checkedValueBody exit) (.checkedValueBody rewritten)
  | matched {scrutinee : CheckedExpr} {selection : CheckedSelection} {arms rewritten : List CheckedArm}
      (bodies : List.Forall₂ (TailArm current traits) arms rewritten) :
      TailBody current traits (.checkedMatchBody ⟨scrutinee, selection, arms⟩)
        (.checkedMatchBody ⟨scrutinee, selection, rewritten⟩)

/-- A body as resolution builds it: its exits return, and a call of an annotated function
passes values only, since such a function takes no callable. -/
def Resolved (current : FunctionId) (traits : AcceptedTraits) (body : CheckedBody) : Prop :=
  ∀ exit ∈ body.exits, ∃ value, exit = .returnExpression value ∧
    ∀ call, value.form = .invokeFunction call → call.isSelfCall current traits = true →
      ∃ arguments : List CheckedExpr, call.operands = arguments.map .valueOperand

section

variable {current : FunctionId} {traits : AcceptedTraits}

def SelfCallFree (current : FunctionId) (traits : AcceptedTraits) (values : List CheckedExpr) :
    Prop :=
  ∀ value ∈ values, ∀ inner, Subexpression value inner → ¬ IsSelfCall current traits inner

theorem SelfCallFree.append {first second : List CheckedExpr}
    (h : SelfCallFree current traits first) (h' : SelfCallFree current traits second) :
    SelfCallFree current traits (first ++ second) := by
  intro value hvalue
  rcases List.mem_append.mp hvalue with hvalue | hvalue
  · exact h value hvalue
  · exact h' value hvalue

theorem tailCall_cases (current : FunctionId) (traits : AcceptedTraits) (value : CheckedExpr) :
    (∃ call, value.form = .invokeFunction call ∧ call.isSelfCall current traits = true ∧
      tailCall current traits value = some ⟨call.operands.filterMap (·.argument?), value.span⟩) ∨
    (¬ IsSelfCall current traits value ∧ tailCall current traits value = none) := by
  unfold tailCall
  split
  · next call hcall =>
    by_cases hself : call.isSelfCall current traits = true
    · exact .inl ⟨call, hcall, hself, if_pos hself⟩
    · refine .inr ⟨?_, if_neg hself⟩
      rintro ⟨other, hother, hselfOther⟩
      cases hcall.symm.trans hother
      exact hself hselfOther
  · next hform =>
    refine .inr ⟨?_, rfl⟩
    rintro ⟨call, hcall, -⟩
    exact hform call hcall

theorem filterMap_valueOperand (arguments : List CheckedExpr) :
    (arguments.map CheckedCallOperand.valueOperand).filterMap (·.argument?) = arguments := by
  rw [List.filterMap_map]
  exact List.filterMap_some

mutual

theorem nestedTail_free : ∀ value : CheckedExpr, nestedTail current traits value = .ok () →
    SelfCallFree current traits [value]
  | ⟨form, valueType, span⟩, h => by
      unfold nestedTail at h
      split at h
      · cases h
      · next hnone =>
        have hself : ¬ IsSelfCall current traits ⟨form, valueType, span⟩ := by
          rcases tailCall_cases current traits ⟨form, valueType, span⟩ with
            ⟨call, -, -, hsome⟩ | ⟨hself, -⟩
          · rw [hnone] at hsome
            cases hsome
          · exact hself
        split at h
        · next scrutinee selection arms carried =>
          obtain ⟨_, hscrutinee, harms⟩ := Except.peel h
          have hfree := nestedArms_free arms harms
          intro value hvalue inner hinner
          obtain rfl := List.mem_singleton.mp hvalue
          rcases Relation.ReflTransGen.cases_head hinner with rfl | ⟨child, hchild, hrest⟩
          · exact hself
          · cases hchild with
            | scrutinee =>
              exact rejectSelfCalls_eq_ok.mp hscrutinee _ (List.mem_singleton_self _) inner hrest
            | armStatement mem listed inside =>
              refine hfree child (List.mem_flatMap.mpr ⟨_, mem, List.mem_append_left _ ?_⟩) inner hrest
              exact mem_statementExpressions.mpr ⟨_, listed, inside.mem_expressions⟩
            | armValue mem =>
              refine hfree _ (List.mem_flatMap.mpr ⟨_, mem, List.mem_append_right _ ?_⟩) inner hrest
              exact List.mem_singleton_self _
        · exact rejectSelfCalls_eq_ok.mp h

theorem nestedArms_free : ∀ arms : List CheckedJoinArm, nestedArms current traits arms = .ok () →
    SelfCallFree current traits (arms.flatMap (·.expressions))
  | [], _ => fun _ hvalue => absurd hvalue List.not_mem_nil
  | ⟨id, inputs, statements, value⟩ :: arms, h => by
      obtain ⟨_, hstatements, h⟩ := Except.peel h
      obtain ⟨_, hvalue, harms⟩ := Except.peel h
      have hfirst : SelfCallFree current traits (statementExpressions statements ++ [value]) :=
        .append (rejectSelfCalls_eq_ok.mp hstatements) (nestedTail_free value hvalue)
      rw [List.flatMap_cons]
      exact hfirst.append (nestedArms_free arms harms)

end

/-! ## Exits and bodies -/

theorem tailExit_spec {exit rewritten : CheckedExit} {value : CheckedExpr}
    (hexit : exit = .returnExpression value)
    (hvalues : ∀ call, value.form = .invokeFunction call → call.isSelfCall current traits = true →
      ∃ arguments : List CheckedExpr, call.operands = arguments.map .valueOperand)
    (h : tailExit current traits exit = .ok rewritten) :
    TailExit current traits exit rewritten ∧
      SelfCallFree current traits rewritten.exitExpressions := by
  subst hexit
  unfold tailExit at h
  rcases tailCall_cases current traits value with
    ⟨call, hcall, hself, htail⟩ | ⟨hself, htail⟩
  · obtain ⟨arguments, hoperands⟩ := hvalues call hcall hself
    simp only [htail] at h
    obtain ⟨_, hrejected, h⟩ := Except.peel h
    cases h
    rw [hoperands, filterMap_valueOperand] at hrejected ⊢
    refine ⟨?_, rejectSelfCalls_eq_ok.mp hrejected⟩
    obtain ⟨form, valueType, span⟩ := value
    obtain rfl : form = .invokeFunction call := hcall
    exact .backedge valueType span hself hoperands
  · simp only [htail] at h
    obtain ⟨_, hnested, h⟩ := Except.peel h
    cases h
    exact ⟨.stays value, nestedTail_free value hnested⟩

theorem tailArm_spec {arm rewritten : CheckedArm} {value : CheckedExpr}
    (hexit : arm.body = .returnExpression value)
    (hvalues : ∀ call, value.form = .invokeFunction call → call.isSelfCall current traits = true →
      ∃ arguments : List CheckedExpr, call.operands = arguments.map .valueOperand)
    (h : tailArm current traits arm = .ok rewritten) :
    TailArm current traits arm rewritten ∧ SelfCallFree current traits
      (statementExpressions rewritten.statements ++ rewritten.body.exitExpressions) := by
  obtain ⟨_, hstatements, h⟩ := Except.peel h
  obtain ⟨exit, hexits, h⟩ := Except.peel h
  cases h
  obtain ⟨hbody, hfree⟩ := tailExit_spec hexit hvalues hexits
  exact ⟨⟨rfl, rfl, rfl, hbody⟩, .append (rejectSelfCalls_eq_ok.mp hstatements) hfree⟩

theorem tailArms_spec : ∀ {arms rewritten : List CheckedArm},
    (∀ arm ∈ arms, ∃ value, arm.body = .returnExpression value ∧
      ∀ call, value.form = .invokeFunction call → call.isSelfCall current traits = true →
        ∃ arguments : List CheckedExpr, call.operands = arguments.map .valueOperand) →
    tailArms current traits arms = .ok rewritten →
    List.Forall₂ (TailArm current traits) arms rewritten ∧
      SelfCallFree current traits (rewritten.flatMap fun arm =>
        statementExpressions arm.statements ++ arm.body.exitExpressions) := by
  intro arms
  induction arms with
  | nil =>
    intro rewritten _ h
    cases h
    exact ⟨.nil, fun _ hvalue => absurd hvalue List.not_mem_nil⟩
  | cons arm arms ih =>
    intro rewritten hresolved h
    unfold tailArms at h
    rw [List.mapM_cons] at h
    obtain ⟨first, hfirst, h⟩ := Except.peel h
    obtain ⟨rest, hrest, h⟩ := Except.peel h
    cases h
    obtain ⟨value, hexit, hvalues⟩ := hresolved arm List.mem_cons_self
    obtain ⟨harm, hfree⟩ := tailArm_spec hexit hvalues hfirst
    obtain ⟨harms, hfreeRest⟩ := ih (fun other hother =>
      hresolved other (List.mem_cons_of_mem _ hother)) hrest
    rw [List.flatMap_cons]
    exact ⟨.cons harm harms, hfree.append hfreeRest⟩

theorem tailBody_spec {body rewritten : CheckedBody} {statements : List CheckedStatement}
    (hresolved : Resolved current traits body)
    (hstatements : rejectSelfCalls current traits (statementExpressions statements) = .ok ())
    (h : tailBody current traits body = .ok rewritten) :
    TailBody current traits body rewritten ∧
      SelfCallFree current traits (bodyExpressions statements rewritten) := by
  cases body with
  | checkedValueBody exit =>
    obtain ⟨after, hexit, h⟩ := Except.peel h
    cases h
    obtain ⟨value, hvalue, hvalues⟩ := hresolved exit (List.mem_singleton_self exit)
    obtain ⟨hbody, hfree⟩ := tailExit_spec hvalue hvalues hexit
    exact ⟨.value hbody, .append (rejectSelfCalls_eq_ok.mp hstatements) hfree⟩
  | checkedMatchBody matched =>
    obtain ⟨_, hscrutinee, h⟩ := Except.peel h
    obtain ⟨arms, harms, h⟩ := Except.peel h
    cases h
    obtain ⟨hbodies, hfree⟩ := tailArms_spec
      (fun arm harm => hresolved arm.body (List.mem_map_of_mem harm)) harms
    refine ⟨.matched hbodies, .append (rejectSelfCalls_eq_ok.mp hstatements) ?_⟩
    exact .append (rejectSelfCalls_eq_ok.mp hscrutinee) hfree

end

/-! ## The rewritten body computes the same -/

section

variable {World : Type} {context : BodyContext World} {current : FunctionId}

theorem evalOperands_values (arguments : List CheckedExpr) :
    evalOperands context (arguments.map .valueOperand) = evalExprs context arguments := by
  induction arguments with
  | nil => rfl
  | cons argument arguments ih => simp [evalOperands, evalExprs, evalOperand, ih]

theorem evalTarget_self {call : CheckedCall} (h : call.isSelfCall current context.traits = true) :
    ∃ arguments, evalTarget context call.target = pure (.function current arguments) := by
  unfold CheckedCall.isSelfCall at h
  split at h
  · next method htarget =>
    split at h
    · next function arguments hbody =>
      obtain rfl : function = current := of_decide_eq_true h
      refine ⟨arguments, ?_⟩
      rw [htarget]
      simp [evalTarget, methodCallee, hbody]
    · cases h
  · next id arguments htarget =>
    obtain rfl : id = current := of_decide_eq_true h
    refine ⟨arguments, ?_⟩
    rw [htarget]
    rfl
  all_goals cases h

section

variable (hgeneric : ∀ arguments, context.call (.function current arguments) = context.call (.function current []))

include hgeneric

/-- A backedge does what the call it replaces does. -/
theorem evalExit_tail {exit rewritten : CheckedExit}
    (h : TailExit current context.traits exit rewritten) :
    evalExit context (.function current []) rewritten =
      evalExit context (.function current []) exit := by
  cases h with
  | stays value => rfl
  | @backedge call arguments valueType span self operands =>
    obtain ⟨typeArguments, htarget⟩ := evalTarget_self self
    have hinvoke : invoke context (.function current typeArguments) =
        invoke context (.function current []) := by
      funext values
      unfold invoke
      rw [hgeneric typeArguments]
    obtain ⟨target, callOperands, callSpan⟩ := call
    obtain rfl : callOperands = arguments.map .valueOperand := operands
    simp only [evalExit, evalExpr, evalForm, evalCall]
    rw [htarget, evalOperands_values, ← hinvoke]
    rfl

theorem evalArms_tail {arms rewritten : List CheckedArm}
    (h : List.Forall₂ (TailArm current context.traits) arms rewritten) (arm : MatchArmId)
    (values : List BodyValue) :
    evalArms context (.function current []) arm values rewritten =
      evalArms context (.function current []) arm values arms := by
  induction h with
  | nil => rfl
  | @cons first second arms rewritten hfirst _ ih =>
    obtain ⟨id, inputs, statements, body⟩ := first
    obtain ⟨id', inputs', statements', body'⟩ := second
    obtain ⟨rfl, rfl, rfl, hbody⟩ := hfirst
    simp only [evalArms]
    rw [evalExit_tail hgeneric hbody, ih]

theorem evalBody_tail {body rewritten : CheckedBody}
    (h : TailBody current context.traits body rewritten) :
    evalBody context (.function current []) rewritten =
      evalBody context (.function current []) body := by
  cases h with
  | value hbody => exact evalExit_tail hgeneric hbody
  | matched hbodies =>
    simp only [evalBody]
    simp [evalArms_tail hgeneric hbodies]

end

end

/-- What an accepted annotation guarantees of a body: no direct self call is left but its
backedges, each backedge has the operands of the call it replaces, and the body computes
what it did. -/
structure TailRewritten (current : FunctionId) (traits : AcceptedTraits)
    (statements : List CheckedStatement) (body rewritten : CheckedBody) : Prop where
  free : SelfCallFree current traits (bodyExpressions statements rewritten)
  exits : TailBody current traits body rewritten
  recurs : rewritten.bodyRecurs = true
  same : ∀ (World : Type) (context : BodyContext World), context.traits = traits →
    (∀ arguments, context.call (.function current arguments) =
      context.call (.function current [])) →
    ∀ arguments world, runBody context (.function current []) statements rewritten arguments world =
      runBody context (.function current []) statements body arguments world

/-- **Tail recursion is rewritten exactly.** -/
theorem checkExecution_rewrites {annotated : Span} {parameters : List TypeParameterId}
    {statements : List CheckedStatement} {body : CheckedBody} {current : FunctionId}
    {traits : AcceptedTraits} {checked : CheckedExecution} (hresolved : Resolved current traits body)
    (h : checkExecution (some annotated) parameters statements body current traits =
      .ok checked) :
    parameters = [] ∧ TailRewritten current traits statements body checked.body := by
  unfold checkExecution at h
  simp only at h
  split at h
  · next hnone =>
    obtain ⟨_, hstatements, h⟩ := Except.peel h
    obtain ⟨rewritten, hrewritten, h⟩ := Except.peel h
    split at h
    · next hrecurs =>
      cases h
      obtain ⟨hbody, hfree⟩ := tailBody_spec hresolved hstatements hrewritten
      refine ⟨List.isEmpty_iff.mp hnone, hfree, hbody, hrecurs, ?_⟩
      intro World context htraits hgeneric arguments world
      subst htraits
      unfold runBody
      rw [evalBody_tail hgeneric hbody]
    · cases h
  · cases h

def noTraits : AcceptedTraits := ⟨[], ⟨[], []⟩, none⟩

theorem rejectSelfCalls_single {value : CheckedExpr} {current : FunctionId} {traits : AcceptedTraits}
    (h : selfCallIn current traits value = none) :
    rejectSelfCalls current traits [value] = .ok () := by
  unfold rejectSelfCalls firstSelfCall
  rw [List.findSome?_cons, h]
  rfl

def integerForm (form : CheckedForm) : CheckedExpr := ⟨form, .intType, compilerSpan⟩

def untilZeroArms (exit : CheckedExit) : List CheckedArm :=
  [⟨0, [], [], .returnExpression (integerForm (.readBinding 0))⟩, ⟨1, [], [], exit⟩]

/-- A match of the parameter, which returns it when it is `0`. -/
def untilZero (exit : CheckedExit) : CheckedBody :=
  .checkedMatchBody ⟨integerForm (.readBinding 0),
    ⟨[.enterArm 0 [], .enterArm 1 [], .testLiteral (.mk .intType .matchRoot) (.exactInt 0) 0 1], 2⟩,
    untilZeroArms exit⟩

/-- A call of function `0` on `0`. -/
def callZero : CheckedExpr := integerForm (.invokeFunction
  ⟨.userFunction 0 [], [.valueOperand (integerForm (.literalInteger 0))], compilerSpan⟩)

/-- A call in the last arm of the final match becomes a backedge with its operand. -/
theorem checkExecution_rewrites_callSelf : ([] : List TypeParameterId) = [] ∧
      TailRewritten 0 noTraits [] (untilZero (.returnExpression callZero))
        (untilZero (.recurWith [integerForm (.literalInteger 0)] compilerSpan)) := by
  have hread : rejectSelfCalls 0 noTraits [integerForm (.readBinding 0)] = .ok () :=
    rejectSelfCalls_single (by rw [selfCallIn_eq]; rfl)
  have hzero : rejectSelfCalls 0 noTraits [integerForm (.literalInteger 0)] = .ok () :=
    rejectSelfCalls_single (by rw [selfCallIn_eq]; rfl)
  have hbase : tailExit 0 noTraits (.returnExpression (integerForm (.readBinding 0))) =
      .ok (.returnExpression (integerForm (.readBinding 0))) :=
    Except.bind_eq_ok.mpr ⟨(), hread, rfl⟩
  have hself : tailExit 0 noTraits (.returnExpression callZero) =
      .ok (.recurWith [integerForm (.literalInteger 0)] compilerSpan) :=
    Except.bind_eq_ok.mpr ⟨(), hzero, rfl⟩
  have harms : tailArms 0 noTraits (untilZeroArms (.returnExpression callZero)) =
      .ok (untilZeroArms (.recurWith [integerForm (.literalInteger 0)] compilerSpan)) := by
    simp only [tailArms, tailArm, untilZeroArms, List.mapM_cons, hbase, hself]
    rfl
  have hchecked : checkExecution (some compilerSpan) [] [] (untilZero (.returnExpression callZero))
      0 noTraits = .ok ⟨.selfTailLoop compilerSpan, _⟩ :=
    Except.bind_eq_ok.mpr ⟨(), rfl, Except.bind_eq_ok.mpr ⟨_, Except.bind_eq_ok.mpr
      ⟨(), hread, Except.bind_eq_ok.mpr ⟨_, harms, rfl⟩⟩, rfl⟩⟩
  refine checkExecution_rewrites (fun exit hexit => ?_) hchecked
  rcases List.mem_pair.mp hexit with rfl | rfl
  · exact ⟨_, rfl, fun call hcall => by cases hcall⟩
  · refine ⟨_, rfl, fun call hcall _ => ?_⟩
    cases hcall
    exact ⟨[_], rfl⟩

/-! ## Lambda bodies -/

/-- A call of function `0` without operands. -/
def callSelf : CheckedExpr :=
  ⟨.invokeFunction ⟨.userFunction 0 [], [], compilerSpan⟩, .voidType, compilerSpan⟩

/-- A call of function `1` that passes lambda `0`. -/
def passLambda : CheckedExpr :=
  ⟨.invokeFunction ⟨.userFunction 1 [],
    [.callableOperand ⟨1, 0⟩ (.lambdaCallable 0 []) compilerSpan], compilerSpan⟩, .voidType,
    compilerSpan⟩

/-- The body of lambda `0`: a call of function `0`. -/
def lambdaCallsSelf : CheckedLambda := ⟨[], .checkedValueBody (.returnExpression callSelf)⟩

/-- The lambda that a statement of an accepted body passes may call the function: its body is
a row of its own, which the check does not read. -/
theorem checkExecution_skips_lambdas : ∃ checked,
    checkExecution (some compilerSpan) [] [.discardExpression passLambda]
      (.checkedValueBody (.returnExpression callSelf)) 0 noTraits = .ok checked ∧
    passLambda ∈ bodyExpressions [.discardExpression passLambda] checked.body ∧
    CreatesLambda 0 passLambda.form ∧ [lambdaCallsSelf][0]? = some lambdaCallsSelf ∧
    callSelf ∈ bodyExpressions lambdaCallsSelf.statements lambdaCallsSelf.body ∧
    IsSelfCall 0 noTraits callSelf := by
  refine ⟨⟨.selfTailLoop compilerSpan, .checkedValueBody (.recurWith [] compilerSpan)⟩, ?_,
    List.mem_cons_self, .passed (List.mem_singleton_self _), rfl, List.mem_singleton_self _,
    ⟨_, rfl, rfl⟩⟩
  have hprefix : rejectSelfCalls 0 noTraits [passLambda] = .ok () :=
    rejectSelfCalls_single (by rw [selfCallIn_eq]; rfl)
  exact Except.bind_eq_ok.mpr ⟨(), hprefix, rfl⟩

end Blorp.Check
