import Blorp.Check.Evaluation
import Blorp.Check.FreezingChains

/-!
# Frozen chains and texts

The parts of an interpolated string freeze in order into a balanced tree of concatenations.
Evaluated, the tree runs every part once, in written order, and yields their texts joined
(`freezeInterpolated_evaluates`); with it, what the chain loop has in common with the
recursion that it replaces (`freezePendingValue_recursion`).
-/

namespace Blorp.Check.Freezing

open Fuel

/-! ## Runs -/

section
variable {World α β γ : Type}

theorem Run.bind_assoc (run : Run World α) (next : α → Run World β) (last : β → Run World γ) :
    (run >>= next >>= last) = run >>= fun a => next a >>= last := by
  funext frame
  simp only [bind]
  cases run frame with
  | none => rfl
  | some result =>
    obtain ⟨value, after⟩ := result
    cases value with
    | ok a => rfl
    | error exit => rfl

theorem Run.bind_pure (run : Run World α) : (run >>= pure) = run := by
  funext frame
  simp only [bind]
  cases run frame with
  | none => rfl
  | some result =>
    obtain ⟨value, after⟩ := result
    cases value <;> rfl

theorem Run.pure_bind (a : α) (next : α → Run World β) : (pure a >>= next) = next a := rfl

theorem Run.bind_congr {run : Run World α} {first second : α → Run World β}
    (h : ∀ frame a after, run frame = some (.ok a, after) → first a = second a) :
    (run >>= first) = run >>= second := by
  funext frame
  simp only [bind]
  cases hrun : run frame with
  | none => rfl
  | some result =>
    obtain ⟨value, after⟩ := result
    cases value with
    | ok a => exact congrFun (h frame a after hrun) after
    | error exit => rfl

theorem Run.bind_eq_ok {run : Run World α} {next : α → Run World β} {frame last : Frame World}
    {b : β} (h : (run >>= next) frame = some (.ok b, last)) :
    ∃ a after, run frame = some (.ok a, after) ∧ next a after = some (.ok b, last) := by
  simp only [bind] at h
  cases hrun : run frame with
  | none =>
    rw [hrun] at h
    cases h
  | some result =>
    obtain ⟨value, after⟩ := result
    rw [hrun] at h
    cases value with
    | ok a => exact ⟨a, after, rfl, h⟩
    | error exit => cases h

end

/-! ## Texts -/

def textValue (text : String) : BodyValue := .literal (.exactBytes text)

def textOf : BodyValue → String
  | .literal (.exactBytes text) => text
  | _ => ""

section
variable {World : Type} (run : BodyContext World)

/-- What calling the concatenation of two texts means. -/
def Concatenates : Prop :=
  ∀ first second world, run.call (.runtime .stringConcat) [textValue first, textValue second] world =
    some (textValue (first ++ second), world)

/-- An expression of type String: a value it yields is a text. -/
def YieldsText (part : CheckedExpr) : Prop :=
  ∀ frame value after, evalExpr run part frame = some (.ok value, after) →
    ∃ text, value = textValue text

def evalParts (parts : List CheckedExpr) : Run World BodyValue := do
  let values ← evalExprs run parts
  return textValue (String.join (values.map textOf))

theorem evalParts_nil : evalParts run [] = pure (textValue "") := by
  unfold evalParts
  simp only [evalExprs]
  rfl

theorem evalParts_singleton {part : CheckedExpr} (h : YieldsText run part) :
    evalParts run [part] = evalExpr run part := by
  unfold evalParts
  simp only [evalExprs, Run.bind_assoc, Run.pure_bind]
  conv_rhs => rw [← Run.bind_pure (evalExpr run part)]
  refine Run.bind_congr fun frame value after hvalue => ?_
  obtain ⟨text, rfl⟩ := h frame value after hvalue
  simp [textOf, textValue, String.join]

theorem evalExprs_append (first second : List CheckedExpr) :
    evalExprs run (first ++ second) = (evalExprs run first >>= fun values =>
      evalExprs run second >>= fun others => pure (values ++ others)) := by
  induction first with
  | nil => simp [evalExprs, Run.pure_bind, Run.bind_pure]
  | cons part parts ih => simp [evalExprs, ih, Run.bind_assoc, Run.pure_bind]

theorem evalParts_append (first second : List CheckedExpr) :
    evalParts run (first ++ second) = (evalParts run first >>= fun left =>
      evalParts run second >>= fun right =>
        pure (textValue (textOf left ++ textOf right))) := by
  unfold evalParts
  rw [evalExprs_append]
  simp [Run.bind_assoc, Run.pure_bind, textOf, textValue]

variable {parts : List CheckedExpr}

theorem evalParts_yieldsText {frame after : Frame World} {value : BodyValue}
    (h : evalParts run parts frame = some (.ok value, after)) : ∃ text, value = textValue text := by
  obtain ⟨values, middle, -, hlast⟩ := Run.bind_eq_ok h
  cases hlast
  exact ⟨_, rfl⟩

theorem evalExpr_concat (hrun : Concatenates run) {left right : CheckedExpr} {span : Span}
    {first second : List CheckedExpr} (hleft : evalExpr run left = evalParts run first)
    (hright : evalExpr run right = evalParts run second) :
    evalExpr run ⟨.invokeFunction ⟨.runtimeFunction .stringConcat,
      [.valueOperand left, .valueOperand right], span⟩, .stringType, span⟩ =
      evalParts run (first ++ second) := by
  rw [evalParts_append]
  simp only [evalExpr, evalForm, evalCall, evalTarget, evalOperands, evalOperand, hleft, hright,
    Run.bind_assoc, Run.pure_bind]
  refine Run.bind_congr fun frame value after hvalue => ?_
  refine Run.bind_congr fun frame' value' after' hvalue' => ?_
  obtain ⟨text, rfl⟩ := evalParts_yieldsText run hvalue
  obtain ⟨text', rfl⟩ := evalParts_yieldsText run hvalue'
  funext last
  simp only [invoke, hrun text text' last.world, Option.map_some]
  rfl

/-- **The balanced tree**: `count` parts from `first` on, each evaluated once in order. -/
theorem concatCheckedParts_evaluates (hrun : Concatenates run)
    (htexts : ∀ part ∈ parts, YieldsText run part) (span : Span) : ∀ count first : Nat,
    first + count ≤ parts.length →
    ∃ joined, concatCheckedParts parts first count span = .ok joined ∧
      evalExpr run joined = evalParts run ((parts.drop first).take count) := by
  intro count
  induction count using Nat.strong_induction_on with
  | _ count ih =>
    intro first hbound
    rw [concatCheckedParts]
    by_cases hzero : count = 0
    · subst hzero
      rw [if_pos rfl]
      refine ⟨_, rfl, ?_⟩
      rw [List.take_zero, evalParts_nil]
      rfl
    · rw [if_neg hzero]
      by_cases hone : count = 1
      · subst hone
        have hlt : first < parts.length := by omega
        rw [if_pos rfl, List.getElem?_eq_getElem hlt]
        refine ⟨parts[first], rfl, ?_⟩
        have hpart : (parts.drop first).take 1 = [parts[first]] := by
          rw [List.drop_eq_getElem_cons hlt]
          rfl
        rw [hpart, evalParts_singleton run (htexts _ (List.getElem_mem hlt))]
      · rw [if_neg hone]
        obtain ⟨left, hleft, hevalLeft⟩ := ih (count / 2) (by omega) first (by omega)
        obtain ⟨right, hright, hevalRight⟩ :=
          ih (count - count / 2) (by omega) (first + count / 2) (by omega)
        rw [hleft, Outcome.ok_bind, hright, Outcome.ok_bind]
        refine ⟨_, rfl, ?_⟩
        rw [evalExpr_concat run hrun hevalLeft hevalRight, ← List.drop_drop]
        congr 1
        have hsplit : count = count / 2 + (count - count / 2) := by omega
        conv_rhs => rw [hsplit, List.take_add]

end

variable {freeze : PendingValue → Outcome FreezeError CheckedExpr} {parts : List PendingValue}

theorem freezeInterpolatedPart_eq_ok {part : PendingValue} {value : CheckedExpr}
    (h : freezeInterpolatedPart freeze part = .ok value) :
    freeze part = .ok value ∧ value.valueType = .stringType := by
  unfold freezeInterpolatedPart at h
  obtain ⟨frozen, hfrozen, h⟩ := Outcome.peel h
  split at h
  · rename_i htype
    cases h
    exact ⟨hfrozen, htype⟩
  · cases h

theorem mapM_freezeInterpolatedPart : ∀ {parts : List PendingValue} {values : List CheckedExpr},
      parts.mapM (freezeInterpolatedPart freeze) = .ok values →
      parts.mapM freeze = .ok values ∧ ∀ value ∈ values, value.valueType = .stringType := by
  intro parts
  induction parts with
  | nil =>
    intro values h
    cases h
    exact ⟨rfl, by simp⟩
  | cons part parts ih =>
    intro values h
    rw [List.mapM_cons] at h
    obtain ⟨first, hfirst, h⟩ := Outcome.peel h
    obtain ⟨rest, hrest, h⟩ := Outcome.peel h
    cases h
    obtain ⟨hfreeze, htype⟩ := freezeInterpolatedPart_eq_ok hfirst
    obtain ⟨hothers, htypes⟩ := ih hrest
    refine ⟨by rw [List.mapM_cons, hfreeze, hothers]; rfl, fun value hmem => ?_⟩
    rcases List.mem_cons.mp hmem with rfl | hmem
    · exact htype
    · exact htypes value hmem

theorem mapM_freezePendingValue_settles {context : FreezeContext} {bound : Nat}
    {values : List CheckedExpr} (h : parts.mapM (freezePendingValue context bound) = .ok values) :
    Outcome.Settles (fun fuel => parts.mapM (freezePendingValue context fuel)) (.ok values) := by
  have hrecursion : Outcome.Settles (fun fuel => parts.mapM (freezeRecursively context fuel))
      (.ok values) :=
    (Outcome.Follows.mapM parts fun part _ =>
      freezePendingValue_follows bound part (fun he : False => he.elim)).value values h
  obtain ⟨-, enough, henough⟩ := hrecursion
  exact (Outcome.Follows.mapM parts fun part _ =>
    freezeRecursively_follows enough part (fun he : False => he.elim)).value values
      (henough enough (Nat.le_refl enough))

/-- **An interpolated string** is its parts, frozen in order; evaluated, it runs each of them
once, in written order, and yields their texts joined. -/
theorem freezeInterpolated_evaluates {context : FreezeContext} {span : Span} {joined : CheckedExpr}
    (h : Outcome.Settles (fun fuel => freezeInterpolated (freezePendingValue context fuel) parts
      span) (.ok joined)) :
    ∃ values, Outcome.Settles (fun fuel => parts.mapM (freezePendingValue context fuel))
        (.ok values) ∧
      (∀ value ∈ values, value.valueType = .stringType) ∧
      ∀ (World : Type) (run : BodyContext World), Concatenates run →
        (∀ value ∈ values, YieldsText run value) →
        evalExpr run joined = evalParts run values := by
  obtain ⟨-, bound, hbound⟩ := h
  obtain ⟨values, hvalues, hjoined⟩ :=
    Outcome.peel (hbound bound (Nat.le_refl bound))
  obtain ⟨hfrozen, htypes⟩ := mapM_freezeInterpolatedPart hvalues
  refine ⟨values, mapM_freezePendingValue_settles hfrozen, htypes, ?_⟩
  intro World run hrun htexts
  obtain ⟨tree, htree, hevaluates⟩ :=
    concatCheckedParts_evaluates run hrun htexts span values.length 0 (by omega)
  rw [htree] at hjoined
  cases hjoined
  rw [hevaluates, List.drop_zero, List.take_length]

/-! ## The chain loop -/

/-- **The chain loop is the recursion**: it returns the same expressions, and where every
link has a parameter for its first argument also the same errors; and an interpolated string
evaluates its parts once each, in written order, to the joined texts. -/
theorem freezePendingValue_recursion (context : FreezeContext) (value : PendingValue) :
    (∀ expression,
      Outcome.Settles (fun fuel => freezePendingValue context fuel value) (.ok expression) ↔
        Outcome.Settles (fun fuel => freezeRecursively context fuel value) (.ok expression)) ∧
    (Supplied context value → ∀ outcome,
      Outcome.Settles (fun fuel => freezePendingValue context fuel value) outcome ↔
        Outcome.Settles (fun fuel => freezeRecursively context fuel value) outcome) ∧
    ∀ (parts : List PendingValue) (span : Span) (joined : CheckedExpr),
      Outcome.Settles
        (fun fuel => freezeInterpolated (freezePendingValue context fuel) parts span)
        (.ok joined) →
      ∃ values, Outcome.Settles (fun fuel => parts.mapM (freezePendingValue context fuel))
          (.ok values) ∧
        (∀ part ∈ values, part.valueType = .stringType) ∧
        ∀ (World : Type) (run : BodyContext World), Concatenates run →
          (∀ part ∈ values, YieldsText run part) →
          evalExpr run joined = evalParts run values := by
  refine ⟨fun expression => ⟨?_, ?_⟩, fun hsupplied outcome => ⟨?_, ?_⟩, ?_⟩
  · exact Outcome.Follows.settles_ok fun bound =>
      freezePendingValue_follows bound value (fun he : False => he.elim)
  · exact Outcome.Follows.settles_ok fun bound =>
      freezeRecursively_follows bound value (fun he : False => he.elim)
  · exact Outcome.Follows.settles
      (fun bound => freezePendingValue_follows bound value fun _ : True => hsupplied) trivial
  · exact Outcome.Follows.settles
      (fun bound => freezeRecursively_follows bound value fun _ : True => hsupplied) trivial
  · exact fun parts span joined => freezeInterpolated_evaluates

/-! ## A chain of three calls -/

/-- Every type is solved and nothing is captured; types are at most ten deep. -/
def chainContext : FreezeContext where
  slots := []
  captures := .noCaptures
  constructions := []
  assumptions := []
  traits := ⟨⟨[], ⟨[], []⟩, none⟩, []⟩
  declarations := fun _ => none
  fuel := 10

/-- The call of a function that returns a tuple, and after it the tuple's first element. -/
def elementOfCall (function : FunctionId) (parameters : List TypeRef)
    (arguments : List PendingValue) (element : TypeRef) : PendingValue where
  span := compilerSpan
  base := .pendingDirectCall
    { target := .pendingDeclared function
      signature := ⟨[], [], .pure, parameters.map fun written => ⟨written, compilerSpan⟩,
        ⟨.tupleType [element], compilerSpan⟩⟩
      span := compilerSpan
      variableStart := 0 }
    arguments
  baseType := .acceptedType (.tupleType [element])
  baseSpan := compilerSpan
  operations := .pendingOperationLink
    ⟨.acceptedTupleElement 0, .acceptedType element, compilerSpan⟩ .noPendingOperations

def thunkType : TypeRef := .callableType .pure [] .intType

/-- `outer(middle(inner().0).0).0`, where `middle` takes a callable. -/
def callChain (outerParameter : TypeRef) : PendingValue :=
  elementOfCall 2 [outerParameter]
    [elementOfCall 1 [thunkType] [elementOfCall 0 [] [] thunkType] .intType] .stringType

def textPart (text : String) : PendingValue :=
  ⟨compilerSpan, .acceptedString text, .acceptedType .stringType, compilerSpan,
    .noPendingOperations⟩

theorem callChain_supplied (outerParameter : TypeRef) :
    Supplied chainContext (callChain outerParameter) := by
  refine supplied_of_children (fun call arguments first hbase _ => ?_) fun middle hmiddle => ?_
  · cases hbase
    exact List.cons_ne_nil _ _
  obtain rfl := List.mem_singleton.mp hmiddle
  refine supplied_of_children (fun call arguments first hbase _ => ?_) fun inner hinner => ?_
  · cases hbase
    exact List.cons_ne_nil _ _
  obtain rfl := List.mem_singleton.mp hinner
  refine supplied_of_children (fun call arguments first hbase hfirst => ?_) fun none hnone => ?_
  · cases hbase
    cases hfirst
  · cases hnone

/-- A link, frozen. -/
def checkedElement (function : FunctionId) (operands : List CheckedCallOperand)
    (element : TypeRef) : CheckedExpr :=
  ⟨.readTupleElement ⟨.invokeFunction ⟨.userFunction function [], operands, compilerSpan⟩,
    .tupleType [element], compilerSpan⟩ 0, element, compilerSpan⟩

def checkedChain : CheckedExpr :=
  checkedElement 2
    [.valueOperand (checkedElement 1
      [.callableOperand ⟨1, 0⟩ (.storedCallable (checkedElement 0 [] thunkType)) compilerSpan]
      .intType)]
    .stringType

theorem callChain_settles {parameter : TypeRef} {outcome : Outcome FreezeError CheckedExpr}
    (hends : outcome ≠ .timeout)
    (h : ∀ freeze, freezeLinkedValue chainContext freeze (callChain parameter) = outcome) :
    Outcome.Settles (fun fuel => freezePendingValue chainContext fuel (callChain parameter))
      outcome :=
  Outcome.Settles.succ (fun _ => h _) (.const hends)

def checkedText (text : String) : CheckedExpr := ⟨.literalString text, .stringType, compilerSpan⟩

theorem textParts_settle : Outcome.Settles
    (fun fuel => [textPart "a", textPart "b"].mapM (freezePendingValue chainContext fuel))
    (.ok [checkedText "a", checkedText "b"]) :=
  Outcome.Settles.succ (fun _ => rfl) Outcome.Settles.ok

def checkedJoin : CheckedExpr :=
  ⟨.invokeFunction ⟨.runtimeFunction .stringConcat,
    [.valueOperand (checkedText "a"), .valueOperand (checkedText "b")], compilerSpan⟩,
    .stringType, compilerSpan⟩

theorem interpolated_settles : Outcome.Settles
    (fun fuel => freezeInterpolated (freezePendingValue chainContext fuel)
      [textPart "a", textPart "b"] compilerSpan) (.ok checkedJoin) := by
  refine Outcome.Settles.succ (g := fun _ => .ok checkedJoin) (fun fuel => ?_) Outcome.Settles.ok
  show concatCheckedParts [checkedText "a", checkedText "b"] 0 2 compilerSpan = _
  simp [concatCheckedParts, present, checkedJoin]

/-- The chain freezes alike in both; so does its error when the last parameter is of another
type than the argument; and two texts are evaluated in order. -/
theorem freezePendingValue_recursion_callChain :
    Outcome.Settles (fun fuel => freezeRecursively chainContext fuel (callChain .intType))
        (.ok checkedChain) ∧
      Outcome.Settles (fun fuel => freezeRecursively chainContext fuel (callChain .stringType))
        (.err (.argumentTypeMismatch compilerSpan
          ⟨.stringType, ⟨.intType, compilerSpan⟩, 0, .annotationSite compilerSpan⟩)) ∧
      ∀ (World : Type) (run : BodyContext World), Concatenates run →
        evalExpr run checkedJoin = pure (textValue "ab") := by
  have hchain : Outcome.Settles
      (fun fuel => freezePendingValue chainContext fuel (callChain .intType)) (.ok checkedChain) := by
    refine callChain_settles (by simp) fun freeze => ?_
    rw [freezeLinkedValue_call rfl, freezeBelow_some rfl, freezeBelow_some rfl,
      freezeBelow_none rfl]
    rfl
  have hrefused : Outcome.Settles
      (fun fuel => freezePendingValue chainContext fuel (callChain .stringType))
      (.err (.argumentTypeMismatch compilerSpan
        ⟨.stringType, ⟨.intType, compilerSpan⟩, 0, .annotationSite compilerSpan⟩)) := by
    refine callChain_settles (by simp) fun freeze => ?_
    rw [freezeLinkedValue_call rfl, freezeBelow_some rfl, freezeBelow_some rfl,
      freezeBelow_none rfl]
    rfl
  have hboth := freezePendingValue_recursion chainContext (callChain .stringType)
  obtain ⟨values, hvalues, -, hevaluates⟩ := hboth.2.2 _ _ _ interpolated_settles
  have hsame := Outcome.Settles.unique hvalues textParts_settle
  cases hsame
  refine ⟨?_, ?_, fun World run hrun => ?_⟩
  · exact ((freezePendingValue_recursion chainContext (callChain .intType)).1 _).mp hchain
  · exact (hboth.2.1 (callChain_supplied _) _).mp hrefused
  · rw [hevaluates World run hrun]
    · rfl
    · intro part hpart frame value after hrun
      simp only [List.mem_cons, List.not_mem_nil, or_false] at hpart
      rcases hpart with rfl | rfl <;> cases hrun <;> exact ⟨_, rfl⟩

end Blorp.Check.Freezing
