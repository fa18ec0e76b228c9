import Blorp.Verify.Scopes

/-!
# What a verified block leaves

Each function of the verifier by its effect on the state.  `Follows start state`
says that `state` comes later in the same block: nothing known is forgotten, no
ordinal goes back and no discharge is undone.
-/

namespace Blorp.Verify

open Check (Span)
open Specialize
open Own
open Fuel

/-! ## Blocks going on -/

/-- The borrow names only what lies before the ordinals. -/
def BorrowWithin (borrow : BorrowedValue) (limit : BlockEnd) : Prop :=
  borrow.value < limit.nextValue ∧ ∀ owner, borrow.source = .ownerBorrow owner →
    owner < limit.nextOwner

theorem BorrowWithin.mono {borrow : BorrowedValue} {limit limit' : BlockEnd}
    (h : BorrowWithin borrow limit) (hle : limit.le limit') : BorrowWithin borrow limit' :=
  ⟨Nat.lt_of_lt_of_le h.1 hle.1, fun owner ho => Nat.lt_of_lt_of_le (h.2 owner ho) hle.2⟩

/-- Scopes are ordered, and a projected value's parent lies before it. -/
structure Scoped (state : VerificationState) : Prop extends Ordered state where
  parents : ∀ id known parent, state.facts.valueEntry id = some known →
    known.projectionParent = some parent → BorrowWithin parent state.blockEnd

structure Follows (start state : VerificationState) : Prop where
  enclosing : state.facts.enclosing = start.facts.enclosing
  firstValue : state.facts.firstValue = start.facts.firstValue
  firstOwner : state.facts.firstOwner = start.facts.firstOwner
  sees : ∀ id known, start.facts.valueEntry id = some known →
    state.facts.valueEntry id = some known
  flags : ∀ id, dischargedAlready start.discharged id = true →
    dischargedAlready state.discharged id = true
  grows : start.blockEnd.le state.blockEnd
  keeps : Scoped start → Scoped state

namespace Follows

theorem refl (state : VerificationState) : Follows state state :=
  ⟨rfl, rfl, rfl, fun _ _ h => h, fun _ h => h, .refl _, fun h => h⟩

theorem trans {first second third : VerificationState} (h : Follows first second)
    (h' : Follows second third) : Follows first third where
  enclosing := h'.enclosing.trans h.enclosing
  firstValue := h'.firstValue.trans h.firstValue
  firstOwner := h'.firstOwner.trans h.firstOwner
  sees id known hid := h'.sees id known (h.sees id known hid)
  flags id hid := h'.flags id (h.flags id hid)
  grows := h.grows.trans h'.grows
  keeps hs := h'.keeps (h.keeps hs)

variable {state : VerificationState}

theorem dischargeSlot {id : Nat} {span : Span} {slot : OwnerSlot}
    (hslot : ownerSlot state.facts state.owners.length id span = .ok slot) :
    Follows state (state.dischargeSlot slot) where
  enclosing := by rw [dischargeSlot_facts]
  firstValue := by rw [dischargeSlot_facts]
  firstOwner := by rw [dischargeSlot_facts]
  sees other known hother := by rwa [dischargeSlot_facts]
  flags other hother := by
    cases slot with
    | enclosingSlot ordinal =>
      simp [VerificationState.dischargeSlot, dischargedAlready_discharge, hother]
    | localSlot index => exact hother
  grows := by
    simp only [VerificationState.blockEnd, dischargeSlot_facts, dischargeSlot_length]
    exact .refl _
  keeps h := by
    refine ⟨h.toOrdered.dischargeSlot hslot, ?_⟩
    intro other known parent hother hparent
    rw [dischargeSlot_facts] at hother
    have := h.parents other known parent hother hparent
    simpa only [VerificationState.blockEnd, dischargeSlot_facts, dischargeSlot_length] using this

theorem takes {after : VerificationState} {value owner : Nat} (h : Takes state after value owner) :
    Follows state after := by
  obtain ⟨span, slot, hslot, rfl⟩ := h.slot
  exact dischargeSlot hslot

theorem introduceOwner (state : VerificationState) (value : Nat) :
    Follows state { state with owners := state.owners ++ [.activeOwner value] } where
  enclosing := rfl
  firstValue := rfl
  firstOwner := rfl
  sees _ _ h := h
  flags _ h := h
  grows := by simp [BlockEnd.le, VerificationState.blockEnd]
  keeps h := by
    refine ⟨h.toOrdered.introduceOwner value, ?_⟩
    intro id known parent hid hparent
    refine (h.parents id known parent hid hparent).mono ?_
    simp [BlockEnd.le, VerificationState.blockEnd]

theorem noteParameter (state : VerificationState) (definition : OwnedDefinition) :
    Follows state (noteParameter state definition) where
  enclosing := by unfold Verify.noteParameter; split <;> rfl
  firstValue := by unfold Verify.noteParameter; split <;> rfl
  firstOwner := by unfold Verify.noteParameter; split <;> rfl
  sees id known h := by rwa [valueEntry_noteParameter]
  flags id h := by
    unfold Verify.noteParameter
    split <;> exact h
  grows := by
    rw [blockEnd_noteParameter]
    exact .refl _
  keeps h := by
    refine ⟨h.toOrdered.noteParameter definition, ?_⟩
    intro id known parent hid hparent
    rw [valueEntry_noteParameter] at hid
    rw [blockEnd_noteParameter]
    exact h.parents id known parent hid hparent

theorem withValue (h : Ordered state) {known : KnownValue}
    (hparent : ∀ parent, known.projectionParent = some parent →
      BorrowWithin parent state.blockEnd) : Follows state (state.withValue known) where
  enclosing := rfl
  firstValue := rfl
  firstOwner := rfl
  sees id other hid := by
    rw [valueEntry_withValue, if_neg (Nat.ne_of_lt (Ordered.value_lt hid))]
    exact hid
  flags _ h := h
  grows := by simp [BlockEnd.le, VerificationState.blockEnd, VerificationState.withValue]
  keeps hs := by
    have hgrows : state.blockEnd.le (state.withValue known).blockEnd := by
      simp [BlockEnd.le, VerificationState.blockEnd, VerificationState.withValue]
    refine ⟨h.withValue known, ?_⟩
    intro id other parent hid hother
    rw [valueEntry_withValue] at hid
    split at hid
    · cases hid
      exact (hparent parent hother).mono hgrows
    · exact (hs.parents id other parent hid hother).mono hgrows

theorem foldlM {ε α : Type} {f : VerificationState → α → Except ε VerificationState}
    (step : ∀ state x after, Scoped state → f state x = .ok after → Follows state after) :
    ∀ (xs : List α) (state after : VerificationState), Scoped state →
      xs.foldlM f state = .ok after → Follows state after := by
  intro xs state after hs hrun
  have key := Except.foldlM_invariant (I := fun _ later => Follows state later)
    (fun _ x later next h hx => h.trans (step later x next (h.keeps hs) hx)) xs [] state after
    (refl state) hrun
  exact key

end Follows

/-! ## Borrows -/

/-- The borrow rests on something live: its parameter, the owner that holds its value,
or the borrow its value was projected through. -/
inductive LiveBorrow (state : VerificationState) : BorrowedValue → Prop where
  | parameter {value source known parameter}
      (visible : state.facts.valueEntry value = some known)
      (result : known.result = .borrowedResult (.parameterBorrow parameter)) :
      LiveBorrow state ⟨value, .parameterBorrow source⟩
  | owner {value owner known} (visible : state.facts.valueEntry value = some known)
      (holds : held state owner = some value) : LiveBorrow state ⟨value, .ownerBorrow owner⟩
  | payload {value parent ancestor known} (visible : state.facts.valueEntry value = some known)
      (result : known.result = .borrowedResult (.payloadBorrow parent))
      (projected : known.projectionParent = some ancestor) (live : LiveBorrow state ancestor) :
      LiveBorrow state ⟨value, .payloadBorrow parent⟩

variable {state : VerificationState}

theorem verifyBorrow_live {span : Span} : ∀ {fuel : Nat} {borrow : BorrowedValue} {u : Unit},
      verifyBorrow fuel borrow state span = .ok u → LiveBorrow state borrow := by
  intro fuel
  induction fuel with
  | zero =>
    intro borrow u h
    cases h
  | succ fuel ih =>
    intro borrow u h
    obtain ⟨value, source⟩ := borrow
    obtain ⟨known, hknown, h⟩ := Outcome.peel h
    rw [Outcome.liftM_eq_ok, knownValue, orVerificationError_eq_ok] at hknown
    obtain ⟨_, -, h⟩ := Outcome.peel h
    cases source with simp only at h
    | parameterBorrow source =>
      rw [Outcome.liftM_eq_ok, require_eq_ok, Bool.and_eq_true] at h
      split at h
      · next parameter hresult => exact .parameter hknown hresult
      · exact absurd h.1 (by simp)
    | ownerBorrow owner =>
      obtain ⟨entry, hentry, h⟩ := Outcome.peel h
      rw [Outcome.liftM_eq_ok, knownOwner_eq_ok] at hentry
      cases entry with
      | dischargedOwner => cases h
      | activeOwner owned =>
        rw [Outcome.liftM_eq_ok, require_eq_ok, decide_eq_true_eq] at h
        subst h
        exact .owner hknown (held_eq_some.mpr hentry)
    | payloadBorrow parent =>
      split at h
      · next expected hresult =>
        split at h
        · next heq =>
          subst heq
          obtain ⟨ancestor, hancestor, h⟩ := Outcome.peel h
          rw [Outcome.liftM_eq_ok, orVerificationError_eq_ok] at hancestor
          split at h
          · exact .payload hknown hresult hancestor (ih h)
          · cases h
        · cases h
      · cases h

theorem LiveBorrow.within (hs : Ordered state) {borrow : BorrowedValue}
    (h : LiveBorrow state borrow) : BorrowWithin borrow state.blockEnd := by
  cases h with refine ⟨Ordered.value_lt visible, fun owner howner => ?_⟩
  | parameter visible _ | payload visible _ _ _ => cases howner
  | owner visible holds =>
    cases howner
    exact hs.held_lt holds

/-- An operand that is read and not consumed: it needs no owner, or its borrow is live. -/
def LiveOperand (state : VerificationState) : OwnedArgument → Prop
  | .unmanagedArgument _ => True
  | .borrowedArgument borrow => LiveBorrow state borrow
  | .consumedArgument _ _ => False

theorem LiveOperand.borrow {argument : OwnedArgument} {borrow : BorrowedValue}
    (h : LiveOperand state argument) (hborrow : argumentBorrow argument = some borrow) :
    LiveBorrow state borrow := by
  cases argument with
  | unmanagedArgument id => cases hborrow
  | borrowedArgument other =>
    cases hborrow
    exact h
  | consumedArgument value owner => cases hborrow

section

variable {context : Context} {state : VerificationState} {span : Span}

variable {argument : OwnedArgument} {u : Unit} {arguments : List OwnedArgument}
variable {after : VerificationState} {definition : OwnedDefinition} {projection : ProjectionContext}
variable {introduced : Option OwnerId}

theorem verifyMatchArgument_live (h : verifyMatchArgument context state span argument = .ok u) :
    LiveOperand state argument := by
  cases argument with
  | unmanagedArgument id => trivial
  | borrowedArgument borrow => exact verifyBorrow_live h
  | consumedArgument value owner => cases h

theorem verifyArgument_live {expected : TypeRef}
    (h : verifyArgument context state span argument expected = .ok u) :
    LiveOperand state argument ∧
      (∀ id, argument = .unmanagedArgument id → context.needsOwnership expected = .ok false) := by
  obtain ⟨known, -, h⟩ := Outcome.peel h
  split at h
  · cases h
  · cases argument with
    | unmanagedArgument id =>
      obtain ⟨needsOwner, hneeds, h⟩ := Outcome.peel h
      rw [Outcome.liftM_eq_ok] at hneeds h
      rw [require_eq_ok, Bool.not_eq_true'] at h
      subst h
      exact ⟨trivial, fun _ _ => hneeds⟩
    | borrowedArgument borrow => exact ⟨verifyBorrow_live h, fun id hid => by cases hid⟩
    | consumedArgument value owner => cases h

theorem verifyArguments_live {parameters : List TypeRef}
    (h : verifyArguments context state span arguments parameters = .ok u) :
    arguments.length = parameters.length ∧
      ∀ (i : Nat) argument, arguments[i]? = some argument → ∃ expected, parameters[i]? = some expected ∧
        verifyArgument context state span argument expected = .ok () := by
  unfold verifyArguments at h
  split at h
  · cases h
  · split at h
    · cases h
    · next hshort hlong =>
      have hlength : arguments.length = parameters.length := by omega
      refine ⟨hlength, fun i argument hargument => ?_⟩
      obtain ⟨hi, rfl⟩ := List.getElem?_eq_some_iff.mp hargument
      have hi' : i < parameters.length := by omega
      refine ⟨parameters[i], List.getElem?_eq_getElem hi', ?_⟩
      refine Outcome.forM_eq_ok.mp h (arguments[i], parameters[i]) ?_
      rw [List.mem_iff_getElem]
      exact ⟨i, by rw [List.length_zip]; omega, by simp⟩

/-! ## Discharged operands -/

theorem consumeArgument_follows (h : consumeArgument span state argument = .ok after) :
    Follows state after := by
  cases argument with
  | consumedArgument value owner =>
    obtain ⟨_, htakes⟩ := dropOwner_takes h
    exact .takes htakes
  | unmanagedArgument id =>
    cases h
    exact .refl state
  | borrowedArgument borrow =>
    cases h
    exact .refl state

theorem dischargeCallArguments_eq_ok
    (h : dischargeCallArguments context state span arguments = .ok after) :
    consumeArguments state span arguments = .ok after ∧
      (arguments.any isConsumed = true → ∀ borrow, .borrowedArgument borrow ∈ arguments →
        LiveBorrow after borrow) := by
  obtain ⟨moved, hmoved, h⟩ := Outcome.peel h
  rw [Outcome.liftM_eq_ok] at hmoved
  split at h
  · next hany =>
    obtain ⟨_, hrevalidate, h⟩ := Outcome.peel h
    cases h
    refine ⟨hmoved, fun _ borrow hborrow => ?_⟩
    exact verifyBorrow_live (Outcome.forM_eq_ok.mp hrevalidate _ hborrow)
  · next hany =>
    cases h
    exact ⟨hmoved, fun hcontra => absurd hcontra hany⟩

theorem consumeArguments_none :
    ∀ (arguments : List OwnedArgument), arguments.any isConsumed = false →
      consumeArguments state span arguments = .ok state := by
  intro arguments
  induction arguments with
  | nil => intro _; rfl
  | cons argument arguments ih =>
    intro h
    rw [List.any_cons, Bool.or_eq_false_iff] at h
    have hstep : consumeArgument span state argument = .ok state := by
      cases argument with
      | consumedArgument value owner => exact absurd h.1 (by simp [isConsumed])
      | unmanagedArgument id => rfl
      | borrowedArgument borrow => rfl
    unfold consumeArguments
    rw [List.foldlM_cons, hstep]
    exact ih h.2

theorem dischargeCallArguments_live
    (h : dischargeCallArguments context state span arguments = .ok after)
    (hlive : ∀ borrow, .borrowedArgument borrow ∈ arguments → LiveBorrow state borrow) :
    ∀ borrow, .borrowedArgument borrow ∈ arguments → LiveBorrow after borrow := by
  intro borrow hborrow
  obtain ⟨hmoved, hrevalidated⟩ := dischargeCallArguments_eq_ok h
  cases hany : arguments.any isConsumed with
  | true => exact hrevalidated hany borrow hborrow
  | false =>
    rw [consumeArguments_none arguments hany] at hmoved
    cases hmoved
    exact hlive borrow hborrow

theorem dischargeCallArguments_follows (hs : Scoped state)
    (h : dischargeCallArguments context state span arguments = .ok after) : Follows state after :=
  Follows.foldlM (fun _ _ _ _ h => consumeArgument_follows h) arguments state after hs
    (dischargeCallArguments_eq_ok h).1

section

variable {payload : StoredPayload} (h : storePayload context span state payload = .ok after)

include h

theorem storePayload_cases : (∃ value, payload = .unmanagedPayload value ∧ after = state) ∨
      ∃ value owner, payload = .ownedPayload value owner ∧ Takes state after value owner := by
  obtain ⟨stored, hstored, hafter⟩ := Except.peel h
  obtain ⟨known, -, hstored⟩ := Except.peel hstored
  obtain ⟨needsOwner, -, hstored⟩ := Except.peel hstored
  cases payload with
  | unmanagedPayload value =>
    cases needsOwner with
    | true => cases hstored
    | false =>
      cases hstored
      cases hafter
      exact .inl ⟨value, rfl, rfl⟩
  | ownedPayload value owner =>
    cases needsOwner with
    | false => cases hstored
    | true =>
      obtain ⟨entry, hentry, hstored⟩ := Except.peel hstored
      rw [knownOwner_eq_ok] at hentry
      cases entry with
      | dischargedOwner => cases hstored
      | activeOwner owned =>
        simp only at hstored
        split at hstored
        · next heq =>
          subst heq
          obtain ⟨slot, hslot, hstored⟩ := Except.peel hstored
          cases hstored
          cases hafter
          exact .inr ⟨value, owner, rfl, held_eq_some.mpr hentry, span, slot, hslot, rfl⟩
        · cases hstored

theorem storePayload_follows : Follows state after := by
  rcases storePayload_cases h with ⟨_, -, rfl⟩ | ⟨_, _, -, htakes⟩
  · exact .refl _
  · exact .takes htakes

end

theorem dischargeOperands_follows (hs : Scoped state)
    (h : dischargeOperands context state definition = .ok after) : Follows state after := by
  unfold dischargeOperands at h
  split at h
  · exact dischargeCallArguments_follows hs h
  · rw [Outcome.liftM_eq_ok] at h
    exact Follows.foldlM (fun _ _ _ _ h => storePayload_follows h) _ state after hs h

/-! ## Definitions -/

theorem definitionValue_eq_ok {expected : TypeRef} {parent : Option BorrowedValue}
    {place : Option ConcretePatternPlace} {known : KnownValue} :
    definitionValue definition expected parent place = .ok known ↔
      expected = definition.valueType ∧
        known = ⟨definition.valueType, definition.span, definition.result, parent, place⟩ := by
  unfold definitionValue
  split
  · next heq => simp [heq, eq_comm]
  · next hne => simp [hne]

theorem verifiedProjectionParent_cases {value : Nat} {parent : ProjectionParent}
    (h : verifiedProjectionParent context state projection span value = .ok parent) :
    ∃ root facts known, projection = .selectionProjection root facts ∧
      state.facts.valueEntry value = some known ∧
      LiveOperand state (projectionArgument root value known.result) ∧
      parent.borrow = argumentBorrow (projectionArgument root value known.result) := by
  obtain ⟨place, -, h⟩ := Outcome.peel h
  obtain ⟨known, hknown, h⟩ := Outcome.peel h
  rw [Outcome.liftM_eq_ok, knownValue, orVerificationError_eq_ok] at hknown
  cases projection with
  | noProjection => cases h
  | selectionProjection root facts =>
    obtain ⟨_, hargument, h⟩ := Outcome.peel h
    iterate 3 obtain ⟨_, -, h⟩ := Outcome.peel h
    cases h
    exact ⟨root, facts, known, rfl, hknown, verifyMatchArgument_live hargument, rfl⟩

/-- An operand of a call against the callee's row: it is live before the call, it is
consumed exactly when the row owns, and it is unmanaged only for an unmanaged type. -/
structure OperandFits (context : Context) (state : VerificationState) (argument : OwnedArgument)
    (row : OwnedParameter) : Prop where
  live : LiveOperand state (asBorrow argument)
  consumed : isConsumed argument = row.parameterOwned
  unmanaged : ∀ id, argument = .unmanagedArgument id →
    context.needsOwnership row.parameterType = .ok false

/-- Operations whose operands are only stored. -/
def IsPlain : OwnedValueOperation → Prop
  | .constructRecordDefinition _ _ | .constructDefinition _ _ | .constructListDefinition _ => True
  | .voidDefinition | .integerDefinition _ | .floatDefinition _ | .stringDefinition _ => True
  | _ => False

/-- What a verified operation may be, with the borrow its value keeps: a projection
keeps that of the operand it reads its parent through, and nothing else keeps one. -/
inductive OperationChecked (context : Context) (state : VerificationState)
    (projection : ProjectionContext) (definition : OwnedDefinition) :
    OwnedValueOperation → Option BorrowedValue → Prop where
  | plain {operation} (simple : IsPlain operation) :
      OperationChecked context state projection definition operation none
  | parameter {index row} (next : index = state.facts.parameters.length)
      (found : context.rows[index]? = some row)
      (typed : row.parameterType = definition.valueType) :
      OperationChecked context state projection definition (.parameterDefinition index) none
  | userCall {id arguments callee} (found : context.functions[id]? = some callee)
      (arity : arguments.length = callee.parameters.length)
      (fits : ∀ (i : Nat) argument row, arguments[i]? = some argument →
        callee.parameters[i]? = some row → OperandFits context state argument row) :
      OperationChecked context state projection definition
        (.callDefinition (.userFunction id) arguments) none
  | runtimeCall {operation arguments}
      (live : ∀ argument ∈ arguments, LiveOperand state (asBorrow argument)) :
      OperationChecked context state projection definition
        (.callDefinition (.runtimeFunction operation) arguments) none
  | invoke {callee arguments} (live : LiveOperand state callee)
      (arguments_live : ∀ argument ∈ arguments, LiveOperand state argument) :
      OperationChecked context state projection definition
        (.invokeCallableDefinition callee arguments) none
  | freeCallable {id body} (found : context.functions[id]? = some body)
      (pinned : body.parameters.any (·.parameterOwned) = false) :
      OperationChecked context state projection definition (.freeCallableDefinition id) none
  | capturedCallable {id payload body} (found : context.functions[id]? = some body)
      (pinned : body.parameters.any (·.parameterOwned) = false) :
      OperationChecked context state projection definition
        (.capturedCallableDefinition id payload) none
  | field {field argument} (ordinary : projection = .noProjection)
      (live : LiveOperand state argument) :
      OperationChecked context state projection definition
        (.readRecordFieldDefinition field argument) (argumentBorrow argument)
  | selectedField {field argument root facts known}
      (selected : projection = .selectionProjection root facts)
      (live : LiveOperand state argument)
      (visible : state.facts.valueEntry (argumentValue argument) = some known)
      (parent : LiveOperand state (projectionArgument root (argumentValue argument) known.result)) :
      OperationChecked context state projection definition
        (.readRecordFieldDefinition field argument)
        (argumentBorrow (projectionArgument root (argumentValue argument) known.result))
  | payload {field value root facts known}
      (selected : projection = .selectionProjection root facts)
      (visible : state.facts.valueEntry value = some known)
      (parent : LiveOperand state (projectionArgument root value known.result)) :
      OperationChecked context state projection definition (.payloadDefinition field value)
        (argumentBorrow (projectionArgument root value known.result))
  | element {index value root facts known}
      (selected : projection = .selectionProjection root facts)
      (visible : state.facts.valueEntry value = some known)
      (parent : LiveOperand state (projectionArgument root value known.result)) :
      OperationChecked context state projection definition (.listElementDefinition index value)
        (argumentBorrow (projectionArgument root value known.result))
  | suffix {argument skip root facts known}
      (selected : projection = .selectionProjection root facts)
      (live : LiveOperand state argument)
      (visible : state.facts.valueEntry (argumentValue argument) = some known)
      (parent : LiveOperand state (projectionArgument root (argumentValue argument) known.result)) :
      OperationChecked context state projection definition (.listSuffixDefinition argument skip) none

theorem OperationChecked.parent_live {operation : OwnedValueOperation}
    {parent : Option BorrowedValue}
    (h : OperationChecked context state projection definition operation parent)
    {borrow : BorrowedValue} (hborrow : parent = some borrow) : LiveBorrow state borrow := by
  cases h with
  | field _ live | selectedField _ _ _ live | payload _ _ live | element _ _ live =>
    exact live.borrow hborrow
  | _ => cases hborrow

theorem transferredBorrows_user {id : Nat} {borrows : List OwnedArgument} {callee : OwnedFunction}
    (hcallee : context.functions[id]? = some callee)
    (hborrows : transferredBorrows (.userFunction id) arguments context.functions span =
      .ok borrows)
    (hverified : verifyArguments context state span borrows (callee.parameters.map
      (·.parameterType)) = .ok ()) :
    arguments.length = callee.parameters.length ∧
      ∀ (i : Nat) argument row, arguments[i]? = some argument →
        callee.parameters[i]? = some row → OperandFits context state argument row := by
  simp only [transferredBorrows, hcallee] at hborrows
  rw [List.mapM_eq_ok_iff, List.forall₂_iff_get] at hborrows
  obtain ⟨hlength, hborrows⟩ := hborrows
  obtain ⟨harity, hlive⟩ := verifyArguments_live hverified
  rw [List.length_zipIdx] at hlength
  rw [List.length_map] at harity
  refine ⟨by omega, fun i argument row hargument hrow => ?_⟩
  obtain ⟨hi, rfl⟩ := List.getElem?_eq_some_iff.mp hargument
  have hi' : i < borrows.length := by omega
  have hborrow := hborrows i (by simpa using hi) hi'
  simp only [List.get_eq_getElem, List.getElem_zipIdx, Nat.zero_add] at hborrow
  obtain ⟨expected, hexpected, hchecked⟩ := hlive i _ (List.getElem?_eq_getElem hi')
  rw [List.getElem?_map, hrow] at hexpected
  cases hexpected
  obtain ⟨hoperand, hunmanaged⟩ := verifyArgument_live hchecked
  unfold transferredBorrow at hborrow
  rw [hrow] at hborrow
  cases hargument' : arguments[i] with rw [hargument'] at hborrow
  | consumedArgument value owner =>
    simp only [Except.ok.injEq] at hborrow
    -- a consumed operand of a row that does not own stays consumed and is rejected
    cases howned : row.parameterOwned with
    | true =>
      rw [howned, if_pos rfl] at hborrow
      rw [← hborrow] at hoperand
      exact ⟨hoperand, by simp [isConsumed, howned], fun id hid => by cases hid⟩
    | false =>
      rw [howned, if_neg (by simp)] at hborrow
      rw [← hborrow] at hoperand
      exact hoperand.elim
  | unmanagedArgument value =>
    simp only at hborrow
    split at hborrow
    · cases hborrow
    · next howned =>
      simp only [Except.ok.injEq] at hborrow
      rw [← hborrow] at hoperand hunmanaged
      exact ⟨hoperand, ((Bool.not_eq_true _).mp howned).symm,
        fun id _ => hunmanaged value rfl⟩
  | borrowedArgument borrow =>
    simp only at hborrow
    split at hborrow
    · cases hborrow
    · next howned =>
      simp only [Except.ok.injEq] at hborrow
      rw [← hborrow] at hoperand
      exact ⟨hoperand, ((Bool.not_eq_true _).mp howned).symm, fun id hid => by cases hid⟩

theorem transferredBorrows_runtime {operation : RuntimeOperation VariantInstanceId TypeRef}
    {borrows : List OwnedArgument} {parameters : List TypeRef}
    (hborrows : transferredBorrows (.runtimeFunction operation) arguments context.functions span =
      .ok borrows) (hverified : verifyArguments context state span borrows parameters = .ok ()) :
    ∀ argument ∈ arguments, LiveOperand state (asBorrow argument) := by
  have hlive : ∀ borrow ∈ borrows, LiveOperand state borrow := by
    intro borrow hborrow
    obtain ⟨i, hi, rfl⟩ := List.mem_iff_getElem.mp hborrow
    obtain ⟨expected, -, hchecked⟩ :=
      (verifyArguments_live hverified).2 i _ (List.getElem?_eq_getElem hi)
    exact (verifyArgument_live hchecked).1
  have hborrowed : ∀ argument, LiveOperand state argument → LiveOperand state (asBorrow argument) := by
    intro argument h
    cases argument with
    | consumedArgument value owner => exact h.elim
    | unmanagedArgument value => exact h
    | borrowedArgument borrow => exact h
  intro argument hargument
  unfold transferredBorrows at hborrows
  simp only at hborrows
  split at hborrows
  · next value owner rest =>
    split at hborrows
    · cases hborrows
      rcases List.mem_cons.mp hargument with rfl | hargument
      · exact hlive _ List.mem_cons_self
      · exact hborrowed _ (hlive argument (List.mem_cons_of_mem _ hargument))
    · cases hborrows
      exact hborrowed _ (hlive argument hargument)
  · cases hborrows
    exact hborrowed _ (hlive argument hargument)

theorem pinnedCallable_eq_ok {id : Nat} {functions : List OwnedFunction} {body : OwnedFunction}
    (h : pinnedCallable id functions span = .ok body) :
    functions[id]? = some body ∧ body.parameters.any (·.parameterOwned) = false := by
  unfold pinnedCallable borrowedContract at h
  obtain ⟨found, hfound, h⟩ := Except.peel h
  obtain ⟨_, hpinned, h⟩ := Except.peel h
  cases h
  rw [orVerificationError_eq_ok] at hfound
  rw [require_eq_ok, Bool.not_eq_true'] at hpinned
  exact ⟨hfound, hpinned⟩

/-- **A verified operation is one of the checked ones.** -/
theorem operationValue_checked {candidate : KnownValue}
    (h : operationValue context state projection definition = .ok candidate) :
    candidate.result = definition.result ∧
      OperationChecked context state projection definition definition.operation
        candidate.projectionParent := by
  have plain : ∀ {expected : TypeRef} {operation : OwnedValueOperation},
      definition.operation = operation → IsPlain operation →
      (liftM (definitionValue definition expected none none) : Outcome Diagnostic KnownValue) =
        .ok candidate → candidate.result = definition.result ∧ OperationChecked context state
          projection definition definition.operation candidate.projectionParent := by
    intro expected operation heq simple h
    obtain ⟨-, rfl⟩ := definitionValue_eq_ok.mp (Outcome.liftM_eq_ok.mp h)
    exact ⟨rfl, heq ▸ .plain simple⟩
  unfold operationValue at h
  split at h
  · next owner fields heq =>
    rw [Outcome.liftM_eq_ok, constructedRecord] at h
    obtain ⟨_, -, h⟩ := Except.peel h
    split at h
    · obtain ⟨_, -, h⟩ := Except.peel h
      obtain ⟨-, rfl⟩ := definitionValue_eq_ok.mp h
      exact ⟨rfl, heq ▸ .plain trivial⟩
    · cases h
  · next field argument heq =>
    obtain ⟨known, hknown, h⟩ := Outcome.peel h
    iterate 2 obtain ⟨_, -, h⟩ := Outcome.peel h
    obtain ⟨_, hargument, h⟩ := Outcome.peel h
    obtain ⟨_, -, h⟩ := Outcome.peel h
    obtain ⟨expected, -, hchecked⟩ := (verifyArguments_live hargument).2 0 argument rfl
    have hlive := (verifyArgument_live hchecked).1
    split at h
    · obtain ⟨-, rfl⟩ := definitionValue_eq_ok.mp (Outcome.liftM_eq_ok.mp h)
      exact ⟨rfl, heq ▸ .field rfl hlive⟩
    · obtain ⟨parent, hparent, h⟩ := Outcome.peel h
      obtain ⟨-, rfl⟩ := definitionValue_eq_ok.mp (Outcome.liftM_eq_ok.mp h)
      obtain ⟨root, facts, known, hselected, hvisible, hparentLive, hborrow⟩ :=
        verifiedProjectionParent_cases hparent
      exact ⟨rfl, heq ▸ hborrow ▸ .selectedField hselected hlive hvisible hparentLive⟩
  · next index heq =>
    split at h
    · cases h
    · split at h
      · cases h
      · next hnext =>
        obtain ⟨row, hrow, h⟩ := Outcome.peel h
        rw [Outcome.liftM_eq_ok, orVerificationError_eq_ok] at hrow
        obtain ⟨htyped, rfl⟩ := definitionValue_eq_ok.mp (Outcome.liftM_eq_ok.mp h)
        exact ⟨rfl, heq ▸ .parameter (Decidable.of_not_not hnext) hrow htyped⟩
  · next heq => exact plain heq trivial h
  · next bytes heq => exact plain heq trivial h
  · next value heq => exact plain heq trivial h
  · next value heq =>
    split at h
    · exact plain heq trivial h
    · cases h
  · next id heq =>
    obtain ⟨body, hbody, h⟩ := Outcome.peel h
    obtain ⟨-, rfl⟩ := definitionValue_eq_ok.mp (Outcome.liftM_eq_ok.mp h)
    obtain ⟨hfound, hpinned⟩ := pinnedCallable_eq_ok (Outcome.liftM_eq_ok.mp hbody)
    exact ⟨rfl, heq ▸ .freeCallable hfound hpinned⟩
  · next id payload heq =>
    rw [Outcome.liftM_eq_ok, capturedCallable] at h
    obtain ⟨_, -, h⟩ := Except.peel h
    obtain ⟨body, hbody, h⟩ := Except.peel h
    obtain ⟨hfound, hpinned⟩ := pinnedCallable_eq_ok hbody
    split at h
    · obtain ⟨layout, -, h⟩ := Except.peel h
      split at h
      · cases h
      · cases h
      · split at h
        · obtain ⟨-, rfl⟩ := definitionValue_eq_ok.mp h
          exact ⟨rfl, heq ▸ .capturedCallable hfound hpinned⟩
        · cases h
    · cases h
  · next callee arguments heq =>
    obtain ⟨known, -, h⟩ := Outcome.peel h
    obtain ⟨_, hcallee, h⟩ := Outcome.peel h
    split at h
    · obtain ⟨_, harguments, h⟩ := Outcome.peel h
      obtain ⟨-, rfl⟩ := definitionValue_eq_ok.mp (Outcome.liftM_eq_ok.mp h)
      refine ⟨rfl, heq ▸ .invoke (verifyArgument_live hcallee).1 ?_⟩
      intro argument hargument
      obtain ⟨i, hi, rfl⟩ := List.mem_iff_getElem.mp hargument
      obtain ⟨expected, -, hchecked⟩ :=
        (verifyArguments_live harguments).2 i _ (List.getElem?_eq_getElem hi)
      exact (verifyArgument_live hchecked).1
    · cases h
  · next target arguments heq =>
    obtain ⟨contract, hcontract, h⟩ := Outcome.peel h
    obtain ⟨borrows, hborrows, h⟩ := Outcome.peel h
    obtain ⟨_, hverified, h⟩ := Outcome.peel h
    obtain ⟨_, -, h⟩ := Outcome.peel h
    obtain ⟨-, rfl⟩ := definitionValue_eq_ok.mp (Outcome.liftM_eq_ok.mp h)
    rw [Outcome.liftM_eq_ok] at hcontract hborrows
    cases target with
    | runtimeFunction operation =>
      exact ⟨rfl, heq ▸ .runtimeCall (transferredBorrows_runtime hborrows hverified)⟩
    | userFunction id =>
      unfold callSignature at hcontract
      simp only at hcontract
      split at hcontract
      · next callee hcallee =>
        cases hcontract
        obtain ⟨harity, hfits⟩ := transferredBorrows_user hcallee hborrows hverified
        exact ⟨rfl, heq ▸ .userCall hcallee harity hfits⟩
      · cases hcontract
  · next id payloads heq =>
    obtain ⟨types, -, h⟩ := Outcome.peel h
    obtain ⟨_, -, h⟩ := Outcome.peel h
    exact plain heq trivial h
  · next payloads heq =>
    split at h
    · obtain ⟨_, -, h⟩ := Outcome.peel h
      exact plain heq trivial h
    · cases h
  · next field source heq =>
    obtain ⟨parent, hparent, h⟩ := Outcome.peel h
    iterate 6 obtain ⟨_, -, h⟩ := Outcome.peel h
    obtain ⟨-, rfl⟩ := definitionValue_eq_ok.mp (Outcome.liftM_eq_ok.mp h)
    obtain ⟨root, facts, known, hselected, hvisible, hlive, hborrow⟩ :=
      verifiedProjectionParent_cases hparent
    exact ⟨rfl, heq ▸ hborrow ▸ .payload hselected hvisible hlive⟩
  · next index source heq =>
    obtain ⟨parent, hparent, h⟩ := Outcome.peel h
    iterate 2 obtain ⟨_, -, h⟩ := Outcome.peel h
    obtain ⟨-, rfl⟩ := definitionValue_eq_ok.mp (Outcome.liftM_eq_ok.mp h)
    obtain ⟨root, facts, known, hselected, hvisible, hlive, hborrow⟩ :=
      verifiedProjectionParent_cases hparent
    exact ⟨rfl, heq ▸ hborrow ▸ .element hselected hvisible hlive⟩
  · next argument skip heq =>
    obtain ⟨expected, hexpected, h⟩ := Outcome.peel h
    obtain ⟨-, rfl⟩ := definitionValue_eq_ok.mp (Outcome.liftM_eq_ok.mp h)
    obtain ⟨_, hargument, hexpected⟩ := Outcome.peel hexpected
    obtain ⟨parent, hparent, hexpected⟩ := Outcome.peel hexpected
    obtain ⟨root, facts, known, hselected, hvisible, hlive, -⟩ :=
      verifiedProjectionParent_cases hparent
    exact ⟨rfl, heq ▸ .suffix hselected (verifyMatchArgument_live hargument) hvisible hlive⟩

/-- The ownership a definition's result may have, with the owner it introduces. -/
inductive ResultChecked (context : Context) (definition : OwnedDefinition) :
    Option OwnerId → Prop where
  | unmanaged (result : definition.result = .unmanagedResult)
      (unneeded : context.needsOwnership definition.valueType = .ok false) :
      ResultChecked context definition none
  | projected {source} (result : definition.result = .borrowedResult (.payloadBorrow source))
      (operation : ∀ index, definition.operation ≠ .parameterDefinition index) :
      ResultChecked context definition none
  | borrowedParameter {index passing} (operation : definition.operation = .parameterDefinition index)
      (found : context.rows[index]? = some (.managedParameter passing))
      (borrowed : passing.owned = false)
      (result : definition.result = .borrowedResult (.parameterBorrow definition.id)) :
      ResultChecked context definition none
  | owned {owner} (result : definition.result = .ownedResult owner)
      (row : ∀ index, definition.operation = .parameterDefinition index →
        ∃ passing, context.rows[index]? = some (.managedParameter passing) ∧ passing.owned = true) :
      ResultChecked context definition (some owner)

theorem verifyProjectionBorrow_checked {parent : Nat}
    (h : verifyProjectionBorrow definition parent = .ok introduced)
    (hoperation : ∀ index, definition.operation ≠ .parameterDefinition index) :
    ResultChecked context definition introduced := by
  unfold verifyProjectionBorrow at h
  split at h
  · next source hresult =>
    split at h
    · cases h
      exact .projected hresult hoperation
    · cases h
  · cases h

theorem verifyOwnedResult_checked (h : verifyOwnedResult definition = .ok introduced)
    (hoperation : ∀ index, definition.operation ≠ .parameterDefinition index) :
    ResultChecked context definition introduced := by
  unfold verifyOwnedResult at h
  split at h
  · next owner hresult =>
    cases h
    exact .owned hresult fun index hother => absurd hother (hoperation index)
  · cases h

theorem verifyParameterResult_checked {index : Nat}
    (h : verifyParameterResult context definition index = .ok introduced)
    (hoperation : definition.operation = .parameterDefinition index) :
    ResultChecked context definition introduced := by
  unfold verifyParameterResult at h
  split at h
  · next passing owner hrow hresult =>
    split at h
    · next howned =>
      cases h
      refine .owned hresult fun other hother => ?_
      rw [hoperation] at hother
      cases hother
      exact ⟨passing, hrow, howned⟩
    · cases h
  · next passing source hrow hresult =>
    split at h
    · cases h
    · next howned =>
      split at h
      · next hsource =>
        cases h
        subst hsource
        exact .borrowedParameter hoperation hrow (by simpa using howned) hresult
      · cases h
  · cases h

theorem verifyDefinitionResult_checked
    (h : verifyDefinitionResult context definition = .ok introduced) :
    ResultChecked context definition introduced := by
  obtain ⟨needsOwner, hneeds, h⟩ := Except.peel h
  cases needsOwner with
  | false =>
    rw [if_neg (by simp)] at h
    split at h
    · next hresult =>
      cases h
      exact .unmanaged hresult hneeds
    · cases h
  | true =>
    rw [if_pos rfl] at h
    unfold verifyManagedResult at h
    split at h
    · next index heq => exact verifyParameterResult_checked h heq
    iterate 3 · next heq => exact verifyProjectionBorrow_checked h fun index => by simp [heq]
    iterate 9
      next heq => exact verifyOwnedResult_checked h fun index => by simp [heq]
    · cases h
    · cases h
    · cases h

end

end Blorp.Verify
