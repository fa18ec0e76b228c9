import Blorp.Check.SolvingSlots

/-!
# Runs of the solver

Between two turns of the worklist an expression appends unbound slots, submits equalities and
solves the top one.  Whatever it submits, and whether solving fails or not.
-/

namespace Blorp.Check.Solver

open Fuel Triangular

variable {slots : List InferenceSlot}

/-! ## One equality -/

def StepKeeps (slots : List InferenceSlot) : InferenceStep → Prop
  | .updateInferenceSlots updates => WellBound (applyUpdates slots updates)
  | _ => True

theorem linkInferenceVariables_ends (hslots : WellBound slots) (span : Span)
    {left right : InferenceVariableId} (hne : left ≠ right)
    (hleft : left < slots.length ∧ bindings slots left = none)
    (hright : right < slots.length ∧ bindings slots right = none) :
    Outcome.Ends (fun _ => do
        let updates ← shared (liftM (linkInferenceVariables left right slots span))
        return .updateInferenceSlots updates) (StepKeeps slots) := by
  obtain ⟨updates, hlink, hanswers⟩ :=
    linkInferenceVariables_spec hslots span hne hleft.1 hright.1 hleft.2 hright.2
  rw [hlink]
  exact Outcome.Ends.ok hanswers.1

variable {id : InferenceVariableId} {left right : InferenceType} {state : InferenceState}

theorem wellBound_bind (hslots : WellBound slots) {slot : InferenceSlot}
    (hslot : slots[id]? = some slot) (hunbound : bindings slots id = none) {value : InferenceType}
    (hsafe : SafeFor slots id value) :
    WellBound (applyUpdates slots [⟨id, { slot with state := .boundVariable value }⟩]) :=
  (Answers.bind hslots (List.getElem?_eq_some_iff.mp hslot).1 hunbound hsafe.1 hsafe.2 rfl).1

theorem inferenceConflict_ends (hslots : WellBound slots) (equality : InferenceEquality)
    (addition : Option CanonicalOperation) :
    Outcome.Ends (fun n => inferenceConflict n equality slots addition) fun _ => True := by
  unfold inferenceConflict
  cases equality.origin with
  | argumentConstraint call position occurrence written =>
    refine (orInvariant_ends _ _).bind fun constraint _ => ?_
    refine (orInvariant_ends _ _).bind fun slot _ => ?_
    refine (orInvariant_ends _ _).bind fun previous _ => ?_
    refine (publishInferenceType_ends hslots _ _ _).bind fun expected _ => ?_
    refine (publishInferenceType_ends hslots _ _ _).bind fun first _ => ?_
    refine (publishInferenceType_ends hslots _ _ _).bind fun current _ => ?_
    refine (publishInferenceType_ends hslots _ _ _).bind fun actualType _ => ?_
    by_cases hjoins : joinsText call.target addition first current = true
    · simp only [if_pos hjoins]
      exact Outcome.Ends.ok trivial
    · simp only [if_neg hjoins]
      exact Outcome.Ends.ok trivial
  | _ => exact Outcome.Ends.err _

theorem lambdaConstraintError_ends (hslots : WellBound slots) (equality : InferenceEquality)
    (span : Span) :
    Outcome.Ends (fun n => lambdaConstraintError n equality slots span) fun _ => True := by
  refine (publishInferenceType_ends hslots _ _ _).bind fun expected _ => ?_
  exact (publishInferenceType_ends hslots _ _ _).bind fun actual _ => Outcome.Ends.ok trivial

theorem occursSite_ends (origin : ConstraintOrigin) :
    Outcome.Ends (fun _ => origin.occursSite) fun _ => True := by
  cases origin with
  | variantConstraint contract position =>
    cases hfield : contract.fields[position]? with simp only [ConstraintOrigin.occursSite, hfield]
    | some field => exact Outcome.Ends.ok trivial
    | none => exact Outcome.Ends.err _
  | receiverOverlapConstraint span => exact Outcome.Ends.err _
  | _ => exact Outcome.Ends.ok trivial

theorem inferenceOccursError_ends (hslots : WellBound slots) (equality : InferenceEquality)
    (root : InferenceVariableId) (value : InferenceType) :
    Outcome.Ends (fun n => inferenceOccursError n equality root value slots) fun _ => True := by
  refine (orInvariant_ends _ _).bind fun origin _ => ?_
  refine (publishInferenceType_ends hslots _ _ _).bind fun snapshot _ => ?_
  exact (occursSite_ends _).bind fun site _ => Outcome.Ends.ok trivial

theorem rejectMismatch_ends (hslots : WellBound slots) (current : InferenceEquality)
    (addition : Option CanonicalOperation) :
    Outcome.Ends (fun n => rejectMismatch n current slots addition) (StepKeeps slots) := by
  unfold rejectMismatch
  cases current.relation with
  | collectArguments => exact Outcome.Ends.ok trivial
  | requireEquality =>
    cases current.origin with
    | lambdaConstraint site =>
      exact (lambdaConstraintError_ends hslots current site).bind fun error _ =>
        Outcome.Ends.err error
    | argumentConstraint call position occurrence written =>
      exact (inferenceConflict_ends hslots current addition).bind fun error _ =>
        Outcome.Ends.err error
    | _ => exact Outcome.Ends.ok trivial

theorem rejectOccurrence_ends (hslots : WellBound slots) (current : InferenceEquality)
    (id : InferenceVariableId) (value : InferenceType) :
    Outcome.Ends (fun n => rejectOccurrence n current id value slots) (StepKeeps slots) := by
  unfold rejectOccurrence
  cases current.origin with
  | receiverOverlapConstraint span => exact Outcome.Ends.ok trivial
  | _ =>
    exact (inferenceOccursError_ends hslots current id value).bind fun error _ =>
      Outcome.Ends.err error

theorem inferenceAction_nodes (hleft : ¬ left.IsVariable) (hright : ¬ right.IsVariable) :
    (∀ first second, inferenceAction left right ≠ .mergeInference first second) ∧
      ∀ id value, inferenceAction left right ≠ .bindInference id value := by
  have hfits := inferenceAction_spec hleft hright
  constructor
  · intro first second h
    rw [h] at hfits
    exact hfits
  · intro id value h
    rw [h] at hfits
    exact hfits

theorem variables_of_merge {first second : InferenceVariableId}
    (h : inferenceAction left right = .mergeInference first second) :
    first ≠ second ∧ left = .callVariable first ∧ right = .callVariable second := by
  by_cases hleft : left.IsVariable
  · cases left with
    | callVariable id =>
      cases right with
      | callVariable other =>
        unfold inferenceAction at h
        by_cases heq : id = other
        · simp [heq] at h
        · simp only [if_neg heq] at h
          cases h
          exact ⟨heq, rfl, rfl⟩
      | _ => cases h
    | _ => exact hleft.elim
  · by_cases hright : right.IsVariable
    · cases right with
      | callVariable other =>
        cases left with
        | callVariable id => exact absurd trivial hleft
        | _ => cases h
      | _ => exact hright.elim
    · exact absurd h ((inferenceAction_nodes hleft hright).1 first second)

theorem variable_of_bind {value : InferenceType}
    (h : inferenceAction left right = .bindInference id value) :
    left = .callVariable id ∨ right = .callVariable id := by
  by_cases hleft : left.IsVariable
  · cases left with
    | callVariable first =>
      cases right with
      | callVariable other =>
        unfold inferenceAction at h
        by_cases heq : first = other
        · simp [heq] at h
        · simp [heq] at h
      | _ =>
        cases h
        exact .inl rfl
    | _ => exact hleft.elim
  · by_cases hright : right.IsVariable
    · cases right with
      | callVariable other =>
        cases left with
        | callVariable first => exact absurd trivial hleft
        | _ =>
          cases h
          exact .inr rfl
      | _ => exact hright.elim
    · exact absurd h ((inferenceAction_nodes hleft hright).2 id value)

/-- **One equality.**  Inspecting it ends; a variable is bound or linked only where the slots
stay well bound. -/
theorem inspectInferenceEquality_ends (hslots : WellBound slots) (equality : InferenceEquality)
    (addition : Option CanonicalOperation) :
    Outcome.Ends (fun n => inspectInferenceEquality n equality slots addition) (StepKeeps slots) := by
  refine (shared_ends (inferenceHead_ends hslots _ _)).bind fun left hleft => ?_
  refine (shared_ends (inferenceHead_ends hslots _ _)).bind fun right hright => ?_
  cases haction : inferenceAction left right with
  | mergeInference first second =>
    obtain ⟨hne, hfirst, hsecond⟩ := variables_of_merge haction
    exact linkInferenceVariables_ends hslots _ hne (hleft.unbound first hfirst)
      (hright.unbound second hsecond)
  | bindInference id value =>
    have hunbound : bindings slots id = none := by
      rcases variable_of_bind haction with hvariable | hvariable
      · exact (hleft.unbound id hvariable).2
      · exact (hright.unbound id hvariable).2
    refine (orInvariant_ends _ _).bind fun slot hslot => ?_
    refine (shared_ends (inferenceOccurs_ends hslots id value _)).bind fun found hfound => ?_
    cases found with
    | true => exact rejectOccurrence_ends hslots _ id value
    | false => exact Outcome.Ends.ok (wellBound_bind hslots hslot hunbound (hfound rfl hunbound))
  | inferenceMismatch => exact rejectMismatch_ends hslots _ addition
  | _ => exact Outcome.Ends.ok trivial

/-! ## One turn -/

theorem bindings_record {slot : InferenceSlot} (hslot : slots[id]? = some slot)
    (argument : Option InferenceUse) :
    bindings (slots.set id { slot with firstArgument := argument }) = bindings slots := by
  rw [bindings_set (List.getElem?_eq_some_iff.mp hslot).1]
  funext other
  by_cases heq : other = id
  · subst heq
    rw [Function.update_self]
    simp [bindings, hslot, InferenceSlot.binding]
  · rw [Function.update_of_ne heq]

theorem sameUnboundVariable_ends (hslots : WellBound slots) (expected actual : InferenceVariableId)
    (span : Span) :
    Outcome.Ends (fun n => sameUnboundVariable n expected actual slots span) fun _ => True := by
  refine (shared_ends (inferenceHead_ends hslots _ _)).bind fun left _ => ?_
  refine (shared_ends (inferenceHead_ends hslots _ _)).bind fun right _ => ?_
  cases left with
  | callVariable id => cases right <;> exact Outcome.Ends.ok trivial
  | _ => exact Outcome.Ends.ok trivial

theorem selfEquation_ends (hslots : WellBound slots) (id : InferenceVariableId)
    (actual : InferenceType) (span : Span) :
    Outcome.Ends (fun n => selfEquation n id actual slots span) fun _ => True := by
  unfold selfEquation
  cases actual with
  | callVariable other =>
    by_cases heq : id = other
    · simp only [if_pos heq]
      exact Outcome.Ends.ok trivial
    · simp only [if_neg heq]
      exact sameUnboundVariable_ends hslots id other span
  | _ => exact Outcome.Ends.ok trivial

theorem recordArgumentOrigin_ends (hslots : WellBound slots) (equality : InferenceEquality) :
    Outcome.Ends (fun n => recordArgumentOrigin n equality slots) fun update =>
      WellBound (applyUpdates slots update.toList) := by
  unfold recordArgumentOrigin
  split
  · next call position actual written id _ _ _ =>
    refine (selfEquation_ends hslots id equality.actual actual.span).bind fun self _ => ?_
    cases self with
    | true => exact Outcome.Ends.ok hslots
    | false =>
      refine (orInvariant_ends _ _).bind fun slot hslot => ?_
      cases slot.firstArgument with
      | some _ => exact Outcome.Ends.ok hslots
      | none => exact Outcome.Ends.ok (hslots.of_bindings (bindings_record hslot _) List.length_set.ge)
  · exact Outcome.Ends.ok hslots

theorem slots_pushChildren (current : InferenceEquality) (left right : List InferenceType) :
    ∀ (position : Nat) (state : InferenceState),
      (pushChildren current left right position state).slots = state.slots := by
  intro position
  induction position with
  | zero => exact fun _ => rfl
  | succ position ih =>
    intro state
    unfold pushChildren
    cases inferenceChild current left right position with
    | error error => rfl
    | ok child => exact ih _

theorem wellBound_applyTo (hslots : WellBound state.slots) {step : InferenceStep}
    (hstep : StepKeeps state.slots step) : WellBound (step.applyTo state).slots := by
  cases step with
  | updateInferenceSlots updates => exact hstep
  | expandInferenceArguments current left right =>
    unfold InferenceStep.applyTo
    rw [slots_pushChildren]
    exact hslots
  | _ => exact hslots

theorem orFail_ends {α : Type} {Q : α → Prop} {P : InferenceState → Prop}
    {f : Nat → Outcome SolverError α} {g : Nat → α → Outcome Empty InferenceState}
    (hf : Outcome.Ends f Q) (hg : ∀ a, Q a → Outcome.Ends (fun n => g n a) P)
    (hfailed : ∀ error, P { state with failure := some error }) :
    Outcome.Ends (fun n => state.orFail (f n) (g n)) P := by
  obtain ⟨outcome, ⟨hne, least, hleast⟩, hQ⟩ := hf
  cases outcome with
  | timeout => exact absurd rfl hne
  | err error =>
    refine ⟨.ok { state with failure := some error }, ⟨by simp, least, fun fuel hle => ?_⟩,
      fun last hlast => ?_⟩
    · show state.orFail (f fuel) (g fuel) = _
      rw [hleast fuel hle]
      rfl
    · cases hlast
      exact hfailed error
  | ok a =>
    obtain ⟨last, ⟨hlast, more, hmore⟩, hP⟩ := hg a (hQ a rfl)
    refine ⟨last, ⟨hlast, max least more, fun fuel hle => ?_⟩, hP⟩
    show state.orFail (f fuel) (g fuel) = last
    rw [hleast fuel (by omega)]
    exact hmore fuel (by omega)

/-- **One turn.**  It ends, and its slots are well bound whether it fails or not. -/
theorem solveConstraint_settles (addition : Option CanonicalOperation)
    (equality : InferenceEquality) (hslots : WellBound state.slots) :
    ∃ next, Outcome.Settles (fun n => solveConstraint n addition equality state) (.ok next) ∧
      WellBound next.slots := by
  suffices hends : Outcome.Ends (fun n => solveConstraint n addition equality state)
      fun next => WellBound next.slots by
    obtain ⟨outcome, hsettles, hnext⟩ := hends
    cases outcome with
    | ok next => exact ⟨next, hsettles, hnext next rfl⟩
    | err error => exact error.elim
    | timeout => exact absurd rfl hsettles.1
  unfold solveConstraint
  by_cases hskips : state.skips equality = true
  · simp only [if_pos hskips]
    exact Outcome.Ends.ok hslots
  · simp only [if_neg hskips]
    refine orFail_ends (recordArgumentOrigin_ends hslots equality) ?_ fun _ => hslots
    intro update hupdate
    refine orFail_ends (inspectInferenceEquality_ends hupdate equality addition) ?_ fun _ => hupdate
    exact fun step hstep => Outcome.Ends.ok (wellBound_applyTo hupdate hstep)

/-! ## Runs -/

/-- What an expression does to the solver's state until it fails: a slot for a parameter of a
call, an equality of any form, and the turn of the top equality. -/
inductive Transition (addition : Option CanonicalOperation) :
    InferenceState → InferenceState → Prop where
  | allocate {state : InferenceState} (parameter : TypeParameterId) (callSpan : Span)
      (hrunning : state.failure.isNone) :
      Transition addition state
        { state with slots := state.slots ++ [⟨parameter, callSpan, none, .unboundVariable 0⟩] }
  | submit {state : InferenceState} (equality : InferenceEquality)
      (hrunning : state.failure.isNone) :
      Transition addition state { state with work := equality :: state.work }
  | solve {state next : InferenceState} {equality : InferenceEquality}
      {rest : List InferenceEquality} (hrunning : state.failure.isNone)
      (hwork : state.work = equality :: rest)
      (hsolves : Outcome.Settles
        (fun n => solveConstraint n addition equality { state with work := rest }) (.ok next)) :
      Transition addition state next

/-- An expression starts without slots. -/
def InferenceState.initial : InferenceState := ⟨[], [], false, none⟩

abbrev Reachable (addition : Option CanonicalOperation) (state : InferenceState) : Prop :=
  Relation.ReflTransGen (Transition addition) .initial state

theorem bindings_allocate (parameter : TypeParameterId) (callSpan : Span) :
    bindings (slots ++ [⟨parameter, callSpan, none, .unboundVariable 0⟩]) = bindings slots := by
  funext id
  unfold bindings
  rw [List.getElem?_append]
  by_cases hid : id < slots.length
  · rw [if_pos hid]
  · rw [if_neg hid, List.getElem?_eq_none (Nat.le_of_not_lt hid)]
    cases id - slots.length with
    | zero => rfl
    | succ n => rfl

theorem Transition.wellBound {addition : Option CanonicalOperation} {next : InferenceState}
    (h : Transition addition state next) (hslots : WellBound state.slots) :
    WellBound next.slots := by
  cases h with
  | allocate parameter callSpan _ =>
    exact hslots.of_bindings (bindings_allocate parameter callSpan) (by simp)
  | submit equality _ => exact hslots
  | @solve _ equality rest _ _ hsolves =>
    obtain ⟨last, hsettles, hlast⟩ := solveConstraint_settles addition equality
      (show WellBound ({ state with work := rest } : InferenceState).slots from hslots)
    cases hsettles.unique hsolves
    exact hlast

theorem Reachable.wellBound {addition : Option CanonicalOperation} (h : Reachable addition state) :
    WellBound state.slots := by
  induction h with
  | refl =>
    have hnone : bindings InferenceState.initial.slots = fun _ => none := by
      funext id
      rfl
    constructor
    · intro id value hvalue
      rw [hnone] at hvalue
      cases hvalue
    · rw [hnone]
      exact layered_unbound
  | tail _ hstep ih => exact hstep.wellBound ih

theorem settles_of_ends {ε α : Type} {Q : α → Prop} {f : Nat → Outcome ε α} (h : Outcome.Ends f Q) :
    ∃ outcome, Outcome.Settles f outcome := by
  obtain ⟨outcome, hsettles, -⟩ := h
  exact ⟨outcome, hsettles⟩

/-- **Slots stay acyclic.**  In every state a run reaches, no variable leads to itself through
links and bound types; following, checking and publishing any type end, and so does the next
turn; a published type reads every solved variable as its solution. -/
theorem reachable_slots_acyclic {addition : Option CanonicalOperation} {state : InferenceState}
    (h : Reachable addition state) :
    (∀ id, ¬ Relation.TransGen (Edge InferenceType.mentions (bindings state.slots)) id id) ∧
      (∀ span value, ∃ outcome,
        Outcome.Settles (fun n => inferenceHead state.slots span n value) outcome) ∧
      (∀ sought value span, ∃ outcome,
        Outcome.Settles (fun n => inferenceOccurs n sought value state.slots span) outcome) ∧
      (∀ equality, ∃ next, Outcome.Settles (fun n => solveConstraint n addition equality state)
        (.ok next)) ∧
      ∀ publication,
        (∃ values, ReadsSolved state.slots values ∧
          ReadsUnsolved state.slots publication values) ∧
        ∀ span value, ∃ outcome,
          Outcome.Settles
            (fun n => publishInferenceType state.slots publication span n value) outcome ∧
          ∀ type, outcome = .ok type →
            ∀ values, Reads state.slots publication values → type = value.solved values := by
  have hslots := Reachable.wellBound h
  refine ⟨hslots.layered.acyclic, fun span value => ?_, fun sought value span => ?_,
    fun equality => ?_, fun publication => ⟨?_, fun span value => ?_⟩⟩
  · exact settles_of_ends (inferenceHead_ends hslots span value)
  · exact settles_of_ends (inferenceOccurs_ends hslots sought value span)
  · obtain ⟨next, hsettles, -⟩ := solveConstraint_settles addition equality hslots
    exact ⟨next, hsettles⟩
  · exact exists_reads hslots publication
  · exact publishInferenceType_ends hslots publication span value

def parameterAt (position : Nat) : TypeParameterId := ⟨.functionDeclaration 0, position⟩

/-- A hole of an interpolation is asked to be another variable. -/
def holeEquality : InferenceEquality :=
  ⟨.callVariable 0, .callVariable 1, .interpolationConstraint compilerSpan, .requireEquality, none⟩

/-- The second of two variables linked to the first. -/
def linkedPair : InferenceState where
  slots :=
    [⟨parameterAt 0, compilerSpan, none, .unboundVariable 1⟩,
      ⟨parameterAt 1, compilerSpan, none, .linkedVariable 0⟩]
  work := []
  resultIncompatible := false
  failure := none

def unlinkedPair (work : List InferenceEquality) : InferenceState where
  slots :=
    [⟨parameterAt 0, compilerSpan, none, .unboundVariable 0⟩,
      ⟨parameterAt 1, compilerSpan, none, .unboundVariable 0⟩]
  work := work
  resultIncompatible := false
  failure := none

theorem solveConstraint_holeEquality (addition : Option CanonicalOperation) :
    Outcome.Settles (fun n => solveConstraint n addition holeEquality (unlinkedPair []))
      (.ok linkedPair) :=
  .closed 1 (by simp) fun _ => rfl

theorem linkedPair_reachable (addition : Option CanonicalOperation) :
    Reachable addition linkedPair := by
  have hfirst : Transition addition .initial
      ⟨[⟨parameterAt 0, compilerSpan, none, .unboundVariable 0⟩], [], false, none⟩ :=
    .allocate (parameterAt 0) compilerSpan rfl
  have hsecond : Transition addition
      ⟨[⟨parameterAt 0, compilerSpan, none, .unboundVariable 0⟩], [], false, none⟩
      (unlinkedPair []) :=
    .allocate (parameterAt 1) compilerSpan rfl
  have hsubmit : Transition addition (unlinkedPair []) (unlinkedPair [holeEquality]) :=
    .submit holeEquality rfl
  have hsolve : Transition addition (unlinkedPair [holeEquality]) linkedPair :=
    .solve rfl rfl (solveConstraint_holeEquality addition)
  exact (((Relation.ReflTransGen.single hfirst).tail hsecond).tail hsubmit).tail hsolve

/-- The linked variable is published under its own name. -/
theorem reachable_slots_acyclic_linkedPair :
    (∀ id, ¬ Relation.TransGen (Edge InferenceType.mentions (bindings linkedPair.slots)) id id) ∧
      Outcome.Settles (fun n => publishInferenceType linkedPair.slots .diagnosticInference
        compilerSpan n (.callVariable 1)) (.ok (.parameterType (parameterAt 1))) := by
  obtain ⟨hacyclic, -, -, -, hpublish⟩ := reachable_slots_acyclic (linkedPair_reachable none)
  refine ⟨hacyclic, ?_⟩
  obtain ⟨outcome, hsettles, -⟩ :=
    (hpublish .diagnosticInference).2 compilerSpan (.callVariable 1)
  have hvalue : Outcome.Settles (fun n => publishInferenceType linkedPair.slots .diagnosticInference
      compilerSpan n (.callVariable 1)) (.ok (.parameterType (parameterAt 1))) :=
    .closed 3 (by simp) fun _ => rfl
  rw [← hsettles.unique hvalue]
  exact hsettles

end Blorp.Check.Solver
