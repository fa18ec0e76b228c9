import Blorp.Check.SolvingRuns

/-!
# What solving answers

The equalities an expression has asked for, against what the solver made of them.  As long as
they have a common solution no turn rejects one, and nothing is guessed.
-/

namespace Blorp.Check.Solver

open Fuel Triangular

variable {slots : List InferenceSlot} {state : InferenceState} {equality : InferenceEquality}
  {addition : Option CanonicalOperation} {values : Values}

/-! ## One equality -/

/-- What receiver overlap keeps of an equality. -/
def InferenceEquality.sides (equality : InferenceEquality) : Check.InferenceEquality :=
  ⟨equality.expected, equality.actual, equality.origin.inferenceOriginSpan⟩

/-- A step of receiver overlap, for an equality that goes on as `current`. -/
def stepOf (current : InferenceEquality) : Check.InferenceStep → InferenceStep
  | .incompatibleResult => .incompatibleResult
  | .completeEquality => .completeEquality
  | .updateInferenceSlots updates => .updateInferenceSlots updates
  | .expandInferenceList child =>
      .expandInferenceList { current with expected := child.expected, actual := child.actual }
  | .expandInferenceArguments _ left right => .expandInferenceArguments current left right

theorem inspectInferenceEquality_eq {n : Nat} {step : Check.InferenceStep}
    (h : Check.inspectInferenceEquality n equality.sides slots = .ok step)
    (hstep : step ≠ .incompatibleResult) :
    inspectInferenceEquality n equality slots addition =
      .ok (stepOf equality.constrained step) := by
  obtain ⟨left, hleft, h⟩ := Outcome.peel h
  obtain ⟨right, hright, h⟩ := Outcome.peel h
  unfold inspectInferenceEquality
  simp only [InferenceEquality.sides] at hleft hright h
  simp only [hleft, hright, shared, Outcome.ok_bind]
  cases haction : inferenceAction left right with
  | mergeInference first second =>
    rw [haction] at h
    obtain ⟨updates, hlink, h⟩ := Outcome.peel h
    cases h
    simp only [hlink]
    rfl
  | bindInference id value =>
    rw [haction] at h
    obtain ⟨slot, hslot, h⟩ := Outcome.peel h
    obtain ⟨found, hfound, h⟩ := Outcome.peel h
    simp only [orInvariant, hslot, shared, Outcome.ok_bind, hfound]
    cases found with
    | true =>
      cases h
      exact absurd rfl hstep
    | false =>
      cases h
      rfl
  | inferenceMismatch =>
    rw [haction] at h
    cases h
    exact absurd rfl hstep
  | _ =>
    rw [haction] at h
    cases h
    rfl

theorem inspectInferenceEquality_settles (addition : Option CanonicalOperation) (hslots : WellBound slots)
    (hwithin : equality.sides.Within slots) (hvalues : Solution slots values)
    (hholds : equality.sides.Holds values) :
    ∃ step, Outcome.Settles (fun n => inspectInferenceEquality n equality slots addition)
        (.ok (stepOf equality.constrained step)) ∧
      StepFits slots equality.sides step ∧ step ≠ .incompatibleResult := by
  obtain ⟨step, ⟨-, least, hleast⟩, hfits⟩ := inspectInferenceEquality_spec hslots hwithin
  have hne : step ≠ .incompatibleResult := by
    rintro rfl
    exact hfits values hvalues hholds
  exact ⟨step, ⟨by simp, least, fun fuel hle =>
    inspectInferenceEquality_eq (hleast fuel hle) hne⟩, hfits, hne⟩

theorem shared_settles {α : Type} {a : α} {f : Nat → Outcome CheckError α}
    (h : Outcome.Settles f (.ok a)) : Outcome.Settles (fun n => shared (f n)) (.ok a) := by
  obtain ⟨-, least, hleast⟩ := h
  refine ⟨by simp, least, fun fuel hle => ?_⟩
  show shared (f fuel) = .ok a
  rw [hleast fuel hle]
  rfl

theorem recordArgumentOrigin_settles (hslots : WellBound slots)
    (hwithin : equality.sides.Within slots) :
    ∃ update, Outcome.Settles (fun n => recordArgumentOrigin n equality slots) (.ok update) ∧
      (applyUpdates slots update.toList).length = slots.length ∧
      bindings (applyUpdates slots update.toList) = bindings slots := by
  have hnone : ∃ update, Outcome.Settles (fun _ => (.ok none : Outcome SolverError _)) (.ok update) ∧
      (applyUpdates slots update.toList).length = slots.length ∧
      bindings (applyUpdates slots update.toList) = bindings slots :=
    ⟨none, Outcome.Settles.ok, rfl, rfl⟩
  unfold recordArgumentOrigin
  split
  · next call position actual written id _ _ hexpected =>
    have hexpected' : (InferenceType.callVariable id).Within slots := hexpected ▸ hwithin.expected
    have hid : id < slots.length := hexpected' id (by simp [InferenceType.mentions])
    have hself : ∃ self, Outcome.Settles
        (fun n => selfEquation n id equality.actual slots actual.span) (.ok self) := by
      unfold selfEquation
      split
      · next other hother =>
        by_cases heq : id = other
        · simp only [if_pos heq]
          exact ⟨true, Outcome.Settles.ok⟩
        · simp only [if_neg heq]
          obtain ⟨left, hleft, -⟩ := inferenceHead_spec hslots actual.span hexpected'
          obtain ⟨right, hright, -⟩ := inferenceHead_spec hslots actual.span
            (show (InferenceType.callVariable other).Within slots from hother ▸ hwithin.actual)
          refine Exists.imp (fun self hsettles => Outcome.Settles.bind_ok (shared_settles hleft)
            (Outcome.Settles.bind_ok (shared_settles hright) hsettles)) ?_
          split
          · exact ⟨_, Outcome.Settles.ok⟩
          · exact ⟨_, Outcome.Settles.ok⟩
      · exact ⟨false, Outcome.Settles.ok⟩
    obtain ⟨self, hself⟩ := hself
    refine Exists.imp (fun update => And.imp_left (Outcome.Settles.bind_ok hself)) ?_
    cases self with
    | true => exact hnone
    | false =>
      have hslot : slots[id]? = some slots[id] := List.getElem?_eq_getElem hid
      simp only [Bool.false_eq_true, ↓reduceIte, hslot, orInvariant, orCheckerInvariant,
        Outcome.liftM_ok, shared, Outcome.ok_bind]
      cases slots[id].firstArgument with
      | some first => exact hnone
      | none => exact ⟨_, Outcome.Settles.ok, List.length_set, bindings_record hslot _⟩
  · exact hnone

/-! ## One turn -/

/-- Values that satisfy the slots and everything pending. -/
def InferenceState.Solved (state : InferenceState) (values : Values) : Prop :=
  Solution state.slots values ∧ ∀ equality ∈ state.work, equality.sides.Holds values

/-- The state has answered everything asked for: nothing is rejected, nothing is lost. -/
structure Serves (asked : List InferenceEquality) (state : InferenceState) : Prop where
  running : state.failure = none
  compatible : state.resultIncompatible = false
  wellBound : WellBound state.slots
  within : ∀ equality ∈ state.work, equality.sides.Within state.slots
  same : ∀ values, state.Solved values ↔ ∀ equality ∈ asked, equality.sides.Holds values

def childrenOf (current : InferenceEquality) (left right : List InferenceType) :
    List InferenceEquality :=
  (left.zip right).map fun pair => { current with expected := pair.1, actual := pair.2 }

theorem pushChildren_eq (current : InferenceEquality) {left right : List InferenceType}
    (hlength : left.length = right.length) :
    ∀ (position : Nat) (state : InferenceState), position ≤ left.length →
      pushChildren current left right position state =
        { state with work := (childrenOf current left right).take position ++ state.work } := by
  intro position
  induction position with
  | zero => exact fun _ _ => rfl
  | succ position ih =>
    intro state hle
    have hl : position < left.length := hle
    have hr : position < right.length := hlength ▸ hl
    have hchild : inferenceChild current left right position =
        .ok { current with expected := left[position], actual := right[position] } := by
      rw [inferenceChild, inferencePair_ok hl hr]
      rfl
    have hget : (childrenOf current left right)[position]? =
        some { current with expected := left[position], actual := right[position] } := by
      simp [childrenOf, hl, hr]
    unfold pushChildren
    rw [hchild]
    simp only
    rw [ih _ (Nat.le_of_succ_le hle), List.take_add_one, hget]
    simp

theorem childrenOf_hold (current : InferenceEquality) {left right : List InferenceType}
    (hlength : left.length = right.length) :
    (∀ equality ∈ childrenOf current left right, equality.sides.Holds values) ↔
      left.map (·.solved values) = right.map (·.solved values) := by
  unfold childrenOf
  induction left generalizing right with
  | nil =>
    cases right with
    | nil => simp
    | cons other right => cases hlength
  | cons type left ih =>
    cases right with
    | nil => cases hlength
    | cons other right =>
      rw [List.zip_cons_cons, List.map_cons, List.forall_mem_cons, ih (Nat.succ.inj hlength),
        List.map_cons, List.map_cons, List.cons.injEq]
      rfl

theorem Serves.expand {asked rest : List InferenceEquality} (h : Serves asked state)
    (hwork : state.work = equality :: rest) (current : InferenceEquality)
    {left right : List InferenceType} (hparts : Decomposes state.slots equality.sides left right) :
    Serves asked { state with work := childrenOf current left right ++ rest } := by
  refine ⟨h.running, h.compatible, h.wellBound, fun child hchild => ?_, fun values => ?_⟩
  · rcases List.mem_append.mp hchild with hnew | hrest
    · obtain ⟨pair, hpair, rfl⟩ := List.mem_map.mp hnew
      obtain ⟨hl, hr⟩ := List.of_mem_zip hpair
      exact ⟨hparts.within _ (List.mem_append_left _ hl),
        hparts.within _ (List.mem_append_right _ hr)⟩
    · exact h.within child (hwork ▸ List.mem_cons_of_mem _ hrest)
  · rw [← h.same values]
    unfold InferenceState.Solved
    simp only [hwork, List.forall_mem_append, List.forall_mem_cons]
    refine and_congr_right fun hvalues => and_congr_left fun _ => ?_
    rw [childrenOf_hold current hparts.length]
    exact hparts.holds values hvalues

theorem Serves.answer {asked rest : List InferenceEquality} {next : List InferenceSlot}
    (h : Serves asked state) (hwork : state.work = equality :: rest)
    (hanswers : Answers state.slots equality.sides.Holds (some next)) :
    Serves asked { state with slots := next, work := rest } := by
  obtain ⟨hnext, hlength, hsolves, -⟩ := hanswers
  refine ⟨h.running, h.compatible, hnext, fun other hother => ?_, fun values => ?_⟩
  · exact (h.within other (hwork ▸ List.mem_cons_of_mem _ hother)).grow hlength
  · rw [← h.same values]
    unfold InferenceState.Solved
    simp only [hwork, hsolves values, List.forall_mem_cons, and_assoc]

/-- **One turn.**  While something satisfies all that was asked for, the top equality is not
rejected, and the slots and the work that the turn leaves have the same solutions. -/
theorem Serves.solve {asked rest : List InferenceEquality} {next : InferenceState}
    (h : Serves asked state) (hwork : state.work = equality :: rest)
    (hsome : ∃ values, ∀ equality ∈ asked, equality.sides.Holds values)
    (hsolves : Outcome.Settles
      (fun n => solveConstraint n addition equality { state with work := rest }) (.ok next)) :
    Serves asked next := by
  have htop : equality ∈ state.work := hwork ▸ List.mem_cons_self
  obtain ⟨update, hrecord, hlength, hbindings⟩ :=
    recordArgumentOrigin_settles h.wellBound (h.within equality htop)
  generalize hrecorded : applyUpdates state.slots update.toList = recorded at hlength hbindings
  -- Recording leaves slots with the same bindings.
  have hserves : Serves asked { state with slots := recorded } := by
    refine ⟨h.running, h.compatible, h.wellBound.of_bindings hbindings hlength.ge,
      fun other hother => (h.within other hother).grow hlength, fun values => ?_⟩
    rw [← h.same values]
    unfold InferenceState.Solved Solution
    simp only [hbindings]
  obtain ⟨values, hvalues⟩ := hsome
  obtain ⟨hsolution, hholds⟩ := (hserves.same values).mpr hvalues
  obtain ⟨step, hinspect, hfits, hne⟩ := inspectInferenceEquality_settles addition
    hserves.wellBound (hserves.within equality htop) hsolution (hholds equality htop)
  have hskips : ({ state with work := rest } : InferenceState).skips equality = false := by
    unfold InferenceState.skips
    split
    · exact h.compatible
    · rfl
  have hturn : Outcome.Settles
      (fun n => solveConstraint n addition equality { state with work := rest })
      (.ok ((stepOf equality.constrained step).applyTo
        { state with slots := recorded, work := rest })) := by
    obtain ⟨-, first, hfirst⟩ := hrecord
    obtain ⟨-, second, hsecond⟩ := hinspect
    refine ⟨by simp, max first second, fun fuel hle => ?_⟩
    unfold solveConstraint InferenceState.orFail
    simp only [hskips, Bool.false_eq_true, ↓reduceIte, hfirst fuel (by omega), hrecorded,
      hsecond fuel (by omega)]
  cases hturn.unique hsolves
  cases step with
  | incompatibleResult => exact absurd rfl hne
  | completeEquality => exact hserves.answer hwork hfits
  | updateInferenceSlots updates => exact hserves.answer hwork hfits
  | expandInferenceList child => exact hserves.expand hwork equality.constrained hfits.2
  | expandInferenceArguments parent left right =>
    have hparts : Decomposes recorded equality.sides left right := hfits
    show Serves asked (pushChildren equality.constrained left right left.length _)
    rw [pushChildren_eq _ hparts.length _ _ (Nat.le_refl _), List.take_of_length_le]
    · exact hserves.expand hwork equality.constrained hparts
    · simp [childrenOf]

/-! ## Runs -/

/-- An expression has allocated variables, asked for equalities over them, latest first, and
solved some of those it has pending. -/
inductive Asked (addition : Option CanonicalOperation) :
    List InferenceEquality → InferenceState → Prop where
  | start : Asked addition [] .initial
  | allocate {asked : List InferenceEquality} {state : InferenceState}
      (h : Asked addition asked state) (parameter : TypeParameterId) (callSpan : Span) :
      Asked addition asked
        { state with slots := state.slots ++ [⟨parameter, callSpan, none, .unboundVariable 0⟩] }
  | submit {asked : List InferenceEquality} {state : InferenceState}
      (h : Asked addition asked state) (equality : InferenceEquality)
      (hwithin : equality.sides.Within state.slots) :
      Asked addition (equality :: asked) { state with work := equality :: state.work }
  | solve {asked rest : List InferenceEquality} {state next : InferenceState}
      {equality : InferenceEquality} (h : Asked addition asked state)
      (hwork : state.work = equality :: rest)
      (hsolves : Outcome.Settles
        (fun n => solveConstraint n addition equality { state with work := rest }) (.ok next)) :
      Asked addition asked next

/-- **A run.**  While something satisfies all that was asked for, it is answered. -/
theorem Asked.serves {asked : List InferenceEquality} (h : Asked addition asked state)
    (hsome : ∃ values, ∀ equality ∈ asked, equality.sides.Holds values) : Serves asked state := by
  induction h with
  | start =>
    have hstart : Reachable addition .initial := .refl
    refine ⟨rfl, rfl, hstart.wellBound, ?_, fun values => ?_⟩
    · simp [InferenceState.initial]
    · simp [InferenceState.Solved, InferenceState.initial, Solution, Solves, bindings]
  | @allocate asked state _ parameter callSpan ih =>
    obtain ⟨hrunning, hcompatible, hslots, hwithin, hsame⟩ := ih hsome
    refine ⟨hrunning, hcompatible, hslots.of_bindings (bindings_allocate parameter callSpan) (by simp),
      fun other hother => ⟨fun id hid => ?_, fun id hid => ?_⟩, fun values => ?_⟩
    · exact Nat.lt_of_lt_of_le ((hwithin other hother).expected id hid) (by simp)
    · exact Nat.lt_of_lt_of_le ((hwithin other hother).actual id hid) (by simp)
    · rw [← hsame values]
      unfold InferenceState.Solved Solution
      simp only [bindings_allocate]
  | submit _ equality hwithin ih =>
    obtain ⟨values, hvalues⟩ := hsome
    have hserves := ih ⟨values, fun other hother => hvalues other (List.mem_cons_of_mem _ hother)⟩
    refine ⟨hserves.running, hserves.compatible, hserves.wellBound, ?_, fun values => ?_⟩
    · exact List.forall_mem_cons.mpr ⟨hwithin, hserves.within⟩
    · rw [List.forall_mem_cons, ← hserves.same values]
      unfold InferenceState.Solved
      rw [List.forall_mem_cons, and_left_comm]
  | solve _ hwork hsolves ih => exact (ih hsome).solve hwork hsome hsolves

theorem readsSolved_of_solution (h : Solution slots values) : ReadsSolved slots values := by
  rintro id value ⟨last, hlinks, hlast, -⟩
  induction hlinks using Relation.ReflTransGen.head_induction_on with
  | refl => exact h last value hlast
  | head hnext _ ih => exact (h _ _ hnext).trans ih

/-- **Solving is principal.**  As long as the equalities asked for have a common solution, in any
order of allocations, questions and turns, solving has not failed and no result disagrees.  The
slots with the pending equalities then have exactly the solutions of what was asked for, and a
type that is published completely is what every solution makes of it. -/
theorem solving_principal {asked : List InferenceEquality} (h : Asked addition asked state)
    (hsome : ∃ values, ∀ equality ∈ asked, equality.sides.Holds values) :
    state.failure = none ∧ state.resultIncompatible = false ∧
      (∀ values, Solution state.slots values ∧ (∀ equality ∈ state.work, equality.sides.Holds values)
        ↔ ∀ equality ∈ asked, equality.sides.Holds values) ∧
      ∀ span value type,
        Outcome.Settles (fun n => publishInferenceType state.slots .completeInference span n value)
          (.ok type) →
        ∀ values, (∀ equality ∈ asked, equality.sides.Holds values) → value.solved values = type := by
  obtain ⟨hrunning, hcompatible, hslots, -, hsame⟩ := h.serves hsome
  refine ⟨hrunning, hcompatible, hsame, fun span value type hpublished values hvalues => ?_⟩
  obtain ⟨outcome, hsettles, htype⟩ :=
    publishInferenceType_ends hslots .completeInference span value
  have hread := readsSolved_of_solution ((hsame values).mpr hvalues).1
  exact (htype type (hsettles.unique hpublished) values ⟨hread, .inl rfl⟩).symm

/-- The first of the variables is asked to be `Int`. -/
def intEquality : InferenceEquality :=
  ⟨.callVariable 0, .acceptedType .intType, .interpolationConstraint compilerSpan, .requireEquality,
    none⟩

def intPair : InferenceState := { linkedPair with
  slots :=
    [⟨parameterAt 0, compilerSpan, none, .boundVariable (.acceptedType .intType)⟩,
      ⟨parameterAt 1, compilerSpan, none, .linkedVariable 0⟩] }

/-- The second of two variables asked to be one, of which the first is `Int`, is published as
`Int`. -/
theorem solving_principal_linkedPair : Asked none [intEquality, holeEquality] intPair ∧
      (∀ values, Solution intPair.slots values ↔ values 0 = values 1 ∧ values 0 = .intType) ∧
      Outcome.Settles (fun n => publishInferenceType intPair.slots .completeInference compilerSpan n
        (.callVariable 1)) (.ok .intType) ∧
      ∀ values, values 0 = values 1 → values 0 = .intType →
        (InferenceType.callVariable 1).solved values = .intType := by
  have hlinked : Asked none [holeEquality] linkedPair := by
    refine .solve (.submit (.allocate (.allocate .start (parameterAt 0) compilerSpan) (parameterAt 1)
      compilerSpan) holeEquality ⟨?_, ?_⟩) rfl (solveConstraint_holeEquality none)
    all_goals simp [InferenceType.Within, InferenceType.mentions, InferenceEquality.sides,
      holeEquality, InferenceState.initial]
  have hbound : Outcome.Settles (fun n => solveConstraint n none intEquality linkedPair)
      (.ok intPair) := .closed 3 (by simp) fun _ => rfl
  have hasked : Asked none [intEquality, holeEquality] intPair := by
    refine .solve (hlinked.submit intEquality ⟨?_, ?_⟩) rfl hbound
    all_goals simp [InferenceType.Within, InferenceType.mentions, InferenceEquality.sides,
      intEquality, linkedPair]
  have hpublished : Outcome.Settles (fun n => publishInferenceType intPair.slots .completeInference
      compilerSpan n (.callVariable 1)) (.ok .intType) := .closed 4 (by simp) fun _ => rfl
  have hholds (values : InferenceVariableId → TypeRef) :
      (∀ equality ∈ [intEquality, holeEquality], equality.sides.Holds values) ↔
        values 0 = values 1 ∧ values 0 = .intType := by
    simp [InferenceEquality.sides, holeEquality, intEquality, Check.InferenceEquality.Holds,
      InferenceType.solved, and_comm]
  obtain ⟨-, -, hsame, hpublish⟩ := solving_principal hasked
    ⟨fun _ => .intType, (hholds _).mpr ⟨rfl, rfl⟩⟩
  refine ⟨hasked, fun values => ?_, hpublished, fun values hlink hint =>
    hpublish _ _ _ hpublished values ((hholds values).mpr ⟨hlink, hint⟩)⟩
  have hvalues := hsame values
  rw [hholds] at hvalues
  simpa [intPair, linkedPair] using hvalues

end Blorp.Check.Solver
