import Blorp.Check.EqualityAvailability

/-!
# What one summary establishes

`Supported` says that a type has a trait, given which aggregates have automatic equality,
what each requires of its parameters, and which bounds are held of the parameters at hand.
A summary of a goal without a failure holds exactly the bounds that support it.
-/

namespace Blorp.Check

/-! ## Bounds and support -/

/-- A bound without its place. -/
abbrev BoundAtom := TypeParameterId × TraitId

def TraitRequirement.atom (bound : TraitRequirement) : BoundAtom :=
  (bound.parameter, bound.requiredTrait)

/-- Which aggregates have automatic equality, and what each requires of its parameters. -/
structure EqualityAssignment where
  available : AggregateId → Prop
  required : AggregateId → BoundAtom → Prop

/-- A type has a trait: by a held bound, by the implementation of its head, or by automatic
equality of its aggregate. -/
inductive Supported (traits : AcceptedTraits) (assignment : EqualityAssignment)
    (held : BoundAtom → Prop) : TraitId → TypeRef → Prop
  | parameter {required : TraitId} {parameter : TypeParameterId}
      (bound : held (parameter, required)) :
      Supported traits assignment held required (.parameterType parameter)
  | implemented {required : TraitId} {receiver : TypeRef} {head : TypeHead}
      {row : AcceptedImplementation} (hhead : receiver.typeHead = some head)
      (hrow : traits.familyFor required head = some row)
      (harity : row.parameterBounds.length ≤ receiver.receiverArguments.length)
      (hbounds : ∀ (position : Nat) (bounds : List LocatedTrait) (argument : TypeRef)
        (bound : LocatedTrait), row.parameterBounds[position]? = some bounds →
        receiver.receiverArguments[position]? = some argument → bound ∈ bounds →
        Supported traits assignment held bound.requiredTrait argument) :
      Supported traits assignment held required receiver
  | automatic {required : TraitId} {aggregate : AggregateId} {arguments : List TypeRef}
      (hcanonical : isCanonicalEquality traits required = true)
      (hnone : traits.familyFor required aggregate.aggregateHead = none)
      (havailable : assignment.available aggregate)
      (harity : ∀ atom, assignment.required aggregate atom → atom.1.position < arguments.length)
      (hbounds : ∀ (atom : BoundAtom) (argument : TypeRef), assignment.required aggregate atom →
        arguments[atom.1.position]? = some argument →
        Supported traits assignment held atom.2 argument) :
      Supported traits assignment held required (.nominalType (.aggregateNominal aggregate) arguments)

theorem Supported.mono {traits : AcceptedTraits} {assignment : EqualityAssignment}
    {held more : BoundAtom → Prop} (hmore : ∀ atom, held atom → more atom) {required : TraitId}
    {type : TypeRef} (h : Supported traits assignment held required type) :
    Supported traits assignment more required type := by
  induction h with
  | parameter bound => exact .parameter (hmore _ bound)
  | implemented hhead hrow harity _ ih => exact .implemented hhead hrow harity ih
  | automatic hcanonical hnone havailable harity _ ih =>
    exact .automatic hcanonical hnone havailable harity ih

def candidateAssignment (possible : List EqualityCandidate) : EqualityAssignment where
  available aggregate := ∃ candidate ∈ possible, candidate.aggregate = aggregate
  required aggregate atom := ∃ candidate ∈ possible, candidate.aggregate = aggregate ∧
    atom ∈ candidate.requirements.map (·.atom)

/-! ## Adding bounds -/

/-- Bounds after others: the same atoms, then new ones. -/
def AddsBounds (before after : List TraitRequirement) : Prop :=
  ∃ new, after.map (·.atom) = before.map (·.atom) ++ new ∧ ∀ atom ∈ new, atom ∉ before.map (·.atom)

theorem AddsBounds.refl (bounds : List TraitRequirement) : AddsBounds bounds bounds :=
  ⟨[], by simp, fun _ h => absurd h List.not_mem_nil⟩

theorem AddsBounds.trans {first second third : List TraitRequirement} (hfirst : AddsBounds first second)
    (hsecond : AddsBounds second third) : AddsBounds first third := by
  obtain ⟨new, hnew, hfresh⟩ := hfirst
  obtain ⟨more, hmore, hfresher⟩ := hsecond
  refine ⟨new ++ more, by rw [hmore, hnew, List.append_assoc], fun atom hatom => ?_⟩
  rcases List.mem_append.mp hatom with hatom | hatom
  · exact hfresh atom hatom
  · intro hknown
    refine hfresher atom hatom ?_
    rw [hnew]
    exact List.mem_append_left new hknown

variable {before after : List TraitRequirement}

theorem AddsBounds.mem (h : AddsBounds before after) {atom : BoundAtom}
    (hatom : atom ∈ before.map (·.atom)) : atom ∈ after.map (·.atom) := by
  obtain ⟨new, hnew, -⟩ := h
  rw [hnew]
  exact List.mem_append_left new hatom

theorem AddsBounds.same (h : AddsBounds before after) (hlength : after.length = before.length) :
    after.map (·.atom) = before.map (·.atom) := by
  obtain ⟨new, hnew, -⟩ := h
  have hcount := congrArg List.length hnew
  simp only [List.length_append, List.length_map] at hcount
  have hnone : new = [] := List.length_eq_zero_iff.mp (by omega)
  rw [hnew, hnone, List.append_nil]

theorem requireBound_extends (inferred : TraitRequirement) (bounds : List TraitRequirement) :
    AddsBounds bounds (requireBound inferred bounds) ∧
      (requireBound inferred bounds).map (·.atom) ⊆ bounds.map (·.atom) ++ [inferred.atom] ∧
      inferred.atom ∈ (requireBound inferred bounds).map (·.atom) := by
  induction bounds with
  | nil => exact ⟨⟨[inferred.atom], rfl, fun _ _ => List.not_mem_nil⟩, by simp [requireBound],
      by simp [requireBound]⟩
  | cons bound bounds ih =>
    unfold requireBound
    by_cases hsame : bound.parameter = inferred.parameter ∧
        bound.requiredTrait = inferred.requiredTrait
    · have hrefined : (if inferred.span.start < bound.span.start then
          ({ bound with span := inferred.span } : TraitRequirement) else bound).atom = bound.atom := by
        split <;> rfl
      have hatom : inferred.atom = bound.atom := Prod.ext hsame.1.symm hsame.2.symm
      rw [if_pos hsame]
      simp only [List.map_cons, hrefined, hatom]
      exact ⟨⟨[], by simp [hrefined], fun _ h => absurd h List.not_mem_nil⟩, by simp, by simp⟩
    · obtain ⟨⟨new, hnew, hfresh⟩, hwithin, hmem⟩ := ih
      have hne : inferred.atom ≠ bound.atom := by
        intro heq
        exact hsame ⟨(congrArg Prod.fst heq).symm, (congrArg Prod.snd heq).symm⟩
      rw [if_neg hsame]
      simp only [List.map_cons]
      refine ⟨⟨new, by simp [hnew], fun atom hatom => ?_⟩, ?_, List.mem_cons_of_mem _ hmem⟩
      · have hafter : atom ∈ (requireBound inferred bounds).map (·.atom) := by
          rw [hnew]
          exact List.mem_append_right _ hatom
        have hold := hfresh atom hatom
        have hinferred : atom = inferred.atom := by
          rcases List.mem_append.mp (hwithin hafter) with hknown | hlast
          · exact absurd hknown hold
          · exact List.mem_singleton.mp hlast
        rw [List.map_cons, List.mem_cons, not_or]
        exact ⟨by rw [hinferred]; exact hne, hold⟩
      · intro atom hatom
        rcases List.mem_cons.mp hatom with rfl | hatom
        · exact List.mem_cons_self
        · exact List.mem_cons_of_mem _ (hwithin hatom)

/-! ## Goals and their parts -/

theorem TypeRef.sizeOf_receiverArguments {type argument : TypeRef}
    (h : argument ∈ type.receiverArguments) : sizeOf argument < sizeOf type := by
  cases type with
  | nominalType owner arguments =>
    have hsize : sizeOf argument < sizeOf arguments := List.sizeOf_lt_of_mem h
    simp only [TypeRef.nominalType.sizeOf_spec]
    omega
  | listType element =>
    obtain rfl := List.mem_singleton.mp h
    simp
  | _ => cases h

theorem TypeRef.argument_induction {P : TypeRef → Prop}
    (step : ∀ type, (∀ argument ∈ type.receiverArguments, P argument) → P type) :
    ∀ type, P type := by
  suffices hall : ∀ size type, sizeOf type < size → P type from
    fun type => hall (sizeOf type + 1) type (Nat.lt_succ_self _)
  intro size
  induction size with
  | zero => intro type h; exact absurd h (Nat.not_lt_zero _)
  | succ size ih =>
    intro type h
    refine step type fun argument hargument => ih argument ?_
    have hsize := TypeRef.sizeOf_receiverArguments hargument
    omega

/-- What a type asks of its arguments; `none` stands for a missing one. -/
abbrev Subgoal := Option (TraitId × TypeRef)

def boundSubgoals (receiver : TypeRef) (bounds : List LocatedTrait × Nat) : List Subgoal :=
  match receiver.receiverArguments[bounds.2]? with
  | some argument => bounds.1.map fun bound => some (bound.requiredTrait, argument)
  | none => [none]

def requirementSubgoal (candidate : AggregateId) (receiver : TypeRef) (bound : TraitRequirement) :
    Subgoal :=
  if bound.parameter.owner = candidate.aggregateOwner then
    receiver.receiverArguments[bound.parameter.position]?.map fun argument =>
      (bound.requiredTrait, argument)
  else none

/-- The candidate whose equality a goal may use. -/
def provisionalCandidate (traits : AcceptedTraits) (possible : List EqualityCandidate)
    (required : TraitId) (head : TypeHead) : Option EqualityCandidate :=
  if isCanonicalEquality traits required then
    possible.find? fun candidate => decide (candidate.aggregate.aggregateHead = head)
  else none

/-- The parts of a goal on a type that is no parameter; `none` when nothing supports it. -/
def subgoals (traits : AcceptedTraits) (possible : List EqualityCandidate) (required : TraitId)
    (receiver : TypeRef) : Option (List Subgoal) :=
  receiver.typeHead.bind fun head =>
    match traits.familyFor required head with
    | some family => some (family.parameterBounds.zipIdx.flatMap (boundSubgoals receiver))
    | none => (provisionalCandidate traits possible required head).map fun candidate =>
        candidate.requirements.map (requirementSubgoal candidate.aggregate receiver)

def summarizeSubgoal (goal : TypeRef → EqualityGoal) : Subgoal → Summarize
  | some (required, type) => goal type required
  | none => fun _ => .error (checkerInvariant compilerSpan .invalidFunctionContract)

/-! ## Summaries in order -/

section Each

variable {steps more : List Summarize} {summary between after : EqualitySummary}

variable {I : EqualitySummary → Prop}

theorem summarizeEach_keeps : ∀ {summary after : EqualitySummary},
      (∀ step ∈ steps, ∀ before next, I before → before.failure = none → step before = .ok next →
        I next) →
      I summary → summary.failure = none → summarizeEach steps summary = .ok after → I after := by
  induction steps with
  | nil =>
    intro summary after _ hsummary _ h
    cases h
    exact hsummary
  | cons step steps ih =>
    intro summary after hstep hsummary hfailure h
    obtain ⟨between, hfirst, h⟩ := Except.peel h
    have hbetween := hstep step List.mem_cons_self summary between hsummary hfailure hfirst
    cases hnone : between.failure with
    | some failure =>
      simp only [hnone, Option.isSome_some, if_true] at h
      cases h
      exact hbetween
    | none =>
      simp only [hnone, Option.isSome_none, Bool.false_eq_true, if_false] at h
      exact ih (fun other hother => hstep other (List.mem_cons_of_mem _ hother)) hbetween hnone h

theorem summarizeEach_visits : ∀ {summary after : EqualitySummary},
    (∀ step ∈ steps, ∀ before next, before.failure = none → step before = .ok next →
      AddsBounds before.requirements next.requirements) →
    summary.failure = none → summarizeEach steps summary = .ok after → after.failure = none →
    AddsBounds summary.requirements after.requirements ∧ ∀ step ∈ steps, ∃ before next,
      before.failure = none ∧ step before = .ok next ∧ next.failure = none ∧
        AddsBounds next.requirements after.requirements := by
  induction steps with
  | nil =>
    intro summary after _ _ h _
    cases h
    exact ⟨.refl _, fun step hstep => absurd hstep List.not_mem_nil⟩
  | cons step steps ih =>
    intro summary after hextends hfailure h hsuccess
    obtain ⟨between, hfirst, h⟩ := Except.peel h
    have hbetween := hextends step List.mem_cons_self summary between hfailure hfirst
    cases hnone : between.failure with
    | some failure =>
      simp only [hnone, Option.isSome_some, if_true] at h
      cases h
      rw [hnone] at hsuccess
      cases hsuccess
    | none =>
      simp only [hnone, Option.isSome_none, Bool.false_eq_true, if_false] at h
      obtain ⟨hrest, hvisits⟩ := ih (fun other hother =>
        hextends other (List.mem_cons_of_mem _ hother)) hnone h hsuccess
      refine ⟨hbetween.trans hrest, fun other hother => ?_⟩
      rcases List.mem_cons.mp hother with rfl | hother
      · exact ⟨summary, between, hfailure, hfirst, hnone, hrest⟩
      · exact hvisits other hother

theorem summarizeEach_append (hfailure : summary.failure = none)
    (hfirst : summarizeEach steps summary = .ok between)
    (hrest : (if between.failure.isSome then .ok between else summarizeEach more between) =
      .ok after) : summarizeEach (steps ++ more) summary = .ok after := by
  induction steps generalizing summary with
  | nil =>
    cases hfirst
    rw [hfailure] at hrest
    exact hrest
  | cons step steps ih =>
    obtain ⟨next, hnext, hfirst⟩ := Except.peel hfirst
    refine Except.bind_eq_ok.mpr ⟨next, hnext, ?_⟩
    cases hnone : next.failure with
    | some failure =>
      simp only [hnone, Option.isSome_some, if_true] at hfirst ⊢
      cases hfirst
      rw [hnone] at hrest
      exact hrest
    | none =>
      simp only [hnone, Option.isSome_none, Bool.false_eq_true, if_false] at hfirst ⊢
      exact ih hnone hfirst

theorem summarizeEach_flatMap {α : Type} {step : α → Summarize} {parts : α → List Summarize} :
    ∀ {xs : List α} {summary after : EqualitySummary},
      (∀ x ∈ xs, ∀ before next, before.failure = none → step x before = .ok next →
        summarizeEach (parts x) before = .ok next) →
      summary.failure = none → summarizeEach (xs.map step) summary = .ok after →
      summarizeEach (xs.flatMap parts) summary = .ok after := by
  intro xs
  induction xs with
  | nil =>
    intro summary after _ _ h
    exact h
  | cons x xs ih =>
    intro summary after hstep hfailure h
    obtain ⟨between, hfirst, h⟩ := Except.peel h
    have hparts := hstep x List.mem_cons_self summary between hfailure hfirst
    rw [List.flatMap_cons]
    refine summarizeEach_append hfailure hparts ?_
    cases hnone : between.failure with
    | some failure =>
      simp only [hnone, Option.isSome_some, if_true] at h ⊢
      exact h
    | none =>
      simp only [hnone, Option.isSome_none, Bool.false_eq_true, if_false] at h ⊢
      exact ih (fun y hy => hstep y (List.mem_cons_of_mem _ hy)) hnone h

theorem summarizeEach_singleton {step : Summarize} (h : step summary = .ok after) :
    summarizeEach [step] summary = .ok after := by
  refine Except.bind_eq_ok.mpr ⟨after, h, ?_⟩
  simp [summarizeEach, pure, Except.pure]

variable {goal : TypeRef → EqualityGoal} {goals : List Subgoal}

theorem subgoals_keep
    (step : ∀ required type, some (required, type) ∈ goals → ∀ before next, I before →
      before.failure = none → goal type required before = .ok next → I next) (hsummary : I summary)
    (hfailure : summary.failure = none)
    (h : summarizeEach (goals.map (summarizeSubgoal goal)) summary = .ok after) : I after := by
  refine summarizeEach_keeps ?_ hsummary hfailure h
  intro taken htaken before next hbefore hnone hnext
  obtain ⟨_ | ⟨required, type⟩, hmem, rfl⟩ := List.mem_map.mp htaken
  · cases hnext
  · exact step required type hmem before next hbefore hnone hnext

theorem subgoals_visits (hextends : ∀ required type before next, before.failure = none →
      goal type required before = .ok next → AddsBounds before.requirements next.requirements)
    (hfailure : summary.failure = none)
    (h : summarizeEach (goals.map (summarizeSubgoal goal)) summary = .ok after)
    (hsuccess : after.failure = none) :
    ∀ subgoal ∈ goals, ∃ required type before next, subgoal = some (required, type) ∧
      before.failure = none ∧ goal type required before = .ok next ∧ next.failure = none ∧
      AddsBounds next.requirements after.requirements := by
  have hvisits := (summarizeEach_visits ?_ hfailure h hsuccess).2
  · intro subgoal hmem
    obtain ⟨before, next, hnone, hnext, hlast, hlater⟩ := hvisits _ (List.mem_map_of_mem hmem)
    obtain _ | ⟨required, type⟩ := subgoal
    · cases hnext
    · exact ⟨required, type, before, next, rfl, hnone, hnext, hlast, hlater⟩
  · intro taken htaken before next hnone hnext
    obtain ⟨_ | ⟨required, type⟩, -, rfl⟩ := List.mem_map.mp htaken
    · cases hnext
    · exact hextends required type before next hnone hnext

end Each

section Goals

variable {traits : AcceptedTraits} {possible : List EqualityCandidate} {owner : AggregateId}
  {member : EqualityMember} {span : Span}

theorem summarizeGoals_eq_map (types : List TypeRef) :
    summarizeGoals traits possible owner member span types =
      types.map (summarizeGoal traits possible owner member span) := by
  induction types with
  | nil => rfl
  | cons type types ih => rw [summarizeGoals, ih, List.map_cons]

variable {type : TypeRef} {required : TraitId}

theorem summarizeGoal_family (h : ∀ parameter, type ≠ .parameterType parameter)
    (required : TraitId) :
    summarizeGoal traits possible owner member span type required =
      summarizeFamily traits possible owner member span required type
        (type.receiverArguments.map (summarizeGoal traits possible owner member span)) := by
  cases type with
  | parameterType parameter => exact absurd rfl (h parameter)
  | nominalType nominal arguments =>
    simp only [summarizeGoal, summarizeGoals_eq_map]
    rfl
  | _ =>
    simp only [summarizeGoal]
    rfl

theorem summarizeGoal_cases {summary after : EqualitySummary} (hfailure : summary.failure = none)
    (h : summarizeGoal traits possible owner member span type required summary = .ok after) :
    (∃ parameter, type = .parameterType parameter ∧ parameter.owner = owner.aggregateOwner ∧
      after = ⟨requireBound ⟨parameter, required, span⟩ summary.requirements, none⟩) ∨
    ((∀ parameter, type ≠ .parameterType parameter) ∧
      ((subgoals traits possible required type = none ∧
        after = ⟨summary.requirements, some ⟨owner, member, required, type⟩⟩) ∨
      ∃ goals, subgoals traits possible required type = some goals ∧
        summarizeEach (goals.map (summarizeSubgoal
          (summarizeGoal traits possible owner member span))) summary = .ok after)) := by
  by_cases hparameter : ∃ parameter, type = .parameterType parameter
  · obtain ⟨parameter, rfl⟩ := hparameter
    simp only [summarizeGoal] at h
    split at h
    · next howner =>
      cases h
      exact .inl ⟨parameter, rfl, howner, by rw [hfailure]⟩
    · cases h
  · have hno : ∀ parameter, type ≠ .parameterType parameter := fun parameter heq =>
      hparameter ⟨parameter, heq⟩
    rw [summarizeGoal_family hno] at h
    refine .inr ⟨hno, ?_⟩
    unfold summarizeFamily at h
    unfold subgoals
    cases hhead : type.typeHead with
    | none =>
      simp only [hhead, unsupportedMember] at h
      cases h
      exact .inl ⟨rfl, rfl⟩
    | some head =>
      simp only [hhead, Option.bind_some] at h ⊢
      cases hrow : traits.familyFor required head with simp only [hrow] at h ⊢
      | some family =>
        refine .inr ⟨_, rfl, ?_⟩
        rw [List.map_flatMap]
        refine summarizeEach_flatMap ?_ hfailure h
        intro bounds _ before next hbefore hrun
        unfold summarizeBounds at hrun
        unfold boundSubgoals
        rw [List.getElem?_map] at hrun
        cases hargument : type.receiverArguments[bounds.2]? with
        | none =>
          simp only [hargument, Option.map_none] at hrun
          cases hrun
        | some argument =>
          simp only [hargument, Option.map_some] at hrun ⊢
          rw [List.map_map]
          exact hrun
      | none =>
        unfold provisionalCandidate
        cases hcandidate : (if isCanonicalEquality traits required then
            possible.find? fun candidate => decide (candidate.aggregate.aggregateHead = head)
          else none) with
        | none =>
          simp only [hcandidate, unsupportedMember] at h
          cases h
          exact .inl ⟨rfl, rfl⟩
        | some candidate =>
          simp only [hcandidate] at h
          refine .inr ⟨_, rfl, ?_⟩
          show summarizeEach ((candidate.requirements.map
            (requirementSubgoal candidate.aggregate type)).map _) summary = .ok after
          rw [List.map_map, List.map_eq_flatMap]
          refine summarizeEach_flatMap ?_ hfailure h
          intro bound _ before next hbefore hrun
          refine summarizeEach_singleton ?_
          unfold summarizeRequirement at hrun
          simp only [Function.comp_apply, requirementSubgoal]
          by_cases howner : bound.parameter.owner = candidate.aggregate.aggregateOwner
          · simp only [if_pos howner, List.getElem?_map] at hrun ⊢
            cases hargument : type.receiverArguments[bound.parameter.position]? with
            | none =>
              simp only [hargument, Option.map_none, orCheckerInvariant] at hrun
              cases hrun
            | some argument =>
              simp only [hargument, Option.map_some, orCheckerInvariant] at hrun ⊢
              exact hrun
          · simp only [if_neg howner, orCheckerInvariant] at hrun
            cases hrun

theorem AggregateId.aggregateHead_inj {first second : AggregateId}
    (h : first.aggregateHead = second.aggregateHead) : first = second := by
  cases first <;> cases second <;> cases h <;> rfl

theorem TypeRef.of_aggregateHead {aggregate : AggregateId}
    (h : type.typeHead = some aggregate.aggregateHead) :
    ∃ arguments, type = .nominalType (.aggregateNominal aggregate) arguments := by
  cases type with
  | nominalType owner arguments =>
    cases owner with
    | aggregateNominal other =>
      have hsame : other = aggregate := AggregateId.aggregateHead_inj (Option.some.inj h)
      exact ⟨arguments, by rw [hsame]⟩
    | opaqueNominal id => cases aggregate <;> cases h
  | _ => cases aggregate <;> cases h

/-- The one place the subgoals of a type come from: its implementation or its candidate. -/
theorem subgoals_cases {goals : List Subgoal}
    (h : subgoals traits possible required type = some goals) :
    (∃ head row, type.typeHead = some head ∧ traits.familyFor required head = some row ∧
      goals = row.parameterBounds.zipIdx.flatMap (boundSubgoals type)) ∨
    ∃ arguments candidate, candidate ∈ possible ∧
      type = .nominalType (.aggregateNominal candidate.aggregate) arguments ∧
      isCanonicalEquality traits required = true ∧
      traits.familyFor required candidate.aggregate.aggregateHead = none ∧
      goals = candidate.requirements.map (requirementSubgoal candidate.aggregate type) := by
  unfold subgoals at h
  obtain ⟨head, hhead, h⟩ := Option.bind_eq_some_iff.mp h
  cases hrow : traits.familyFor required head with simp only [hrow] at h
  | some row =>
    cases h
    exact .inl ⟨head, row, hhead, hrow, rfl⟩
  | none =>
    obtain ⟨candidate, hcandidate, rfl⟩ := Option.map_eq_some_iff.mp h
    unfold provisionalCandidate at hcandidate
    split at hcandidate
    · next hcanonical =>
      have hheads : candidate.aggregate.aggregateHead = head := by
        simpa using List.find?_some hcandidate
      subst hheads
      obtain ⟨arguments, harguments⟩ := TypeRef.of_aggregateHead hhead
      exact .inr ⟨arguments, candidate, List.mem_of_find?_eq_some hcandidate, harguments,
        hcanonical, hrow, rfl⟩
    · cases hcandidate

theorem mem_boundSubgoals {bounds : List (List LocatedTrait)} {goal : Subgoal} :
    goal ∈ bounds.zipIdx.flatMap (boundSubgoals type) ↔ ∃ position located,
      bounds[position]? = some located ∧ goal ∈ boundSubgoals type (located, position) := by
  rw [List.mem_flatMap]
  constructor
  · rintro ⟨⟨located, position⟩, hmem, hgoal⟩
    have hlocated := List.mem_zipIdx hmem
    refine ⟨position, located, ?_, hgoal⟩
    rw [List.getElem?_eq_some_iff]
    exact ⟨by omega, by simpa using hlocated.2.2.symm⟩
  · rintro ⟨position, located, hlocated, hgoal⟩
    exact ⟨(located, position), List.mk_mem_zipIdx_iff_getElem?.mpr hlocated, hgoal⟩

theorem subgoals_argument {argument : TypeRef} {other : TraitId} {goals : List Subgoal}
    (h : subgoals traits possible required type = some goals)
    (hmem : some (other, argument) ∈ goals) : argument ∈ type.receiverArguments := by
  rcases subgoals_cases h with ⟨head, row, -, -, rfl⟩ | ⟨arguments, candidate, -, -, -, -, rfl⟩
  · obtain ⟨position, located, -, hgoal⟩ := mem_boundSubgoals.mp hmem
    unfold boundSubgoals at hgoal
    split at hgoal
    · next found hfound =>
      obtain ⟨bound, -, hbound⟩ := List.mem_map.mp hgoal
      cases hbound
      exact List.mem_of_getElem? hfound
    · simp at hgoal
  · obtain ⟨bound, -, hbound⟩ := List.mem_map.mp hmem
    unfold requirementSubgoal at hbound
    split at hbound
    · obtain ⟨found, hfound, heq⟩ := Option.map_eq_some_iff.mp hbound
      cases heq
      exact List.mem_of_getElem? hfound
    · cases hbound

/-! ## What a summary establishes -/

/-- A summary only adds bounds. -/
theorem goal_extends (type : TypeRef) : ∀ (required : TraitId) (summary after : EqualitySummary),
    summary.failure = none →
    summarizeGoal traits possible owner member span type required summary = .ok after →
    AddsBounds summary.requirements after.requirements := by
  induction type using TypeRef.argument_induction with
  | step type ih =>
    intro required summary after hfailure h
    rcases summarizeGoal_cases hfailure h with
      ⟨parameter, -, -, rfl⟩ | ⟨-, ⟨-, rfl⟩ | ⟨goals, hgoals, hruns⟩⟩
    · exact (requireBound_extends _ _).1
    · exact .refl _
    · refine subgoals_keep (I := fun s => AddsBounds summary.requirements s.requirements) ?_ (.refl _)
        hfailure hruns
      intro other argument hmem before next hbefore hnone hrun
      exact hbefore.trans (ih argument (subgoals_argument hgoals hmem) other before next hnone hrun)

theorem goal_failure (type : TypeRef) : ∀ (required : TraitId) (summary after : EqualitySummary)
    (failure : EqualityUnavailable), summary.failure = none →
    summarizeGoal traits possible owner member span type required summary = .ok after →
    after.failure = some failure → failure.aggregate = owner := by
  induction type using TypeRef.argument_induction with
  | step type ih =>
    intro required summary after failure hfailure h hafter
    rcases summarizeGoal_cases hfailure h with
      ⟨parameter, -, -, rfl⟩ | ⟨-, ⟨-, rfl⟩ | ⟨goals, hgoals, hruns⟩⟩
    · cases hafter
    · cases hafter
      rfl
    · refine subgoals_keep (I := fun s => ∀ failure, s.failure = some failure →
        failure.aggregate = owner) ?_ (fun failure h => by simp [hfailure] at h) hfailure hruns
        failure hafter
      intro other argument hmem before next _ hnone hrun failure hnext
      exact ih argument (subgoals_argument hgoals hmem) other before next failure hnone hrun hnext

/-- A summary without a failure holds the bounds that support its goal. -/
theorem goal_supported (hdistinct : (possible.map (·.aggregate)).Nodup) (type : TypeRef) :
    ∀ (required : TraitId) (summary after : EqualitySummary), summary.failure = none →
    summarizeGoal traits possible owner member span type required summary = .ok after →
    after.failure = none →
    Supported traits (candidateAssignment possible) (· ∈ after.requirements.map (·.atom)) required
      type := by
  induction type using TypeRef.argument_induction with
  | step type ih =>
    intro required summary after hfailure h hsuccess
    rcases summarizeGoal_cases hfailure h with
      ⟨parameter, rfl, -, rfl⟩ | ⟨-, ⟨-, rfl⟩ | ⟨goals, hgoals, hruns⟩⟩
    · exact .parameter (requireBound_extends _ _).2.2
    · cases hsuccess
    · have hvisits := subgoals_visits (fun other argument => goal_extends argument other) hfailure
        hruns hsuccess
      have hall : ∀ goal ∈ goals, ∃ other argument, goal = some (other, argument) ∧
          Supported traits (candidateAssignment possible) (· ∈ after.requirements.map (·.atom))
            other argument := by
        intro goal hgoal
        obtain ⟨other, argument, before, between, rfl, hbefore, hrun, hbetween, hlater⟩ :=
          hvisits goal hgoal
        have hargument := ih argument (subgoals_argument hgoals hgoal) other before between hbefore
          hrun hbetween
        exact ⟨other, argument, rfl, hargument.mono fun atom hatom => hlater.mem hatom⟩
      rcases subgoals_cases hgoals with
        ⟨head, row, hhead, hrow, rfl⟩ |
        ⟨arguments, candidate, hcandidate, rfl, hcanonical, hnone, rfl⟩
      · refine .implemented hhead hrow ?_ ?_
        · by_contra hshort
          have hposition : type.receiverArguments.length < row.parameterBounds.length := by omega
          have hmissing : (none : Subgoal) ∈ row.parameterBounds.zipIdx.flatMap
              (boundSubgoals type) := by
            refine mem_boundSubgoals.mpr ⟨_, _, List.getElem?_eq_getElem hposition, ?_⟩
            unfold boundSubgoals
            rw [List.getElem?_eq_none (Nat.le_refl _)]
            exact List.mem_singleton_self _
          obtain ⟨other, argument, heq, -⟩ := hall none hmissing
          cases heq
        · intro position bounds argument bound hbounds hargument hbound
          have hmem : some (bound.requiredTrait, argument) ∈ row.parameterBounds.zipIdx.flatMap
              (boundSubgoals type) := by
            refine mem_boundSubgoals.mpr ⟨position, bounds, hbounds, ?_⟩
            unfold boundSubgoals
            rw [hargument]
            exact List.mem_map_of_mem hbound
          obtain ⟨other, found, heq, hfound⟩ := hall _ hmem
          cases heq
          exact hfound
      · have hsubgoal : ∀ atom, (candidateAssignment possible).required candidate.aggregate atom →
            ∃ argument, arguments[atom.1.position]? = some argument ∧
              Supported traits (candidateAssignment possible)
                (· ∈ after.requirements.map (·.atom)) atom.2 argument := by
          rintro atom ⟨other, hother, hsame, hatom⟩
          obtain rfl : other = candidate := List.inj_on_of_nodup_map hdistinct hother hcandidate hsame
          obtain ⟨bound, hbound, rfl⟩ := List.mem_map.mp hatom
          obtain ⟨trait, argument, heq, hsupported⟩ := hall _ (List.mem_map_of_mem hbound)
          unfold requirementSubgoal at heq
          split at heq
          · obtain ⟨found, hfound, hpair⟩ := Option.map_eq_some_iff.mp heq
            cases hpair
            exact ⟨_, hfound, hsupported⟩
          · cases heq
        refine .automatic hcanonical hnone ⟨candidate, hcandidate, rfl⟩ ?_ ?_
        · intro atom hatom
          obtain ⟨argument, hargument, -⟩ := hsubgoal atom hatom
          exact (List.getElem?_eq_some_iff.mp hargument).1
        · intro atom argument hatom hargument
          obtain ⟨found, hfound, hsupported⟩ := hsubgoal atom hatom
          cases hfound.symm.trans hargument
          exact hsupported

variable {assignment : EqualityAssignment} {held : BoundAtom → Prop}

section

variable (hpossible : ∀ aggregate, assignment.available aggregate → ∃ candidate ∈ possible, candidate.aggregate = aggregate)

include hpossible

section

variable (hwithin : ∀ candidate ∈ possible, assignment.available candidate.aggregate → ∀ atom ∈ candidate.requirements.map (·.atom), assignment.required candidate.aggregate atom)

include hwithin

/-- The subgoals of a supported type are supported, whatever candidates an assignment that
has no more than theirs leaves. -/
theorem Supported.subgoals (h : Supported traits assignment held required type) :
    (∃ parameter, type = .parameterType parameter ∧ held (parameter, required)) ∨
    ∃ goals, Check.subgoals traits possible required type = some goals ∧
      ∀ other argument, some (other, argument) ∈ goals →
        Supported traits assignment held other argument := by
  cases h with
  | parameter bound => exact .inl ⟨_, rfl, bound⟩
  | @implemented _ _ head row hhead hrow harity hbounds =>
    refine .inr ⟨row.parameterBounds.zipIdx.flatMap (boundSubgoals type), ?_, ?_⟩
    · simp [Check.subgoals, hhead, hrow]
    · intro other argument hmem
      obtain ⟨position, located, hlocated, hgoal⟩ := mem_boundSubgoals.mp hmem
      unfold boundSubgoals at hgoal
      split at hgoal
      · next found hfound =>
        obtain ⟨bound, hbound, heq⟩ := List.mem_map.mp hgoal
        cases heq
        exact hbounds position located _ bound hlocated hfound hbound
      · simp at hgoal
  | @automatic _ aggregate arguments hcanonical hnone havailable harity hbounds =>
    obtain ⟨first, hfirst, hsame⟩ := hpossible aggregate havailable
    have hfound : ∃ candidate, provisionalCandidate traits possible required
        aggregate.aggregateHead = some candidate := by
      unfold provisionalCandidate
      rw [if_pos hcanonical, ← Option.isSome_iff_exists, List.find?_isSome]
      exact ⟨first, hfirst, by simp [hsame]⟩
    obtain ⟨candidate, hcandidate⟩ := hfound
    have hmem : candidate ∈ possible ∧ candidate.aggregate = aggregate := by
      unfold provisionalCandidate at hcandidate
      rw [if_pos hcanonical] at hcandidate
      refine ⟨List.mem_of_find?_eq_some hcandidate, AggregateId.aggregateHead_inj ?_⟩
      simpa using List.find?_some hcandidate
    obtain ⟨hcandidateMem, rfl⟩ := hmem
    refine .inr ⟨candidate.requirements.map (requirementSubgoal candidate.aggregate
      (.nominalType (.aggregateNominal candidate.aggregate) arguments)), ?_, ?_⟩
    · simp [Check.subgoals, TypeRef.typeHead, hnone, hcandidate]
    · intro other argument hgoal
      obtain ⟨bound, hbound, heq⟩ := List.mem_map.mp hgoal
      unfold requirementSubgoal at heq
      split at heq
      · obtain ⟨found, hfound, hpair⟩ := Option.map_eq_some_iff.mp heq
        cases hpair
        exact hbounds bound.atom _ (hwithin candidate hcandidateMem havailable _
          (List.mem_map_of_mem hbound)) hfound
      · cases heq

theorem goal_within (type : TypeRef) : ∀ (required : TraitId) (summary after : EqualitySummary),
    summary.failure = none → (∀ atom ∈ summary.requirements.map (·.atom), held atom) →
    Supported traits assignment held required type →
    summarizeGoal traits possible owner member span type required summary = .ok after →
    after.failure = none ∧ ∀ atom ∈ after.requirements.map (·.atom), held atom := by
  induction type using TypeRef.argument_induction with
  | step type ih =>
    intro required summary after hfailure hheld hsupported h
    have hparts := hsupported.subgoals hpossible hwithin
    rcases summarizeGoal_cases hfailure h with
      ⟨parameter, rfl, -, rfl⟩ | ⟨hno, hrest⟩
    · refine ⟨rfl, fun atom hatom => ?_⟩
      rcases List.mem_append.mp ((requireBound_extends _ _).2.1 hatom) with hknown | hnew
      · exact hheld atom hknown
      · rw [List.mem_singleton.mp hnew]
        cases hsupported with
        | parameter bound => exact bound
        | implemented hhead => cases hhead
    · rcases hparts with ⟨parameter, hparameter, -⟩ | ⟨goals, hgoals, hsub⟩
      · exact absurd hparameter (hno parameter)
      · rcases hrest with ⟨hnone, -⟩ | ⟨other, hother, hruns⟩
        · cases hnone.symm.trans hgoals
        · cases hother.symm.trans hgoals
          refine subgoals_keep (I := fun s => s.failure = none ∧
            ∀ atom ∈ s.requirements.map (·.atom), held atom) ?_ ⟨hfailure, hheld⟩ hfailure hruns
          rintro trait argument hmem before next ⟨-, hbefore⟩ hnone hrun
          exact ih argument (subgoals_argument hgoals hmem) trait before next hnone hbefore
            (hsub trait argument hmem) hrun

end

end

/-- A parameter among the arguments of a type, at any depth. -/
inductive TypeRef.Reads : TypeRef → TypeParameterId → Prop
  | parameter (id : TypeParameterId) : Reads (.parameterType id) id
  | argument {type argument : TypeRef} {id : TypeParameterId}
      (hmem : argument ∈ type.receiverArguments) (h : Reads argument id) : Reads type id

theorem TypeRef.reads_finite (type : TypeRef) : {id | type.Reads id}.Finite := by
  induction type using TypeRef.argument_induction with
  | step type ih =>
    have harguments : (⋃ argument ∈ {argument | argument ∈ type.receiverArguments},
        {id | argument.Reads id}).Finite :=
      Set.Finite.biUnion (List.finite_toSet _) ih
    have hself : {id | type = .parameterType id}.Finite := by
      refine Set.Subsingleton.finite fun first hfirst second hsecond => ?_
      have heq := hfirst.symm.trans hsecond
      cases heq
      rfl
    refine (hself.union harguments).subset ?_
    intro id hid
    cases hid with
    | parameter => exact .inl rfl
    | argument hmem h => exact .inr (Set.mem_biUnion hmem h)

theorem goal_bounded {parameters : TypeParameterId → Prop} (requirable : TraitId → Prop)
    (hfamilies : ∀ required head row, traits.familyFor required head = some row →
      ∀ bounds ∈ row.parameterBounds, ∀ bound ∈ bounds, requirable bound.requiredTrait)
    (hpossible : ∀ candidate ∈ possible, ∀ bound ∈ candidate.requirements,
      requirable bound.requiredTrait)
    (type : TypeRef) : ∀ (required : TraitId) (summary after : EqualitySummary),
    summary.failure = none → requirable required → (∀ id, type.Reads id → parameters id) →
    (∀ atom ∈ summary.requirements.map (·.atom), parameters atom.1 ∧ requirable atom.2) →
    summarizeGoal traits possible owner member span type required summary = .ok after →
    ∀ atom ∈ after.requirements.map (·.atom), parameters atom.1 ∧ requirable atom.2 := by
  induction type using TypeRef.argument_induction with
  | step type ih =>
    intro required summary after hfailure hrequired hreads hsummary h
    rcases summarizeGoal_cases hfailure h with
      ⟨parameter, rfl, -, rfl⟩ | ⟨-, ⟨-, rfl⟩ | ⟨goals, hgoals, hruns⟩⟩
    · intro atom hatom
      rcases List.mem_append.mp ((requireBound_extends _ _).2.1 hatom) with hknown | hnew
      · exact hsummary atom hknown
      · rw [List.mem_singleton.mp hnew]
        exact ⟨hreads parameter (.parameter parameter), hrequired⟩
    · exact hsummary
    · have hrequirable : ∀ other argument, some (other, argument) ∈ goals → requirable other := by
        intro other argument hmem
        rcases subgoals_cases hgoals with
          ⟨head, row, -, hrow, rfl⟩ | ⟨arguments, candidate, hcandidate, -, -, -, rfl⟩
        · obtain ⟨position, located, hlocated, hgoal⟩ := mem_boundSubgoals.mp hmem
          unfold boundSubgoals at hgoal
          split at hgoal
          · obtain ⟨bound, hbound, heq⟩ := List.mem_map.mp hgoal
            cases heq
            exact hfamilies _ head row hrow located (List.mem_of_getElem? hlocated) bound hbound
          · simp at hgoal
        · obtain ⟨bound, hbound, heq⟩ := List.mem_map.mp hmem
          unfold requirementSubgoal at heq
          split at heq
          · obtain ⟨found, -, hpair⟩ := Option.map_eq_some_iff.mp heq
            cases hpair
            exact hpossible candidate hcandidate bound hbound
          · cases heq
      refine subgoals_keep (I := fun s => ∀ atom ∈ s.requirements.map (·.atom),
        parameters atom.1 ∧ requirable atom.2) ?_ hsummary hfailure hruns
      intro other argument hmem before next hbefore hnone hrun
      have hargument := subgoals_argument hgoals hmem
      exact ih argument hargument other before next hnone (hrequirable other argument hmem)
        (fun id hid => hreads id (.argument hargument hid)) hbefore hrun

end Goals

end Blorp.Check
