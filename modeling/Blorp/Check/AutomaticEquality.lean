import Blorp.Check.EqualityFixpoint

/-!
# Automatic equality is available where it should be

The published rows are those of the fixpoint of `EqualityFixpoint`, with its bounds, and
every other candidate has a recorded cause.  Over declarations whose types are applied to
the parameters they declare, no round fails.
-/

namespace Blorp.Check

open Fuel

variable {traits : AcceptedTraits} {declarations : EqualityDeclarations} {canonical : TraitId}

/-! ## Well-formed members -/

def OwnParameter (declarations : EqualityDeclarations) (owner : AggregateId)
    (id : TypeParameterId) : Prop :=
  id.owner = owner.aggregateOwner ∧
    ∃ parameters, declarations.typeParameters owner = some parameters ∧
      id.position < parameters.length

/-- A member's type: parameters of the aggregate, and declarations applied to as many
arguments as they have parameters. -/
inductive FitsRows (traits : AcceptedTraits) (declarations : EqualityDeclarations)
    (owner : AggregateId) : TypeRef → Prop
  | mk {type : TypeRef}
      (parameter : ∀ id, type = .parameterType id → OwnParameter declarations owner id)
      (applied : ∀ aggregate arguments, type = .nominalType (.aggregateNominal aggregate) arguments →
        ∀ parameters, declarations.typeParameters aggregate = some parameters →
          arguments.length = parameters.length)
      (implemented : ∀ head required row, type.typeHead = some head →
        traits.familyFor required head = some row →
          row.parameterBounds.length ≤ type.receiverArguments.length)
      (arguments : ∀ argument ∈ type.receiverArguments, FitsRows traits declarations owner argument) :
      FitsRows traits declarations owner type

structure WellFormedMembers (traits : AcceptedTraits) (declarations : EqualityDeclarations)
    (canonical : TraitId) : Prop where
  written : ∀ candidate ∈ equalityCandidates traits declarations canonical,
    ∀ bound ∈ candidate.requirements, OwnParameter declarations candidate.aggregate bound.parameter
  members : ∀ candidate ∈ equalityCandidates traits declarations canonical,
    ∃ members, declarations.members candidate.aggregate = some members ∧
      ∀ member ∈ members, FitsRows traits declarations candidate.aggregate member.2.valueType

theorem FitsRows.reads {owner : AggregateId} {type : TypeRef} {id : TypeParameterId}
    (h : type.Reads id) (hfits : FitsRows traits declarations owner type) :
    OwnParameter declarations owner id := by
  induction h with
  | parameter id =>
    obtain ⟨hparameter, -, -, -⟩ := hfits
    exact hparameter id rfl
  | argument hmem _ ih =>
    obtain ⟨-, -, -, harguments⟩ := hfits
    exact ih (harguments _ hmem)

theorem summarizeEach_ok {steps : List Summarize} : ∀ {summary : EqualitySummary},
    (∀ step ∈ steps, ∀ before, before.failure = none → ∃ next, step before = .ok next) →
    summary.failure = none → ∃ after, summarizeEach steps summary = .ok after := by
  induction steps with
  | nil =>
    intro summary _ _
    exact ⟨summary, rfl⟩
  | cons step steps ih =>
    intro summary hstep hfailure
    obtain ⟨between, hbetween⟩ := hstep step List.mem_cons_self summary hfailure
    cases hnone : between.failure with
    | some failure =>
      refine ⟨between, Except.bind_eq_ok.mpr ⟨between, hbetween, ?_⟩⟩
      simp only [hnone, Option.isSome_some, if_true]
      rfl
    | none =>
      obtain ⟨after, hafter⟩ := ih (fun other hother => hstep other (List.mem_cons_of_mem _ hother))
        hnone
      refine ⟨after, Except.bind_eq_ok.mpr ⟨between, hbetween, ?_⟩⟩
      simp only [hnone, Option.isSome_none, Bool.false_eq_true, if_false]
      exact hafter

section

variable {possible : List EqualityCandidate} {owner : AggregateId} {member : EqualityMember}
  {span : Span}

theorem goal_ok (hpossible : ∀ candidate ∈ possible, ∀ bound ∈ candidate.requirements,
      OwnParameter declarations candidate.aggregate bound.parameter) (type : TypeRef) :
    FitsRows traits declarations owner type → ∀ (required : TraitId) (summary : EqualitySummary),
      summary.failure = none →
      ∃ after, summarizeGoal traits possible owner member span type required summary = .ok after := by
  induction type using TypeRef.argument_induction with
  | step type ih =>
    rintro ⟨hparameter, happlied, himplemented, harguments⟩ required summary hfailure
    have hargument : ∀ (position : Nat) (argument : TypeRef),
        type.receiverArguments[position]? = some argument → ∀ (other : TraitId)
          (before : EqualitySummary), before.failure = none → ∃ next,
            summarizeGoal traits possible owner member span argument other before = .ok next :=
      fun position argument hat other before hbefore =>
        ih argument (List.mem_of_getElem? hat) (harguments argument (List.mem_of_getElem? hat)) other
          before hbefore
    by_cases his : ∃ parameter, type = .parameterType parameter
    · obtain ⟨parameter, rfl⟩ := his
      simp only [summarizeGoal, if_pos (hparameter parameter rfl).1]
      exact ⟨_, rfl⟩
    · rw [summarizeGoal_family fun parameter heq => his ⟨parameter, heq⟩]
      unfold summarizeFamily
      cases hhead : type.typeHead with
      | none => exact ⟨_, rfl⟩
      | some head =>
        simp only
        cases hrow : traits.familyFor required head with
        | some row =>
          refine summarizeEach_ok ?_ hfailure
          intro step hstep before hbefore
          obtain ⟨⟨located, position⟩, hmem, rfl⟩ := List.mem_map.mp hstep
          have hlength := himplemented head required row hhead hrow
          have hposition : position < type.receiverArguments.length := by
            have hlt := (List.mem_zipIdx hmem).2.1
            omega
          have hat := List.getElem?_eq_getElem hposition
          simp only [summarizeBounds, List.getElem?_map, hat, Option.map_some]
          refine summarizeEach_ok ?_ hbefore
          intro inner hinner earlier hearlier
          obtain ⟨bound, -, rfl⟩ := List.mem_map.mp hinner
          exact hargument position _ hat bound.requiredTrait earlier hearlier
        | none =>
          simp only
          cases hcandidate : (if isCanonicalEquality traits required then
              possible.find? fun candidate => decide (candidate.aggregate.aggregateHead = head)
            else none) with
          | none => exact ⟨_, rfl⟩
          | some candidate =>
            have hfound : candidate ∈ possible ∧ candidate.aggregate.aggregateHead = head := by
              split at hcandidate
              · refine ⟨List.mem_of_find?_eq_some hcandidate, ?_⟩
                simpa using List.find?_some hcandidate
              · cases hcandidate
            obtain ⟨hmem, rfl⟩ := hfound
            obtain ⟨arguments, rfl⟩ := TypeRef.of_aggregateHead hhead
            refine summarizeEach_ok ?_ hfailure
            intro step hstep before hbefore
            obtain ⟨bound, hbound, rfl⟩ := List.mem_map.mp hstep
            obtain ⟨howner, parameters, hparameters, hlt⟩ := hpossible candidate hmem bound hbound
            have hlength := happlied _ arguments rfl parameters hparameters
            have hposition : bound.parameter.position < arguments.length := by omega
            have hat : (TypeRef.nominalType (.aggregateNominal candidate.aggregate)
                arguments).receiverArguments[bound.parameter.position]? =
                some arguments[bound.parameter.position] := List.getElem?_eq_getElem hposition
            simp only [summarizeRequirement, if_pos howner, List.getElem?_map, hat, Option.map_some,
              orCheckerInvariant]
            exact hargument _ _ hat bound.requiredTrait before hbefore

end

/-- What keeps the rounds over well-formed members from failing. -/
structure OwnRounds (traits : AcceptedTraits) (declarations : EqualityDeclarations)
    (canonical : TraitId) (possible : List EqualityCandidate) : Prop where
  started : ∀ candidate ∈ possible, ∃ first ∈ equalityCandidates traits declarations canonical,
    first.aggregate = candidate.aggregate
  own : ∀ candidate ∈ possible, ∀ bound ∈ candidate.requirements,
    OwnParameter declarations candidate.aggregate bound.parameter

section

variable (hfits : WellFormedMembers traits declarations canonical)

include hfits

section

variable {possible : List EqualityCandidate} (h : OwnRounds traits declarations canonical possible)

include h

theorem members_ok {candidate : EqualityCandidate} (hcandidate : candidate ∈ possible) :
    ∃ summary, summarizeMembers traits canonical candidate declarations possible = .ok summary := by
  obtain ⟨first, hfirst, hsame⟩ := h.started candidate hcandidate
  obtain ⟨members, hmembers, htypes⟩ := hfits.members first hfirst
  rw [hsame] at hmembers htypes
  obtain ⟨summary, hsummary⟩ : ∃ summary, summarizeEach (members.map fun member =>
      summarizeGoal traits possible candidate.aggregate member.1 member.2.span member.2.valueType
        canonical) ⟨candidate.requirements, none⟩ = .ok summary := by
    refine summarizeEach_ok ?_ rfl
    intro step hstep before hbefore
    obtain ⟨member, hmember, rfl⟩ := List.mem_map.mp hstep
    exact goal_ok h.own _ (htypes member hmember) canonical before hbefore
  refine ⟨summary, Except.bind_eq_ok.mpr ⟨members, ?_, hsummary⟩⟩
  rw [hmembers]
  rfl

theorem members_own {candidate : EqualityCandidate} {summary : EqualitySummary}
    (hcandidate : candidate ∈ possible)
    (hsummary : summarizeMembers traits canonical candidate declarations possible = .ok summary) :
    ∀ bound ∈ summary.requirements, OwnParameter declarations candidate.aggregate bound.parameter := by
  obtain ⟨members, hmembers, hsummary⟩ := summarizeMembers_eq_ok hsummary
  obtain ⟨first, hfirst, hsame⟩ := h.started candidate hcandidate
  obtain ⟨found, hfound, htypes⟩ := hfits.members first hfirst
  rw [hsame] at hfound htypes
  cases hfound.symm.trans hmembers
  suffices hatoms : ∀ atom ∈ summary.requirements.map (·.atom),
      OwnParameter declarations candidate.aggregate atom.1 ∧ True from
    fun bound hbound => (hatoms bound.atom (List.mem_map_of_mem hbound)).1
  refine summarizeEach_keeps (I := fun s => ∀ atom ∈ s.requirements.map (·.atom),
    OwnParameter declarations candidate.aggregate atom.1 ∧ True) ?_ ?_ rfl hsummary
  · intro step hstep before next hbefore hnone hnext
    obtain ⟨member, hmember, rfl⟩ := List.mem_map.mp hstep
    exact goal_bounded (fun _ => True) (fun _ _ _ _ _ _ _ _ => trivial)
      (fun _ _ _ _ => trivial) _ _ _ _ hnone trivial
      (fun id hid => (htypes member hmember).reads hid) hbefore hnext
  · intro atom hatom
    obtain ⟨bound, hbound, rfl⟩ := List.mem_map.mp hatom
    exact ⟨h.own candidate hcandidate bound hbound, trivial⟩

end

theorem equalityRounds_ok (hrows : NumberedRows declarations) :
    ∃ last, Outcome.Settles (fun fuel => turns (equalityTurn traits canonical declarations) fuel
      ⟨equalityCandidates traits declarations canonical, []⟩) (.ok last) := by
  have hends : Outcome.Ends (fun fuel => turns (equalityTurn traits canonical declarations) fuel
      ⟨equalityCandidates traits declarations canonical, []⟩) _ := equalityRounds_end hrows
  obtain ⟨outcome, hsettles, -⟩ := hends
  suffices hnever : ∀ fuel, Outcome.ErrorsIn (fun _ => False)
      (turns (equalityTurn traits canonical declarations) fuel
        ⟨equalityCandidates traits declarations canonical, []⟩) by
    obtain ⟨last, rfl⟩ := hsettles.ok_of_errorsIn hnever
    exact ⟨last, hsettles⟩
  intro fuel
  refine turns_errorsIn (I := fun rounds => OwnRounds traits declarations canonical rounds.possible)
    ?_ ?_ fuel _ ⟨fun candidate hcandidate => ⟨candidate, hcandidate, rfl⟩, hfits.written⟩
  · intro rounds next hown hturn
    obtain ⟨summaries, round, hrounded, htaken⟩ := equalityTurn_eq_ok hturn
    split at htaken <;> cases htaken
    constructor
    · intro after hafter
      obtain ⟨candidate, summary, hmem, -, rfl⟩ := hrounded.mem_retained.mp hafter
      exact hown.started candidate (List.of_mem_zip hmem).1
    · intro after hafter
      obtain ⟨candidate, summary, hmem, -, rfl⟩ := hrounded.mem_retained.mp hafter
      have hown := members_own hfits hown (List.of_mem_zip hmem).1 (hrounded.summarized hmem)
      exact hown
  · intro rounds hown error herror
    have hfold : ∀ (rest : List EqualityCandidate) (state : EqualityRound),
        (∀ candidate ∈ rest, candidate ∈ rounds.possible) →
        ∃ after, rest.foldlM (summarizeCandidate traits canonical declarations rounds.possible)
          state = .ok after := by
      intro rest
      induction rest with
      | nil =>
        intro state _
        exact ⟨state, rfl⟩
      | cons candidate rest ih =>
        intro state hall
        obtain ⟨summary, hsummary⟩ := members_ok hfits hown (hall candidate List.mem_cons_self)
        obtain ⟨next, hnext⟩ : ∃ next, summarizeCandidate traits canonical declarations
            rounds.possible state candidate = .ok next := by
          unfold summarizeCandidate
          rw [hsummary]
          obtain ⟨requirements, _ | failure⟩ := summary <;> exact ⟨_, rfl⟩
        obtain ⟨after, hafter⟩ := ih next fun other hother => hall other (List.mem_cons_of_mem _ hother)
        refine ⟨after, ?_⟩
        rw [List.foldlM_cons, hnext]
        exact hafter
    obtain ⟨round, hround⟩ := hfold rounds.possible ⟨[], rounds.unavailable, false⟩
      fun candidate hcandidate => hcandidate
    unfold equalityTurn equalityRound at herror
    rw [hround] at herror
    cases herror

end

/-! ## Published rows -/

variable {written : WrittenAggregates} {signature : TraitMethodId → FunctionSignature}
variable {boolean : DesignatedBoolean VariantId} {candidate : EqualityCandidate}

theorem candidateRow_eq_ok {contract : AcceptedTrait} {row : AcceptedImplementation}
    (h : candidateRow written signature declarations contract boolean canonical candidate = .ok row) :
    ∃ span parameters, declarations.typeParameters candidate.aggregate = some parameters ∧
      row = supportedImplementation span candidate parameters contract canonical := by
  obtain ⟨name, -, h⟩ := Except.peel h
  obtain ⟨spelling, -, h⟩ := Except.peel h
  obtain ⟨parameters, hparameters, h⟩ := Except.peel h
  unfold orCheckerInvariant at hparameters
  split at hparameters
  · next found hfound =>
    cases hparameters
    split at h <;> cases h
    exact ⟨name.span, _, hfound, rfl⟩
  · cases hparameters

theorem equalityTable_eq_ok {possible : List EqualityCandidate} {table : ImplementationTable}
    (h : equalityTable written signature traits declarations boolean canonical possible = .ok table) :
    ∃ contract rows, possible.mapM
        (candidateRow written signature declarations contract boolean canonical) = .ok rows ∧
      table.ordered = traits.implementations.ordered ++ rows ∧ IsTable table := by
  obtain ⟨contract, -, h⟩ := Except.peel h
  obtain ⟨rows, hrows, h⟩ := Except.peel h
  unfold orCheckerInvariant at h
  split at h
  · next found hfound =>
    cases h
    obtain ⟨hordered, htable⟩ := isTable_of_implementationTable hfound
    exact ⟨contract, rows, hrows, hordered, htable⟩
  · cases h

theorem candidate_unimplemented (h : candidate ∈ equalityCandidates traits declarations canonical) :
    traits.familyFor canonical candidate.aggregate.aggregateHead = none := by
  rcases List.mem_append.mp h with h | h
  all_goals
    obtain ⟨row, -, hrow⟩ := List.mem_filterMap.mp h
    split at hrow
    · next hnone =>
      cases hrow
      exact Option.isNone_iff_eq_none.mp hnone
    · cases hrow

/-- How a fixpoint is published: an available aggregate has the row of its bounds, any other
candidate a recorded cause. -/
structure PublishedEquality (traits : AcceptedTraits) (declarations : EqualityDeclarations)
    (canonical : TraitId) (possible : List EqualityCandidate) (availability : TraitAvailability) :
    Prop where
  available : ∀ first ∈ equalityCandidates traits declarations canonical,
    ((candidateAssignment possible).available first.aggregate ↔
      (availability.accepted.familyFor canonical first.aggregate.aggregateHead).isSome)
  unavailable : ∀ first ∈ equalityCandidates traits declarations canonical,
    ((candidateAssignment possible).available first.aggregate ↔
      ¬ ∃ failure ∈ availability.unavailable, failure.aggregate = first.aggregate)
  bounds : ∀ aggregate, (candidateAssignment possible).available aggregate → ∃ parameters row,
    declarations.typeParameters aggregate = some parameters ∧
    availability.accepted.familyFor canonical aggregate.aggregateHead = some row ∧
    row.parameterBounds.length = parameters.length ∧
    ∀ (position : Nat) (parameter : TypeParameterId) (bounds : List LocatedTrait),
      parameters[position]? = some parameter → row.parameterBounds[position]? = some bounds →
      ∀ required, ((∃ bound ∈ bounds, bound.requiredTrait = required) ↔
        (candidateAssignment possible).required aggregate (parameter, required))

theorem mem_supportedBounds {parameter : TypeParameterId} {required : TraitId} :
    (∃ bound ∈ candidate.requirements.filterMap (fun inferred =>
        if inferred.parameter = parameter then
          some (⟨inferred.requiredTrait, inferred.span⟩ : LocatedTrait) else none),
      bound.requiredTrait = required) ↔
      (parameter, required) ∈ candidate.requirements.map (·.atom) := by
  constructor
  · rintro ⟨bound, hbound, rfl⟩
    obtain ⟨inferred, hinferred, hkept⟩ := List.mem_filterMap.mp hbound
    split at hkept <;> cases hkept
    next hsame => exact List.mem_map.mpr ⟨inferred, hinferred, by rw [← hsame]; rfl⟩
  · intro hatom
    obtain ⟨inferred, hinferred, heq⟩ := List.mem_map.mp hatom
    cases heq
    refine ⟨⟨inferred.requiredTrait, inferred.span⟩, ?_, rfl⟩
    exact List.mem_filterMap.mpr ⟨inferred, hinferred, if_pos rfl⟩

theorem publishedEquality {rounds : EqualityRounds} {table : ImplementationTable}
    (htable : IsTable traits.implementations)
    (hdistinct : (rounds.possible.map (·.aggregate)).Nodup)
    (hunavailable : ∀ first ∈ equalityCandidates traits declarations canonical,
      ((candidateAssignment rounds.possible).available first.aggregate ↔ ¬ ∃ failure ∈
      rounds.unavailable, failure.aggregate = first.aggregate))
    (h : equalityTable written signature traits declarations boolean canonical rounds.possible =
      .ok table) :
    PublishedEquality traits declarations canonical rounds.possible
      ⟨{ traits with implementations := table }, rounds.unavailable⟩ := by
  obtain ⟨contract, rows, hrows, hordered, hnewTable⟩ := equalityTable_eq_ok h
  have hfamily : ∀ {required : TraitId} {head : TypeHead} {row : AcceptedImplementation},
      ({ traits with implementations := table } : AcceptedTraits).familyFor required head = some row ↔
        row ∈ table.ordered ∧ row.traitId = required ∧ row.receiverHead = head :=
    IsTable.familyFor_iff hnewTable
  obtain ⟨hcandidates, hpublished⟩ := List.exists_of_mapM_eq_ok hrows
  have hrow : ∀ candidate ∈ rounds.possible, ∃ row,
      candidateRow written signature declarations contract boolean canonical candidate = .ok row ∧
      ({ traits with implementations := table } : AcceptedTraits).familyFor canonical
        candidate.aggregate.aggregateHead = some row := by
    intro candidate hcandidate
    obtain ⟨row, hmem, hok⟩ := hcandidates candidate hcandidate
    refine ⟨row, hok, ?_⟩
    obtain ⟨span, parameters, -, rfl⟩ := candidateRow_eq_ok hok
    refine hfamily.mpr ⟨?_, rfl, rfl⟩
    rw [hordered]
    exact List.mem_append_right _ hmem
  refine ⟨?_, hunavailable, ?_⟩
  · intro first hfirst
    constructor
    · rintro ⟨candidate, hcandidate, hsame⟩
      obtain ⟨row, -, hfound⟩ := hrow candidate hcandidate
      rw [← hsame, hfound]
      rfl
    · intro hsome
      obtain ⟨row, hsome⟩ := Option.isSome_iff_exists.mp hsome
      obtain ⟨hmem, htrait, hhead⟩ := hfamily.mp hsome
      rw [hordered] at hmem
      rcases List.mem_append.mp hmem with hold | hnew
      · have hfound := htable.familyFor_iff.mpr ⟨hold, htrait, hhead⟩
        cases hfound.symm.trans (candidate_unimplemented hfirst)
      · obtain ⟨candidate, hcandidate, hok⟩ := hpublished row hnew
        obtain ⟨span, parameters, -, rfl⟩ := candidateRow_eq_ok hok
        exact ⟨candidate, hcandidate, AggregateId.aggregateHead_inj hhead⟩
  · rintro aggregate ⟨candidate, hcandidate, rfl⟩
    obtain ⟨row, hok, hfound⟩ := hrow candidate hcandidate
    obtain ⟨span, parameters, hparameters, rfl⟩ := candidateRow_eq_ok hok
    refine ⟨parameters, _, hparameters, hfound, by simp [supportedImplementation], ?_⟩
    intro position parameter bounds hparameter hbounds required
    simp only [supportedImplementation, List.getElem?_map, hparameter, Option.map_some,
      Option.some.injEq] at hbounds
    rw [← hbounds, mem_supportedBounds]
    constructor
    · intro hatom
      exact ⟨candidate, hcandidate, rfl, hatom⟩
    · rintro ⟨other, hother, hsame, hatom⟩
      obtain rfl := List.inj_on_of_nodup_map hdistinct hother hcandidate hsame
      exact hatom

/-! ## Publishing -/

/-- A type over no parameter but the one of its trait. -/
def TakesSelf (owner : TraitId) (type : TypeRef) : Prop :=
  ∀ receiver span, ∃ value,
    substituteType ⟨.traitDeclaration owner, [receiver]⟩ span type = .ok value

/-- What publishing reads of the accepted declarations: their names, and an equality contract
of its own trait, whose required signatures mention no parameter but Self. -/
structure Publishable (written : WrittenAggregates) (signature : TraitMethodId → FunctionSignature)
    (traits : AcceptedTraits) (declarations : EqualityDeclarations) (canonical : TraitId) :
    Prop where
  named : ∀ candidate ∈ equalityCandidates traits declarations canonical, ∃ name spelling,
    written.aggregateName candidate.aggregate = .ok name ∧ written.spelling name.id = some spelling
  contract : ∃ contract, traits.declarations[canonical]? = some contract ∧
    ∀ method ∈ contract.methods, method.id.owner = canonical ∧ (method.defaultBody = none →
      TakesSelf canonical (signature method.id).returnType.valueType ∧
        ∀ parameter ∈ (signature method.id).parameters, TakesSelf canonical parameter.valueType)

section

variable {candidate : EqualityCandidate} {members : List (EqualityMember × TypeUse)}
  {parameters : List TypeParameterId} {span : Span} {label : FunctionLabel}

theorem equalityTemplate_ok (label : FunctionLabel) (parameters : List TypeParameterId)
    (boolean : DesignatedBoolean VariantId) (span : Span)
    (hmembers : declarations.members candidate.aggregate = some members)
    {method : SignedTraitMethod} (hresult : TakesSelf method.id.owner method.signature.returnType.valueType)
    (hparameters : ∀ parameter ∈ method.signature.parameters,
      TakesSelf method.id.owner parameter.valueType) :
    ∃ body, equalityTemplate candidate.aggregate label parameters candidate.requirements
      declarations.records (declarations.unions.map (·.toCheckedUnion)) method boolean span =
        .ok body := by
  obtain ⟨aggregate, requirements⟩ := candidate
  obtain ⟨result, hresult⟩ := hresult (.nominalType (.aggregateNominal aggregate)
    (parameters.map TypeRef.parameterType)) span
  have htypes := List.exists_mapM_eq_ok fun (parameter : TypeUse) hparameter => by
    obtain ⟨value, hvalue⟩ := hparameters parameter hparameter (.nominalType
      (.aggregateNominal aggregate) (parameters.map TypeRef.parameterType)) parameter.span
    exact Except.exists_bind (f := fun value => .ok { parameter with valueType := value }) hvalue
      ⟨_, rfl⟩
  obtain ⟨types, htypes⟩ := htypes
  refine Except.exists_bind htypes (Except.exists_bind hresult ?_)
  cases aggregate with
  | recordAggregate id =>
    obtain ⟨row, hrow, -⟩ := Option.map_eq_some_iff.mp hmembers
    exact Except.exists_bind (a := row) (by rw [hrow]; rfl) ⟨_, rfl⟩
  | unionAggregate id =>
    obtain ⟨row, hrow, -⟩ := Option.map_eq_some_iff.mp hmembers
    exact Except.exists_bind (a := row.toCheckedUnion) (by rw [List.getElem?_map, hrow]; rfl) ⟨_, rfl⟩

theorem templateError_none {contract : AcceptedTrait}
    (hmembers : declarations.members candidate.aggregate = some members)
    (hcontract : ∀ method ∈ contract.methods, method.id.owner = canonical ∧
      (method.defaultBody = none → TakesSelf canonical (signature method.id).returnType.valueType ∧
        ∀ parameter ∈ (signature method.id).parameters, TakesSelf canonical parameter.valueType)) :
    templateError signature label candidate parameters declarations contract boolean span = none := by
  refine List.foldlRecOn (motive := fun error : Option CheckError => error = none) contract.methods _
    rfl ?_
  intro error herror method hmethod
  obtain ⟨howner, htypes⟩ := hcontract method hmethod
  split
  · exact herror
  · rename_i hrequired
    obtain ⟨hresult, hparameters⟩ := htypes hrequired
    subst howner
    obtain ⟨body, hbody⟩ := equalityTemplate_ok label parameters boolean span hmembers
      (show TakesSelf (SignedTraitMethod.mk method (signature method.id)).id.owner _ from hresult)
      hparameters
    rw [hbody]
    exact herror

end

theorem derivedMembers_owner {aggregate : AggregateId} {contract : AcceptedTrait}
    (hcontract : ∀ method ∈ contract.methods, method.id.owner = canonical) :
    ∀ member ∈ derivedMembers aggregate contract, member.method.owner = canonical := by
  intro member hmember
  obtain ⟨method, hmethod, rfl⟩ := List.mem_map.mp hmember
  split
  · exact hcontract method hmethod
  · exact hcontract method hmethod

theorem typeParameters_of_members {aggregate : AggregateId}
    {members : List (EqualityMember × TypeUse)}
    (h : declarations.members aggregate = some members) :
    ∃ parameters, declarations.typeParameters aggregate = some parameters := by
  cases aggregate with
  | recordAggregate id | unionAggregate id =>
    obtain ⟨row, hrow, -⟩ := Option.map_eq_some_iff.mp h
    exact ⟨row.typeParameters, by simp [EqualityDeclarations.typeParameters, hrow]⟩

theorem equalityTable_ok (boolean : DesignatedBoolean VariantId) {possible : List EqualityCandidate}
    (hfits : WellFormedMembers traits declarations canonical)
    (hpublish : Publishable written signature traits declarations canonical)
    (htable : IsTable traits.implementations)
    (hdistinct : (possible.map (·.aggregate)).Nodup)
    (hstarted : ∀ candidate ∈ possible, ∃ first ∈ equalityCandidates traits declarations canonical,
      first.aggregate = candidate.aggregate) :
    ∃ table, equalityTable written signature traits declarations boolean canonical possible =
      .ok table := by
  obtain ⟨contract, hcontract, hmethods⟩ := hpublish.contract
  obtain ⟨rows, hrows⟩ : ∃ rows, possible.mapM
      (candidateRow written signature declarations contract boolean canonical) = .ok rows := by
    refine List.exists_mapM_eq_ok fun candidate hcandidate => ?_
    obtain ⟨first, hfirst, hsame⟩ := hstarted candidate hcandidate
    obtain ⟨name, spelling, hname, hspelling⟩ := hpublish.named first hfirst
    obtain ⟨members, hmembers, -⟩ := hfits.members first hfirst
    rw [hsame] at hname hmembers
    obtain ⟨parameters, hparameters⟩ := typeParameters_of_members hmembers
    refine Except.exists_bind hname (Except.exists_bind (a := spelling) (by rw [hspelling]; rfl)
      (Except.exists_bind (a := parameters) (by rw [hparameters]; rfl) ?_))
    rw [templateError_none hmembers hmethods]
    exact ⟨_, rfl⟩
  have hrow : ∀ row ∈ rows, ∃ candidate ∈ possible, row.traitId = canonical ∧
      row.receiverHead = candidate.aggregate.aggregateHead ∧
      row.methods = derivedMembers candidate.aggregate contract := by
    intro row hmem
    obtain ⟨candidate, hcandidate, hrow⟩ := (List.exists_of_mapM_eq_ok hrows).2 row hmem
    obtain ⟨span, parameters, -, rfl⟩ := candidateRow_eq_ok hrow
    exact ⟨candidate, hcandidate, rfl, rfl, rfl⟩
  have hkeys : rows.map (·.key) = possible.map fun candidate =>
      (⟨canonical, candidate.aggregate.aggregateHead⟩ : ImplementationKey) := by
    have hall := List.mapM_eq_ok_iff.mp hrows
    clear hrows hrow hdistinct hstarted
    induction hall with
    | nil => rfl
    | cons hfirst _ ih =>
      obtain ⟨span, parameters, -, rfl⟩ := candidateRow_eq_ok hfirst
      rw [List.map_cons, List.map_cons, ih]
      rfl
  obtain ⟨table, hnew⟩ : ∃ table,
      implementationTable (traits.implementations.ordered ++ rows) = some table := by
    refine exists_implementationTable ?_ fun row hmem => ?_
    · rw [List.map_append]
      refine List.nodup_append.mpr ⟨htable.distinct, ?_, ?_⟩
      · rw [hkeys]
        refine (List.pairwise_map.mp hdistinct).map _ fun one other hne heq => hne ?_
        exact AggregateId.aggregateHead_inj (congrArg ImplementationKey.head heq)
      · intro key hold other hother heq
        obtain ⟨row, hearlier, rfl⟩ := List.mem_map.mp hold
        obtain ⟨added, hadded, rfl⟩ := List.mem_map.mp hother
        obtain ⟨candidate, hcandidate, htrait, hhead, -⟩ := hrow added hadded
        obtain ⟨first, hfirst, hsame⟩ := hstarted candidate hcandidate
        -- A candidate has no implementation of its own.
        have hfamily := htable.familyFor_iff.mpr ⟨hearlier,
          (congrArg ImplementationKey.traitId heq).trans htrait,
          (congrArg ImplementationKey.head heq).trans hhead⟩
        rw [← hsame, candidate_unimplemented hfirst] at hfamily
        cases hfamily
    · rcases List.mem_append.mp hmem with hold | hadded
      · exact htable.members row hold
      · obtain ⟨candidate, -, htrait, -, hmembers⟩ := hrow row hadded
        rw [htrait, hmembers]
        exact derivedMembers_owner fun method hmethod => (hmethods method hmethod).1
  refine ⟨table, Except.bind_eq_ok.mpr ⟨contract, by rw [hcontract]; rfl,
    Except.bind_eq_ok.mpr ⟨rows, hrows, ?_⟩⟩⟩
  rw [hnew]
  rfl

/-- **Automatic equality availability is the right fixpoint.**  The rounds end.  What is
published is the largest assignment whose own bounds support all members of its aggregates
and include the written ones, and its bounds are the fewest.  Over members that fit their
declarations, and declarations that can be published, it is published. -/
theorem completeEqualityAvailability_fixpoint (hrows : NumberedRows declarations)
    (htable : IsTable traits.implementations) (written : WrittenAggregates)
    (signature : TraitMethodId → FunctionSignature) (boolean : DesignatedBoolean VariantId) :
    Outcome.Ends (fun fuel => completeEqualityAvailability fuel written signature traits declarations
      boolean canonical) (fun availability => ∃ possible,
        EqualityFixpoint traits declarations canonical possible ∧
        PublishedEquality traits declarations canonical possible availability) ∧
    (WellFormedMembers traits declarations canonical →
      Publishable written signature traits declarations canonical →
      ∃ availability, Outcome.Settles (fun fuel => completeEqualityAvailability fuel written
        signature traits declarations boolean canonical) (.ok availability)) := by
  refine ⟨?_, fun hfits hpublish => ?_⟩
  · refine Outcome.Ends.bind (equalityRounds_end hrows) fun rounds hrounds => ?_
    obtain ⟨hfixpoint, hdistinct, hunavailable⟩ := hrounds
    refine Outcome.Ends.bind (Q := fun table => equalityTable written signature traits declarations
      boolean canonical rounds.possible = .ok table) (Outcome.Ends.liftM fun table h => h) ?_
    intro table h
    exact Outcome.Ends.ok ⟨rounds.possible, hfixpoint,
      publishedEquality htable hdistinct hunavailable h⟩
  · obtain ⟨last, hlast⟩ := equalityRounds_ok hfits hrows
    have hends : Outcome.Ends (fun fuel => turns (equalityTurn traits canonical declarations) fuel
      ⟨equalityCandidates traits declarations canonical, []⟩) _ := equalityRounds_end hrows
    obtain ⟨outcome, hsettles, hall⟩ := hends
    obtain ⟨hfixpoint, hdistinct, -⟩ := hall last (hsettles.unique hlast)
    obtain ⟨table, hpublished⟩ := equalityTable_ok boolean hfits hpublish htable hdistinct
      fun candidate hcandidate =>
        hfixpoint.consistent.derived candidate.aggregate ⟨candidate, hcandidate, rfl⟩
    refine ⟨⟨{ traits with implementations := table }, last.unavailable⟩, hlast.bind_ok ?_⟩
    rw [hpublished]
    exact .ok

/-! ## Generic declarations that refer to each other -/

/-- Equality, with an implementation for `Int`. -/
def intEquality : AcceptedImplementation :=
  ⟨compilerSpan, 0, .primitiveHead .builtinInt, [], [⟨⟨0, 0⟩, .authoredMethod 0⟩], some 0⟩

def intTraits : AcceptedTraits where
  declarations := [⟨0, [], [⟨⟨0, 0⟩, none⟩]⟩]
  implementations := ⟨[intEquality], [(intEquality.key, intEquality)]⟩
  equality := some ⟨⟨0, 0⟩, none⟩

theorem intTraits_table : IsTable intTraits.implementations := by
  refine ⟨rfl, List.nodup_singleton _, ?_⟩
  intro row hrow member hmember
  obtain rfl := List.mem_singleton.mp hrow
  obtain rfl := List.mem_singleton.mp hmember
  rfl

/-- `equals(left: T, right: T) -> Bool`. -/
def equalsSignature (_ : TraitMethodId) : FunctionSignature :=
  let self : TypeUse := ⟨.parameterType ⟨.traitDeclaration 0, 0⟩, compilerSpan⟩
  ⟨[], [], .pure, [self, self], ⟨.nominalType (.aggregateNominal (.unionAggregate 0)) [], compilerSpan⟩⟩

def pairOf (argument : TypeRef) : TypeUse :=
  ⟨.nominalType (.aggregateNominal (.recordAggregate 0)) [argument], compilerSpan⟩

/-- `record Pair[T] { value: T, rest: Chain[T] }` with `union Chain[T]: Last, Link(Pair[T])`,
and `record Sample { amount: Float, pair: Pair[Int] }`. -/
def chainDeclarations : EqualityDeclarations where
  records := [⟨0, [⟨.recordDeclaration 0, 0⟩], [],
      [⟨⟨0, 0⟩, ⟨0, compilerSpan⟩, ⟨.parameterType ⟨.recordDeclaration 0, 0⟩, compilerSpan⟩⟩,
        ⟨⟨0, 1⟩, ⟨1, compilerSpan⟩, ⟨.nominalType (.aggregateNominal (.unionAggregate 1))
          [.parameterType ⟨.recordDeclaration 0, 0⟩], compilerSpan⟩⟩]⟩,
    ⟨1, [], [], [⟨⟨1, 0⟩, ⟨2, compilerSpan⟩, ⟨.floatType, compilerSpan⟩⟩,
      ⟨⟨1, 1⟩, ⟨3, compilerSpan⟩, pairOf .intType⟩]⟩]
  unions := [⟨⟨0, [], [⟨⟨0, 0⟩, ⟨4, compilerSpan⟩, []⟩, ⟨⟨0, 1⟩, ⟨5, compilerSpan⟩, []⟩]⟩, []⟩,
    ⟨⟨1, [⟨.unionDeclaration 1, 0⟩], [⟨⟨1, 0⟩, ⟨6, compilerSpan⟩, []⟩,
      ⟨⟨1, 1⟩, ⟨7, compilerSpan⟩, [pairOf (.parameterType ⟨.unionDeclaration 1, 0⟩)]⟩]⟩, []⟩]

def chainNames : WrittenAggregates where
  records := [⟨8, compilerSpan⟩, ⟨9, compilerSpan⟩]
  unions := [⟨10, compilerSpan⟩, ⟨11, compilerSpan⟩]
  spelling := fun name => ["Pair", "Sample", "Bool", "Chain"][name - 8]?

theorem chainDeclarations_numbered : NumberedRows chainDeclarations := by
  constructor
  · intro id row hrow
    rcases id with _ | _ | id
    iterate 2
      · cases hrow
        rfl
    · cases hrow
  · intro id row hrow
    rcases id with _ | _ | id
    iterate 2
      · cases hrow
        rfl
    · cases hrow

theorem chain_candidates : equalityCandidates intTraits chainDeclarations 0 =
    [⟨.recordAggregate 0, []⟩, ⟨.recordAggregate 1, []⟩, ⟨.unionAggregate 0, []⟩,
      ⟨.unionAggregate 1, []⟩] := rfl

theorem chain_fits {owner : AggregateId} {type : TypeRef}
    (parameter : ∀ id, type = .parameterType id → OwnParameter chainDeclarations owner id)
    (applied : ∀ aggregate arguments, type = .nominalType (.aggregateNominal aggregate) arguments →
      ∃ id argument, chainDeclarations.typeParameters aggregate = some [id] ∧ arguments = [argument])
    (arguments : ∀ argument ∈ type.receiverArguments,
      FitsRows intTraits chainDeclarations owner argument) :
    FitsRows intTraits chainDeclarations owner type := by
  refine .mk parameter ?_ ?_ arguments
  · intro aggregate arguments htype parameters hparameters
    obtain ⟨id, argument, hid, rfl⟩ := applied aggregate arguments htype
    rw [hid] at hparameters
    cases hparameters
    rfl
  · intro head required row _ hrow
    obtain rfl := List.mem_singleton.mp (intTraits_table.familyFor_iff.mp hrow).1
    exact Nat.zero_le _

theorem chain_parameter {owner : AggregateId}
    (h : chainDeclarations.typeParameters owner = some [⟨owner.aggregateOwner, 0⟩]) :
    FitsRows intTraits chainDeclarations owner (.parameterType ⟨owner.aggregateOwner, 0⟩) := by
  refine chain_fits ?_ (fun _ _ htype => by cases htype) (by simp [TypeRef.receiverArguments])
  rintro id ⟨⟩
  exact ⟨rfl, _, h, Nat.zero_lt_one⟩

theorem chain_applied {owner aggregate : AggregateId} {id : TypeParameterId} {argument : TypeRef}
    (h : chainDeclarations.typeParameters aggregate = some [id])
    (hargument : FitsRows intTraits chainDeclarations owner argument) :
    FitsRows intTraits chainDeclarations owner
      (.nominalType (.aggregateNominal aggregate) [argument]) := by
  refine chain_fits (fun _ htype => by cases htype) ?_ ?_
  · rintro other arguments ⟨⟩
    exact ⟨id, argument, h, rfl⟩
  · intro other hother
    rwa [List.mem_singleton.mp hother]

theorem chain_wellFormed : WellFormedMembers intTraits chainDeclarations 0 := by
  have hprimitive : ∀ {owner : AggregateId} {type : TypeRef}, type = .intType ∨ type = .floatType →
      FitsRows intTraits chainDeclarations owner type := by
    rintro owner type (rfl | rfl)
    iterate 2
      · exact chain_fits (fun _ h => TypeRef.noConfusion h) (fun _ _ h => TypeRef.noConfusion h)
          (by simp [TypeRef.receiverArguments])
  constructor
  · rw [chain_candidates]
    simp
  · rw [chain_candidates]
    intro candidate hcandidate
    simp only [List.mem_cons, List.not_mem_nil, or_false] at hcandidate
    rcases hcandidate with rfl | rfl | rfl | rfl
    all_goals
      refine ⟨_, rfl, fun member hmember => ?_⟩
      simp only [List.map_cons, List.map_nil, List.mem_cons, List.not_mem_nil, or_false] at hmember
    · rcases hmember with rfl | rfl
      · exact chain_parameter rfl
      · exact chain_applied rfl (chain_parameter rfl)
    · rcases hmember with rfl | rfl
      · exact hprimitive (.inr rfl)
      · exact chain_applied rfl (hprimitive (.inl rfl))
    · simp at hmember
    · obtain rfl := List.mem_singleton.mp hmember
      exact chain_applied rfl (chain_parameter rfl)

theorem chain_publishable : Publishable chainNames equalsSignature intTraits chainDeclarations 0 := by
  constructor
  · rw [chain_candidates]
    intro candidate hcandidate
    simp only [List.mem_cons, List.not_mem_nil, or_false] at hcandidate
    rcases hcandidate with rfl | rfl | rfl | rfl
    all_goals exact ⟨_, _, rfl, rfl⟩
  · refine ⟨_, rfl, fun method hmethod => ?_⟩
    obtain rfl := List.mem_singleton.mp hmethod
    refine ⟨rfl, fun _ => ⟨fun _ _ => ⟨_, rfl⟩, fun parameter hparameter => ?_⟩⟩
    simp only [equalsSignature, List.mem_cons, List.not_mem_nil, or_false, or_self] at hparameter
    subst hparameter
    exact fun receiver span => ⟨receiver, rfl⟩

def chainRow (aggregate : AggregateId) (bounds : List (List LocatedTrait)) :
    AcceptedImplementation :=
  ⟨compilerSpan, 0, aggregate.aggregateHead, bounds, [⟨⟨0, 0⟩, .structuralEquality aggregate⟩], none⟩

/-- `Pair` and `Chain` need equality of their parameter, `Sample` has none for its amount. -/
def chainAvailability : TraitAvailability where
  accepted :=
    let rows := [intEquality, chainRow (.recordAggregate 0) [[⟨0, compilerSpan⟩]],
      chainRow (.unionAggregate 0) [], chainRow (.unionAggregate 1) [[⟨0, compilerSpan⟩]]]
    { intTraits with implementations := ⟨rows, rows.map fun row => (row.key, row)⟩ }
  unavailable := [⟨.recordAggregate 1, .equalityField 1 0, 0, .floatType⟩]

/-- They are published, at the fixpoint. -/
theorem completeEqualityAvailability_fixpoint_chain :
    Outcome.Settles (fun fuel => completeEqualityAvailability fuel chainNames equalsSignature
      intTraits chainDeclarations ⟨⟨0, 0⟩, ⟨0, 1⟩⟩ 0) (.ok chainAvailability) ∧
    ∃ possible, EqualityFixpoint intTraits chainDeclarations 0 possible ∧
      PublishedEquality intTraits chainDeclarations 0 possible chainAvailability := by
  obtain ⟨⟨outcome, hsettles, hall⟩, hpublished⟩ := completeEqualityAvailability_fixpoint
    chainDeclarations_numbered intTraits_table chainNames equalsSignature ⟨⟨0, 0⟩, ⟨0, 1⟩⟩
  obtain ⟨availability, havailability⟩ := hpublished chain_wellFormed chain_publishable
  have hcomputed : Outcome.Settles (fun fuel => completeEqualityAvailability fuel chainNames
      equalsSignature intTraits chainDeclarations ⟨⟨0, 0⟩, ⟨0, 1⟩⟩ 0) (.ok chainAvailability) :=
    .closed 3 (by simp) fun _ => rfl
  cases havailability.unique hcomputed
  exact ⟨havailability, hall _ (hsettles.unique havailability)⟩

/-! ## A written bound that no member needs -/

def phantomParameter : TypeParameterId := ⟨.recordDeclaration 0, 0⟩

/-- A record whose one parameter has a written bound and no field. -/
def phantomDeclarations : EqualityDeclarations where
  records := [⟨0, [phantomParameter], [⟨phantomParameter, 0, compilerSpan⟩],
    [⟨⟨0, 0⟩, ⟨0, compilerSpan⟩, ⟨.intType, compilerSpan⟩⟩]⟩]
  unions := []

def phantomNames : WrittenAggregates where
  records := [⟨0, compilerSpan⟩]
  unions := []
  spelling := fun _ => some "Phantom"

def phantomSignature (_ : TraitMethodId) : FunctionSignature :=
  ⟨[], [], .pure, [], ⟨.voidType, compilerSpan⟩⟩

/-- The published row of the record: its bound is the written one. -/
def phantomRow : AcceptedImplementation :=
  ⟨compilerSpan, 0, .recordHead 0, [[⟨0, compilerSpan⟩]],
    [⟨⟨0, 0⟩, .structuralEquality (.recordAggregate 0)⟩], none⟩

def phantomAvailability : TraitAvailability where
  accepted := { intTraits with
    implementations := ⟨[intEquality, phantomRow],
      [(intEquality.key, intEquality), (phantomRow.key, phantomRow)]⟩ }
  unavailable := []

def freeEquality : EqualityAssignment := ⟨(· = .recordAggregate 0), fun _ _ => False⟩

theorem freeEquality_justified :
    JustifiedEquality intTraits phantomDeclarations 0 freeEquality := by
  constructor
  · rintro aggregate rfl
    exact ⟨⟨.recordAggregate 0, [⟨phantomParameter, 0, compilerSpan⟩]⟩, List.mem_cons_self, rfl⟩
  · rintro aggregate rfl members hmembers member hmember
    cases hmembers
    obtain rfl := List.mem_singleton.mp hmember
    have hrow : intTraits.familyFor 0 (.primitiveHead .builtinInt) = some intEquality := rfl
    refine .implemented rfl hrow (Nat.le_refl 0) ?_
    intro position bounds argument bound hbounds
    cases hbounds

/-- The record's equality keeps the written bound, though its members are supported without. -/
theorem completeEqualityAvailability_keeps_written :
    Outcome.Settles (fun fuel => completeEqualityAvailability fuel phantomNames phantomSignature
      intTraits phantomDeclarations ⟨⟨0, 0⟩, ⟨0, 1⟩⟩ 0) (.ok phantomAvailability) ∧
    phantomAvailability.accepted.familyFor 0 (.recordHead 0) = some phantomRow ∧
    phantomRow.parameterBounds = [[⟨0, compilerSpan⟩]] ∧
    JustifiedEquality intTraits phantomDeclarations 0 freeEquality ∧
    freeEquality.available (.recordAggregate 0) ∧
    ¬ freeEquality.required (.recordAggregate 0) (phantomParameter, 0) :=
  ⟨.closed 1 (by simp) fun _ => rfl, rfl, rfl, freeEquality_justified, rfl, id⟩

end Blorp.Check
