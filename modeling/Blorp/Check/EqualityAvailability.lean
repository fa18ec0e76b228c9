import Blorp.Check.EqualityBodies

/-!
# Which aggregates have automatic equality

The availability rounds of `check/traits.brp`.  Every aggregate without an implementation
of its own is a candidate; a round summarizes each candidate's members against the
preceding round's candidates, drops those with an unsupported member and adds the bounds
the others need of their type parameters, until nothing changes.
-/

namespace Blorp.Check

open Fuel

structure BoundedUnion extends CheckedUnion where
  requirements : List TraitRequirement

structure EqualityDeclarations where
  records : List CheckedRecord
  unions : List BoundedUnion

structure EqualitySummary where
  requirements : List TraitRequirement
  failure : Option EqualityUnavailable

abbrev Summarize := EqualitySummary → Except CheckError EqualitySummary

/-- A goal on one type: the trait it has to have. -/
abbrev EqualityGoal := TraitId → Summarize

def summarizeEach : List Summarize → Summarize
  | [], summary => .ok summary
  | step :: steps, summary => do
      let updated ← step summary
      if updated.failure.isSome then return updated else summarizeEach steps updated

/-- Keeps the order of bounds; a known one is only refined to the earlier span. -/
def requireBound (inferred : TraitRequirement) : List TraitRequirement → List TraitRequirement
  | [] => [inferred]
  | bound :: bounds =>
      if bound.parameter = inferred.parameter ∧ bound.requiredTrait = inferred.requiredTrait then
        (if inferred.span.start < bound.span.start then { bound with span := inferred.span }
          else bound) :: bounds
      else bound :: requireBound inferred bounds

/-! ## Goals -/

section

variable (traits : AcceptedTraits) (possible : List EqualityCandidate) (owner : AggregateId)
  (member : EqualityMember) (span : Span)

def unsupportedMember (required : TraitId) (receiver : TypeRef) : Summarize := fun summary =>
  .ok { summary with failure := some ⟨owner, member, required, receiver⟩ }

def summarizeBounds (arguments : List EqualityGoal) (bounds : List LocatedTrait × Nat) : Summarize :=
  match arguments[bounds.2]? with
  | some argument => summarizeEach (bounds.1.map fun bound => argument bound.requiredTrait)
  | none => fun _ => .error (checkerInvariant span .invalidFunctionContract)

def summarizeRequirement (candidate : AggregateId) (arguments : List EqualityGoal)
    (bound : TraitRequirement) : Summarize :=
  let replacement := if bound.parameter.owner = candidate.aggregateOwner then
    arguments[bound.parameter.position]? else none
  match orCheckerInvariant replacement span (.invalidParameterDeclaration bound.parameter) with
  | .ok argument => argument bound.requiredTrait
  | .error error => fun _ => .error error

def summarizeFamily (required : TraitId) (receiver : TypeRef) (arguments : List EqualityGoal) :
    Summarize :=
  match receiver.typeHead with
  | none => unsupportedMember owner member required receiver
  | some head =>
      match traits.familyFor required head with
      | some family => summarizeEach (family.parameterBounds.zipIdx.map (summarizeBounds span arguments))
      | none =>
          let provisional := if isCanonicalEquality traits required then
            possible.find? fun candidate => decide (candidate.aggregate.aggregateHead = head)
            else none
          match provisional with
          | none => unsupportedMember owner member required receiver
          | some candidate =>
              summarizeEach (candidate.requirements.map
                (summarizeRequirement span candidate.aggregate arguments))

mutual

/-- Recursive goals read the preceding round's candidates; they never reopen another
declaration's fields. -/
def summarizeGoal : TypeRef → EqualityGoal
  | .parameterType parameter => fun required summary =>
      if parameter.owner = owner.aggregateOwner then
        .ok { summary with
          requirements := requireBound ⟨parameter, required, span⟩ summary.requirements }
      else .error (checkerInvariant span .invalidFunctionContract)
  | .nominalType nominal arguments => fun required =>
      summarizeFamily traits possible owner member span required (.nominalType nominal arguments)
        (summarizeGoals arguments)
  | .listType element => fun required =>
      summarizeFamily traits possible owner member span required (.listType element)
        [summarizeGoal element]
  | .tupleType elements => fun required =>
      summarizeFamily traits possible owner member span required (.tupleType elements) []
  | .callableType purity parameters result => fun required =>
      summarizeFamily traits possible owner member span required
        (.callableType purity parameters result) []
  | .voidType => fun required =>
      summarizeFamily traits possible owner member span required .voidType []
  | .intType => fun required =>
      summarizeFamily traits possible owner member span required .intType []
  | .floatType => fun required =>
      summarizeFamily traits possible owner member span required .floatType []
  | .stringType => fun required =>
      summarizeFamily traits possible owner member span required .stringType []

def summarizeGoals : List TypeRef → List EqualityGoal
  | [] => []
  | value :: values => summarizeGoal value :: summarizeGoals values

end

end

/-! ## Rounds -/

def EqualityDeclarations.members (declarations : EqualityDeclarations) :
    AggregateId → Option (List (EqualityMember × TypeUse))
  | .recordAggregate id => declarations.records[id]?.map fun row =>
      row.fields.map fun field => (.equalityField field.id.owner field.id.position, field.valueType)
  | .unionAggregate id => declarations.unions[id]?.map fun row =>
      row.variants.flatMap fun variant => variant.fields.zipIdx.map fun field =>
        (.equalityPayload variant.id field.2, field.1)

/-- The order of bounds is first-established; the written member walk can only refine an
earlier bound's span. -/
def summarizeMembers (traits : AcceptedTraits) (required : TraitId) (candidate : EqualityCandidate)
    (declarations : EqualityDeclarations) (possible : List EqualityCandidate) :
    Except CheckError EqualitySummary := do
  let members ← orCheckerInvariant (declarations.members candidate.aggregate) compilerSpan
    .invalidFunctionContract
  summarizeEach (members.map fun member =>
    summarizeGoal traits possible candidate.aggregate member.1 member.2.span member.2.valueType
      required) ⟨candidate.requirements, none⟩

def equalityCandidates (traits : AcceptedTraits) (declarations : EqualityDeclarations)
    (canonical : TraitId) : List EqualityCandidate :=
  let records := declarations.records.filterMap fun row =>
    if (traits.familyFor canonical (.recordHead row.id)).isNone then
      some (⟨.recordAggregate row.id, row.requirements⟩ : EqualityCandidate)
    else none
  let unions := declarations.unions.filterMap fun row =>
    if (traits.familyFor canonical (.unionHead row.id)).isNone then
      some (⟨.unionAggregate row.id, row.requirements⟩ : EqualityCandidate)
    else none
  records ++ unions

structure EqualityRounds where
  possible : List EqualityCandidate
  unavailable : List EqualityUnavailable

structure EqualityRound where
  retained : List EqualityCandidate
  unavailable : List EqualityUnavailable
  changed : Bool

section

variable (traits : AcceptedTraits) (canonical : TraitId) (declarations : EqualityDeclarations)

def summarizeCandidate (possible : List EqualityCandidate) (round : EqualityRound)
    (candidate : EqualityCandidate) : Except CheckError EqualityRound := do
  let summary ← summarizeMembers traits canonical candidate declarations possible
  match summary.failure with
  | some failure =>
      return { round with unavailable := round.unavailable ++ [failure], changed := true }
  | none =>
      return { round with
        retained := round.retained ++ [{ candidate with requirements := summary.requirements }]
        changed := round.changed ||
          summary.requirements.length != candidate.requirements.length }

def equalityRound (rounds : EqualityRounds) : Except CheckError EqualityRound :=
  rounds.possible.foldlM (summarizeCandidate traits canonical declarations rounds.possible)
    ⟨[], rounds.unavailable, false⟩

def equalityTurn (rounds : EqualityRounds) :
    Outcome CheckError (Turn EqualityRounds EqualityRounds) := do
  let round ← equalityRound traits canonical declarations rounds
  let after : EqualityRounds := ⟨round.retained, round.unavailable⟩
  return if round.changed then .again after else .done after

end

/-! ## Published rows -/

def equalityLabel (typeName : String) : FunctionLabel := "equality for " ++ typeName

structure WrittenAggregates where
  records : List WrittenName
  unions : List WrittenName
  spelling : NameId → Option String

def WrittenAggregates.aggregateName (written : WrittenAggregates) (aggregate : AggregateId) :
    Except CheckError WrittenName :=
  let name := match aggregate with
    | .recordAggregate id => written.records[id]?
    | .unionAggregate id => written.unions[id]?
  orCheckerInvariant name compilerSpan .invalidFunctionContract

def EqualityDeclarations.typeParameters (declarations : EqualityDeclarations) :
    AggregateId → Option (List TypeParameterId)
  | .recordAggregate id => declarations.records[id]?.map (·.typeParameters)
  | .unionAggregate id => declarations.unions[id]?.map (·.typeParameters)

def templateError (signature : TraitMethodId → FunctionSignature) (label : FunctionLabel)
    (candidate : EqualityCandidate) (parameters : List TypeParameterId)
    (declarations : EqualityDeclarations) (contract : AcceptedTrait)
    (boolean : DesignatedBoolean VariantId) (span : Span) : Option CheckError :=
  contract.methods.foldl (fun error method =>
    match method.defaultBody with
    | some _ => error
    | none =>
        match equalityTemplate candidate.aggregate label parameters candidate.requirements
          declarations.records (declarations.unions.map (·.toCheckedUnion))
          ⟨method, signature method.id⟩ boolean span with
        | .ok _ => error
        | .error failure => some failure) none

def candidateRow (written : WrittenAggregates) (signature : TraitMethodId → FunctionSignature)
    (declarations : EqualityDeclarations) (contract : AcceptedTrait)
    (boolean : DesignatedBoolean VariantId) (canonical : TraitId) (candidate : EqualityCandidate) :
    Except CheckError AcceptedImplementation := do
  let name ← written.aggregateName candidate.aggregate
  let spelling ← orCheckerInvariant (written.spelling name.id) name.span .invalidFunctionContract
  let parameters ← orCheckerInvariant (declarations.typeParameters candidate.aggregate) name.span
    .invalidFunctionContract
  match templateError signature (equalityLabel spelling) candidate parameters declarations contract
    boolean name.span with
  | some failure => .error failure
  | none => return supportedImplementation name.span candidate parameters contract canonical

def equalityTable (written : WrittenAggregates) (signature : TraitMethodId → FunctionSignature)
    (traits : AcceptedTraits) (declarations : EqualityDeclarations)
    (boolean : DesignatedBoolean VariantId) (canonical : TraitId)
    (possible : List EqualityCandidate) : Except CheckError ImplementationTable := do
  let contract ← orCheckerInvariant traits.declarations[canonical]? compilerSpan
    .invalidFunctionContract
  let rows ← possible.mapM
    (candidateRow written signature declarations contract boolean canonical)
  orCheckerInvariant (implementationTable (traits.implementations.ordered ++ rows)) compilerSpan
    .invalidFunctionContract

def completeEqualityAvailability (fuel : Nat) (written : WrittenAggregates)
    (signature : TraitMethodId → FunctionSignature) (traits : AcceptedTraits)
    (declarations : EqualityDeclarations) (boolean : DesignatedBoolean VariantId)
    (canonical : TraitId) : Outcome CheckError TraitAvailability := do
  let rounds ← turns (equalityTurn traits canonical declarations) fuel
    ⟨equalityCandidates traits declarations canonical, []⟩
  let table ← equalityTable written signature traits declarations boolean canonical rounds.possible
  return ⟨{ traits with implementations := table }, rounds.unavailable⟩

end Blorp.Check
