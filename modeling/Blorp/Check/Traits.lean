import Blorp.Check.Model
import Blorp.Lib.Turns
import Blorp.Lib.Entries

/-!
# Traits, implementations and their proofs

The trait part of `check/model.brp`, the proofs of `check/traits.brp` and the supertrait
obligations of `check/supertraits.brp`.  A trait is entailed through its supertraits, whose
graph acceptance keeps acyclic; an implementation is a family over one receiver head with
bounds on its arguments; a proof descends from a type into its arguments.

Signatures, method templates and the other canonical contracts are not read here.  The
Dict of an implementation table is read as the association list it refines
(Library.dict_refines).
-/

namespace Blorp.Check

open Fuel

/-! ## Heads of types -/

def AggregateId.aggregateHead : AggregateId → TypeHead
  | .recordAggregate id => .recordHead id
  | .unionAggregate id => .unionHead id

def AggregateId.aggregateOwner : AggregateId → TypeParameterOwner
  | .recordAggregate id => .recordDeclaration id
  | .unionAggregate id => .unionDeclaration id

def TypeRef.typeHead : TypeRef → Option TypeHead
  | .voidType => some (.primitiveHead .builtinVoid)
  | .intType => some (.primitiveHead .builtinInt)
  | .floatType => some (.primitiveHead .builtinFloat)
  | .stringType => some (.primitiveHead .builtinString)
  | .listType _ => some .listHead
  | .nominalType (.aggregateNominal aggregate) _ => some aggregate.aggregateHead
  | .nominalType (.opaqueNominal id) _ => some (.opaqueHead id)
  | .parameterType _ | .callableType .. | .tupleType _ => none

def TypeRef.receiverArguments : TypeRef → List TypeRef
  | .nominalType _ arguments => arguments
  | .listType element => [element]
  | _ => []

/-! ## Traits and implementations -/

structure LocatedTrait where
  requiredTrait : TraitId
  span : Span

structure TraitRequirement where
  parameter : TypeParameterId
  requiredTrait : TraitId
  span : Span

structure AcceptedTraitMethod where
  id : TraitMethodId
  defaultBody : Option FunctionId

/-- Supertraits are the direct ones only; `entails` walks them for the closure. -/
structure AcceptedTrait where
  id : TraitId
  supertraits : List LocatedTrait
  methods : List AcceptedTraitMethod

inductive ImplementedBody where
  | authoredMethod (function : FunctionId)
  | traitDefault (function : FunctionId)
  | structuralEquality (aggregate : AggregateId)

structure ImplementedMethod where
  method : TraitMethodId
  body : ImplementedBody

structure AcceptedImplementation where
  span : Span
  traitId : TraitId
  receiverHead : TypeHead
  parameterBounds : List (List LocatedTrait)
  methods : List ImplementedMethod
  methodProvider : Option ModuleId

/-- One trait implemented for one receiver head: at most one accepted row. -/
structure ImplementationKey where
  traitId : TraitId
  head : TypeHead
  deriving DecidableEq

def AcceptedImplementation.key (row : AcceptedImplementation) : ImplementationKey :=
  ⟨row.traitId, row.receiverHead⟩

structure ImplementationTable where
  ordered : List AcceptedImplementation
  byKey : List (ImplementationKey × AcceptedImplementation)

/-- Adds a row that no earlier one overlaps and that holds no other trait's member. -/
def indexRow (byKey : List (ImplementationKey × AcceptedImplementation))
    (row : AcceptedImplementation) : Option (List (ImplementationKey × AcceptedImplementation)) :=
  let otherTraitMember := row.methods.any fun member => member.method.owner != row.traitId
  if !Entries.contains (· == ·) byKey row.key && !otherTraitMember then
    some (Entries.put (· == ·) byKey row.key row)
  else none

/-- `rows` indexed, or `none` if two rows implement one trait for one head or a row holds
another trait's member. -/
def implementationTable (rows : List AcceptedImplementation) : Option ImplementationTable := do
  let byKey ← rows.foldlM indexRow []
  some ⟨rows, byKey⟩

structure CanonicalEquality where
  equals : TraitMethodId
  notEquals : Option TraitMethodId

def CanonicalEquality.canonicalOwner (contract : CanonicalEquality) : TraitId :=
  contract.equals.owner

structure AcceptedTraits where
  declarations : List AcceptedTrait
  implementations : ImplementationTable
  equality : Option CanonicalEquality

/-- The one accepted implementation of `required` for `head`. -/
def AcceptedTraits.familyFor (traits : AcceptedTraits) (required : TraitId) (head : TypeHead) :
    Option AcceptedImplementation :=
  Entries.lookup (· == ·) traits.implementations.byKey ⟨required, head⟩

/-! ## Supertraits -/

/-- Every issued trait has its accepted row, so the empty case never runs. -/
def directSupertraits (traits : List AcceptedTrait) (id : TraitId) : List LocatedTrait :=
  match traits[id]? with
  | some accepted => accepted.supertraits
  | none => []

/-- Walks up from `root`; `walked` ends at `current`.  An edge back to the root closes a
cycle; a trait already on the walk ends it. -/
def supertraitCycle (traits : List AcceptedTrait) (root : TraitId) :
    Nat → TraitId → List TraitId → Outcome CheckError Unit
  | 0, _, _ => .timeout
  | fuel + 1, current, walked =>
      (directSupertraits traits current).forM fun supertrait =>
        let next := supertrait.requiredTrait
        if next = root then
          .err (traitError supertrait.span (.supertraitCycle (walked ++ [next])))
        else if walked.any (· == next) then .ok ()
        else supertraitCycle traits root fuel next (walked ++ [next])

/-- Whether some element passes a test that may run out of fuel; the rest is not tested. -/
def anyOutcome {ε α : Type} (test : α → Outcome ε Bool) : List α → Outcome ε Bool
  | [] => .ok false
  | x :: xs => do
      let found ← test x
      if found then .ok true else anyOutcome test xs

def entails {ε : Type} (traits : List AcceptedTrait) : Nat → TraitId → TraitId → Outcome ε Bool
  | 0, _, _ => .timeout
  | fuel + 1, held, required =>
      if held = required then .ok true
      else anyOutcome (fun supertrait => entails traits fuel supertrait.requiredTrait required)
        (directSupertraits traits held)

/-! ## Proofs -/

/-- Why an aggregate has no automatic equality. -/
structure EqualityUnavailable where
  aggregate : AggregateId
  member : EqualityMember
  requiredTrait : TraitId
  receiver : TypeRef

structure TraitAvailability where
  accepted : AcceptedTraits
  unavailable : List EqualityUnavailable

structure EqualitySearch where
  current : TypeRef
  currentTrait : TraitId
  terminal : Option EqualityUnavailable

def isCanonicalEquality (traits : AcceptedTraits) (required : TraitId) : Bool :=
  match traits.equality with
  | some contract => contract.canonicalOwner == required
  | none => false

def terminalError (span : Span) (terminal : Option EqualityUnavailable) : Option CheckError :=
  terminal.map fun failure => traitError span
    (.equalityMemberUnsupported failure.requiredTrait failure.receiver failure.member)

def equalitySearchTurn (availability : TraitAvailability) (required : TraitId) (span : Span)
    (search : EqualitySearch) : Outcome CheckError (Turn EqualitySearch (Option CheckError)) :=
  match search.current.typeHead with
  | none => .ok (.done (terminalError span search.terminal))
  | some head =>
      if search.currentTrait = required then
        match availability.unavailable.find? fun failure =>
            decide (failure.aggregate.aggregateHead = head) with
        | none => .ok (.done (terminalError span search.terminal))
        | some failure =>
            match substituteType ⟨failure.aggregate.aggregateOwner,
                search.current.receiverArguments⟩ span failure.receiver with
            | .error error => .ok (.done (some error))
            | .ok actual =>
                .ok (.again ⟨actual, failure.requiredTrait,
                  some { failure with receiver := actual }⟩)
      else .ok (.done (terminalError span search.terminal))

/-- Canonical identity is checked before following checker-local negative causes. -/
def equalityError (availability : TraitAvailability) (fuel : Nat) (required : TraitId)
    (receiver : TypeRef) (span : Span) : Outcome CheckError (Option CheckError) :=
  if isCanonicalEquality availability.accepted required then
    turns (equalitySearchTurn availability required span) fuel ⟨receiver, required, none⟩
  else .ok none

/-- The family of the receiver's head, or why there is none. -/
def selectedFamily (availability : TraitAvailability) (fuel : Nat) (required : TraitId)
    (receiver : TypeRef) (span : Span) : Outcome CheckError AcceptedImplementation :=
  match receiver.typeHead with
  | none => .err (traitError span (.missingTraitBound required receiver))
  | some head =>
      match availability.accepted.familyFor required head with
      | some implementation => .ok implementation
      | none => do
          let rejection ← equalityError availability fuel required receiver span
          .err (rejection.getD (traitError span (.missingTraitBound required receiver)))

def proveBounds (prove : TraitId → TypeRef → Outcome CheckError Unit) (arguments : List TypeRef)
    (span : Span) (bounds : List LocatedTrait × Nat) : Outcome CheckError Unit :=
  match arguments[bounds.2]? with
  | none => .err (checkerInvariant span .invalidFunctionContract)
  | some argument => bounds.1.forM fun bound => prove bound.requiredTrait argument

/-- A rigid parameter is justified only by its declaration.  A family checks each bound on
a strict child of the actual receiver. -/
def proveTrait (availability : TraitAvailability) (assumptions : List TraitRequirement)
    (span : Span) : Nat → TraitId → TypeRef → Outcome CheckError Unit
  | 0, _, _ => .timeout
  | fuel + 1, required, receiver =>
      match receiver with
      | .parameterType parameter => do
          let known ← anyOutcome (fun assumption : TraitRequirement => do
            let entailed ← entails availability.accepted.declarations fuel
              assumption.requiredTrait required
            .ok (decide (assumption.parameter = parameter) && entailed)) assumptions
          if known then .ok ()
          else .err (traitError span (.missingTraitBound required receiver))
      | _ => do
          let accepted ← selectedFamily availability fuel required receiver span
          accepted.parameterBounds.zipIdx.forM
            (proveBounds (proveTrait availability assumptions span fuel)
              receiver.receiverArguments span)

/-! ## Method bodies -/

structure AcceptedMethodCall where
  method : TraitMethodId
  receiver : TypeRef

structure SelectedMethodBody where
  body : BodyOwner
  arguments : List TypeRef

def selectedBody (receiver : TypeRef) : ImplementedBody → SelectedMethodBody
  | .authoredMethod function => ⟨.declaredBody function, receiver.receiverArguments⟩
  | .traitDefault function => ⟨.declaredBody function, [receiver]⟩
  | .structuralEquality aggregate => ⟨.derivedEqualityBody aggregate, receiver.receiverArguments⟩

def methodBody (traits : AcceptedTraits) (call : AcceptedMethodCall) : Option SelectedMethodBody := do
  let head ← call.receiver.typeHead
  let implementation ← traits.familyFor call.method.owner head
  let member ← implementation.methods.find? fun member => member.method == call.method
  some (selectedBody call.receiver member.body)

/-! ## Acceptance -/

/-- The methods an implementation does not write are the trait's defaults: the last loop of
`accept_implementation`, over the members its bodies were matched with. -/
def completedMembers (span : Span) (methods : List AcceptedTraitMethod)
    (members : List ImplementedMethod) : Except CheckError (List ImplementedMethod) :=
  methods.foldlM (fun members required =>
    if members.any fun member => member.method == required.id then .ok members
    else
      match required.defaultBody with
      | some function => .ok (members ++ [⟨required.id, .traitDefault function⟩])
      | none => .error (traitError span (.missingImplementationMethod required.id))) members

structure ImplementationHeader where
  receiverHead : TypeHead
  parameterBounds : List (List LocatedTrait)

/-- An implementation as written: its module, the span of its trait's name, its receiver,
the names of its type parameters, and its own span. -/
structure WrittenImplementation where
  id : Nat
  module : ModuleId
  traitSpan : Span
  receiver : ParsedReceiverHead
  typeParameters : List WrittenName
  span : Span

/-- The row `accept_implementation` ends with, from the written bodies it has matched with
methods of the trait. -/
def acceptedImplementation (written : WrittenImplementation) (header : ImplementationHeader)
    (owner : TraitId) (declaration : AcceptedTrait) (bodies : List (TraitMethodId × FunctionId)) :
    Except CheckError AcceptedImplementation := do
  let authored : List ImplementedMethod := bodies.map fun body => ⟨body.1, .authoredMethod body.2⟩
  let members ← completedMembers written.span declaration.methods authored
  return ⟨written.span, owner, header.receiverHead, header.parameterBounds, members,
    some written.module⟩

/-- The methods of an automatic equality: each default, and the derived body of the rest. -/
def derivedMembers (aggregate : AggregateId) (contract : AcceptedTrait) : List ImplementedMethod :=
  contract.methods.map fun method =>
    match method.defaultBody with
    | some function => ⟨method.id, .traitDefault function⟩
    | none => ⟨method.id, .structuralEquality aggregate⟩

structure EqualityCandidate where
  aggregate : AggregateId
  requirements : List TraitRequirement

/-- An automatic equality row: the candidate's bounds, parameter by parameter. -/
def supportedImplementation (span : Span) (candidate : EqualityCandidate)
    (parameters : List TypeParameterId) (contract : AcceptedTrait) (canonical : TraitId) :
    AcceptedImplementation :=
  let bounds := parameters.map fun parameter =>
    candidate.requirements.filterMap fun inferred =>
      if inferred.parameter = parameter then
        some (⟨inferred.requiredTrait, inferred.span⟩ : LocatedTrait)
      else none
  ⟨span, canonical, candidate.aggregate.aggregateHead, bounds,
    derivedMembers candidate.aggregate contract, none⟩

/-- The traits after finalization has removed the automatic equalities it could not prove
finite. -/
structure FinalTraits where
  traits : AcceptedTraits
  removed : List AggregateId

def blockedByUnavailableEquality (unavailable : List AggregateId)
    (implementation : AcceptedImplementation) : Bool :=
  implementation.methods.any fun member =>
    match member.body with
    | .structuralEquality aggregate => unavailable.any fun existing => decide (existing = aggregate)
    | _ => false

def keptImplementations (traits : AcceptedTraits) (unavailable : List AggregateId) :
    Except CheckError ImplementationTable :=
  if unavailable.isEmpty then .ok traits.implementations
  else
    orCheckerInvariant (implementationTable (traits.implementations.ordered.filter
      fun implementation => !blockedByUnavailableEquality unavailable implementation))
      compilerSpan .invalidFunctionContract

/-- The end of `finalize_trait_instances`. -/
def finalTraits (traits : AcceptedTraits) (unavailable : List AggregateId) :
    Except CheckError FinalTraits := do
  let implementations ← keptImplementations traits unavailable
  return ⟨{ traits with implementations := implementations }, unavailable⟩

/-- Why `head` has no implementation of `supertrait`. -/
def absentCause (availability : TraitAvailability) (final : FinalTraits) (supertrait : TraitId)
    (head : TypeHead) : AbsentSupertrait :=
  if !isCanonicalEquality final.traits supertrait then .neverImplemented
  else if final.removed.any fun aggregate => decide (aggregate.aggregateHead = head) then
    .automaticEqualityNotFinite
  else
    match availability.unavailable.find? fun failure =>
        decide (failure.aggregate.aggregateHead = head) with
    | some failure => .automaticEqualityRejected failure.member
    | none => .neverImplemented

def boundsEntailed (declarations : List AcceptedTrait) (fuel : Nat)
    (written : WrittenImplementation) (header : ImplementationHeader) (implemented : TraitId)
    (required : List LocatedTrait × Nat) : Outcome CheckError Unit :=
  match header.parameterBounds[required.2]?, written.typeParameters[required.2]? with
  | some held, some parameter =>
      required.1.forM fun bound => do
        let entailed ← anyOutcome (fun declared : LocatedTrait =>
          entails declarations fuel declared.requiredTrait bound.requiredTrait) held
        if entailed then .ok ()
        else .err (traitError written.traitSpan (.supertraitBoundNotEntailed implemented
          bound.requiredTrait parameter written.receiver))
  | _, _ => .err (checkerInvariant written.traitSpan .invalidFunctionContract)

/-- Receivers are complete families of fresh parameters, so comparing bounds position by
position decides what proving the supertrait on the receiver would. -/
def implementationObligations (availability : TraitAvailability) (final : FinalTraits)
    (fuel : Nat) (written : WrittenImplementation) (header : ImplementationHeader)
    (implemented : TraitId) : Outcome CheckError Unit := do
  let declaration ← orCheckerInvariant final.traits.declarations[implemented]? written.traitSpan
    .invalidFunctionContract
  declaration.supertraits.forM fun supertrait =>
    match final.traits.familyFor supertrait.requiredTrait header.receiverHead with
    | none =>
        .err (traitError written.traitSpan (.supertraitNotImplemented implemented
          supertrait.requiredTrait written.receiver
          (absentCause availability final supertrait.requiredTrait header.receiverHead)))
    | some family =>
        family.parameterBounds.zipIdx.forM
          (boundsEntailed final.traits.declarations fuel written header implemented)

/-- Automatic implementations are canonical Equatable's, which declares no supertraits, so
the authored implementation rows are every subtrait one. -/
def validateSupertraitImplementations (implementationTrait : ModuleId → Nat → Option TraitId)
    (rows : List WrittenImplementation) (headers : List ImplementationHeader)
    (availability : TraitAvailability) (final : FinalTraits) (fuel : Nat) :
    Outcome CheckError Unit :=
  rows.forM fun row =>
    match implementationTrait row.module row.id, headers[row.id]? with
    | some implemented, some header =>
        implementationObligations availability final fuel row header implemented
    | _, _ => .err (checkerInvariant row.span .invalidFunctionContract)

end Blorp.Check
