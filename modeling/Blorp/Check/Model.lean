import Mathlib

/-!
# The checked program model, as far as patterns read it

`check/model.brp`, `check/errors.brp` and the type substitution of
`check/declarations.brp`: identities, resolved types, union declarations,
pattern places and the decision nodes a match compiles to.  Integers the
compiler only counts with (ordinals, positions, identities) are `Nat`; a literal
a program writes keeps its sign.
-/

namespace Blorp.Check

/-! ## Identities -/

abbrev UnionId := Nat
abbrev RecordId := Nat
abbrev OpaqueId := Nat
abbrev TraitId := Nat
abbrev FunctionId := Nat
abbrev NameId := Nat
abbrev MatchArmId := Nat
abbrev DecisionNodeId := Nat
abbrev BindingId := Nat
abbrev ModuleId := Nat
abbrev ConstantId := Nat
abbrev LambdaId := Nat

structure VariantId where
  owner : UnionId
  position : Nat
  deriving DecidableEq, Repr

structure Span where
  source : Nat
  start : Nat
  stop : Nat
  deriving DecidableEq, Repr

def compilerSpan : Span := ⟨1, 0, 0⟩

structure WrittenName where
  id : NameId
  span : Span
  deriving DecidableEq, Repr

/-! ## Types -/

inductive TypeParameterOwner where
  | traitDeclaration (id : TraitId)
  | functionDeclaration (id : FunctionId)
  | unionDeclaration (id : UnionId)
  | recordDeclaration (id : RecordId)
  | opaqueDeclaration (id : OpaqueId)
  deriving DecidableEq, Repr

structure TypeParameterId where
  owner : TypeParameterOwner
  position : Nat
  deriving DecidableEq, Repr

inductive AggregateId where
  | recordAggregate (id : RecordId)
  | unionAggregate (id : UnionId)
  deriving DecidableEq, Repr

inductive NominalId where
  | aggregateNominal (id : AggregateId)
  | opaqueNominal (id : OpaqueId)
  deriving DecidableEq, Repr

inductive Purity where
  | pure
  | impure
  deriving DecidableEq, Repr

inductive TypeRef where
  | voidType
  | intType
  | floatType
  | stringType
  | listType (element : TypeRef)
  | tupleType (elements : List TypeRef)
  | nominalType (owner : NominalId) (arguments : List TypeRef)
  | parameterType (id : TypeParameterId)
  | callableType (purity : Purity) (parameters : List TypeRef) (result : TypeRef)
  deriving Repr

mutual

/-- The structural equality the compiler derives for `TypeRef`. -/
def TypeRef.beq : TypeRef → TypeRef → Bool
  | .voidType, .voidType => true
  | .intType, .intType => true
  | .floatType, .floatType => true
  | .stringType, .stringType => true
  | .listType a, .listType b => TypeRef.beq a b
  | .tupleType as, .tupleType bs => TypeRef.beqAll as bs
  | .nominalType m as, .nominalType n bs => decide (m = n) && TypeRef.beqAll as bs
  | .parameterType a, .parameterType b => decide (a = b)
  | .callableType p as a, .callableType q bs b =>
      decide (p = q) && TypeRef.beqAll as bs && TypeRef.beq a b
  | _, _ => false

def TypeRef.beqAll : List TypeRef → List TypeRef → Bool
  | [], [] => true
  | a :: as, b :: bs => TypeRef.beq a b && TypeRef.beqAll as bs
  | _, _ => false

end

mutual

theorem TypeRef.beq_iff : ∀ a b : TypeRef, TypeRef.beq a b = true ↔ a = b
  | .voidType, b | .intType, b | .floatType, b | .stringType, b | .parameterType a, b =>
    by cases b <;> simp [TypeRef.beq]
  | .listType a, b => by cases b <;> simp [TypeRef.beq, TypeRef.beq_iff a]
  | .tupleType as, b | .nominalType n as, b =>
    by cases b <;> simp [TypeRef.beq, TypeRef.beqAll_iff as]
  | .callableType p as a, b => by
      cases b <;> simp [TypeRef.beq, TypeRef.beqAll_iff as, TypeRef.beq_iff a, and_assoc]

theorem TypeRef.beqAll_iff : ∀ as bs : List TypeRef, TypeRef.beqAll as bs = true ↔ as = bs
  | [], bs => by cases bs <;> simp [TypeRef.beqAll]
  | a :: as, bs => by cases bs <;> simp [TypeRef.beqAll, TypeRef.beq_iff a, TypeRef.beqAll_iff as]

end

instance : DecidableEq TypeRef := fun a b =>
  decidable_of_iff (TypeRef.beq a b = true) (TypeRef.beq_iff a b)

structure TypeUse where
  valueType : TypeRef
  span : Span
  deriving DecidableEq, Repr

structure CheckedVariant where
  id : VariantId
  name : WrittenName
  fields : List TypeUse

structure CheckedUnion where
  id : UnionId
  typeParameters : List TypeParameterId
  variants : List CheckedVariant

structure UnionOccurrence where
  owner : UnionId
  arguments : List TypeRef

def TypeRef.unionOccurrence : TypeRef → Option UnionOccurrence
  | .nominalType (.aggregateNominal (.unionAggregate id)) arguments => some ⟨id, arguments⟩
  | _ => none

/-! ## Patterns and places -/

inductive LiteralPattern where
  | exactBytes (text : String)
  | exactInt (value : Int)
  deriving DecidableEq, Repr

mutual

inductive CheckedPatternPlace where
  | mk (valueType : TypeRef) (route : CheckedPatternRoute)

inductive CheckedPatternRoute where
  | matchRoot
  | unionField (parent : CheckedPatternPlace) (variant : VariantId) (ordinal : Nat)
  | listElement (parent : CheckedPatternPlace) (index : Nat)
  | recordField (parent : CheckedPatternPlace) (ordinal : Nat)

end

def CheckedPatternPlace.valueType : CheckedPatternPlace → TypeRef
  | .mk valueType _ => valueType

inductive ListLengthTest where
  | exactLength (length : Nat)
  | minimumLength (length : Nat)

inductive CheckedPatternArgument where
  | borrowPlace (place : CheckedPatternPlace)
  | copyListSuffix (place : CheckedPatternPlace) (skip : Nat)

inductive CheckedDecisionNode where
  | testVariant (place : CheckedPatternPlace) (variant : VariantId) (yes no : DecisionNodeId)
  | enterArm (arm : MatchArmId) (arguments : List CheckedPatternArgument)
  | testListLength (place : CheckedPatternPlace) (test : ListLengthTest) (yes no : DecisionNodeId)
  | testLiteral (place : CheckedPatternPlace) (literal : LiteralPattern) (yes no : DecisionNodeId)

structure CheckedSelection where
  nodes : List CheckedDecisionNode
  entry : DecisionNodeId

/-! ## Names and scopes -/

structure TraitMethodId where
  owner : TraitId
  position : Nat
  deriving DecidableEq, Repr

inductive ImportOrigin where
  | relativeImport (parents : Int)
  | libraryImport
  deriving DecidableEq

structure ModulePath where
  origin : ImportOrigin
  parts : List NameId

/-- `path as Alias`: the module it names, and its path as written. -/
structure AliasedModule where
  target : ModuleId
  path : ModulePath

inductive PrimitiveType where
  | builtinInt
  | builtinFloat
  | builtinString
  | builtinVoid
  deriving DecidableEq

inductive TypeHead where
  | listHead
  | primitiveHead (primitive : PrimitiveType)
  | recordHead (id : RecordId)
  | unionHead (id : UnionId)
  | opaqueHead (id : OpaqueId)
  deriving DecidableEq

inductive Entity where
  | trait (id : TraitId)
  | method (id : TraitMethodId)
  | function (id : FunctionId)
  | constant (id : ConstantId)
  | constructor (variant : VariantId)
  | type (head : TypeHead)
  | alias (aliased : AliasedModule)

inductive FunctionSource where
  | declaredHere
  | importedAt (span : Span)

inductive NamedValue where
  | namedMethod (id : TraitMethodId)
  | namedFunction (id : FunctionId) (source : FunctionSource)
  | namedConstant (id : ConstantId)
  | namedConstructor (variant : VariantId)
  | namedAlias (aliased : AliasedModule)

/-- What a module offers importers in the value space: never an alias. -/
inductive OfferedValue where
  | offeredMethod (id : TraitMethodId)
  | offeredFunction (id : FunctionId)
  | offeredConstant (id : ConstantId)
  | offeredConstructor (variant : VariantId)

inductive Unoffered where
  | unknownName
  | privateName
  | importedThere (entity : Entity)
  | providedThere (entity : Entity)

inductive ValueBinding where
  | methodName (name : WrittenName)
  | functionName (name : WrittenName)
  | constantName (name : WrittenName)
  | constructorName (name : WrittenName)
  | moduleAliasName (name : WrittenName)

structure Namespace where
  namedValue : ModuleId → NameId → Option NamedValue
  valueBinding : ModuleId → NameId → Option ValueBinding
  offeredValue : ModuleId → NameId → Except Unoffered OfferedValue

inductive BodyOwner where
  | declaredBody (id : FunctionId)
  | lambdaBody (id : LambdaId)
  | derivedEqualityBody (id : AggregateId)

structure ScopedBindingId where
  owner : BodyOwner
  binding : BindingId

structure CallableParameterId where
  owner : FunctionId
  position : Nat

inductive BindingOrigin where
  | parameterBinding (position : Nat)
  | callableParameterBinding (id : CallableParameterId)
  | bodyLocal
  | matchCapture

structure BindingDefinition where
  origin : BindingOrigin
  isMutable : Bool
  valueType : TypeRef
  span : Span

structure BindingSite where
  binding : ScopedBindingId
  name : NameId
  span : Span

/-! ## Errors -/

inductive PatternWitness where
  | anyWitness
  | variantWitness (id : VariantId) (fields : List PatternWitness)
  | tupleWitness (fields : List PatternWitness)
  | emptyListWitness
  | consListWitness (head tail : PatternWitness)
  | otherValueWitness

inductive MatchError where
  | patternFieldCountMismatch (variant : VariantId) (expected actual : Nat)
  | tuplePatternRequiresTuple (actual : TypeRef)
  | tuplePatternArityMismatch (expected actual : Nat)
  | barePatternName (name : NameId) (subject : TypeRef)
  | unimportedConstructorPattern (variant : VariantId)
  | unknownConstructorPattern (name : NameId) (subject : TypeRef)
  | unreachableArm
  | orPatternBindingsDiffer
  | orPatternBindingTypeMismatch (name : NameId) (expected actual : TypeRef)
  | nonExhaustiveMatch (missing : List VariantId)
  | nonExhaustiveStructuralMatch (witness : PatternWitness)
  | patternTypeMismatch (subject : TypeRef)

inductive CheckerInvariant where
  | invalidParameterDeclaration (id : TypeParameterId)
  | invalidCheckedUnion (owner : UnionId)
  | joinWithoutArms
  | unsupportedPatternReachedResolution
  | invalidFunctionContract
  | invalidInferenceVariable (id : Nat)
  | invalidInferenceWorklist
  | invalidReceiverScope
  | invalidResolvedFunction (id : FunctionId)

inductive BindingError where
  | moduleBindingConflict (previous : ValueBinding)
  | localBindingConflict (previous : BindingSite) (origin : BindingOrigin)
  | callableBindingConflict (parameter : CallableParameterId) (previous : Span)

inductive QualifiedError where
  | unknownModuleAlias (name : NameId)
  | qualifiedNotOffered (module name : NameId) (path : ModulePath) (reason : Unoffered)

inductive UnsupportedForm where
  | charPattern

inductive EqualityMember where
  | equalityField (record : RecordId) (position : Nat)
  | equalityPayload (variant : VariantId) (position : Nat)

/-- A name written as `Module.name`. -/
structure ParsedQualified where
  module : WrittenName
  name : WrittenName

inductive ParsedReceiverHead where
  | receiverName (name : WrittenName)
  | qualifiedReceiverName (name : ParsedQualified)

inductive AbsentSupertrait where
  | neverImplemented
  | automaticEqualityRejected (member : EqualityMember)
  | automaticEqualityNotFinite

inductive TraitError where
  | missingTraitBound (required : TraitId) (receiver : TypeRef)
  | equalityMemberUnsupported (required : TraitId) (receiver : TypeRef) (member : EqualityMember)
  | missingImplementationMethod (method : TraitMethodId)
  /-- The walk from the repeated trait back to itself, reported at the closing edge. -/
  | supertraitCycle (walked : List TraitId)
  /-- The implemented trait, its supertrait, the written receiver and why the supertrait
  implementation is absent. -/
  | supertraitNotImplemented (implemented supertrait : TraitId) (receiver : ParsedReceiverHead)
      (cause : AbsentSupertrait)
  /-- The implemented trait, the bound it lacks, the receiver parameter's written name and
  the written receiver. -/
  | supertraitBoundNotEntailed (implemented bound : TraitId) (parameter : WrittenName)
      (receiver : ParsedReceiverHead)
  | differentMethodFamilies (method held : TraitMethodId) (previous : Span)
  | familyFunctionConflict (method : TraitMethodId) (function : FunctionId) (previous : Span)

/-- Source locations explain candidates; availability remains scope-owned. -/
structure MethodCandidateSite where
  function : FunctionId
  declaration : Span
  importSite : Option Span

structure ReceiverOverlap where
  introduced : MethodCandidateSite
  introducedReceiver : TypeRef
  other : MethodCandidateSite
  otherReceiver : TypeRef

inductive MethodError where
  | overlappingReceivers (name : NameId) (overlap : ReceiverOverlap)
  | ambiguousMethod (name : NameId) (receiver : TypeRef) (sites : List MethodCandidateSite)
  | noApplicableMethod (name : NameId) (receiver : TypeRef) (sites : List MethodCandidateSite)

inductive RecursionError where
  | unprovenTraitInstantiation
  | growingRecursiveInstantiation
  | nonTailSelfCall (function : FunctionId)
  | noSelfRecursion
  | genericTailRecursionUnsupported
  /-- A self call that is a nested match's arm value: a backedge cannot leave a join. -/
  | tailCallInNestedMatch

/-- The rejections patterns, trait proofs, receivers and recursion can report, grouped by the
checking concern. -/
inductive CheckErrorKind where
  | unsupportedSyntax (form : UnsupportedForm)
  | qualifiedRejection (error : QualifiedError)
  | bindingRejection (error : BindingError)
  | matchRejection (error : MatchError)
  | traitRejection (error : TraitError)
  | methodRejection (error : MethodError)
  | recursionRejection (error : RecursionError)
  | internalInvariant (invariant : CheckerInvariant)

structure CheckError where
  span : Span
  kind : CheckErrorKind

def matchError (span : Span) (error : MatchError) : CheckError := ⟨span, .matchRejection error⟩

def bindingError (span : Span) (error : BindingError) : CheckError :=
  ⟨span, .bindingRejection error⟩

def qualifiedError (span : Span) (error : QualifiedError) : CheckError :=
  ⟨span, .qualifiedRejection error⟩

def traitError (span : Span) (error : TraitError) : CheckError := ⟨span, .traitRejection error⟩

def recursionError (span : Span) (error : RecursionError) : CheckError :=
  ⟨span, .recursionRejection error⟩

def unsupportedForm (span : Span) (form : UnsupportedForm) : CheckError :=
  ⟨span, .unsupportedSyntax form⟩

def checkerInvariant (span : Span) (invariant : CheckerInvariant) : CheckError :=
  ⟨span, .internalInvariant invariant⟩

def orCheckerInvariant {α : Type} (value : Option α) (span : Span) (invariant : CheckerInvariant) :
    Except CheckError α :=
  match value with
  | some present => .ok present
  | none => .error (checkerInvariant span invariant)

/-! ## Substitution -/

/-- One declaration's rigid type parameters replaced simultaneously, by
declaration position; replacements are never substituted again. -/
structure Substitution where
  owner : TypeParameterOwner
  values : List TypeRef

mutual

def substituteType (substitution : Substitution) (span : Span) : TypeRef → Except CheckError TypeRef
  | .tupleType elements => do
      let values ← substituteTypes substitution span elements
      return .tupleType values
  | .callableType purity parameters result => do
      let values ← substituteTypes substitution span parameters
      let value ← substituteType substitution span result
      return .callableType purity values value
  | .listType element => do
      let value ← substituteType substitution span element
      return .listType value
  | .nominalType owner values => do
      let arguments ← substituteTypes substitution span values
      return .nominalType owner arguments
  | .parameterType id =>
      let replacement :=
        if id.owner = substitution.owner then substitution.values[id.position]? else none
      orCheckerInvariant replacement span (.invalidParameterDeclaration id)
  | .voidType => .ok .voidType
  | .intType => .ok .intType
  | .floatType => .ok .floatType
  | .stringType => .ok .stringType

def substituteTypes (substitution : Substitution) (span : Span) :
    List TypeRef → Except CheckError (List TypeRef)
  | [] => .ok []
  | value :: values => do
      let replaced ← substituteType substitution span value
      let rest ← substituteTypes substitution span values
      return replaced :: rest

end

/-- Every field at one nominal union occurrence, with simultaneous substitution. -/
def occurrenceFields (fields : List TypeUse) (occurrence : UnionOccurrence) :
    Except CheckError (List TypeUse) :=
  let substitution : Substitution :=
    ⟨.unionDeclaration occurrence.owner, occurrence.arguments⟩
  fields.mapM fun written => do
    let value ← substituteType substitution written.span written.valueType
    return { written with valueType := value }

end Blorp.Check
