import Blorp.Check.Patterns

/-!
# Resolving the pattern of an arm

`check/patterns.brp` above the matrix, with the lookups it makes in
`check/scope.brp` and `check/constructors.brp`: a parsed pattern becomes one
matrix row for each way through its alternatives, each row with its captures, and
an arm is rejected when a row or an alternative can never be reached.
-/

namespace Blorp.Check

open Fuel

/-! ## Parsed patterns -/

inductive PatternHead where
  | bareHead (name : WrittenName)
  | qualifiedHead (name : ParsedQualified)

/-- `...rest` or `..._` ending a list pattern. -/
inductive SpreadTarget where
  | spreadName (name : WrittenName)
  | spreadWildcard (span : Span)

inductive ParsedPattern where
  | patternName (name : WrittenName)
  | patternWildcard (span : Span)
  | patternConstructor (head : PatternHead) (fields : List ParsedPattern) (span : Span)
  | patternOr (alternatives : List ParsedPattern) (span : Span)
  | patternList (fields : List ParsedPattern) (rest : Option SpreadTarget) (span : Span)
  | patternTuple (fields : List ParsedPattern) (span : Span)
  | patternLiteral (literal : LiteralPattern) (span : Span)
  | patternChar (span : Span)

def ParsedPattern.span : ParsedPattern → Span
  | .patternName name => name.span
  | .patternWildcard span => span
  | .patternConstructor _ _ span => span
  | .patternOr _ span => span
  | .patternList _ _ span => span
  | .patternTuple _ span => span
  | .patternLiteral _ span => span
  | .patternChar span => span

/-! ## Scope -/

structure LocalBinding where
  name : NameId
  id : ScopedBindingId
  definition : BindingDefinition

structure CallableBinding where
  binding : LocalBinding
  annotation : Span

inductive ScopedValue where
  | dataLocal (binding : LocalBinding)
  | callableLocal (binding : CallableBinding)

def ScopedValue.name : ScopedValue → NameId
  | .dataLocal binding => binding.name
  | .callableLocal binding => binding.binding.name

def lookupBinding (scope : List ScopedValue) (name : NameId) : Option ScopedValue :=
  scope.find? fun binding => binding.name == name

def bindingSite (binding : LocalBinding) : BindingSite :=
  ⟨binding.id, binding.name, binding.definition.span⟩

def callableConflict (span : Span) (previous : CallableBinding) : CheckError :=
  let definition := previous.binding.definition
  match definition.origin, definition.valueType with
  | .callableParameterBinding parameter, .callableType _ _ _ =>
      bindingError span (.callableBindingConflict parameter definition.span)
  | _, _ => checkerInvariant definition.span .invalidFunctionContract

def bindLocal (scope : List ScopedValue) (names : Namespace) (module : ModuleId)
    (owner : BodyOwner) (name : WrittenName) (id : BindingId) (definition : BindingDefinition) :
    Except CheckError ScopedValue :=
  match names.valueBinding module name.id with
  | some previous => .error (bindingError name.span (.moduleBindingConflict previous))
  | none =>
    match lookupBinding scope name.id with
    | some (.dataLocal previous) =>
        .error (bindingError name.span
          (.localBindingConflict (bindingSite previous) previous.definition.origin))
    | some (.callableLocal previous) => .error (callableConflict name.span previous)
    | none => .ok (.dataLocal ⟨name.id, ⟨owner, id⟩, definition⟩)

/-! ## Constructors -/

/-- The fields of `ResolutionContext` that patterns read. -/
structure ResolutionContext where
  module : ModuleId
  names : Namespace
  caller : BodyOwner
  unions : List CheckedUnion

structure VariantContract where
  variant : VariantId
  fields : List TypeUse

section Constructors

variable (context : ResolutionContext)

def declaredVariantContract (owner : UnionId) (variant : VariantId) (span : Span) :
    Except CheckError (Option VariantContract) := do
  let declaration ← orCheckerInvariant context.unions[owner]? span (.invalidCheckedUnion owner)
  match declaration.variants[variant.position]? with
  | some declared =>
      if variant = declared.id then return some ⟨declared.id, declared.fields⟩ else return none
  | none => return none

def findDeclaredVariant (owner : UnionId) (name : WrittenName) :
    Except CheckError (Option VariantContract) :=
  match context.names.namedValue context.module name.id with
  | some (.namedConstructor variant) => declaredVariantContract context owner variant name.span
  | _ => .ok none

def instantiatePatternVariant (variant : VariantContract) (occurrence : UnionOccurrence) :
    Except CheckError VariantContract := do
  let fields ← occurrenceFields variant.fields occurrence
  return ⟨variant.variant, fields⟩

def findVariant (occurrence : UnionOccurrence) (name : WrittenName) :
    Except CheckError (Option VariantContract) := do
  let found ← findDeclaredVariant context occurrence.owner name
  match found with
  | none =>
      let declaration ← orCheckerInvariant context.unions[occurrence.owner]? name.span
        (.invalidCheckedUnion occurrence.owner)
      match declaration.variants.find? fun variant => variant.name.id == name.id with
      | some variant => throw (matchError name.span (.unimportedConstructorPattern variant.id))
      | none => return none
  | some variant =>
      let contract ← instantiatePatternVariant variant occurrence
      return some contract

def aliasedModule (written : WrittenName) : Except CheckError AliasedModule :=
  match context.names.namedValue context.module written.id with
  | some (.namedAlias aliased) => .ok aliased
  | _ => .error (qualifiedError written.span (.unknownModuleAlias written.id))

def findQualifiedVariant (occurrence : UnionOccurrence) (qualified : ParsedQualified) :
    Except CheckError (Option VariantContract) := do
  let aliased ← aliasedModule context qualified.module
  let declared ←
    match context.names.offeredValue aliased.target qualified.name.id with
    | .ok (.offeredConstructor variant) =>
        declaredVariantContract context occurrence.owner variant qualified.name.span
    | .ok _ => .ok none
    | .error reason =>
        .error (qualifiedError qualified.name.span
          (.qualifiedNotOffered qualified.module.id qualified.name.id aliased.path reason))
  match declared with
  | none => return none
  | some variant =>
      let contract ← instantiatePatternVariant variant occurrence
      return some contract

end Constructors

/-! ## Resolved patterns -/

structure Capture where
  name : WrittenName
  valueType : TypeRef
  argument : CheckedPatternArgument

/-- One normalized row; it can belong to several nested source alternatives. -/
structure PatternCase where
  pattern : Pattern
  captures : List Capture
  alternatives : List Nat

structure AlternativeCheck where
  id : Nat
  span : Span
  rejection : Option CheckError

structure ResolvedPattern where
  cases : List PatternCase
  scope : List ScopedValue
  bindings : List BindingDefinition
  checks : List AlternativeCheck
  nextAlternative : Nat
  pendingFailure : Option CheckError

inductive PatternPosition where
  | wholeArm
  | payload

structure PatternParts where
  patterns : List Pattern
  captures : List Capture
  alternatives : List Nat

structure ResolvedFields where
  parts : List PatternParts
  scope : List ScopedValue
  bindings : List BindingDefinition
  checks : List AlternativeCheck
  nextAlternative : Nat
  pendingFailure : Option CheckError

def plain (pattern : Pattern) (scope : List ScopedValue) (next : Nat) : ResolvedPattern :=
  ⟨[⟨pattern, [], []⟩], scope, [], [], next, none⟩

def capture (context : ResolutionContext) (name : WrittenName) (valueType : TypeRef)
    (argument : CheckedPatternArgument) (scope : List ScopedValue) (ordinal next : Nat) :
    Except CheckError ResolvedPattern := do
  let definition : BindingDefinition := ⟨.matchCapture, false, valueType, name.span⟩
  let binding ← bindLocal scope context.names context.module context.caller name ordinal definition
  return ⟨[⟨.anything, [⟨name, valueType, argument⟩], []⟩], scope ++ [binding], [definition], [],
    next, none⟩

def firstCaptures (cases : List PatternCase) : List Capture :=
  match cases with
  | first :: _ => first.captures
  | [] => []

/-- The first disagreement of two alternatives' captures, in the first's order. -/
def captureAgreementFrom (actual : List Capture) (span : Span) : List Capture → Option CheckError
  | [] => none
  | required :: rest =>
      match actual.find? fun candidate => required.name.id == candidate.name.id with
      | none => some (matchError span .orPatternBindingsDiffer)
      | some candidate =>
          if required.valueType = candidate.valueType then captureAgreementFrom actual span rest
          else some (matchError candidate.name.span
            (.orPatternBindingTypeMismatch candidate.name.id required.valueType
              candidate.valueType))

def captureAgreement (expected actual : List Capture) (span : Span) : Option CheckError :=
  if expected.length = actual.length then captureAgreementFrom actual span expected
  else some (matchError span .orPatternBindingsDiffer)

/-- Earlier alternatives' diagnostics come before a later resolution failure. -/
def earlierAlternatives (checks : List AlternativeCheck) (failure : Option CheckError) :
    Except CheckError Unit :=
  match failure with
  | some error => if checks.isEmpty then .error error else .ok ()
  | none => .ok ()

/-! ## Fields -/

/-- The variables of the loop of `resolve_fields`. -/
structure FieldsState where
  parts : List PatternParts
  scope : List ScopedValue
  bindings : List BindingDefinition
  checks : List AlternativeCheck
  cursor : Nat
  position : Nat
  failure : Option CheckError

def FieldsState.start (scope : List ScopedValue) (next : Nat) : FieldsState :=
  ⟨[⟨[], [], []⟩], scope, [], [], next, 0, none⟩

def combineParts (parts : List PatternParts) (cases : List PatternCase) : List PatternParts :=
  parts.flatMap fun front => cases.map fun child =>
    ⟨front.patterns ++ [child.pattern], front.captures ++ child.captures,
      front.alternatives ++ child.alternatives⟩

def FieldsState.add (state : FieldsState) (resolved : ResolvedPattern) : FieldsState :=
  { parts := combineParts state.parts resolved.cases
    scope := resolved.scope
    bindings := state.bindings ++ resolved.bindings
    checks := state.checks ++ resolved.checks
    cursor := resolved.nextAlternative
    position := state.position + 1
    failure := resolved.pendingFailure }

/-- The end of `resolve_fields`: unresolved fields only serve earlier diagnostics. -/
def finishFields (count : Nat) (state : FieldsState) : Except CheckError ResolvedFields := do
  earlierAlternatives state.checks state.failure
  return {
    parts := state.parts.map fun part =>
      { part with
        patterns := part.patterns ++ List.replicate (count - state.position) .anything }
    scope := state.scope
    bindings := state.bindings
    checks := state.checks
    nextAlternative := state.cursor
    pendingFailure := state.failure }

abbrev FieldResolver :=
  List CheckedPatternPlace → List ScopedValue → Nat → Nat → Except CheckError ResolvedFields

def unionFieldPlaces (place : CheckedPatternPlace) (variant : VariantId) (fields : List TypeRef) :
    List CheckedPatternPlace :=
  fields.mapIdx fun ordinal valueType => .mk valueType (.unionField place variant ordinal)

def tuplePlaces (place : CheckedPatternPlace) (types : List TypeRef) : List CheckedPatternPlace :=
  types.mapIdx fun position valueType => .mk valueType (.recordField place position)

def listPlaces (place : CheckedPatternPlace) (element : TypeRef) (count : Nat) :
    List CheckedPatternPlace :=
  (List.range count).map fun index => .mk element (.listElement place index)

def ResolvedFields.build (resolved : ResolvedFields) (shape : List Pattern → Pattern) :
    ResolvedPattern :=
  { cases := resolved.parts.map fun part =>
      ⟨shape part.patterns, part.captures, part.alternatives⟩
    scope := resolved.scope
    bindings := resolved.bindings
    checks := resolved.checks
    nextAlternative := resolved.nextAlternative
    pendingFailure := resolved.pendingFailure }

def resolveVariantFields (contract : VariantContract) (fields : FieldResolver)
    (place : CheckedPatternPlace) (scope : List ScopedValue) (ordinal next : Nat) :
    Except CheckError ResolvedPattern := do
  let places := unionFieldPlaces place contract.variant (contract.fields.map TypeUse.valueType)
  let resolved ← fields places scope ordinal next
  return resolved.build (.variantPattern contract.variant)

def resolveVariant (contract : VariantContract) (count : Nat) (fields : FieldResolver)
    (place : CheckedPatternPlace) (span : Span) (scope : List ScopedValue) (ordinal next : Nat) :
    Except CheckError ResolvedPattern :=
  if contract.fields.length = count then
    resolveVariantFields contract fields place scope ordinal next
  else
    .error (matchError span
      (.patternFieldCountMismatch contract.variant contract.fields.length count))

def resolveTuple (count : Nat) (fields : FieldResolver) (span : Span) (place : CheckedPatternPlace)
    (scope : List ScopedValue) (ordinal next : Nat) : Except CheckError ResolvedPattern := do
  let types ←
    match place.valueType with
    | .tupleType elements => .ok elements
    | _ => .error (matchError span (.tuplePatternRequiresTuple place.valueType))
  if types.length = count then
    let resolved ← fields (tuplePlaces place types) scope ordinal next
    return resolved.build .tuplePattern
  else throw (matchError span (.tuplePatternArityMismatch types.length count))

def listShape (patterns : List Pattern) (tail : Pattern) : Pattern :=
  patterns.foldr .consListPattern tail

def resolveListTail (context : ResolutionContext) (rest : Option SpreadTarget)
    (place : CheckedPatternPlace) (skip : Nat) (resolved : ResolvedFields) (ordinal : Nat) :
    Except CheckError ResolvedPattern :=
  let shape : Pattern :=
    match rest with
    | none => .emptyListPattern
    | some _ => .anything
  let fallback := plain shape resolved.scope resolved.nextAlternative
  match resolved.pendingFailure with
  | some error => .ok { fallback with pendingFailure := some error }
  | none =>
      match rest with
      | some (.spreadName name) =>
          match capture context name place.valueType (.copyListSuffix place skip) resolved.scope
              (ordinal + resolved.bindings.length) resolved.nextAlternative with
          | .ok tail => .ok tail
          | .error error => do
              -- `defer_list_capture`
              earlierAlternatives resolved.checks (some error)
              return { plain .anything resolved.scope resolved.nextAlternative with
                pendingFailure := some error }
      | _ => .ok fallback

def resolveListElements (context : ResolutionContext) (count : Nat) (fields : FieldResolver)
    (rest : Option SpreadTarget) (place : CheckedPatternPlace) (element : TypeRef)
    (scope : List ScopedValue) (ordinal next : Nat) : Except CheckError ResolvedPattern := do
  let resolved ← fields (listPlaces place element count) scope ordinal next
  let tail ← resolveListTail context rest place count resolved ordinal
  return {
    cases := resolved.parts.flatMap fun part => tail.cases.map fun ending =>
      ⟨listShape part.patterns ending.pattern, part.captures ++ ending.captures,
        part.alternatives ++ ending.alternatives⟩
    scope := tail.scope
    bindings := resolved.bindings ++ tail.bindings
    checks := resolved.checks ++ tail.checks
    nextAlternative := tail.nextAlternative
    pendingFailure := tail.pendingFailure }

def resolveList (context : ResolutionContext) (count : Nat) (fields : FieldResolver)
    (rest : Option SpreadTarget) (span : Span) (place : CheckedPatternPlace)
    (scope : List ScopedValue) (ordinal next : Nat) : Except CheckError ResolvedPattern :=
  match place.valueType with
  | .listType element =>
      resolveListElements context count fields rest place element scope ordinal next
  | _ => .error (matchError span (.patternTypeMismatch place.valueType))

def resolveCaptureName (context : ResolutionContext) (name : WrittenName)
    (place : CheckedPatternPlace) (position : PatternPosition) (scope : List ScopedValue)
    (ordinal next : Nat) : Except CheckError ResolvedPattern :=
  match position with
  | .wholeArm => .error (matchError name.span (.barePatternName name.id place.valueType))
  | .payload => capture context name place.valueType (.borrowPlace place) scope ordinal next

def noFields : FieldResolver := fun _ scope _ next => finishFields 0 (.start scope next)

def resolveName (context : ResolutionContext) (name : WrittenName) (place : CheckedPatternPlace)
    (position : PatternPosition) (scope : List ScopedValue) (ordinal next : Nat) :
    Except CheckError ResolvedPattern :=
  match place.valueType.unionOccurrence with
  | some occurrence =>
      match findVariant context occurrence name with
      | .error error => .error error
      | .ok (some contract) => resolveVariant contract 0 noFields place name.span scope ordinal next
      | .ok none => resolveCaptureName context name place position scope ordinal next
  | none => resolveCaptureName context name place position scope ordinal next

def resolveConstructor (context : ResolutionContext) (head : PatternHead) (count : Nat)
    (fields : FieldResolver) (span : Span) (place : CheckedPatternPlace)
    (scope : List ScopedValue) (ordinal next : Nat) : Except CheckError ResolvedPattern := do
  let occurrence ←
    match place.valueType.unionOccurrence with
    | some present => .ok present
    | none => .error (matchError span (.patternTypeMismatch place.valueType))
  let contract ←
    match head with
    | .bareHead name => findVariant context occurrence name
    | .qualifiedHead name => findQualifiedVariant context occurrence name
  match contract with
  | some resolved => resolveVariant resolved count fields place span scope ordinal next
  | none =>
      let name :=
        match head with
        | .bareHead written => written.id
        | .qualifiedHead written => written.name.id
      throw (matchError span (.unknownConstructorPattern name place.valueType))

/-! ## Alternatives -/

/-- The variables of the loop of `resolve_alternatives`. -/
structure AlternativesState where
  first : Option ResolvedPattern
  cases : List PatternCase
  checks : List AlternativeCheck
  cursor : Nat
  failure : Option CheckError

/-- The loop body for an alternative that resolved; its id is the cursor before it. -/
def AlternativesState.add (state : AlternativesState) (span : Span) (resolved : ResolvedPattern) :
    AlternativesState :=
  let id := state.cursor
  let checks :=
    match resolved.pendingFailure with
    | none =>
        let rejection : Option CheckError :=
          match state.first with
          | none => none
          | some canonical =>
              captureAgreement (firstCaptures canonical.cases) (firstCaptures resolved.cases) span
        state.checks ++ [⟨id, span, rejection⟩]
    | some _ => state.checks
  { first := state.first.or (some resolved)
    cases := state.cases ++ resolved.cases.map fun branch =>
      { branch with alternatives := id :: branch.alternatives }
    checks := checks ++ resolved.checks
    cursor := resolved.nextAlternative
    failure := resolved.pendingFailure }

def patternSpanFallback (patterns : List ParsedPattern) : Span :=
  match patterns with
  | pattern :: _ => pattern.span
  | [] => compilerSpan

/-- The end of `resolve_alternatives`. -/
def finishAlternatives (fallback : Span) (state : AlternativesState) :
    Except CheckError ResolvedPattern := do
  earlierAlternatives state.checks state.failure
  let canonical ← orCheckerInvariant state.first fallback .joinWithoutArms
  return ⟨state.cases, canonical.scope, canonical.bindings, state.checks, state.cursor,
    state.failure⟩

def LiteralPattern.fits (literal : LiteralPattern) (valueType : TypeRef) : Bool :=
  match literal with
  | .exactBytes _ => decide (valueType = .stringType)
  | .exactInt _ => decide (valueType = .intType)

mutual

def resolvePattern (context : ResolutionContext) :
    ParsedPattern → CheckedPatternPlace → PatternPosition → List ScopedValue → Nat → Nat →
      Except CheckError ResolvedPattern
  | .patternTuple fields span, place, _, scope, ordinal, next =>
      resolveTuple fields.length
        (fun places scope ordinal next =>
          finishFields fields.length (resolveFields context fields places ordinal (.start scope next)))
        span place scope ordinal next
  | .patternWildcard _, _, _, scope, _, next => .ok (plain .anything scope next)
  | .patternName name, place, position, scope, ordinal, next =>
      resolveName context name place position scope ordinal next
  | .patternConstructor head fields span, place, _, scope, ordinal, next =>
      resolveConstructor context head fields.length
        (fun places scope ordinal next =>
          finishFields fields.length (resolveFields context fields places ordinal (.start scope next)))
        span place scope ordinal next
  | .patternOr alternatives _, place, position, scope, ordinal, next =>
      finishAlternatives (patternSpanFallback alternatives)
        (resolveAlternatives context alternatives place position scope ordinal
          ⟨none, [], [], next, none⟩)
  | .patternList fields rest span, place, _, scope, ordinal, next =>
      resolveList context fields.length
        (fun places scope ordinal next =>
          finishFields fields.length (resolveFields context fields places ordinal (.start scope next)))
        rest span place scope ordinal next
  | .patternLiteral literal span, place, _, scope, _, next =>
      if literal.fits place.valueType then .ok (plain (.exactPattern literal) scope next)
      else .error (matchError span (.patternTypeMismatch place.valueType))
  | .patternChar span, _, _, _, _, _ => .error (unsupportedForm span .charPattern)

/-- The loop of `resolve_fields`. -/
def resolveFields (context : ResolutionContext) :
    List ParsedPattern → List CheckedPatternPlace → Nat → FieldsState → FieldsState
  | [], _, _, state => state
  | field :: rest, places, ordinal, state =>
      match places[state.position]? with
      | none =>
          { state with
            failure := some (checkerInvariant field.span .unsupportedPatternReachedResolution) }
      | some place =>
          match resolvePattern context field place .payload state.scope
              (ordinal + state.bindings.length) state.cursor with
          | .error error => { state with failure := some error }
          | .ok resolved =>
              let added := state.add resolved
              match added.failure with
              | some _ => added
              | none => resolveFields context rest places ordinal added

/-- The loop of `resolve_alternatives`. -/
def resolveAlternatives (context : ResolutionContext) :
    List ParsedPattern → CheckedPatternPlace → PatternPosition → List ScopedValue → Nat →
      AlternativesState → AlternativesState
  | [], _, _, _, _, state => state
  | alternative :: rest, place, position, scope, ordinal, state =>
      match resolvePattern context alternative place position scope ordinal (state.cursor + 1) with
      | .error error => { state with failure := some error }
      | .ok resolved =>
          let added := state.add alternative.span resolved
          match added.failure with
          | some _ => added
          | none => resolveAlternatives context rest place position scope ordinal added

end

/-! ## An arm -/

def orderedArguments (required actual : List Capture) (span : Span) :
    Except CheckError (List CheckedPatternArgument) :=
  required.mapM fun wanted =>
    match actual.find? fun candidate => wanted.name.id == candidate.name.id with
    | some found => .ok found.argument
    | none => .error (matchError span .orPatternBindingsDiffer)

def checkAlternatives (checks : List AlternativeCheck) (reached : List Nat) :
    Except CheckError Unit :=
  match checks with
  | [] => .ok ()
  | check :: rest =>
      if check.id ∈ reached then
        match check.rejection with
        | some error => .error error
        | none => checkAlternatives rest reached
      else .error (matchError check.span .unreachableArm)

structure ResolvedArmPattern where
  rows : List PatternRow
  scope : List ScopedValue
  bindings : List BindingDefinition
  inputs : List BindingId

section Arm

variable (context : ResolutionContext) (span : Span) (fuel : Nat)

/-- The first loop of `useful_cases`: the alternatives reached by a useful row,
and whether any row is useful. -/
def reachedCases (root : Column) (arm : MatchArmId) :
    List PatternCase → List PatternRow → List Nat → Bool → Outcome CheckError (List Nat × Bool)
  | [], _, reached, anyUseful => return (reached, anyUseful)
  | candidate :: rest, rows, reached, anyUseful => do
      let witness ← useful context.unions span fuel rows [candidate.pattern] [root]
      let row : PatternRow := ⟨arm, [candidate.pattern], []⟩
      match witness with
      | some _ =>
          reachedCases root arm rest (rows ++ [row]) (reached ++ candidate.alternatives) true
      | none => reachedCases root arm rest (rows ++ [row]) reached anyUseful

def acceptedRow (arm : MatchArmId) (required : List Capture) (candidate : PatternCase) :
    Except CheckError PatternRow := do
  let arguments ← orderedArguments required candidate.captures span
  return ⟨arm, [candidate.pattern], arguments⟩

def usefulCases (resolved : ResolvedPattern) (previous : List PatternRow) (root : Column)
    (arm : MatchArmId) : Outcome CheckError (List PatternRow) := do
  let (reached, anyUseful) ← reachedCases context span fuel root arm resolved.cases previous [] false
  checkAlternatives resolved.checks reached
  match resolved.pendingFailure with
  | some error => .err error
  | none =>
      if anyUseful then
        (resolved.cases.mapM (acceptedRow span arm (firstCaptures resolved.cases)) :
          Except CheckError (List PatternRow))
      else .err (matchError span .unreachableArm)

end Arm

def resolveArm (context : ResolutionContext) (fuel : Nat) (pattern : ParsedPattern) (root : Column)
    (scope : List ScopedValue) (ordinal : Nat) (arm : MatchArmId) (previous : List PatternRow) :
    Outcome CheckError ResolvedArmPattern := do
  let resolved ← resolvePattern context pattern root.cursor.rootPlace .wholeArm scope ordinal 0
  let accepted ← usefulCases context pattern.span fuel resolved previous root arm
  return ⟨accepted, resolved.scope, resolved.bindings,
    (List.range resolved.bindings.length).map (ordinal + ·)⟩

end Blorp.Check
