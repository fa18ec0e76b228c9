import Blorp.Check.Bodies

/-!
# Templates of automatic equality

The ordinary checked bodies of `check/equality.brp`.  Fields are compared last to first
into nested joins, so the first field is the outermost; the match of a union tests every
tag but the last, whose arm is the fallback.  A loop `while remaining > 0` that counts down
is a `Nat.foldRev`.
-/

namespace Blorp.Check

abbrev FunctionLabel := String

structure CheckedField where
  id : FieldId
  name : WrittenName
  valueType : TypeUse

/-- `requirements` are the written bounds on the type parameters. -/
structure CheckedRecord where
  id : RecordId
  typeParameters : List TypeParameterId
  requirements : List TraitRequirement
  fields : List CheckedField

structure FunctionSignature where
  typeParameters : List TypeParameterId
  requirements : List TraitRequirement
  purity : Purity
  parameters : List TypeUse
  returnType : TypeUse

structure SignedTraitMethod extends AcceptedTraitMethod where
  signature : FunctionSignature

structure CheckedEqualityBody where
  label : FunctionLabel
  signature : FunctionSignature
  bindings : List BindingDefinition
  body : CheckedBody

def booleanVariant (value : Bool) (boolean : DesignatedBoolean VariantId) : VariantId :=
  match value with
  | true => boolean.trueVariant
  | false => boolean.falseVariant

def booleanValue (value : Bool) (boolean : DesignatedBoolean VariantId) (span : Span) : CheckedExpr :=
  let variant := booleanVariant value boolean
  ⟨.constructVariant variant [],
    .nominalType (.aggregateNominal (.unionAggregate variant.owner)) [], span⟩

/-- Both successors precede the test; only a successful comparison goes on. -/
def andThen (comparison following : CheckedExpr) (boolean : DesignatedBoolean VariantId) :
    CheckedExpr :=
  let span := comparison.span
  let falseArm : MatchArmId := 0
  let trueArm : MatchArmId := 1
  let place : CheckedPatternPlace := .mk comparison.valueType .matchRoot
  ⟨.matchJoin
    { scrutinee := comparison
      selection :=
        { nodes := [.enterArm falseArm [], .enterArm trueArm [],
            .testVariant place boolean.trueVariant 1 0]
          entry := 2 }
      arms := [⟨falseArm, [], [], booleanValue false boolean span⟩, ⟨trueArm, [], [], following⟩]
      carried := [] },
    following.valueType, span⟩

def readParameter (position : Nat) (valueType : TypeRef) (span : Span) : CheckedExpr :=
  ⟨.readBinding position, valueType, span⟩

def compare (left right : CheckedExpr) (method : SignedTraitMethod) : CheckedExpr :=
  ⟨.invokeFunction ⟨.traitMethod ⟨method.id, left.valueType⟩,
      [.valueOperand left, .valueOperand right], left.span⟩,
    method.signature.returnType.valueType, left.span⟩

/-! ## Records -/

def readField (position : Nat) (receiver : TypeRef) (field : CheckedField) (span : Span) :
    CheckedExpr :=
  ⟨.readRecordField (readParameter position receiver span) field.id, field.valueType.valueType,
    field.valueType.span⟩

def recordValue (row : CheckedRecord) (receiver : TypeRef) (method : SignedTraitMethod)
    (boolean : DesignatedBoolean VariantId) (span : Span) : CheckedExpr :=
  row.fields.length.foldRev (fun remaining _ result =>
    match row.fields[remaining]? with
    | some field =>
        andThen (compare (readField 0 receiver field span) (readField 1 receiver field span) method)
          result boolean
    | none => result) (booleanValue true boolean span)

/-! ## Unions -/

def parameterBinding (position : Nat) (valueType : TypeRef) (span : Span) : BindingDefinition :=
  ⟨.parameterBinding position, false, valueType, span⟩

structure CapturedPayload where
  leftInputs : List BindingId
  rightInputs : List BindingId
  arguments : List CheckedPatternArgument
  bindings : List BindingDefinition
  position : Nat

def captureField (root : CheckedPatternPlace) (variant : VariantId) (payload : CapturedPayload)
    (field : TypeUse) : CapturedPayload :=
  let captured : BindingDefinition := ⟨.matchCapture, false, field.valueType, field.span⟩
  let left := payload.bindings.length
  let afterLeft := payload.bindings ++ [captured]
  let right := afterLeft.length
  { leftInputs := payload.leftInputs ++ [left]
    rightInputs := payload.rightInputs ++ [right]
    arguments := payload.arguments ++
      [.borrowPlace (.mk field.valueType (.unionField root variant payload.position))]
    bindings := afterLeft ++ [captured]
    position := payload.position + 1 }

def capturePayload (root : CheckedPatternPlace) (variant : CheckedVariant)
    (bindings : List BindingDefinition) : CapturedPayload :=
  variant.fields.foldl (captureField root variant.id) ⟨[], [], [], bindings, 0⟩

def equalValue (variant : CheckedVariant) (payload : CapturedPayload) (method : SignedTraitMethod)
    (boolean : DesignatedBoolean VariantId) (span : Span) : CheckedExpr :=
  payload.position.foldRev (fun position _ result =>
    match variant.fields[position]?, payload.leftInputs[position]?,
      payload.rightInputs[position]? with
    | some field, some left, some right =>
        andThen (compare ⟨.readBinding left, field.valueType, field.span⟩
          ⟨.readBinding right, field.valueType, field.span⟩ method) result boolean
    | _, _, _ => result) (booleanValue true boolean span)

/-- The match of the right value, entered once the left one is of the variant.  A singleton
domain has no mismatching tag, so only its success arm is kept. -/
def rightMatch (variant : CheckedVariant) (payload : CapturedPayload) (singleton : Bool)
    (valueType result : TypeRef) (method : SignedTraitMethod)
    (boolean : DesignatedBoolean VariantId) (span : Span) : CheckedExpr :=
  let root : CheckedPatternPlace := .mk valueType .matchRoot
  let equal := equalValue variant payload method boolean span
  let mismatch : MatchArmId := 0
  let matched : MatchArmId := if singleton then 0 else 1
  let selection : CheckedSelection :=
    if singleton then ⟨[.enterArm matched payload.arguments], 0⟩
    else ⟨[.enterArm mismatch [], .enterArm matched payload.arguments,
      .testVariant root variant.id 1 0], 2⟩
  let arms : List CheckedJoinArm :=
    if singleton then [⟨matched, payload.rightInputs, [], equal⟩]
    else [⟨mismatch, [], [], booleanValue false boolean span⟩,
      ⟨matched, payload.rightInputs, [], equal⟩]
  ⟨.matchJoin ⟨readParameter 1 valueType span, selection, arms, []⟩, result, span⟩

structure VariantArms where
  bindings : List BindingDefinition
  arms : List CheckedJoinArm
  nodes : List CheckedDecisionNode

def appendVariant (union : CheckedUnion) (valueType result : TypeRef) (method : SignedTraitMethod)
    (boolean : DesignatedBoolean VariantId) (span : Span) (rows : VariantArms)
    (variant : CheckedVariant) : VariantArms :=
  let payload := capturePayload (.mk valueType .matchRoot) variant rows.bindings
  let right := rightMatch variant payload (union.variants.length == 1) valueType result method
    boolean span
  let arm : MatchArmId := rows.arms.length
  { bindings := payload.bindings
    arms := rows.arms ++ [⟨arm, payload.leftInputs, [], right⟩]
    nodes := rows.nodes ++ [.enterArm arm payload.arguments] }

/-- The tests of the tags but the last, each falling back to the one before it. -/
def tagTests (union : CheckedUnion) (root : CheckedPatternPlace)
    (nodes : List CheckedDecisionNode) : CheckedSelection :=
  (union.variants.length - 1).foldRev (fun remaining _ selection =>
    match union.variants[remaining]? with
    | some variant =>
        ⟨selection.nodes ++ [.testVariant root variant.id remaining selection.entry],
          selection.nodes.length⟩
    | none => selection) ⟨nodes, nodes.length - 1⟩

def unionTemplate (label : FunctionLabel) (union : CheckedUnion) (valueType : TypeRef)
    (signature : FunctionSignature) (method : SignedTraitMethod)
    (boolean : DesignatedBoolean VariantId) (span : Span) : CheckedEqualityBody :=
  let result := signature.returnType.valueType
  let rows := union.variants.foldl (appendVariant union valueType result method boolean span)
    ⟨[parameterBinding 0 valueType span, parameterBinding 1 valueType span], [], []⟩
  let selection := tagTests union (.mk valueType .matchRoot) rows.nodes
  { label := label
    signature := signature
    bindings := rows.bindings
    body := .checkedValueBody (.returnExpression
      ⟨.matchJoin ⟨readParameter 0 valueType span, selection, rows.arms, []⟩, result, span⟩) }

/-! ## Templates -/

def equalityTemplate (aggregate : AggregateId) (label : FunctionLabel)
    (typeParameters : List TypeParameterId) (requirements : List TraitRequirement)
    (records : List CheckedRecord) (unions : List CheckedUnion) (method : SignedTraitMethod)
    (boolean : DesignatedBoolean VariantId) (span : Span) :
    Except CheckError CheckedEqualityBody := do
  let arguments := typeParameters.map TypeRef.parameterType
  let receiver : TypeRef := .nominalType (.aggregateNominal aggregate) arguments
  let substitution : Substitution := ⟨.traitDeclaration method.id.owner, [receiver]⟩
  let parameters ← method.signature.parameters.mapM fun parameter => do
    let value ← substituteType substitution parameter.span parameter.valueType
    return { parameter with valueType := value }
  let result ← substituteType substitution span method.signature.returnType.valueType
  let signature : FunctionSignature :=
    ⟨typeParameters, requirements, method.signature.purity, parameters, ⟨result, span⟩⟩
  match aggregate with
  | .recordAggregate record =>
      let row ← orCheckerInvariant records[record]? span .invalidFunctionContract
      return { label := label
               signature := signature
               bindings := [parameterBinding 0 receiver span, parameterBinding 1 receiver span]
               body := .checkedValueBody (.returnExpression
                 (recordValue row receiver method boolean span)) }
  | .unionAggregate union =>
      let row ← orCheckerInvariant unions[union]? span .invalidFunctionContract
      return unionTemplate label row receiver signature method boolean span

end Blorp.Check
