import Blorp.Specialize.Runtime
import Blorp.Verify.Model

/-!
# Types and layouts

The verifier's view of the concrete catalogues: every named type is a member,
every union and record layout states its own storage truthfully, and storage by
value is never cyclic.
-/

namespace Blorp.Verify

open Check (Span compilerSpan)
open Specialize
open Own
open Fuel

/-! ## Membership -/

section

variable (unions : List ConcreteUnion) (records : List ConcreteRecord) (span : Span)

mutual

/-- Raw IR must name a member of each supplied catalogue. -/
def verifyTypeMembership : TypeRef → Except Diagnostic Unit
  | .listType element => verifyTypeMembership element
  | .callableType parameters result => do
      verifyTypesMembership parameters
      verifyTypeMembership result
  | valueType =>
      match valueType.valueNeedsOwnership unions records with
      | .ok _ => .ok ()
      | .error error => .error { error with span := span }

def verifyTypesMembership : List TypeRef → Except Diagnostic Unit
  | [] => .ok ()
  | valueType :: rest => do
      verifyTypeMembership valueType
      verifyTypesMembership rest

end

end

/-! ## Variants and fields -/

def variantShape (id : VariantInstanceId) (unions : List ConcreteUnion) (span : Span) :
    Except Diagnostic (List TypeRef) := do
  let declaration ← orVerificationError unions[id.owner]? span "unknown variant owner"
  orVerificationError declaration.unionVariants[id.position]? span "unknown variant identity"

def variantType (id : VariantInstanceId) (expected : List TypeRef) (unions : List ConcreteUnion)
    (span : Span) : Except Diagnostic TypeRef := do
  let shape ← variantShape id unions span
  if shape.length ≠ expected.length then
    .error (verificationError span "variant field count does not match its operation")
  else if shape = expected then .ok (.unionType id.owner)
  else .error (verificationError span "variant payload does not match its operation")

/-- A runtime union result: its two constructors must be distinct variants of one
two-variant union. -/
def verifyTwoVariantUnion (first : VariantInstanceId) (firstPayload : List TypeRef)
    (second : VariantInstanceId) (secondPayload : List TypeRef) (unions : List ConcreteUnion)
    (span : Span) (message : String) : Except Diagnostic Unit := do
  let firstType ← variantType first firstPayload unions span
  let secondType ← variantType second secondPayload unions span
  let layout ← orVerificationError unions[first.owner]? span "unknown runtime result union"
  require (firstType = secondType && layout.unionVariants.length = 2 &&
    first.position ≠ second.position) span message

def validRecordLayout (layout : ConcreteRecord) (span : Span) : Except Diagnostic ConcreteRecord :=
  if 0 < layout.recordFields.length then .ok layout
  else .error (verificationError span "record layout must contain one or more fields")

def recordLayout (owner : RecordInstanceId) (records : List ConcreteRecord) (span : Span) :
    Except Diagnostic ConcreteRecord := do
  let layout ← orVerificationError records[owner]? span "unknown record layout"
  validRecordLayout layout span

def recordFieldType (field : FieldInstanceId) (owner : RecordInstanceId) (layout : ConcreteRecord)
    (span : Span) : Except Diagnostic TypeRef :=
  if field.owner ≠ owner then
    .error (verificationError span "field belongs to a different record layout")
  else orVerificationError layout.recordFields[field.position]? span "unknown record field"

def recordOwner (valueType : TypeRef) (span : Span) (message : String) :
    Except Diagnostic RecordInstanceId :=
  match valueType with
  | .recordType id => .ok id
  | _ => .error (verificationError span message)

/-! ## Union layouts -/

structure UnionSummary where
  owning : Bool
  selfReferencing : Bool
  selfPayloads : Nat

section

variable (layout : ConcreteUnion) (position : Nat) (records : List ConcreteRecord)
    (unions : List ConcreteUnion)

/-- One payload of the layout at `position`.  The unary recursive shape is a boxed
node's pointer to at most one child of its own layout. -/
def unionPayload (summary : UnionSummary) (valueType : TypeRef) : Except Diagnostic UnionSummary :=
  match valueType with
  | .voidType | .intType | .floatType => .ok summary
  | .recordType id =>
      match records[id]? with
      | some (.valueFields _) | some (.countedFields _) => .ok { summary with owning := true }
      | some (.inlineFields _) => .ok summary
      | none =>
          .error (verificationError compilerSpan "union payload must reference a supported layout")
  | .unionType id =>
      if id = position then
        match layout with
        | .boxedCases _ =>
            if 0 < summary.selfPayloads then
              .error (verificationError compilerSpan
                "boxed union variant may store at most one self-reference")
            else
              .ok { summary with selfReferencing := true, selfPayloads := summary.selfPayloads + 1 }
        | .plainCases _ | .owningCases _ =>
            .error (verificationError compilerSpan
              "recursive union payload requires the boxed representation")
      else
        match unions[id]? with
        | some (.owningCases _) | some (.boxedCases _) => .ok { summary with owning := true }
        | some (.plainCases _) => .ok summary
        | none =>
            .error (verificationError compilerSpan
              "union payload must reference a supported layout")
  | .stringType | .listType _ | .callableType _ _ => .ok { summary with owning := true }

def validUnionLayout : Except Diagnostic Unit := do
  if layout.unionVariants.length = 0 then
    .error (verificationError compilerSpan "union layout must contain one or more variants")
  else
    let summary ← layout.unionVariants.foldlM
      (fun summary fields =>
        fields.foldlM (unionPayload layout position records unions)
          { summary with selfPayloads := 0 })
      ⟨false, false, 0⟩
    match layout with
    | .boxedCases _ =>
        require summary.selfReferencing compilerSpan
          "boxed union representation requires a self-referencing payload"
    | .plainCases _ =>
        require (!summary.owning) compilerSpan "union ownership summary does not match its payloads"
    | .owningCases _ =>
        require summary.owning compilerSpan "union ownership summary does not match its payloads"

end

/-! ## The by-value storage graph -/

inductive LayoutVisit where
  | unvisitedLayout
  | visitingLayout
  | completeLayout

inductive LayoutVisitStep where
  | visitRecordLayout (index : Nat)
  | visitUnionLayout (index : Nat)
  | visitStoredType (valueType : TypeRef)
  | finishRecordLayout (index : Nat)
  | finishUnionLayout (index : Nat)

def listTerminal : TypeRef → TypeRef
  | .listType inner => listTerminal inner
  | terminal => terminal

/-- A list is a pointer edge whose innermost element must exist. -/
def listTerminalPresence (element : TypeRef) (records : List ConcreteRecord)
    (unions : List ConcreteUnion) : Except Diagnostic Unit :=
  match listTerminal element with
  | .callableType parameters result =>
      verifyTypeMembership unions records compilerSpan (.callableType parameters result)
  | .recordType id =>
      match records[id]? with
      | some _ => .ok ()
      | none => .error (verificationError compilerSpan "unknown record layout")
  | .unionType id =>
      match unions[id]? with
      | some _ => .ok ()
      | none => .error (verificationError compilerSpan "unknown union layout")
  | _ => .ok ()

structure LayoutWalk where
  recordVisits : List LayoutVisit
  unionVisits : List LayoutVisit
  pending : List LayoutVisitStep

section

variable (records : List ConcreteRecord) (unions : List ConcreteUnion)

def inlineField (inlined : Bool) (field : TypeRef) : Except Diagnostic Bool :=
  match field with
  | .intType | .floatType => .ok inlined
  | .unionType child =>
      match unions[child]? with
      | some (.plainCases _) => .ok inlined
      | some (.owningCases _) | some (.boxedCases _) => .ok false
      | none => .error (verificationError compilerSpan "unknown union layout")
  | .recordType child =>
      match records[child]? with
      | some (.inlineFields _) => .ok inlined
      | some (.valueFields _) | some (.countedFields _) => .ok false
      | none => .error (verificationError compilerSpan "unknown record layout")
  | _ => .ok false

/-- Only storage by value continues the walk: an inline record or union lies inside
its parent.  The rest are pointer edges, walked as roots of their own. -/
def visitStoredType (walk : LayoutWalk) (valueType : TypeRef) : Except Diagnostic LayoutWalk :=
  match valueType with
  | .recordType id =>
      match records[id]? with
      | none => .error (verificationError compilerSpan "unknown record layout")
      | some (.inlineFields _) | some (.valueFields _) =>
          .ok { walk with pending := .visitRecordLayout id :: walk.pending }
      | some (.countedFields _) => .ok walk
  | .unionType id =>
      match unions[id]? with
      | none => .error (verificationError compilerSpan "unknown union layout")
      | some (.plainCases _) | some (.owningCases _) =>
          .ok { walk with pending := .visitUnionLayout id :: walk.pending }
      | some (.boxedCases _) => .ok walk
  | .listType element => do
      listTerminalPresence element records unions
      .ok walk
  | .callableType parameters result => do
      verifyTypeMembership unions records compilerSpan (.callableType parameters result)
      .ok walk
  | .voidType | .intType | .floatType | .stringType => .ok walk

def visitLayoutStep (walk : LayoutWalk) (step : LayoutVisitStep) : Except Diagnostic LayoutWalk :=
  match step with
  | .visitStoredType valueType => visitStoredType records unions walk valueType
  | .visitRecordLayout index =>
      match walk.recordVisits[index]? with
      | none => .error (verificationError compilerSpan "unknown record layout")
      | some .completeLayout => .ok walk
      | some .visitingLayout =>
          .error (verificationError compilerSpan "aggregate layouts form a by-value cycle")
      | some .unvisitedLayout =>
          match records[index]? with
          | none => .error (verificationError compilerSpan "unknown record layout")
          | some layout =>
              .ok { walk with
                recordVisits := walk.recordVisits.set index .visitingLayout
                pending := layout.recordFields.map .visitStoredType ++
                  .finishRecordLayout index :: walk.pending }
  | .visitUnionLayout index =>
      match walk.unionVisits[index]? with
      | none => .error (verificationError compilerSpan "unknown union layout")
      | some .completeLayout => .ok walk
      | some .visitingLayout =>
          .error (verificationError compilerSpan "aggregate layouts form a by-value cycle")
      | some .unvisitedLayout =>
          match unions[index]? with
          | none => .error (verificationError compilerSpan "unknown union layout")
          | some layout =>
              .ok { walk with
                unionVisits := walk.unionVisits.set index .visitingLayout
                pending := layout.unionVariants.flatten.map .visitStoredType ++
                  .finishUnionLayout index :: walk.pending }
  | .finishUnionLayout index =>
      .ok { walk with unionVisits := walk.unionVisits.set index .completeLayout }
  | .finishRecordLayout index =>
      match records[index]? with
      | none => .error (verificationError compilerSpan "unknown record layout")
      | some layout => do
          let inlined ← layout.recordFields.foldlM (inlineField records unions) true
          let matching :=
            match layout with
            | .inlineFields _ => inlined
            | .valueFields _ | .countedFields _ => true
          if matching then
            .ok { walk with recordVisits := walk.recordVisits.set index .completeLayout }
          else
            .error (verificationError compilerSpan
              "record storage summary does not match its fields")

end

def walkLayouts (records : List ConcreteRecord) (unions : List ConcreteUnion) :
    Nat → LayoutWalk → Outcome Diagnostic Unit
  | 0, _ => .timeout
  | fuel + 1, walk =>
      match walk.pending with
      | [] => .ok ()
      | step :: pending => do
          let next ← visitLayoutStep records unions { walk with pending := pending } step
          walkLayouts records unions fuel next

/-- The by-value storage graph of the layouts must be acyclic.  Each layout is also
walked as a root, and a record's storage summary is checked once its fields are
known.  The pending steps are a stack, its top first. -/
def verifyLayoutGraph (fuel : Nat) (records : List ConcreteRecord) (unions : List ConcreteUnion) :
    Outcome Diagnostic Unit :=
  walkLayouts records unions fuel
    { recordVisits := records.map fun _ => .unvisitedLayout
      unionVisits := unions.map fun _ => .unvisitedLayout
      pending := (List.range records.length).map .visitRecordLayout ++
        (List.range unions.length).map .visitUnionLayout }

/-! ## Call signatures -/

def verifyRuntimeSignature (operation : RuntimeOperation VariantInstanceId TypeRef) (span : Span)
    (unions : List ConcreteUnion) (records : List ConcreteRecord) :
    Except Diagnostic FunctionSignature := do
  let contract := runtimeSignature operation
  verifyTypesMembership unions records span contract.parameters
  match operation.runtimeContract.returnType with
  | .valueResult _ => pure ()
  | .optionalResult payload option =>
      verifyTwoVariantUnion option.someVariant [runtimeTypeRef payload] option.noneVariant []
        unions span "runtime Option constructors do not cover one result union"
  | .resultResult success error constructors =>
      verifyTwoVariantUnion constructors.ok [runtimeTypeRef success] constructors.err
        [runtimeTypeRef error] unions span
        "runtime Result constructors do not cover one result union"
  | .booleanResult boolean =>
      verifyTwoVariantUnion boolean.trueVariant [] boolean.falseVariant [] unions span
        "runtime Bool constructors do not cover one result union"
  verifyTypeMembership unions records span contract.returnType
  pure contract

def callSignature (target : CallTarget) (span : Span) (functions : List OwnedFunction)
    (unions : List ConcreteUnion) (records : List ConcreteRecord) :
    Except Diagnostic FunctionSignature :=
  match target with
  | .runtimeFunction operation => verifyRuntimeSignature operation span unions records
  | .userFunction id =>
      match functions[id]? with
      | some function => .ok ⟨function.parameters.map (·.parameterType), function.returnType⟩
      | none => .error (verificationError span "unknown called function")

end Blorp.Verify
