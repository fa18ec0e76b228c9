import Blorp.Specialize.Model

/-!
# Selections over concrete places

`translate_place` and `translate_selection` of `specialize/specialize.brp`.  A checked
selection keeps its shape: its places and variants are renamed to the instances of one
function instance, its node numbers, tests and arms are copied.
-/

namespace Blorp.Specialize

open Check (Span LiteralPattern ListLengthTest MatchArmId DecisionNodeId VariantId UnionId
  CheckedPatternPlace CheckedPatternRoute CheckedPatternArgument CheckedDecisionNode
  CheckedSelection)

inductive ConcretePatternArgument where
  | borrowPlace (place : ConcretePatternPlace)
  | copyListSuffix (place : ConcretePatternPlace) (skipped : Nat)

inductive ConcreteDecisionNode where
  | testVariant (place : ConcretePatternPlace) (variant : VariantInstanceId)
      (yes no : DecisionNodeId)
  | enterArm (arm : MatchArmId) (arguments : List ConcretePatternArgument)
  | testListLength (place : ConcretePatternPlace) (test : ListLengthTest) (yes no : DecisionNodeId)
  | testLiteral (place : ConcretePatternPlace) (literal : LiteralPattern) (yes no : DecisionNodeId)

structure ConcreteSelection where
  nodes : List ConcreteDecisionNode
  entry : DecisionNodeId

/-- The sealed catalogues as one function instance sees them: `concreteType` is
`concrete_type` at the instance's substitution, `declarations` are the declarations of the
union keys in instance order. -/
structure Catalogues where
  concreteType : Check.TypeRef → Except Diagnostic TypeRef
  declarations : List UnionId
  unions : List ConcreteUnion
  records : List ConcreteRecord

def concreteUnionOwner (value : TypeRef) (span : Span) : Except Diagnostic UnionInstanceId :=
  match value with
  | .unionType id => .ok id
  | _ => .error (internalError span "variant occurrence has no concrete union type")

section

variable (catalogues : Catalogues) (span : Span)

def translateVariant (id : VariantId) (owner : UnionInstanceId) :
    Except Diagnostic VariantInstanceId := do
  let declaration ← orInternalError catalogues.declarations[owner]? span "unknown concrete union"
  let layout ← orInternalError catalogues.unions[owner]? span "unknown concrete union"
  if declaration = id.owner then do
    let _ ← orInternalError layout.unionVariants[id.position]? span "unknown union variant"
    .ok ⟨owner, id.position⟩
  else .error (internalError span "variant belongs to a different union declaration")

def translatePlaceVariant (valueType : TypeRef) (id : VariantId) :
    Except Diagnostic VariantInstanceId := do
  let owner ← concreteUnionOwner valueType span
  translateVariant catalogues span id owner

mutual

def translatePlace : CheckedPatternPlace → Except Diagnostic ConcretePatternPlace
  | .mk valueType route => do
      let concrete ← catalogues.concreteType valueType
      let translated ← translateRoute route
      .ok ⟨concrete, translated⟩

def translateRoute : CheckedPatternRoute → Except Diagnostic ConcretePatternRoute
  | .matchRoot => .ok .matchRoot
  | .recordField parent ordinal => do
      let concreteParent ← translatePlace parent
      match concreteParent.valueType with
      | .recordType owner => .ok (.recordField concreteParent ⟨owner, ordinal⟩)
      | _ => .error (internalError span "pattern record projection has a non-record parent")
  | .listElement parent index => do
      let concreteParent ← translatePlace parent
      .ok (.listElement concreteParent index)
  | .unionField parent id ordinal => do
      let concreteParent ← translatePlace parent
      let variant ← translatePlaceVariant catalogues span concreteParent.valueType id
      .ok (.unionField concreteParent ⟨variant, ordinal⟩)

end

def translatePatternArgument : CheckedPatternArgument → Except Diagnostic ConcretePatternArgument
  | .borrowPlace place => do
      let concrete ← translatePlace catalogues span place
      .ok (.borrowPlace concrete)
  | .copyListSuffix place skipped => do
      let concrete ← translatePlace catalogues span place
      .ok (.copyListSuffix concrete skipped)

def translateNode : CheckedDecisionNode → Except Diagnostic ConcreteDecisionNode
  | .enterArm arm arguments => do
      let values ← arguments.mapM (translatePatternArgument catalogues span)
      .ok (.enterArm arm values)
  | .testListLength place test yes no => do
      let concrete ← translatePlace catalogues span place
      .ok (.testListLength concrete test yes no)
  | .testLiteral place literal yes no => do
      let concrete ← translatePlace catalogues span place
      .ok (.testLiteral concrete literal yes no)
  | .testVariant place id yes no => do
      let concrete ← translatePlace catalogues span place
      let variant ← translatePlaceVariant catalogues span concrete.valueType id
      .ok (.testVariant concrete variant yes no)

def translateSelection (selection : CheckedSelection) : Except Diagnostic ConcreteSelection := do
  let nodes ← selection.nodes.mapM (translateNode catalogues span)
  .ok ⟨nodes, selection.entry⟩

end

end Blorp.Specialize
