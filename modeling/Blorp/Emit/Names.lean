import Blorp.Specialize.Runtime

/-!
# Names in the emitted C

The C spelling of concrete types: `runtime/list.brp` names a list layout by its element key,
and `emit/emit.brp` names records, unions and callables by their instances.  A name is
written after the text it is appended to.
-/

namespace Blorp.Emit

open Check (Span)
open Specialize

/-! ## Failures -/

inductive AggregateKind where
  | recordAggregate
  | unionAggregate

inductive EmissionFailure where
  | missingUnionLayout (id : UnionInstanceId)
  | missingAggregateVisit (kind : AggregateKind) (index : Nat)
  | cyclicByValueAggregate (kind : AggregateKind) (index : Nat)
  | missingAggregateLayout (kind : AggregateKind) (index : Nat)

def AggregateKind.aggregateName : AggregateKind → String
  | .recordAggregate => "record"
  | .unionAggregate => "union"

def appendInt (output : String) (value : Nat) : String :=
  output ++ toString value

def render (span : Span) (failure : EmissionFailure) : Diagnostic :=
  internalError span <|
    match failure with
    | .missingUnionLayout id => appendInt "missing emitted union layout #" id
    | .missingAggregateVisit kind index =>
        "missing " ++ kind.aggregateName ++ " aggregate visit #" ++ toString index
    | .cyclicByValueAggregate kind index =>
        "by-value dependency cycle at " ++ kind.aggregateName ++ " aggregate #" ++ toString index
    | .missingAggregateLayout kind index =>
        "missing " ++ kind.aggregateName ++ " aggregate layout #" ++ toString index

/-! ## Suffixes -/

inductive ElementTerminal where
  | voidElement
  | intElement
  | floatElement
  | stringElement
  | recordElement (id : RecordInstanceId)
  | unionElement (id : UnionInstanceId)
  | callableElement (parameters : List TypeRef) (result : TypeRef)
  deriving DecidableEq

/-- A disposable emission key: the outer list layers and what they hold. -/
structure ListElementKey where
  depth : Nat
  terminal : ElementTerminal
  deriving DecidableEq

def elementKeyAtDepth : TypeRef → Nat → ListElementKey
  | .listType child, depth => elementKeyAtDepth child (depth + 1)
  | .voidType, depth => ⟨depth, .voidElement⟩
  | .intType, depth => ⟨depth, .intElement⟩
  | .floatType, depth => ⟨depth, .floatElement⟩
  | .stringType, depth => ⟨depth, .stringElement⟩
  | .recordType id, depth => ⟨depth, .recordElement id⟩
  | .unionType id, depth => ⟨depth, .unionElement id⟩
  | .callableType parameters result, depth => ⟨depth, .callableElement parameters result⟩

def listElementKey (element : TypeRef) : ListElementKey :=
  elementKeyAtDepth element 0

mutual

/-- Delimiters keep every kind, arity, nesting boundary and nominal ordinal. -/
def appendTypeSuffix (output : String) : TypeRef → String
  | .voidType => output ++ "v"
  | .intType => output ++ "i"
  | .floatType => output ++ "f"
  | .stringType => output ++ "s"
  | .listType element => appendTypeSuffix (output ++ "l") element ++ "e"
  | .recordType id => appendInt (output ++ "r") id ++ "e"
  | .unionType id => appendInt (output ++ "u") id ++ "e"
  | .callableType parameters result =>
      appendTypeSuffix (appendParameterSuffixes
        (appendInt (output ++ "c" ++ "p") parameters.length ++ "_") parameters ++ "r_") result ++
        "_e"

def appendParameterSuffixes (output : String) : List TypeRef → String
  | [] => output
  | parameter :: parameters =>
      appendParameterSuffixes (appendTypeSuffix output parameter ++ "_") parameters

end

def appendCallableSuffix (output : String) (parameters : List TypeRef) (result : TypeRef) :
    String :=
  appendTypeSuffix (appendParameterSuffixes
    (appendInt (output ++ "p") parameters.length ++ "_") parameters ++ "r_") result ++ "_e"

def callableSuffix (parameters : List TypeRef) (result : TypeRef) : String :=
  appendCallableSuffix "" parameters result

def appendListSuffix (output : String) (key : ListElementKey) : String :=
  let opening := appendInt output key.depth ++ "_"
  match key.terminal with
  | .voidElement => opening ++ "v"
  | .intElement => opening ++ "i"
  | .floatElement => opening ++ "f"
  | .stringElement => opening ++ "s"
  | .recordElement id => appendInt (opening ++ "r") id
  | .unionElement id => appendInt (opening ++ "u") id
  | .callableElement parameters result => appendCallableSuffix (opening ++ "c") parameters result

def listSuffix (key : ListElementKey) : String :=
  appendListSuffix "" key

def appendListCType (output : String) (key : ListElementKey) : String :=
  appendListSuffix (output ++ "struct blorp_l_") key ++ "*"

/-! ## Type names -/

def hasPayload (declaration : ConcreteUnion) : Bool :=
  declaration.unionVariants.any fun fields => !fields.isEmpty

def unionIsBoxed : ConcreteUnion → Bool
  | .boxedCases _ => true
  | .plainCases _ | .owningCases _ => false

def appendBoxedUnionStruct (output : String) (index : Nat) : String :=
  appendInt (output ++ "struct blorp_u_") index

def appendUnionTypeName (output : String) (id : UnionInstanceId) (declaration : ConcreteUnion) :
    String :=
  if unionIsBoxed declaration then appendBoxedUnionStruct output id ++ "*"
  else if hasPayload declaration then appendInt (output ++ "struct blorp_u_") id
  else appendInt (output ++ "enum blorp_u_") id

def appendRecordTypeName (output : String) (id : RecordInstanceId) : String :=
  appendInt (output ++ "blorp_r_") id

def appendCallableTypeName (output : String) (parameters : List TypeRef) (result : TypeRef) :
    String :=
  appendCallableSuffix (output ++ "struct blorp_c_") parameters result

def appendTypeName (output : String) (typeRef : TypeRef) (unions : List ConcreteUnion)
    (span : Span) : Except Diagnostic String :=
  match typeRef with
  | .recordType id => .ok (appendRecordTypeName output id)
  | .voidType => .ok (output ++ "uint8_t")
  | .intType => .ok (output ++ "int64_t")
  | .floatType => .ok (output ++ "double")
  | .stringType => .ok (output ++ "struct blorp_string*")
  | .callableType parameters result => .ok (appendCallableTypeName output parameters result)
  | .listType element => .ok (appendListCType output (listElementKey element))
  | .unionType id =>
      match unions[id]? with
      | some declaration => .ok (appendUnionTypeName output id declaration)
      | none => .error (render span (.missingUnionLayout id))

end Blorp.Emit
