import Blorp.Emit.Names
import Blorp.Lib.Outcome

/-!
# Aggregate definitions

`append_record`, `append_union` and the worklist of `append_aggregate_definitions` in
`emit/emit.brp`: each record and union is defined once, after the aggregates that it stores
by value.
-/

namespace Blorp.Emit

open Check (Span compilerSpan)
open Specialize
open Fuel

/-! ## Retain and release -/

inductive OwnershipAction where
  | duplicateValue
  | destroyValue

def storageHelper (valueType : TypeRef) (action : OwnershipAction) (unions : List ConcreteUnion)
    (span : Span) : Except Diagnostic (Option String) :=
  match valueType with
  | .callableType parameters result =>
      let helper := match action with
        | .duplicateValue => "blorp_callable_dup_"
        | .destroyValue => "blorp_callable_drop_"
      .ok (some (helper ++ callableSuffix parameters result))
  | .recordType id =>
      let helper := match action with
        | .duplicateValue => "blorp_record_dup_"
        | .destroyValue => "blorp_record_drop_"
      .ok (some (appendInt helper id))
  | .listType element =>
      let helper := match action with
        | .duplicateValue => "blorp_list_dup_"
        | .destroyValue => "blorp_list_drop_"
      .ok (some (helper ++ listSuffix (listElementKey element)))
  | .stringType =>
      match action with
      | .duplicateValue => .ok (some "blorp_string_retain")
      | .destroyValue => .ok (some "blorp_string_release")
  | .unionType id =>
      match unions[id]? with
      | some (.plainCases _) => .ok none
      | some (.owningCases _) | some (.boxedCases _) =>
          let helper := match action with
            | .duplicateValue => "blorp_union_dup_"
            | .destroyValue => "blorp_union_drop_"
          .ok (some (appendInt helper id))
      | none => .error (render span (.missingUnionLayout id))
  | .voidType | .intType | .floatType => .ok none

def appendStorageOperation (output : String) (valueType : TypeRef) (action : OwnershipAction)
    (expression : String) (unions : List ConcreteUnion) (span : Span) :
    Except Diagnostic String := do
  match ← storageHelper valueType action unions span with
  | some name => return output ++ name ++ "(" ++ expression ++ ");"
  | none => return output

def payloadPath (opening : String) (position fieldPosition : Nat) : String :=
  opening ++ "payload.blorp_up_" ++ toString position ++ ".blorp_uf_" ++ toString fieldPosition

def caseLabel (index position : Nat) : String :=
  "case blorp_v_" ++ toString index ++ "_" ++ toString position ++ ":"

section

variable (output : String)

def appendUnionArms (layout : ConcreteUnion) (index : Nat)
    (field : Nat → Nat → String → TypeRef → Except Diagnostic String) : Except Diagnostic String :=
  layout.unionVariants.zipIdx.foldlM (fun result (fields, position) => do
    let arm ← fields.zipIdx.foldlM
      (fun arm (valueType, fieldPosition) => field position fieldPosition arm valueType)
      (result ++ caseLabel index position)
    return arm ++ "break;") output

def appendUnionAction (layout : ConcreteUnion) (index : Nat) (unions : List ConcreteUnion)
    (action : OwnershipAction) : Except Diagnostic String := do
  let helper := match action with
    | .duplicateValue => "void blorp_union_dup_"
    | .destroyValue => "void blorp_union_drop_"
  let arms ← appendUnionArms
    (output ++ helper ++ toString index ++ "(struct blorp_u_" ++ toString index ++
      " value)\x7bswitch(value.tag)\x7b")
    layout index fun position fieldPosition result valueType =>
      appendStorageOperation result valueType action
        (payloadPath "value." position fieldPosition) unions compilerSpan
  return arms ++ "\x7d\x7d"

/-- One counted node for each constructed value, whose payload already holds its children. -/
def appendBoxedUnionConstructor (index : Nat) : String :=
  let node := appendBoxedUnionStruct "" index
  output ++ node ++ "* blorp_union_make_" ++ toString index ++ "(" ++ node ++ " fields)\x7b" ++
    node ++ "* value=blorp_memory_allocate(sizeof *value);if(!value)abort();" ++
    "atomic_init(&value->references,UINT64_C(1));" ++
    "value->tag=fields.tag;value->payload=fields.payload;return value;\x7d"

def appendBoxedUnionRetain (index : Nat) : String :=
  output ++ "void blorp_union_dup_" ++ toString index ++ "(" ++ appendBoxedUnionStruct "" index ++
    "* value)\x7b" ++
    "(void)atomic_fetch_add_explicit(&value->references,UINT64_C(1),memory_order_relaxed);\x7d"

def appendBoxedUnionRelease (layout : ConcreteUnion) (index : Nat) (unions : List ConcreteUnion) :
    Except Diagnostic String := do
  let node := appendBoxedUnionStruct "" index
  let arms ← appendUnionArms
    (output ++ "void blorp_union_drop_" ++ toString index ++ "(" ++ node ++ "* value)\x7b" ++ node ++
      "* node=value;while(node!=NULL)\x7b" ++
      "if(atomic_fetch_sub_explicit(&node->references,UINT64_C(1),memory_order_acq_rel)" ++
      "!=UINT64_C(1))return;" ++ node ++ "* child=NULL;switch(node->tag)\x7b")
    layout index fun position fieldPosition result valueType =>
      let path := payloadPath "node->" position fieldPosition
      if valueType = .unionType index then .ok (result ++ "child=" ++ path ++ ";")
      else appendStorageOperation result valueType .destroyValue path unions compilerSpan
  return arms ++ "\x7dblorp_memory_release(node);node=child;\x7d\x7d"

def appendUnionOwnership (layout : ConcreteUnion) (index : Nat) (unions : List ConcreteUnion) :
    Except Diagnostic String :=
  match layout with
  | .plainCases _ => .ok output
  | .owningCases _ => do
      let duplicated ← appendUnionAction output layout index unions .duplicateValue
      appendUnionAction duplicated layout index unions .destroyValue
  | .boxedCases _ =>
      appendBoxedUnionRelease
        (appendBoxedUnionRetain (appendBoxedUnionConstructor output index) index) layout index unions

/-! ## Definitions -/

def appendRecord (layout : ConcreteRecord) (index : Nat) (unions : List ConcreteUnion) :
    Except Diagnostic String := do
  let opening := output ++ "struct blorp_r_" ++ toString index ++ "\x7b"
  let header := match layout with
    | .countedFields _ => opening ++ "_Atomic uint64_t references;"
    | .inlineFields _ | .valueFields _ => opening
  let body ← layout.recordFields.zipIdx.foldlM (fun result (field, position) =>
    match field with
    | .voidType => .ok result
    | _ => do
        let name ← appendTypeName "" field unions compilerSpan
        return result ++ name ++ " blorp_rf_" ++ toString index ++ "_" ++ toString position ++ ";")
    header
  return body ++ "\x7d;"

def appendUnionTags (index : Nat) (variants : List (List TypeRef)) : String :=
  variants.zipIdx.foldl (fun result (_, position) =>
    (if position = 0 then result else result ++ ",") ++
      "blorp_v_" ++ toString index ++ "_" ++ toString position) output

def appendUnionMembers (variants : List (List TypeRef)) (unions : List ConcreteUnion) :
    Except Diagnostic String :=
  variants.zipIdx.foldlM (fun result (fields, position) =>
    if fields.isEmpty then .ok result
    else do
      let members ← fields.zipIdx.foldlM (fun result (valueType, fieldPosition) => do
        let name ← appendTypeName "" valueType unions compilerSpan
        return result ++ name ++ " blorp_uf_" ++ toString fieldPosition ++ ";")
        (result ++ "struct\x7b")
      return members ++ "\x7d blorp_up_" ++ toString position ++ ";") output

def appendUnion (declaration : ConcreteUnion) (index : Nat) (unions : List ConcreteUnion) :
    Except Diagnostic String := do
  let variants := declaration.unionVariants
  let payload := hasPayload declaration
  let opening := if payload then "enum blorp_tag_" else "enum blorp_u_"
  let tags := appendUnionTags (output ++ opening ++ toString index ++ "\x7b") index variants ++
    "\x7d;"
  if payload then
    let referenceHeader := if unionIsBoxed declaration then "_Atomic uint64_t references;" else ""
    let members ← appendUnionMembers
      (tags ++ "struct blorp_u_" ++ toString index ++ "\x7b" ++ referenceHeader ++
        "enum blorp_tag_" ++ toString index ++ " tag;union\x7b") variants unions
    appendUnionOwnership (members ++ "\x7dpayload;\x7d;") declaration index unions
  else return tags

end

/-! ## The worklist -/

inductive AggregateDefinition where
  | recordDefinition (index : Nat)
  | unionDefinition (index : Nat)
  deriving DecidableEq

inductive AggregateVisit where
  | unvisitedAggregate
  | visitingAggregate
  | emittedAggregate

inductive AggregateVisitStep where
  | prepareAggregate (definition : AggregateDefinition)
  | emitAggregate (definition : AggregateDefinition)

/-- Whether a stored type must be defined before its parent.  A managed record, a boxed union
and a list are pointers to types that are declared forward. -/
def storedByValue (valueType : TypeRef) (records : List ConcreteRecord)
    (unions : List ConcreteUnion) : Option AggregateDefinition :=
  match valueType with
  | .recordType id =>
      match records[id]? with
      | some (.inlineFields _) | some (.valueFields _) => some (.recordDefinition id)
      | some (.countedFields _) | none => none
  | .unionType id =>
      match unions[id]? with
      | some layout => if unionIsBoxed layout then none else some (.unionDefinition id)
      | none => none
  | _ => none

/-- The visits made and the definitions written; the pending steps are a stack, its top
first. -/
structure AggregateWalk where
  recordVisits : List AggregateVisit
  unionVisits : List AggregateVisit
  fragments : List String
  pending : List AggregateVisitStep

def AggregateDefinition.kind : AggregateDefinition → AggregateKind
  | .recordDefinition _ => .recordAggregate
  | .unionDefinition _ => .unionAggregate

def AggregateDefinition.index : AggregateDefinition → Nat
  | .recordDefinition index | .unionDefinition index => index

def AggregateWalk.status (walk : AggregateWalk) : AggregateDefinition → Option AggregateVisit
  | .recordDefinition index => walk.recordVisits[index]?
  | .unionDefinition index => walk.unionVisits[index]?

def AggregateWalk.setVisit (walk : AggregateWalk) (definition : AggregateDefinition)
    (visit : AggregateVisit) : AggregateWalk :=
  match definition with
  | .recordDefinition index => { walk with recordVisits := walk.recordVisits.set index visit }
  | .unionDefinition index => { walk with unionVisits := walk.unionVisits.set index visit }

section

variable (records : List ConcreteRecord) (unions : List ConcreteUnion)

def AggregateDefinition.storedTypes (definition : AggregateDefinition) :
    Except Diagnostic (List TypeRef) :=
  match definition with
  | .recordDefinition index =>
      match records[index]? with
      | some layout => .ok layout.recordFields
      | none => .error (render compilerSpan (.missingAggregateLayout .recordAggregate index))
  | .unionDefinition index =>
      match unions[index]? with
      | some layout => .ok layout.unionVariants.flatten
      | none => .error (render compilerSpan (.missingAggregateLayout .unionAggregate index))

def AggregateDefinition.text (definition : AggregateDefinition) : Except Diagnostic String :=
  match definition with
  | .recordDefinition index =>
      match records[index]? with
      | some layout => appendRecord "" layout index unions
      | none => .error (render compilerSpan (.missingAggregateLayout .recordAggregate index))
  | .unionDefinition index =>
      match unions[index]? with
      | some layout => appendUnion "" layout index unions
      | none => .error (render compilerSpan (.missingAggregateLayout .unionAggregate index))

def visitAggregate (walk : AggregateWalk) (step : AggregateVisitStep) :
    Except Diagnostic AggregateWalk :=
  match step with
  | .prepareAggregate definition =>
      match walk.status definition with
      | none =>
          .error (render compilerSpan (.missingAggregateVisit definition.kind definition.index))
      | some .emittedAggregate => .ok walk
      | some .visitingAggregate =>
          .error (render compilerSpan (.cyclicByValueAggregate definition.kind definition.index))
      | some .unvisitedAggregate => do
          let fields ← definition.storedTypes records unions
          let dependencies := fields.filterMap (storedByValue · records unions)
          let visiting := walk.setVisit definition .visitingAggregate
          return { visiting with
            pending := dependencies.map .prepareAggregate ++
              .emitAggregate definition :: walk.pending }
  | .emitAggregate definition => do
      let text ← definition.text records unions
      let emitted := walk.setVisit definition .emittedAggregate
      return { emitted with fragments := walk.fragments ++ [text] }

def walkAggregates : Nat → AggregateWalk → Outcome Diagnostic (List String)
  | 0, _ => .timeout
  | fuel + 1, walk =>
      match walk.pending with
      | [] => .ok walk.fragments
      | step :: pending => do
          let next ← visitAggregate records unions { walk with pending := pending } step
          walkAggregates fuel next

def appendAggregateDefinitions (fuel : Nat) : Outcome Diagnostic String := do
  let fragments ← walkAggregates records unions fuel
    { recordVisits := records.map fun _ => .unvisitedAggregate
      unionVisits := unions.map fun _ => .unvisitedAggregate
      fragments := []
      pending := (List.range records.length).map (.prepareAggregate <| .recordDefinition ·) ++
        (List.range unions.length).map (.prepareAggregate <| .unionDefinition ·) }
  return "\n".intercalate fragments

end

end Blorp.Emit
