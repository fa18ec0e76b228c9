import Blorp.Check.Model
import Blorp.Lib.Outcome

/-!
# The pattern matrix

`check/patterns.brp` below pattern resolution: rows over typed columns,
Maranget's usefulness recurrence and the construction of the decision graph.
The two recursions of the source, `useful` and `compileRows`, run on fuel; every
function they go through takes the recursive call as a parameter `self`, so a
reader finds each source function under its own name.
-/

namespace Blorp.Check

open Fuel

inductive Pattern where
  | anything
  | variantPattern (id : VariantId) (fields : List Pattern)
  | tuplePattern (fields : List Pattern)
  | emptyListPattern
  | consListPattern (head tail : Pattern)
  | exactPattern (literal : LiteralPattern)

inductive PatternCursor where
  | valueCursor (place : CheckedPatternPlace)
  | listCursor (place : CheckedPatternPlace) (skipped : Nat)

inductive Head where
  | unionHead (id : VariantId) (fields : List TypeRef)
  | tupleHead (fields : List TypeRef)
  | nilHead
  | consHead (element : TypeRef)
  | literalHead (literal : LiteralPattern)

/-- An open domain has more values than any list of literals names; a scalar
domain is matched by binders and `_` alone. -/
inductive ColumnDomain where
  | closedDomain (heads : List Head)
  | openDomain
  | scalarDomain

structure Column where
  cursor : PatternCursor
  domain : ColumnDomain

structure PatternRow where
  arm : MatchArmId
  patterns : List Pattern
  arguments : List CheckedPatternArgument

/-! ## Columns -/

section Columns

variable (unions : List CheckedUnion) (span : Span)

def variantHead (occurrence : UnionOccurrence) (variant : CheckedVariant) :
    Except CheckError Head := do
  let fields ← occurrenceFields variant.fields occurrence
  return .unionHead variant.id (fields.map TypeUse.valueType)

def unionHeads (variants : List CheckedVariant) (occurrence : UnionOccurrence) :
    Except CheckError (List Head) :=
  variants.mapM (variantHead occurrence)

def unionColumn (cursor : PatternCursor) (occurrence : UnionOccurrence) :
    Except CheckError Column := do
  let declaration ← orCheckerInvariant unions[occurrence.owner]? span
    (.invalidCheckedUnion occurrence.owner)
  let heads ← unionHeads declaration.variants occurrence
  return ⟨cursor, .closedDomain heads⟩

def column (place : CheckedPatternPlace) (cursor : PatternCursor) : Except CheckError Column :=
  match place.valueType.unionOccurrence with
  | some occurrence => unionColumn unions span cursor occurrence
  | none =>
    let domain : ColumnDomain :=
      match place.valueType with
      | .tupleType elements => .closedDomain [.tupleHead elements]
      | .listType element => .closedDomain [.nilHead, .consHead element]
      | .stringType => .openDomain
      | .intType => .openDomain
      | _ => .scalarDomain
    .ok ⟨cursor, domain⟩

def prepareSubject (valueType : TypeRef) : Except CheckError Column :=
  let place : CheckedPatternPlace := .mk valueType .matchRoot
  column unions span place (.valueCursor place)

def PatternCursor.rootPlace : PatternCursor → CheckedPatternPlace
  | .valueCursor place => place
  | .listCursor place _ => place

def PatternCursor.listSkip : PatternCursor → Nat
  | .valueCursor _ => 0
  | .listCursor _ skipped => skipped

/-- One column per field from ordinal `ordinal` on; `route` names where a field sits. -/
def fieldColumnsFrom (route : Nat → CheckedPatternRoute) :
    Nat → List TypeRef → Except CheckError (List Column)
  | _, [] => .ok []
  | ordinal, valueType :: rest => do
      let place : CheckedPatternPlace := .mk valueType (route ordinal)
      let child ← column unions span place (.valueCursor place)
      let columns ← fieldColumnsFrom route (ordinal + 1) rest
      return child :: columns

def fieldColumns (fields : List TypeRef) (route : Nat → CheckedPatternRoute) :
    Except CheckError (List Column) :=
  fieldColumnsFrom unions span route 0 fields

def listChildColumns (parent : CheckedPatternPlace) (skipped : Nat) (element : TypeRef) :
    Except CheckError (List Column) := do
  let place : CheckedPatternPlace := .mk element (.listElement parent skipped)
  let first ← column unions span place (.valueCursor place)
  let rest : Column :=
    ⟨.listCursor parent (skipped + 1), .closedDomain [.nilHead, .consHead element]⟩
  return [first, rest]

def childColumns (parent : Column) (head : Head) : Except CheckError (List Column) :=
  let place := parent.cursor.rootPlace
  match head with
  | .unionHead id fields => fieldColumns unions span fields fun ordinal => .unionField place id ordinal
  | .tupleHead fields => fieldColumns unions span fields fun ordinal => .recordField place ordinal
  | .consHead element => listChildColumns unions span place parent.cursor.listSkip element
  | .nilHead => .ok []
  | .literalHead _ => .ok []

end Columns

/-! ## Heads and rows -/

def Head.same : Head → Head → Bool
  | .unionHead id _, .unionHead other _ => id == other
  | .tupleHead _, .tupleHead _ => true
  | .nilHead, .nilHead => true
  | .consHead _, .consHead _ => true
  | .literalHead literal, .literalHead other => literal == other
  | _, _ => false

def Head.arity : Head → Nat
  | .unionHead _ fields => fields.length
  | .tupleHead fields => fields.length
  | .consHead _ => 2
  | .nilHead => 0
  | .literalHead _ => 0

def Head.isCons : Head → Bool
  | .consHead _ => true
  | _ => false

def Head.hasVariant (id : VariantId) : Head → Bool
  | .unionHead variant _ => variant == id
  | _ => false

def Pattern.isAny : Pattern → Bool
  | .anything => true
  | _ => false

def patternHead (domain : ColumnDomain) : Pattern → Option Head
  | .anything => none
  | .emptyListPattern => some .nilHead
  | .exactPattern literal => some (.literalHead literal)
  | .tuplePattern _ =>
      match domain with
      | .closedDomain [head] => some head
      | _ => none
  | .consListPattern _ _ =>
      match domain with
      | .closedDomain heads => heads.find? Head.isCons
      | _ => none
  | .variantPattern id _ =>
      match domain with
      | .closedDomain heads => heads.find? (Head.hasVariant id)
      | _ => none

def Pattern.children (head : Head) : Pattern → List Pattern
  | .anything => List.replicate head.arity .anything
  | .variantPattern _ fields => fields
  | .tuplePattern fields => fields
  | .consListPattern first rest => [first, rest]
  | .emptyListPattern => []
  | .exactPattern _ => []

def Pattern.matchesHead (head : Head) : Pattern → Bool
  | .anything => true
  | .tuplePattern _ =>
      match head with
      | .tupleHead _ => true
      | _ => false
  | .variantPattern id _ => head.hasVariant id
  | .consListPattern _ _ => head.isCons
  | .emptyListPattern =>
      match head with
      | .nilHead => true
      | _ => false
  | .exactPattern literal =>
      match head with
      | .literalHead other => literal == other
      | _ => false

def specializeRow (head : Head) (row : PatternRow) : Option PatternRow :=
  match row.patterns with
  | first :: rest =>
      if first.matchesHead head then some { row with patterns := first.children head ++ rest }
      else none
  | [] => none

def specializeRows (rows : List PatternRow) (head : Head) : List PatternRow :=
  rows.filterMap (specializeRow head)

def defaultRow (row : PatternRow) : Option PatternRow :=
  match row.patterns with
  | .anything :: rest => some { row with patterns := rest }
  | _ => none

def defaultRows (rows : List PatternRow) : List PatternRow := rows.filterMap defaultRow

def excludingRow (head : Head) (row : PatternRow) : Option PatternRow :=
  match row.patterns with
  | .anything :: _ => some row
  | first :: _ => if first.matchesHead head then none else some row
  | [] => none

def excludingRows (rows : List PatternRow) (head : Head) : List PatternRow :=
  rows.filterMap (excludingRow head)

/-! ## Usefulness -/

def wrapWitness (head : Head) (witnesses : List PatternWitness) : List PatternWitness :=
  let fields := witnesses.take head.arity
  let rest := witnesses.drop head.arity
  let witness : PatternWitness :=
    match head with
    | .unionHead id _ => .variantWitness id fields
    | .tupleHead _ => .tupleWitness fields
    | .nilHead => .emptyListWitness
    | .consHead _ =>
        match fields with
        | [first, tail] => .consListWitness first tail
        | _ => .anyWitness
    | .literalHead _ => .otherValueWitness
  witness :: rest

mutual

def patternWitness : Pattern → PatternWitness
  | .anything => .anyWitness
  | .variantPattern id fields => .variantWitness id (patternWitnesses fields)
  | .tuplePattern fields => .tupleWitness (patternWitnesses fields)
  | .emptyListPattern => .emptyListWitness
  | .consListPattern head tail => .consListWitness (patternWitness head) (patternWitness tail)
  | .exactPattern _ => .otherValueWitness

def patternWitnesses : List Pattern → List PatternWitness
  | [] => []
  | pattern :: rest => patternWitness pattern :: patternWitnesses rest

end

def rowIsIrrefutable (row : PatternRow) : Bool := row.patterns.all Pattern.isAny

def rowStartsAny (row : PatternRow) : Bool :=
  match row.patterns with
  | .anything :: _ => true
  | _ => false

/-- What `useful` answers: a witness vector, or `none` when the rows cover the candidate. -/
abbrev UsefulResult := Outcome CheckError (Option (List PatternWitness))

section Useful

variable (unions : List CheckedUnion) (span : Span)
variable (self : List PatternRow → List Pattern → List Column → UsefulResult)

section

variable (rows : List PatternRow) (candidate : List Pattern)

def usefulUnconstrained (columns : List Column) : UsefulResult := do
  let first ← orCheckerInvariant candidate[0]? span .unsupportedPatternReachedResolution
  let result ← self (defaultRows rows) (candidate.drop 1) (columns.drop 1)
  match result with
  | some witness => return some (patternWitness first :: witness)
  | none => return none

def usefulHead (current : Column) (following : List Column) (head : Head) : UsefulResult := do
  let fields ← childColumns unions span current head
  let result ← self (specializeRows rows head) candidate (fields ++ following)
  match result with
  | some witness => return some (wrapWitness head witness)
  | none => return none

def usefulDefault (columns : List Column) (first : PatternWitness) : UsefulResult := do
  let result ← self (defaultRows rows) candidate columns
  match result with
  | some witness => return some (first :: witness)
  | none => return none

end

/-- `useful_closed` and `useful_closed_first`: the first head with a witness. -/
def usefulClosed (rows : List PatternRow) (candidate : List Pattern) (current : Column)
    (following : List Column) : List Head → UsefulResult
  | [] => return none
  | head :: rest => do
      let result ← usefulHead unions span self rows
        (List.replicate head.arity .anything ++ candidate) current following head
      match result with
      | some witness => return some witness
      | none => usefulClosed rows candidate current following rest

def usefulWildcard (rows : List PatternRow) (candidate : List Pattern) (current : Column)
    (following : List Column) : UsefulResult :=
  match current.domain with
  | .closedDomain heads => usefulClosed unions span self rows candidate current following heads
  | .openDomain => usefulDefault self rows candidate following .otherValueWitness
  | .scalarDomain => usefulDefault self rows candidate following .anyWitness

/-- The branch of `useful_nonempty` for a candidate that starts with a constructor. -/
def usefulConstructor (rows : List PatternRow) (first : Pattern) (rest : List Pattern)
    (current : Column) (following : List Column) : UsefulResult :=
  match patternHead current.domain first with
  | none => return none
  | some head =>
      usefulHead unions span self rows (first.children head ++ rest) current following head

def usefulNonempty (rows : List PatternRow) (candidate : List Pattern) (columns : List Column) :
    UsefulResult :=
  match candidate with
  | [] =>
      match columns with
      | [] => if rows.isEmpty then return some [] else return none
      | _ => .err (checkerInvariant span .unsupportedPatternReachedResolution)
  | first :: rest =>
      match columns with
      | [] => .err (checkerInvariant span .unsupportedPatternReachedResolution)
      | current :: following =>
          match first with
          | .anything => usefulWildcard unions span self rows rest current following
          | _ => usefulConstructor unions span self rows first rest current following

/-- The body of `useful`, with `self` for its recursive calls. -/
def usefulStep (rows : List PatternRow) (candidate : List Pattern) (columns : List Column) :
    UsefulResult :=
  if rows.any rowIsIrrefutable then return none
  else if rows.isEmpty then return some (patternWitnesses candidate)
  else if rows.all rowStartsAny then usefulUnconstrained span self rows candidate columns
  else usefulNonempty unions span self rows candidate columns

end Useful

def useful (unions : List CheckedUnion) (span : Span) :
    Nat → List PatternRow → List Pattern → List Column → UsefulResult
  | 0 => fun _ _ _ => .timeout
  | fuel + 1 => usefulStep unions span (useful unions span fuel)

/-! ## Selection -/

def structuralColumn : List Pattern → Nat
  | .anything :: rest => structuralColumn rest + 1
  | _ => 0

def moveFirst {α : Type} (values : List α) (position : Nat) : List α :=
  if position = 0 then values
  else
    match values[position]? with
    | none => values
    | some selected => selected :: values.eraseIdx position

def moveRows (rows : List PatternRow) (position : Nat) : List PatternRow :=
  if position = 0 then rows
  else rows.map fun row => { row with patterns := moveFirst row.patterns position }

def Head.different (left right : Head) : Bool := !left.same right

def excludeHead (current : Column) (head : Head) : Column :=
  match current.domain with
  | .closedDomain heads =>
      { current with domain := .closedDomain (heads.filter fun known => known.different head) }
  | .openDomain => current
  | .scalarDomain => current

abbrev SelectionResult := Outcome CheckError CheckedSelection

section Compile

variable (unions : List CheckedUnion) (span : Span)
variable (self : List PatternRow → List Column → List CheckedDecisionNode → SelectionResult)

/-- The test that asks whether the column's value is built with `head`. -/
def headTest (current : Column) (head : Head) (yes no : DecisionNodeId) :
    Except CheckError CheckedDecisionNode :=
  let place := current.cursor.rootPlace
  match head with
  | .tupleHead _ => .error (checkerInvariant span .unsupportedPatternReachedResolution)
  | .unionHead variant _ => .ok (.testVariant place variant yes no)
  | .nilHead => .ok (.testListLength place (.exactLength current.cursor.listSkip) yes no)
  | .consHead _ => .ok (.testListLength place (.minimumLength (current.cursor.listSkip + 1)) yes no)
  | .literalHead literal => .ok (.testLiteral place literal yes no)

def compileSplit (rows : List PatternRow) (current : Column) (following fields : List Column)
    (head : Head) (nodes : List CheckedDecisionNode) : SelectionResult := do
  -- False successors are issued first, so both successors precede the test.
  let no ← self (excludingRows rows head) (excludeHead current head :: following) nodes
  let yes ← self (specializeRows rows head) (fields ++ following) no.nodes
  let test ← headTest span current head yes.entry no.entry
  return ⟨yes.nodes ++ [test], yes.nodes.length⟩

def compileStructural (rows : List PatternRow) (columns : List Column)
    (nodes : List CheckedDecisionNode) (patterns : List Pattern) : SelectionResult := do
  let position := structuralColumn patterns
  let ordered := moveRows rows position
  let columnsOrdered := moveFirst columns position
  let current ← orCheckerInvariant columnsOrdered[0]? span .unsupportedPatternReachedResolution
  let pattern ← orCheckerInvariant patterns[position]? span .unsupportedPatternReachedResolution
  let head ← orCheckerInvariant (patternHead current.domain pattern) span
    .unsupportedPatternReachedResolution
  let following := columnsOrdered.drop 1
  let fields ← childColumns unions span current head
  match current.domain with
  | .closedDomain [_] => self (specializeRows ordered head) (fields ++ following) nodes
  | _ => compileSplit span self ordered current following fields head nodes

/-- The body of `compile_rows`, with `self` for its recursive calls. -/
def compileStep (rows : List PatternRow) (columns : List Column)
    (nodes : List CheckedDecisionNode) : SelectionResult := do
  let first ← orCheckerInvariant rows[0]? span .joinWithoutArms
  if first.patterns.all Pattern.isAny then
    return ⟨nodes ++ [.enterArm first.arm first.arguments], nodes.length⟩
  else compileStructural unions span self rows columns nodes first.patterns

end Compile

def compileRows (unions : List CheckedUnion) (span : Span) :
    Nat → List PatternRow → List Column → List CheckedDecisionNode → SelectionResult
  | 0 => fun _ _ _ => .timeout
  | fuel + 1 => compileStep unions span (compileRows unions span fuel)

/-! ## Finishing a match -/

section Finish

variable (unions : List CheckedUnion) (span : Span) (fuel : Nat)

/-- The loop of `missing_finite_error`: the variants no row starts with, and
whether every uncovered head is such a variant. -/
def missingFinite (rows : List PatternRow) (root : Column) :
    List Head → List VariantId → Bool → Outcome CheckError (List VariantId × Bool)
  | [], missing, flat => return (missing, flat)
  | .unionHead id fields :: rest, missing, flat => do
      let head : Head := .unionHead id fields
      let result ← usefulHead unions span (useful unions span fuel) rows
        (List.replicate head.arity .anything) root [] head
      match result with
      | some _ =>
          if (specializeRows rows head).isEmpty then
            missingFinite rows root rest (missing ++ [id]) flat
          else missingFinite rows root rest missing false
      | none => missingFinite rows root rest missing flat
  | _ :: rest, missing, _ => missingFinite rows root rest missing false

def missingError (rows : List PatternRow) (root : Column) (witness : PatternWitness) :
    Outcome CheckError CheckError :=
  match root.domain with
  | .closedDomain heads => do
      let (missing, flat) ← missingFinite unions span fuel rows root heads [] true
      if flat then return matchError span (.nonExhaustiveMatch missing)
      else return matchError span (.nonExhaustiveStructuralMatch witness)
  | .openDomain => return matchError span (.nonExhaustiveStructuralMatch witness)
  | .scalarDomain => return matchError span (.nonExhaustiveStructuralMatch witness)

def rejectMissing (rows : List PatternRow) (root : Column) (witnesses : List PatternWitness) :
    SelectionResult := do
  let witness ← orCheckerInvariant witnesses[0]? span .unsupportedPatternReachedResolution
  let error ← missingError unions span fuel rows root witness
  .err error

def finishSelection (rows : List PatternRow) (root : Column) : SelectionResult := do
  let missing ← useful unions span fuel rows [.anything] [root]
  match missing with
  | some witnesses => rejectMissing unions span fuel rows root witnesses
  | none => compileRows unions span fuel rows [root] []

end Finish

end Blorp.Check
