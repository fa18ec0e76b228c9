import Blorp.Check.Patterns
import Blorp.Lib.NodeGraph

/-!
# What patterns, places and decision graphs mean

Runtime values as a match sees them: a union value carries its variant and its
payload, tuples and lists their elements, strings and integers are literals.
Every other type (floats, records, callables, opaque types, type parameters) is
only ever bound or ignored by a pattern, so its values are an arbitrary type `σ`
with an arbitrary typing `scalar`.
-/

namespace Blorp.Check

open NodeGraph

inductive Value (σ : Type) where
  | variant (id : VariantId) (fields : List (Value σ))
  | tuple (fields : List (Value σ))
  | list (elements : List (Value σ))
  | literal (literal : LiteralPattern)
  | scalar (value : σ)

variable {σ : Type}

/-! ## Types of values and of patterns -/

/-- A type whose values a pattern cannot look into. -/
def TypeRef.isScalar : TypeRef → Bool
  | .tupleType _ => false
  | .listType _ => false
  | .stringType => false
  | .intType => false
  | .nominalType (.aggregateNominal (.unionAggregate _)) _ => false
  | _ => true

/-- The type of a union at an occurrence. -/
abbrev unionType (owner : UnionId) (arguments : List TypeRef) : TypeRef :=
  .nominalType (.aggregateNominal (.unionAggregate owner)) arguments

/-- `id` names a variant of the union at `occurrence`, with these field types there. -/
def DeclaredAt (unions : List CheckedUnion) (occurrence : UnionOccurrence) (id : VariantId)
    (fields : List TypeRef) : Prop :=
  ∃ declaration variant uses, unions[occurrence.owner]? = some declaration ∧
    variant ∈ declaration.variants ∧ variant.id = id ∧
    occurrenceFields variant.fields occurrence = .ok uses ∧ uses.map TypeUse.valueType = fields

inductive HasType (unions : List CheckedUnion) (scalar : σ → TypeRef → Prop) :
    Value σ → TypeRef → Prop where
  | variant {owner : UnionId} {arguments : List TypeRef} {id : VariantId} {types : List TypeRef}
      {fields : List (Value σ)} (declared : DeclaredAt unions ⟨owner, arguments⟩ id types)
      (typed : List.Forall₂ (HasType unions scalar) fields types) :
      HasType unions scalar (.variant id fields) (unionType owner arguments)
  | tuple {fields : List (Value σ)} {types : List TypeRef}
      (typed : List.Forall₂ (HasType unions scalar) fields types) :
      HasType unions scalar (.tuple fields) (.tupleType types)
  | list {elements : List (Value σ)} {element : TypeRef}
      (typed : ∀ x ∈ elements, HasType unions scalar x element) :
      HasType unions scalar (.list elements) (.listType element)
  | bytes (text : String) : HasType unions scalar (.literal (.exactBytes text)) .stringType
  | int (value : Int) : HasType unions scalar (.literal (.exactInt value)) .intType
  | scalar {value : σ} {type : TypeRef} (isScalar : type.isScalar = true)
      (typed : scalar value type) : HasType unions scalar (.scalar value) type

/-- A pattern that resolution can produce for a subject of the type. -/
inductive PatternFits (unions : List CheckedUnion) : Pattern → TypeRef → Prop where
  | anything (type : TypeRef) : PatternFits unions .anything type
  | variant {owner : UnionId} {arguments : List TypeRef} {id : VariantId} {types : List TypeRef}
      {fields : List Pattern} (declared : DeclaredAt unions ⟨owner, arguments⟩ id types)
      (typed : List.Forall₂ (PatternFits unions) fields types) :
      PatternFits unions (.variantPattern id fields) (unionType owner arguments)
  | tuple {fields : List Pattern} {types : List TypeRef}
      (typed : List.Forall₂ (PatternFits unions) fields types) :
      PatternFits unions (.tuplePattern fields) (.tupleType types)
  | emptyList (element : TypeRef) : PatternFits unions .emptyListPattern (.listType element)
  | consList {head tail : Pattern} {element : TypeRef} (first : PatternFits unions head element)
      (rest : PatternFits unions tail (.listType element)) :
      PatternFits unions (.consListPattern head tail) (.listType element)
  | bytes (text : String) : PatternFits unions (.exactPattern (.exactBytes text)) .stringType
  | int (value : Int) : PatternFits unions (.exactPattern (.exactInt value)) .intType

/-! ## Matching -/

mutual

def Pattern.matches : Pattern → Value σ → Bool
  | .anything, _ => true
  | .variantPattern id patterns, .variant other fields =>
      id == other && Pattern.matchesAll patterns fields
  | .tuplePattern patterns, .tuple fields => Pattern.matchesAll patterns fields
  | .emptyListPattern, .list [] => true
  | .consListPattern head tail, .list (x :: xs) => head.matches x && tail.matches (.list xs)
  | .exactPattern literal, .literal other => literal == other
  | _, _ => false

/-- A pattern vector against a value vector of the same length. -/
def Pattern.matchesAll : List Pattern → List (Value σ) → Bool
  | [], [] => true
  | pattern :: patterns, x :: xs => pattern.matches x && Pattern.matchesAll patterns xs
  | _, _ => false

end

def PatternRow.matches (row : PatternRow) (values : List (Value σ)) : Bool :=
  Pattern.matchesAll row.patterns values

def firstMatch (rows : List PatternRow) (values : List (Value σ)) : Option PatternRow :=
  rows.find? fun row => row.matches values

/-! ## Places and decision graphs -/

mutual

/-- The value at a place of the subject; `none` when the place does not exist there. -/
def readPlace (subject : Value σ) : CheckedPatternPlace → Option (Value σ)
  | .mk _ route => readRoute subject route

def readRoute (subject : Value σ) : CheckedPatternRoute → Option (Value σ)
  | .matchRoot => some subject
  | .unionField parent variant ordinal =>
      match readPlace subject parent with
      | some (.variant id fields) => if id = variant then fields[ordinal]? else none
      | _ => none
  | .listElement parent index =>
      match readPlace subject parent with
      | some (.list elements) => elements[index]?
      | _ => none
  | .recordField parent ordinal =>
      match readPlace subject parent with
      | some (.tuple fields) => fields[ordinal]?
      | _ => none

end

/-- What an argument of an arm reads exists in the subject. -/
def ArgumentExists (subject : Value σ) : CheckedPatternArgument → Prop
  | .borrowPlace place => ∃ x, readPlace subject place = some x
  | .copyListSuffix place skip =>
      ∃ elements, readPlace subject place = some (.list elements) ∧ skip ≤ elements.length

def ListLengthTest.holds (test : ListLengthTest) (length : Nat) : Bool :=
  match test with
  | .exactLength expected => length == expected
  | .minimumLength least => decide (least ≤ length)

/-- One decision node on the subject.  A test whose place does not exist in the
subject, or holds a value the test does not apply to, is stuck. -/
def decide1 (subject : Value σ) :
    CheckedDecisionNode → Option (Move (MatchArmId × List CheckedPatternArgument))
  | .enterArm arm arguments => some (.done (arm, arguments))
  | .testVariant place variant yes no =>
      match readPlace subject place with
      | some (.variant id _) => some (.goto (if id = variant then yes else no))
      | _ => none
  | .testListLength place test yes no =>
      match readPlace subject place with
      | some (.list elements) => some (.goto (if test.holds elements.length then yes else no))
      | _ => none
  | .testLiteral place literal yes no =>
      match readPlace subject place with
      | some (.literal other) => some (.goto (if literal = other then yes else no))
      | _ => none

/-- Walking a selection from its entry, through at most `fuel` nodes. -/
def walk (subject : Value σ) (selection : CheckedSelection) (fuel : Nat) :
    Option (MatchArmId × List CheckedPatternArgument) :=
  run (decide1 subject) selection.nodes fuel selection.entry

end Blorp.Check
