import Blorp.Verify.Layouts

/-!
# Guarded places of a selection

What a path through a selection graph proves about the places it has tested: the
variants a union place may still have and the lengths a list place may still
have.  A node sees the facts of all paths into it, merged: a fact missing on one
path disappears and possibilities are only widened.
-/

namespace Blorp.Verify

open Check (Span ListLengthTest LiteralPattern)
open Specialize
open Own

/-! ## Constraints -/

structure LengthBounds where
  minimum : Nat
  maximum : Option Nat
  excluded : List Nat

inductive PlaceConstraint where
  | variantPossibilities (possible : List Bool)
  | listLengths (bounds : LengthBounds)

structure PlaceFact where
  place : ConcretePatternPlace
  constraint : PlaceConstraint

def placeConstraint (place : ConcretePatternPlace) (facts : List PlaceFact) :
    Option PlaceConstraint :=
  (facts.find? fun fact => place = fact.place).map (·.constraint)

def putConstraint (place : ConcretePatternPlace) (constraint : PlaceConstraint)
    (facts : List PlaceFact) : List PlaceFact :=
  match facts.findIdx? fun fact => place = fact.place with
  | some index => facts.set index ⟨place, constraint⟩
  | none => facts ++ [⟨place, constraint⟩]

def mergePossible (existing incoming : List Bool) : List Bool :=
  if existing.isEmpty then incoming
  else
    incoming.zipIdx.foldl
      (fun merged (possible, position) => if possible then merged.set position true else merged)
      existing

def hasPossible (possible : List Bool) : Bool := possible.any id

def projectionIncludes (possible : List Bool) (ordinal : Nat) : Bool :=
  match possible[ordinal]? with
  | some included => included
  | none => false

def singletonVariant (possible : List Bool) (ordinal : Nat) : Bool :=
  if (possible.filter id).length = 1 then projectionIncludes possible ordinal else false

/-- The variants a place may still have; an untested union place has all of its own. -/
def variantPossibilities (place : ConcretePatternPlace) (facts : List PlaceFact)
    (unions : List ConcreteUnion) (span : Span) : Except Diagnostic (List Bool) :=
  match placeConstraint place facts with
  | some (.variantPossibilities possible) => .ok possible
  | _ =>
      match place.valueType with
      | .unionType owner =>
          match unions[owner]? with
          | none => .error (verificationError span "unknown match union")
          | some layout => .ok (layout.unionVariants.map fun _ => true)
      | _ => .error (verificationError span "variant test requires a union place")

def lengthBounds (place : ConcretePatternPlace) (facts : List PlaceFact) : LengthBounds :=
  match placeConstraint place facts with
  | some (.listLengths bounds) => bounds
  | _ => ⟨0, none, []⟩

/-! ## Places -/

def listElementType (valueType : TypeRef) (span : Span) : Except Diagnostic TypeRef :=
  match valueType with
  | .listType element => .ok element
  | _ => .error (verificationError span "list pattern operation requires a List place")

def verifyElementBound (parent : ConcretePatternPlace) (index : Nat) (facts : List PlaceFact)
    (span : Span) : Except Diagnostic Unit :=
  require (index < (lengthBounds parent facts).minimum) span
    "list element lacks its required length guard"

/-- What the field or element of a place must satisfy once its parent is verified. -/
def verifyRecordPlace (place parent : ConcretePatternPlace) (field : FieldInstanceId) (span : Span)
    (records : List ConcreteRecord) : Except Diagnostic Unit := do
  let owner ← recordOwner parent.valueType span
    "pattern record projection requires a record parent"
  let layout ← recordLayout owner records span
  let expected ← recordFieldType field owner layout span
  require (expected = place.valueType) span "pattern record field type does not match its layout"

def verifyFieldPlace (place parent : ConcretePatternPlace) (field : VariantFieldInstanceId)
    (facts : List PlaceFact) (unions : List ConcreteUnion) (span : Span) :
    Except Diagnostic Unit := do
  require (parent.valueType = .unionType field.variant.owner) span
    "pattern field belongs to another union"
  let fields ← variantShape field.variant unions span
  let expected ← orVerificationError fields[field.position]? span "unknown variant field identity"
  require (expected = place.valueType) span "pattern field type does not match its layout"
  let possible ← variantPossibilities parent facts unions span
  require (singletonVariant possible field.variant.position) span
    "pattern field lacks its selected variant guard"

def verifyElementPlace (place parent : ConcretePatternPlace) (index : Nat) (facts : List PlaceFact)
    (span : Span) : Except Diagnostic Unit := do
  let element ← listElementType parent.valueType span
  require (element = place.valueType) span "pattern element type does not match its List"
  verifyElementBound parent index facts span

section

variable (rootType : TypeRef) (facts : List PlaceFact) (unions : List ConcreteUnion) (span : Span)
  (records : List ConcreteRecord)

mutual

/-- Every ancestor is checked before the next borrowed field or element can be
evaluated. -/
def verifyPatternPlace : ConcretePatternPlace → Except Diagnostic Unit
  | ⟨valueType, route⟩ => verifyPatternRoute valueType route

def verifyPatternRoute (valueType : TypeRef) : ConcretePatternRoute → Except Diagnostic Unit
  | .matchRoot =>
      require (valueType = rootType) span "pattern root type does not match its scrutinee"
  | .unionField parent field => do
      verifyPatternPlace parent
      verifyFieldPlace ⟨valueType, .unionField parent field⟩ parent field facts unions span
  | .recordField parent field => do
      verifyPatternPlace parent
      verifyRecordPlace ⟨valueType, .recordField parent field⟩ parent field span records
  | .listElement parent index => do
      verifyPatternPlace parent
      verifyElementPlace ⟨valueType, .listElement parent index⟩ parent index facts span

end

end

/-! ## Merging the facts of two paths -/

def mergeBounds (left right : LengthBounds) : LengthBounds where
  minimum := if left.minimum < right.minimum then left.minimum else right.minimum
  maximum :=
    match left.maximum, right.maximum with
    | some first, some second => if second < first then some first else some second
    | _, _ => none
  excluded := left.excluded.filter fun length => right.excluded.contains length

def mergeGuard (right : List PlaceFact) (fact : PlaceFact) : Option PlaceFact :=
  match placeConstraint fact.place right, fact.constraint with
  | some (.variantPossibilities other), .variantPossibilities possible =>
      some { fact with constraint := .variantPossibilities (mergePossible possible other) }
  | some (.listLengths other), .listLengths bounds =>
      some { fact with constraint := .listLengths (mergeBounds bounds other) }
  | _, _ => none

def mergeGuards (left right : List PlaceFact) : List PlaceFact := left.filterMap (mergeGuard right)

/-! ## Refining a place by a test -/

/-- The largest `Int`; one more wraps to a negative number. -/
def intMaximum : Nat := 2 ^ 63 - 1

/-- The first length from `minimum` on that is not excluded.  Each round passes
another excluded length, so there are at most as many rounds as those. -/
def skipExcluded (excluded : List Nat) : Nat → Nat → Option Nat
  | 0, minimum => some minimum
  | rounds + 1, minimum =>
      if excluded.contains minimum then
        if minimum = intMaximum then none else skipExcluded excluded rounds (minimum + 1)
      else some minimum

/-- The last length up to the limit that is not excluded. -/
def lastIncluded (excluded : List Nat) : Nat → Option Nat
  | 0 => if excluded.contains 0 then none else some 0
  | last + 1 => if excluded.contains (last + 1) then lastIncluded excluded last else some (last + 1)

def normalizeBounds (bounds : LengthBounds) : Option LengthBounds := do
  let minimum ← skipExcluded bounds.excluded bounds.excluded.length bounds.minimum
  match bounds.maximum with
  | none => some { bounds with minimum := minimum }
  | some limit => do
      let last ← lastIncluded bounds.excluded limit
      if last < minimum then none
      else some { bounds with minimum := minimum, maximum := some last }

def refineLengths (place : ConcretePatternPlace) (test : ListLengthTest) (succeeds : Bool)
    (facts : List PlaceFact) : Option (List PlaceFact) := do
  let bounds := lengthBounds place facts
  let refined ←
    match test, succeeds with
    | .exactLength length, true =>
        some { bounds with
          minimum := if bounds.minimum < length then length else bounds.minimum
          maximum :=
            match bounds.maximum with
            | none => some length
            | some limit => if length < limit then some length else some limit }
    | .exactLength length, false => some { bounds with excluded := bounds.excluded ++ [length] }
    | .minimumLength length, true =>
        some { bounds with
          minimum := if bounds.minimum < length then length else bounds.minimum }
    | .minimumLength 0, false => none
    | .minimumLength (limit + 1), false =>
        some { bounds with
          maximum :=
            match bounds.maximum with
            | none => some limit
            | some previous => if limit < previous then some limit else some previous }
  let normalized ← normalizeBounds refined
  some (putConstraint place (.listLengths normalized) facts)

def refineVariants (place : ConcretePatternPlace) (variant : VariantInstanceId) (succeeds : Bool)
    (facts : List PlaceFact) (unions : List ConcreteUnion) (span : Span) :
    Except Diagnostic (Option (List PlaceFact)) := do
  require (place.valueType = .unionType variant.owner) span
    "selection variant belongs to another union"
  let possible ← variantPossibilities place facts unions span
  let _ ← orVerificationError possible[variant.position]? span "unknown variant identity"
  let refined := possible.zipIdx.map fun (included, position) =>
    if decide (position = variant.position) == succeeds then included else false
  if hasPossible refined then
    .ok (some (putConstraint place (.variantPossibilities refined) facts))
  else .ok none

/-! ## The decision graph -/

structure DecisionBranches where
  yes : Option (List PlaceFact)
  no : Option (List PlaceFact)

section

variable (rootType : TypeRef) (facts : List PlaceFact) (unions : List ConcreteUnion) (span : Span)
  (records : List ConcreteRecord)

def variantBranches (place : ConcretePatternPlace) (variant : VariantInstanceId) :
    Except Diagnostic DecisionBranches := do
  verifyPatternPlace rootType facts unions span records place
  let yes ← refineVariants place variant true facts unions span
  let no ← refineVariants place variant false facts unions span
  .ok ⟨yes, no⟩

def lengthBranches (place : ConcretePatternPlace) (test : ListLengthTest) :
    Except Diagnostic DecisionBranches := do
  verifyPatternPlace rootType facts unions span records place
  let _ ← listElementType place.valueType span
  .ok ⟨refineLengths place test true facts, refineLengths place test false facts⟩

def fits (literal : LiteralPattern) (valueType : TypeRef) : Bool :=
  match literal with
  | .exactBytes _ => valueType = .stringType
  | .exactInt _ => valueType = .intType

def literalBranches (place : ConcretePatternPlace) (literal : LiteralPattern) :
    Except Diagnostic DecisionBranches := do
  verifyPatternPlace rootType facts unions span records place
  if fits literal place.valueType then .ok ⟨some facts, some facts⟩
  else
    match literal with
    | .exactBytes _ => .error (verificationError span "string byte test requires a String place")
    | .exactInt _ => .error (verificationError span "integer literal test requires an Int place")

def decisionBranches (node : OwnedDecisionNode) : Except Diagnostic DecisionBranches :=
  match node with
  | .testVariant place variant _ _ => variantBranches rootType facts unions span records place variant
  | .testListLength place test _ _ => lengthBranches rootType facts unions span records place test
  | .testLiteral place literal _ _ => literalBranches rootType facts unions span records place literal
  | .enterArm _ => .ok ⟨some facts, some facts⟩

end

/-- The facts with which each node of a selection is reached, `none` before any. -/
abbrev Incoming := List (Option (List PlaceFact))

def propagateSelection (incoming : Incoming) (position target : Nat)
    (facts : Option (List PlaceFact)) (span : Span) : Except Diagnostic Incoming :=
  if position ≤ target then
    .error (verificationError span "selection successor is not an earlier node")
  else
    match incoming[target]?, facts with
    | none, _ => .error (verificationError span "selection successor is not a node")
    | some _, none => .ok incoming
    | some none, some arriving => .ok (incoming.set target (some arriving))
    | some (some existing), some arriving =>
        .ok (incoming.set target (some (mergeGuards existing arriving)))

/-- All incoming paths arrive before a node is examined, since a successor is always
an earlier node. -/
def examineNode (nodes : List OwnedDecisionNode) (rootType : TypeRef) (unions : List ConcreteUnion)
    (span : Span) (records : List ConcreteRecord) (incoming : Incoming) (position : Nat) :
    Except Diagnostic Incoming :=
  match nodes[position]?, incoming[position]? with
  | none, _ => .error (verificationError span "selection node is missing")
  | some node, some (some facts) => do
      let branches ← decisionBranches rootType facts unions span records node
      match node with
      | .enterArm _ => .ok incoming
      | .testVariant _ _ yes no | .testListLength _ _ yes no | .testLiteral _ _ yes no => do
          let first ← propagateSelection incoming position yes branches.yes span
          propagateSelection first position no branches.no span
  | some _, _ => .error (verificationError span "selection contains an unreachable node")

def selectionPossibilities (selection : OwnedSelection) (scrutinee : KnownValue)
    (unions : List ConcreteUnion) (records : List ConcreteRecord) :
    Except Diagnostic Incoming := do
  let count := selection.nodes.length
  require (selection.entry < count) scrutinee.span "selection entry is not a node"
  (List.range count).reverse.foldlM
    (examineNode selection.nodes scrutinee.valueType unions scrutinee.span records)
    ((List.replicate count none).set selection.entry (some []))

end Blorp.Verify
