import Blorp.Check.Values
import Blorp.Verify.PlaceFacts

/-!
# Values at the places of a selection

The values of the concrete types, as far as a selection looks at them, and what a
place, a test and a projection read in one.  A read is `none` when what it reads
does not exist: a field of another variant, an element past the end of its list, a
suffix that skips more than there is.
-/

namespace Blorp.Verify

open Check (ListLengthTest LiteralPattern)
open Specialize
open Own

/-! ## Values -/

inductive ConcreteValue where
  | void
  | int (value : Int)
  | float (value : Float)
  | string (bytes : String)
  | list (elements : List ConcreteValue)
  | callable (body : FunctionInstanceId) (captured : Option ConcreteValue)
  | record (fields : List ConcreteValue)
  | union (position : Nat) (fields : List ConcreteValue)

section

variable (unions : List ConcreteUnion) (records : List ConcreteRecord)

/-- The values of a type.  A list's length is an `Int`, so it has a largest value;
no read looks inside a callable. -/
inductive HasType : ConcreteValue → TypeRef → Prop where
  | void : HasType .void .voidType
  | int {value : Int} (least : -(2 ^ 63) ≤ value) (most : value ≤ intMaximum) :
      HasType (.int value) .intType
  | float (value : Float) : HasType (.float value) .floatType
  | string (bytes : String) : HasType (.string bytes) .stringType
  | list {elements : List ConcreteValue} {element : TypeRef}
      (short : elements.length ≤ intMaximum) (typed : ∀ value ∈ elements, HasType value element) :
      HasType (.list elements) (.listType element)
  | callable (body : FunctionInstanceId) (captured : Option ConcreteValue)
      (parameters : List TypeRef) (result : TypeRef) :
      HasType (.callable body captured) (.callableType parameters result)
  | record {id : RecordInstanceId} {layout : ConcreteRecord} {fields : List ConcreteValue}
      (declared : records[id]? = some layout)
      (typed : List.Forall₂ HasType fields layout.recordFields) :
      HasType (.record fields) (.recordType id)
  | union {id : UnionInstanceId} {layout : ConcreteUnion} {position : Nat} {types : List TypeRef}
      {fields : List ConcreteValue} (declared : unions[id]? = some layout)
      (variant : layout.unionVariants[position]? = some types)
      (typed : List.Forall₂ HasType fields types) : HasType (.union position fields) (.unionType id)

end

/-! ## Reads -/

def ConcreteValue.variantField (field : VariantFieldInstanceId) :
    ConcreteValue → Option ConcreteValue
  | .union position fields => if position = field.variant.position then fields[field.position]? else none
  | _ => none

def ConcreteValue.recordField (field : FieldInstanceId) : ConcreteValue → Option ConcreteValue
  | .record fields => fields[field.position]?
  | _ => none

def ConcreteValue.element (index : Nat) : ConcreteValue → Option ConcreteValue
  | .list elements => elements[index]?
  | _ => none

def ConcreteValue.suffix (skip : Nat) : ConcreteValue → Option ConcreteValue
  | .list elements => if skip ≤ elements.length then some (.list (elements.drop skip)) else none
  | _ => none

mutual

def readPlace (root : ConcreteValue) : ConcretePatternPlace → Option ConcreteValue
  | ⟨_, route⟩ => readRoute root route

def readRoute (root : ConcreteValue) : ConcretePatternRoute → Option ConcreteValue
  | .matchRoot => some root
  | .unionField parent field => (readPlace root parent).bind (·.variantField field)
  | .recordField parent field => (readPlace root parent).bind (·.recordField field)
  | .listElement parent index => (readPlace root parent).bind (·.element index)

end

/-! ## Tests -/

def testedPlace : OwnedDecisionNode → Option ConcretePatternPlace
  | .testVariant place _ _ _ | .testListLength place _ _ _ | .testLiteral place _ _ _ => some place
  | .enterArm _ => none

def ConcreteValue.isVariant (variant : VariantInstanceId) : ConcreteValue → Option Bool
  | .union position _ => some (decide (position = variant.position))
  | _ => none

def ConcreteValue.hasLength (test : ListLengthTest) : ConcreteValue → Option Bool
  | .list elements => some (test.holds elements.length)
  | _ => none

def ConcreteValue.equalsLiteral (literal : LiteralPattern) : ConcreteValue → Option Bool
  | .string bytes => some (decide (literal = .exactBytes bytes))
  | .int value => some (decide (literal = .exactInt value))
  | _ => none

/-- Where a node goes on the root; nowhere when its test has nothing to read. -/
def decideNode (root : ConcreteValue) :
    OwnedDecisionNode → Option (NodeGraph.Move OwnedSelectionEdge)
  | .testVariant place variant yes no => do
      let passes ← (← readPlace root place).isVariant variant
      some (.goto (if passes then yes else no))
  | .testListLength place test yes no => do
      let passes ← (← readPlace root place).hasLength test
      some (.goto (if passes then yes else no))
  | .testLiteral place literal yes no => do
      let passes ← (← readPlace root place).equalsLiteral literal
      some (.goto (if passes then yes else no))
  | .enterArm edge => some (.done edge)

def walkSelection (selection : OwnedSelection) (root : ConcreteValue) (fuel : Nat) :
    Option OwnedSelectionEdge :=
  NodeGraph.run (decideNode root) selection.nodes fuel selection.entry

abbrev WalkVisits (selection : OwnedSelection) (root : ConcreteValue) : Nat → Prop :=
  NodeGraph.Visits (decideNode root) selection.nodes selection.entry

/-! ## What facts say of a value -/

structure LengthBounds.Admits (bounds : LengthBounds) (length : Nat) : Prop where
  least : bounds.minimum ≤ length
  most : ∀ limit, bounds.maximum = some limit → length ≤ limit
  included : length ∉ bounds.excluded

def PlaceConstraint.Admits : PlaceConstraint → ConcreteValue → Prop
  | .variantPossibilities possible, .union position _ => possible[position]? = some true
  | .listLengths bounds, .list elements => bounds.Admits elements.length
  | _, _ => False

/-- Every place the facts are about exists in the root, and is as they say. -/
def FactsHold (root : ConcreteValue) (facts : List PlaceFact) : Prop :=
  ∀ fact ∈ facts, ∃ value, readPlace root fact.place = some value ∧ fact.constraint.Admits value

/-- The facts about variants have one entry for each variant of the place's union. -/
def Sized (unions : List ConcreteUnion) (facts : List PlaceFact) : Prop :=
  ∀ fact ∈ facts, ∀ possible, fact.constraint = .variantPossibilities possible →
    ∃ owner layout, fact.place.valueType = .unionType owner ∧ unions[owner]? = some layout ∧
      possible.length = layout.unionVariants.length

variable {place : ConcretePatternPlace} {facts : List PlaceFact}

theorem placeConstraint_mem {constraint : PlaceConstraint}
    (h : placeConstraint place facts = some constraint) : ⟨place, constraint⟩ ∈ facts := by
  unfold placeConstraint at h
  obtain ⟨fact, hfound, rfl⟩ := Option.map_eq_some_iff.mp h
  have hplace : place = fact.place := by simpa using List.find?_some hfound
  subst hplace
  exact List.mem_of_find?_eq_some hfound

theorem FactsHold.constraint {root value : ConcreteValue} (h : FactsHold root facts)
    {constraint : PlaceConstraint} (hread : readPlace root place = some value)
    (hconstraint : placeConstraint place facts = some constraint) : constraint.Admits value := by
  obtain ⟨other, hother, hadmits⟩ := h _ (placeConstraint_mem hconstraint)
  obtain rfl := Option.some.inj (hread.symm.trans hother)
  exact hadmits

theorem mem_putConstraint {constraint : PlaceConstraint} {fact : PlaceFact}
    (h : fact ∈ putConstraint place constraint facts) :
    fact = ⟨place, constraint⟩ ∨ fact ∈ facts := by
  induction facts with
  | nil => exact .inl (List.mem_singleton.mp h)
  | cons first facts ih =>
    rw [putConstraint_cons] at h
    split at h
    · rcases List.mem_cons.mp h with h | h
      · exact .inl h
      · exact .inr (List.mem_cons_of_mem _ h)
    · rcases List.mem_cons.mp h with h | h
      · exact .inr (h ▸ List.mem_cons_self)
      · exact (ih h).imp_right (List.mem_cons_of_mem _)

theorem FactsHold.put {root value : ConcreteValue} (h : FactsHold root facts)
    {constraint : PlaceConstraint} (hread : readPlace root place = some value)
    (hadmits : constraint.Admits value) :
    FactsHold root (putConstraint place constraint facts) := by
  intro fact hfact
  rcases mem_putConstraint hfact with rfl | hfact
  · exact ⟨value, hread, hadmits⟩
  · exact h fact hfact

theorem Sized.put {unions : List ConcreteUnion} (h : Sized unions facts)
    {constraint : PlaceConstraint}
    (hsized : ∀ possible, constraint = .variantPossibilities possible →
      ∃ owner layout, place.valueType = .unionType owner ∧ unions[owner]? =
      some layout ∧ possible.length = layout.unionVariants.length) :
    Sized unions (putConstraint place constraint facts) := by
  intro fact hfact
  rcases mem_putConstraint hfact with rfl | hfact
  · exact hsized
  · exact h fact hfact

end Blorp.Verify
