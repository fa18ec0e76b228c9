import Blorp.Verify.Edges
import Blorp.Verify.PlaceSoundness

/-!
# A verified selection reads only what exists

The nodes of a selection are examined from the last to the first, and a successor is
an earlier node, so every node is examined with the facts of all its paths.  Hence the
facts of each node that a value's walk goes through hold of the value: the walk's tests
find what they test, it ends at an arm, and the projections on that arm's edge find what
they read.
-/

namespace Blorp.Verify

open Check (Span compilerSpan LiteralPattern)
open Specialize
open Own
open Fuel

/-! ## One node -/

section Node

variable {rootType : TypeRef} {facts : List PlaceFact} {unions : List ConcreteUnion} {span : Span}
variable {records : List ConcreteRecord} {node : OwnedDecisionNode} {branches : DecisionBranches}
variable {root : ConcreteValue}

theorem decisionBranches_sized (hsized : Sized unions facts)
    (h : decisionBranches rootType facts unions span records node = .ok branches) :
    (∀ refined, branches.yes = some refined → Sized unions refined) ∧
      ∀ refined, branches.no = some refined → Sized unions refined := by
  cases node with
  | testVariant place variant yes no =>
    obtain ⟨_, -, h⟩ := Except.peel h
    obtain ⟨first, hfirst, h⟩ := Except.peel h
    obtain ⟨second, hsecond, h⟩ := Except.peel h
    cases h
    refine ⟨fun refined hrefined => ?_, fun refined hrefined => ?_⟩
    · obtain rfl : first = some refined := hrefined
      exact refineVariants_sized hsized hfirst
    · obtain rfl : second = some refined := hrefined
      exact refineVariants_sized hsized hsecond
  | testListLength place test yes no =>
    iterate 2 obtain ⟨_, -, h⟩ := Except.peel h
    cases h
    exact ⟨fun _ => refineLengths_sized hsized, fun _ => refineLengths_sized hsized⟩
  | testLiteral place literal yes no =>
    obtain ⟨_, -, h⟩ := Except.peel h
    split at h
    · cases h
      exact ⟨fun _ heq => Option.some.inj heq ▸ hsized, fun _ heq => Option.some.inj heq ▸ hsized⟩
    · split at h <;> cases h
  | enterArm edge =>
    cases h
    exact ⟨fun _ heq => Option.some.inj heq ▸ hsized, fun _ heq => Option.some.inj heq ▸ hsized⟩

theorem decisionBranches_reads (hhold : FactsHold root facts)
    (hroot : HasType unions records root rootType)
    (h : decisionBranches rootType facts unions span records node = .ok branches)
    {place : ConcretePatternPlace} (hplace : testedPlace node = some place) :
    ∃ value, readPlace root place = some value ∧ HasType unions records value place.valueType := by
  cases node with
  | enterArm edge => cases hplace
  | _ =>
    cases hplace
    obtain ⟨_, hverified, -⟩ := Except.peel h
    exact verifyPatternPlace_reads hhold hroot place hverified

theorem fits_compares {literal : LiteralPattern} {value : ConcreteValue} {valueType : TypeRef}
    (htyped : HasType unions records value valueType) (hfits : fits literal valueType = true) :
    ∃ passes, value.equalsLiteral literal = some passes := by
  cases literal with
  | exactBytes text =>
    obtain rfl : valueType = .stringType := by simpa [fits] using hfits
    cases htyped
    exact ⟨_, rfl⟩
  | exactInt number =>
    obtain rfl : valueType = .intType := by simpa [fits] using hfits
    cases htyped
    exact ⟨_, rfl⟩

theorem decisionBranches_admits (hhold : FactsHold root facts)
    (hroot : HasType unions records root rootType)
    (h : decisionBranches rootType facts unions span records node = .ok branches) {yes no : Nat}
    (hsuccessors : successors node = some (yes, no)) :
    ∃ passes : Bool, decideNode root node = some (.goto (if passes then yes else no)) ∧
      ∃ refined, (if passes then branches.yes else branches.no) = some refined ∧
        FactsHold root refined := by
  cases node with
  | testVariant place variant first second =>
    cases hsuccessors
    obtain ⟨value, hread, htyped⟩ := decisionBranches_reads hhold hroot h rfl
    obtain ⟨_, -, h⟩ := Except.peel h
    obtain ⟨left, hleft, h⟩ := Except.peel h
    obtain ⟨right, hright, h⟩ := Except.peel h
    cases h
    have howner : place.valueType = .unionType variant.owner := (refineVariants_cases hleft).1
    have hunion : ∃ position fields, value = .union position fields := by
      rw [howner] at htyped
      cases htyped
      exact ⟨_, _, rfl⟩
    obtain ⟨position, fields, rfl⟩ := hunion
    refine ⟨decide (position = variant.position), ?_, ?_⟩
    · simp [decideNode, hread, ConcreteValue.isVariant]
    · cases hgoes : decide (position = variant.position) with
      | true => exact refineVariants_admits hhold hread htyped hgoes hleft
      | false => exact refineVariants_admits hhold hread htyped hgoes hright
  | testListLength place test first second =>
    cases hsuccessors
    obtain ⟨value, hread, htyped⟩ := decisionBranches_reads hhold hroot h rfl
    obtain ⟨_, -, h⟩ := Except.peel h
    obtain ⟨element, helement, h⟩ := Except.peel h
    cases h
    rw [listElementType_eq_ok.mp helement] at htyped
    cases htyped with
    | list hshort helements =>
      rename_i elements
      refine ⟨test.holds elements.length, ?_, ?_⟩
      · simp [decideNode, hread, ConcreteValue.hasLength]
      · cases hgoes : test.holds elements.length with
        | true => exact refineLengths_admits hhold hread hshort hgoes
        | false => exact refineLengths_admits hhold hread hshort hgoes
  | testLiteral place literal first second =>
    cases hsuccessors
    obtain ⟨value, hread, htyped⟩ := decisionBranches_reads hhold hroot h rfl
    obtain ⟨_, -, h⟩ := Except.peel h
    split at h
    · next hfits =>
      cases h
      obtain ⟨passes, hpasses⟩ := fits_compares htyped hfits
      refine ⟨passes, ?_, facts, ?_, hhold⟩
      · simp [decideNode, hread, hpasses]
      · split <;> rfl
    · split at h <;> cases h
  | enterArm edge => cases hsuccessors

end Node

/-! ## The facts that arrive at a node -/

/-- The facts of a node hold of the root. -/
def Arrives (incoming : Incoming) (root : ConcreteValue) (position : Nat) : Prop :=
  ∃ facts, incoming[position]? = some (some facts) ∧ FactsHold root facts

def AllSized (unions : List ConcreteUnion) (incoming : Incoming) : Prop :=
  ∀ (position : Nat) facts, incoming[position]? = some (some facts) → Sized unions facts

/-- What arrives at a node is merged with what has arrived there before. -/
def joined (previous : Option (List PlaceFact)) (arriving : List PlaceFact) : List PlaceFact :=
  match previous with
  | none => arriving
  | some existing => mergeGuards existing arriving

section Propagate

variable {incoming next : Incoming} {position target : Nat} {facts : Option (List PlaceFact)}
variable {span : Span} {unions : List ConcreteUnion} {root : ConcreteValue}

theorem propagateSelection_cases
    (h : propagateSelection incoming position target facts span = .ok next) :
    target < position ∧ ∃ previous, incoming[target]? = some previous ∧
      ((facts = none ∧ next = incoming) ∨ ∃ arriving, facts = some arriving ∧
        next = incoming.set target (some (joined previous arriving))) := by
  refine ⟨propagateSelection_lt h, ?_⟩
  unfold propagateSelection at h
  split at h
  · cases h
  · split at h
    · cases h
    · next previous hprevious =>
      cases h
      exact ⟨previous, hprevious, .inl ⟨rfl, rfl⟩⟩
    · next arriving hprevious =>
      cases h
      exact ⟨none, hprevious, .inr ⟨arriving, rfl, rfl⟩⟩
    · next existing arriving hprevious =>
      cases h
      exact ⟨some existing, hprevious, .inr ⟨arriving, rfl, rfl⟩⟩

theorem propagateSelection_other
    (h : propagateSelection incoming position target facts span = .ok next) {other : Nat}
    (hother : position ≤ other) : next[other]? = incoming[other]? := by
  obtain ⟨hlt, previous, -, hcases⟩ := propagateSelection_cases h
  rcases hcases with ⟨-, rfl⟩ | ⟨arriving, -, rfl⟩
  · rfl
  · exact List.getElem?_set_ne (by omega)

section

variable (hsized : AllSized unions incoming)
    (harriving : ∀ arriving, facts = some arriving → Sized unions arriving)
    (h : propagateSelection incoming position target facts span = .ok next)

include hsized harriving h

theorem propagateSelection_sized : AllSized unions next := by
  obtain ⟨-, previous, hprevious, hcases⟩ := propagateSelection_cases h
  rcases hcases with ⟨-, rfl⟩ | ⟨arriving, hfacts, rfl⟩
  · exact hsized
  · intro other found hfound
    by_cases heq : target = other
    · subst heq
      rw [List.getElem?_set_self (List.getElem?_eq_some_iff.mp hprevious).1] at hfound
      cases hfound
      cases previous with
      | none => exact harriving arriving hfacts
      | some existing => exact (hsized target existing hprevious).merge (harriving arriving hfacts)
    · rw [List.getElem?_set_ne heq] at hfound
      exact hsized other found hfound

/-- Both what had arrived and what arrives now are in the facts after. -/
theorem propagateSelection_arrives :
    (∀ other, Arrives incoming root other → Arrives next root other) ∧
      ∀ arriving, facts = some arriving → FactsHold root arriving → Arrives next root target := by
  obtain ⟨-, previous, hprevious, hcases⟩ := propagateSelection_cases h
  rcases hcases with ⟨hfacts, rfl⟩ | ⟨arriving, hfacts, rfl⟩
  · refine ⟨fun _ harrives => harrives, fun arriving hsome _ => ?_⟩
    rw [hfacts] at hsome
    cases hsome
  · have hin := (List.getElem?_eq_some_iff.mp hprevious).1
    have hself : (incoming.set target (some (joined previous arriving)))[target]?
        = some (some (joined previous arriving)) := List.getElem?_set_self hin
    constructor
    · rintro other ⟨found, hfound, hhold⟩
      by_cases heq : target = other
      · subst heq
        obtain rfl := Option.some.inj (hprevious.symm.trans hfound)
        refine ⟨_, hself, FactsHold.merge (hsized target found hfound) (harriving arriving hfacts) ?_⟩
        exact .inl hhold
      · exact ⟨found, (List.getElem?_set_ne heq).trans hfound, hhold⟩
    · intro other hother hhold
      obtain rfl := Option.some.inj (hfacts.symm.trans hother)
      refine ⟨_, hself, ?_⟩
      cases previous with
      | none => exact hhold
      | some existing =>
        exact FactsHold.merge (hsized target existing hprevious) (harriving arriving hfacts)
          (.inr hhold)

end

end Propagate

/-! ## Examining the nodes -/

section Examine

variable {nodes : List OwnedDecisionNode} {rootType : TypeRef} {unions : List ConcreteUnion}
variable {records : List ConcreteRecord} {span : Span} {root : ConcreteValue}

/-- A node that was examined with the facts it has. -/
def ExaminedWith (nodes : List OwnedDecisionNode) (rootType : TypeRef) (unions : List ConcreteUnion)
    (records : List ConcreteRecord) (span : Span) (incoming : Incoming) (position : Nat) : Prop :=
  ∃ node facts branches, nodes[position]? = some node ∧ incoming[position]? = some (some facts) ∧
    Sized unions facts ∧
    decisionBranches rootType facts unions span records node = .ok branches ∧
    ∀ yes no, successors node = some (yes, no) → yes < position ∧ no < position

/-- What examining a node does: its own facts and those of later nodes stay, and what holds
at it holds where its test leads. -/
structure ExamineStep (nodes : List OwnedDecisionNode) (rootType : TypeRef)
    (unions : List ConcreteUnion) (records : List ConcreteRecord) (span : Span)
    (incoming next : Incoming) (position : Nat) : Prop where
  examined : ExaminedWith nodes rootType unions records span incoming position
  sized : AllSized unions next
  later : ∀ other, position ≤ other → next[other]? = incoming[other]?
  keeps : ∀ root other, Arrives incoming root other → Arrives next root other
  leads : ∀ root, HasType unions records root rootType → Arrives incoming root position →
    ∀ node target, nodes[position]? = some node → decideNode root node = some (.goto target) →
      Arrives next root target

theorem examineNode_cases {incoming next : Incoming} {position : Nat}
    (h : examineNode nodes rootType unions span records incoming position = .ok next) :
    ∃ node facts branches, nodes[position]? = some node ∧ incoming[position]? = some (some facts) ∧
      decisionBranches rootType facts unions span records node = .ok branches ∧
      ((∃ edge, node = .enterArm edge ∧ next = incoming) ∨
        ∃ yes no first, successors node = some (yes, no) ∧
          propagateSelection incoming position yes branches.yes span = .ok first ∧
          propagateSelection first position no branches.no span = .ok next) := by
  unfold examineNode at h
  split at h
  · cases h
  · next node facts hnode hfacts =>
    obtain ⟨branches, hbranches, h⟩ := Except.peel h
    refine ⟨node, facts, branches, hnode, hfacts, hbranches, ?_⟩
    cases node with
    | enterArm edge =>
      cases h
      exact .inl ⟨edge, rfl, rfl⟩
    | testVariant place variant yes no | testListLength place test yes no
    | testLiteral place literal yes no =>
      obtain ⟨first, hyes, hno⟩ := Except.peel h
      exact .inr ⟨yes, no, first, rfl, hyes, hno⟩
  · cases h

theorem examineNode_step {incoming next : Incoming} {position : Nat}
    (hsized : AllSized unions incoming)
    (h : examineNode nodes rootType unions span records incoming position = .ok next) :
    ExamineStep nodes rootType unions records span incoming next position := by
  obtain ⟨node, facts, branches, hnode, hfacts, hbranches, hcases⟩ := examineNode_cases h
  have hexamined : ExaminedWith nodes rootType unions records span incoming position :=
    ⟨node, facts, branches, hnode, hfacts, hsized position facts hfacts, hbranches,
      fun yes no hsuccessors => examineNode_successors h hnode hsuccessors⟩
  rcases hcases with ⟨edge, rfl, rfl⟩ | ⟨yes, no, first, hsuccessors, hyes, hno⟩
  · refine ⟨hexamined, hsized, fun _ _ => rfl, fun _ _ harrives => harrives, ?_⟩
    intro root _ _ other target hother hgoes
    cases hnode.symm.trans hother
    cases hgoes
  · obtain ⟨hsizedYes, hsizedNo⟩ :=
      decisionBranches_sized (hsized position facts hfacts) hbranches
    have hsizedFirst := propagateSelection_sized hsized hsizedYes hyes
    refine ⟨hexamined, propagateSelection_sized hsizedFirst hsizedNo hno, ?_, ?_, ?_⟩
    · intro other hother
      rw [propagateSelection_other hno hother, propagateSelection_other hyes hother]
    · intro root other harrives
      exact (propagateSelection_arrives hsizedFirst hsizedNo hno).1 other
        ((propagateSelection_arrives hsized hsizedYes hyes).1 other harrives)
    · rintro root hroot ⟨facts', hfacts', hhold⟩ other target hother hgoes
      cases hnode.symm.trans hother
      cases hfacts.symm.trans hfacts'
      obtain ⟨passes, hpasses, refined, hrefined, hrefinedHold⟩ :=
        decisionBranches_admits hhold hroot hbranches hsuccessors
      cases hgoes.symm.trans hpasses
      cases passes with
      | true =>
        exact (propagateSelection_arrives hsizedFirst hsizedNo hno).1 _
          ((propagateSelection_arrives hsized hsizedYes hyes).2 refined hrefined hrefinedHold)
      | false =>
        exact (propagateSelection_arrives hsizedFirst hsizedNo hno).2 refined hrefined hrefinedHold

theorem range_succ_reverse (count : Nat) :
    (List.range (count + 1)).reverse = count :: (List.range count).reverse := by
  rw [List.range_succ, List.reverse_append, List.reverse_singleton, List.singleton_append]

/-- Examining the nodes from the last to the first: a node's facts stay once it is examined,
and in the end they hold where a test leads if they hold at the test. -/
theorem examineNodes_run : ∀ (count : Nat) (incoming final : Incoming), AllSized unions incoming →
    (List.range count).reverse.foldlM (examineNode nodes rootType unions span records) incoming
      = .ok final →
    (∀ other, count ≤ other → final[other]? = incoming[other]?) ∧
    (∀ root other, Arrives incoming root other → Arrives final root other) ∧
    ∀ position, position < count →
      ExaminedWith nodes rootType unions records span final position ∧
      ∀ root, HasType unions records root rootType → Arrives final root position →
        ∀ node target, nodes[position]? = some node → decideNode root node = some (.goto target) →
          Arrives final root target := by
  intro count
  induction count with
  | zero =>
    intro incoming final _ h
    cases h
    exact ⟨fun _ _ => rfl, fun _ _ harrives => harrives, fun position hposition => by omega⟩
  | succ count ih =>
    intro incoming final hsized h
    rw [range_succ_reverse, List.foldlM_cons] at h
    obtain ⟨next, hnext, h⟩ := Except.peel h
    have hstep := examineNode_step hsized hnext
    obtain ⟨hlater, hkeeps, hearlier⟩ := ih next final hstep.sized h
    have hsame : final[count]? = incoming[count]? :=
      (hlater count (Nat.le_refl _)).trans (hstep.later count (Nat.le_refl _))
    refine ⟨fun other hother => ?_, fun root other harrives => ?_, fun position hposition => ?_⟩
    · exact (hlater other (by omega)).trans (hstep.later other (by omega))
    · exact hkeeps root other (hstep.keeps root other harrives)
    · by_cases hlast : position = count
      · subst hlast
        constructor
        · obtain ⟨node, facts, branches, hnode, hfacts, hrest⟩ := hstep.examined
          exact ⟨node, facts, branches, hnode, hsame.trans hfacts, hrest⟩
        · rintro root hroot ⟨facts, hfacts, hhold⟩ node target hnode hgoes
          have harrives : Arrives incoming root position := ⟨facts, hsame.symm.trans hfacts, hhold⟩
          exact hkeeps root target (hstep.leads root hroot harrives node target hnode hgoes)
      · exact hearlier position (by omega)

end Examine

/-! ## The walk -/

section Walk

variable {selection : OwnedSelection} {scrutinee : KnownValue} {unions : List ConcreteUnion}
variable {records : List ConcreteRecord} {incoming : Incoming} {root : ConcreteValue}

theorem selectionPossibilities_visits
    (h : selectionPossibilities selection scrutinee unions records = .ok incoming)
    (hroot : HasType unions records root scrutinee.valueType) {position : Nat}
    (hvisits : WalkVisits selection root position) :
    Arrives incoming root position ∧
      ExaminedWith selection.nodes scrutinee.valueType unions records scrutinee.span incoming
        position := by
  unfold selectionPossibilities at h
  obtain ⟨_, hentry, h⟩ := Except.peel h
  rw [require_eq_ok, decide_eq_true_eq] at hentry
  let initial : Incoming := (List.replicate selection.nodes.length none).set selection.entry (some [])
  have hinitial : initial[selection.entry]? = some (some []) :=
    List.getElem?_set_self (by simpa using hentry)
  have hsized : AllSized unions initial := by
    intro other facts hfacts
    by_cases heq : selection.entry = other
    · subst heq
      cases hinitial.symm.trans hfacts
      exact fun fact hfact => absurd hfact List.not_mem_nil
    · have hnone := (List.getElem?_set_ne heq).symm.trans hfacts
      rw [List.getElem?_replicate] at hnone
      split at hnone <;> cases hnone
  obtain ⟨-, hkeeps, hexamined⟩ := examineNodes_run selection.nodes.length initial incoming hsized h
  have hinside : Arrives incoming root position ∧ position < selection.nodes.length := by
    induction hvisits with
    | entry =>
      refine ⟨hkeeps root _ ⟨[], hinitial, fun fact hfact => ?_⟩, hentry⟩
      exact absurd hfact List.not_mem_nil
    | goto before hnode hgoes ih =>
      rename_i previous target node
      obtain ⟨harrives, hbound⟩ := ih
      obtain ⟨⟨found, facts, branches, hfound, hfacts, -, hbranches, hlower⟩, hleads⟩ :=
        hexamined previous hbound
      have harrivesNext := hleads root hroot harrives node target hnode hgoes
      refine ⟨harrivesNext, ?_⟩
      obtain ⟨arriving, harriving, -⟩ := harrivesNext
      cases hnode.symm.trans hfound
      obtain ⟨facts', hfacts', hhold⟩ := harrives
      cases hfacts.symm.trans hfacts'
      cases hsuccessors : successors node with
      | none =>
        cases node with
        | enterArm edge => cases hgoes
        | _ => cases hsuccessors
      | some pair =>
        obtain ⟨yes, no⟩ := pair
        obtain ⟨hyes, hno⟩ := hlower yes no hsuccessors
        obtain ⟨passes, hpasses, -⟩ := decisionBranches_admits hhold hroot hbranches hsuccessors
        cases hgoes.symm.trans hpasses
        split <;> omega
  exact ⟨hinside.1, (hexamined position hinside.2).1⟩

/-- The walk goes down through the nodes. -/
theorem ExaminedWith.descends {span : Span} {position : Nat} {rootType : TypeRef}
    (hroot : HasType unions records root rootType) (harrives : Arrives incoming root position)
    (h : ExaminedWith selection.nodes rootType unions records span incoming position) :
    NodeGraph.Descends (decideNode root) selection.nodes position := by
  obtain ⟨node, facts, branches, hnode, hfacts, -, hbranches, hlower⟩ := h
  obtain ⟨facts', hfacts', hhold⟩ := harrives
  cases hfacts.symm.trans hfacts'
  cases hsuccessors : successors node with
  | none =>
    cases node with
    | enterArm edge =>
      refine ⟨.enterArm edge, .done edge, hnode, rfl, fun target htarget => ?_⟩
      cases htarget
    | _ => cases hsuccessors
  | some pair =>
    obtain ⟨yes, no⟩ := pair
    obtain ⟨passes, hpasses, -⟩ := decisionBranches_admits hhold hroot hbranches hsuccessors
    obtain ⟨hyes, hno⟩ := hlower yes no hsuccessors
    refine ⟨node, _, hnode, hpasses, fun target htarget => ?_⟩
    cases htarget
    split <;> assumption

end Walk

/-! ## The reached edge -/

/-- The values an edge's operations know: the root's and those projected so far. -/
abbrev ProjectedValues := Lower.ValueId → Option ConcreteValue

def projectedValue (values : ProjectedValues) : OwnedValueOperation → Option ConcreteValue
  | .readRecordFieldDefinition field argument =>
      (values (argumentValue argument)).bind (·.recordField field)
  | .payloadDefinition field source => (values source).bind (·.variantField field)
  | .listElementDefinition index source => (values source).bind (·.element index)
  | .listSuffixDefinition argument skip => (values (argumentValue argument)).bind (·.suffix skip)
  | _ => none

def projectOperation (values : ProjectedValues) : OwnershipOperation → Option ProjectedValues
  | .defineValue definition => do
      let value ← projectedValue values definition.operation
      some fun id => if id = definition.id then some value else values id
  | .acquireOwner _ _ _ | .dropOwner _ _ => some values
  | .executeJoin _ | .executeLoop _ => none

/-- The operations of an edge on the root; `none` when one of them reads what is not there. -/
def projectEdge (selection : OwnedSelection) (edge : OwnedSelectionEdge) (root : ConcreteValue) :
    Option ProjectedValues :=
  edge.operations.foldlM projectOperation
    fun id => if id = argumentValue selection.scrutinee then some root else none

section Edge

variable {context : Context} {scrutinee : OwnedArgument} {facts : List PlaceFact}
variable {root : ConcreteValue} {rootType : TypeRef} {firstValue : Nat} {state : VerificationState}
variable {values : ProjectedValues}

/-- The values known on an edge are those of the verifier: each has its type and, when it
has a place, is the value there. -/
structure Projected (context : Context) (scrutinee : OwnedArgument) (root : ConcreteValue)
    (rootType : TypeRef) (firstValue : Nat) (state : VerificationState) (values : ProjectedValues) :
    Prop where
  first : state.facts.firstValue = firstValue
  rootKnown : ∃ known, state.facts.valueEntry (argumentValue scrutinee) = some known ∧
    known.valueType = rootType
  rootBefore : argumentValue scrutinee < firstValue
  rootValue : values (argumentValue scrutinee) = some root
  projected : ∀ id known, firstValue ≤ id → state.facts.valueEntry id = some known →
    ∃ value, values id = some value ∧
      HasType context.unions context.records value known.valueType ∧
      ∀ place, known.projectionPlace = some place →
        place.valueType = known.valueType ∧ readPlace root place = some value

/-- The parent of a projection has the value of its verified place. -/
structure ParentRead (context : Context) (facts : List PlaceFact) (root : ConcreteValue)
    (parent : ProjectionParent) (valueType : TypeRef) (value : ConcreteValue) : Prop where
  facts : parent.facts = facts
  placed : parent.place.valueType = valueType
  read : readPlace root parent.place = some value
  typed : HasType context.unions context.records value valueType

theorem Projected.parent (h : Projected context scrutinee root rootType firstValue state values)
    (hroot : HasType context.unions context.records root rootType) {span : Span} {id : Nat}
    {parent : ProjectionParent} (hallowed : edgeValueAllowed id (argumentValue scrutinee) firstValue)
    (hparent : verifiedProjectionParent context state (.selectionProjection scrutinee facts) span id
      = .ok parent) :
    ∃ known value, state.facts.valueEntry id = some known ∧ values id = some value ∧
      ParentRead context facts root parent known.valueType value := by
  unfold verifiedProjectionParent at hparent
  obtain ⟨place, hplace, hparent⟩ := Outcome.peel hparent
  obtain ⟨known, hknown, hparent⟩ := Outcome.peel hparent
  rw [Outcome.liftM_eq_ok] at hplace hknown
  iterate 4 obtain ⟨_, -, hparent⟩ := Outcome.peel hparent
  cases hparent
  unfold valuePlace at hplace
  obtain ⟨entry, hentry, hroute⟩ := Except.peel hplace
  rw [knownValue, orVerificationError_eq_ok] at hknown hentry
  obtain rfl : entry = known := Option.some.inj (hentry.symm.trans hknown)
  simp only at hroute
  split at hroute
  · next hid =>
    subst hid
    cases hroute
    obtain ⟨other, hother, htype⟩ := h.rootKnown
    obtain rfl : other = entry := Option.some.inj (hother.symm.trans hknown)
    exact ⟨other, root, hknown, h.rootValue, rfl, rfl, rfl, htype ▸ hroot⟩
  · next hid =>
    rw [orVerificationError_eq_ok] at hroute
    have hlocal : firstValue ≤ id := by
      unfold edgeValueAllowed at hallowed
      rw [if_neg hid] at hallowed
      exact of_decide_eq_true hallowed
    obtain ⟨value, hvalue, htyped, hplaced⟩ := h.projected id entry hlocal hknown
    obtain ⟨hsame, hread⟩ := hplaced place hroute
    exact ⟨entry, value, hknown, hvalue, rfl, hsame, hread, htyped⟩

variable {definition : OwnedDefinition} {block : VerificationFacts} {after : VerificationState}

theorem operationValue_reads (h : Projected context scrutinee root rootType firstValue state values)
    (hroot : HasType context.unions context.records root rootType) (hhold : FactsHold root facts)
    {known : KnownValue} (hfirst : block.firstValue = firstValue)
    (hallowed : edgeOperationAllowed (argumentValue scrutinee) block (.defineValue definition))
    (hvalue : operationValue context state (.selectionProjection scrutinee facts) definition =
      .ok known) :
    ∃ value, projectedValue values definition.operation = some value ∧
      HasType context.unions context.records value known.valueType ∧
      ∀ place, known.projectionPlace = some place →
        place.valueType = known.valueType ∧ readPlace root place = some value := by
  obtain ⟨id, valueType, operation, result, span⟩ := definition
  cases operation with
  | readRecordFieldDefinition field argument =>
    simp only [operationValue, recordProjectionValue] at hvalue
    obtain ⟨entry, hentry, hvalue⟩ := Outcome.peel hvalue
    obtain ⟨owner, howner, hvalue⟩ := Outcome.peel hvalue
    obtain ⟨layout, hlayout, hvalue⟩ := Outcome.peel hvalue
    obtain ⟨_, -, hvalue⟩ := Outcome.peel hvalue
    obtain ⟨expected, hexpected, hvalue⟩ := Outcome.peel hvalue
    obtain ⟨parent, hparent, hvalue⟩ := Outcome.peel hvalue
    rw [Outcome.liftM_eq_ok] at hentry howner hlayout hexpected hvalue
    obtain ⟨hsame, rfl⟩ := definitionValue_eq_ok.mp hvalue
    obtain ⟨other, source, hother, hsource, hread⟩ := h.parent hroot (hfirst ▸ hallowed) hparent
    rw [knownValue, orVerificationError_eq_ok] at hentry
    obtain rfl : other = entry := Option.some.inj (hother.symm.trans hentry)
    have htyped := hread.typed
    rw [recordOwner_eq_ok.mp howner] at htyped
    obtain ⟨value, hfield, hfieldTyped⟩ := recordField_reads htyped hlayout hexpected
    refine ⟨value, ?_, hsame ▸ hfieldTyped, fun place hplace => ?_⟩
    · rw [projectedValue, hsource, Option.bind_some, hfield]
    · cases hplace
      refine ⟨hsame, ?_⟩
      rw [readPlace, readRoute, hread.read, Option.bind_some, hfield]
  | payloadDefinition field source =>
    simp only [operationValue, payloadProjectionValue] at hvalue
    obtain ⟨parent, hparent, hvalue⟩ := Outcome.peel hvalue
    obtain ⟨types, hshape, hvalue⟩ := Outcome.peel hvalue
    obtain ⟨payload, hpayload, hvalue⟩ := Outcome.peel hvalue
    obtain ⟨_, howner, hvalue⟩ := Outcome.peel hvalue
    obtain ⟨possible, hpossible, hvalue⟩ := Outcome.peel hvalue
    obtain ⟨_, -, hvalue⟩ := Outcome.peel hvalue
    obtain ⟨_, hsingle, hvalue⟩ := Outcome.peel hvalue
    rw [Outcome.liftM_eq_ok] at hshape hpayload howner hpossible hsingle hvalue
    rw [orVerificationError_eq_ok] at hpayload
    rw [require_eq_ok] at howner hsingle
    rw [decide_eq_true_eq] at howner
    obtain ⟨hsame, rfl⟩ := definitionValue_eq_ok.mp hvalue
    obtain ⟨entry, parentValue, -, hsource, hread⟩ := h.parent hroot (hfirst ▸ hallowed) hparent
    rw [hread.facts] at hpossible
    have htyped := hread.typed
    rw [← hread.placed] at htyped
    obtain ⟨position, fields, rfl, hunion⟩ :=
      variantPossibilities_admits hhold howner hread.read htyped hpossible
    obtain ⟨value, hfield, hfieldTyped⟩ := variantField_reads hunion rfl hsingle hshape hpayload
    refine ⟨value, ?_, hsame ▸ hfieldTyped, fun place hplace => ?_⟩
    · rw [projectedValue, hsource, Option.bind_some, hfield]
    · cases hplace
      refine ⟨rfl, ?_⟩
      rw [readPlace, readRoute, hread.read, Option.bind_some, hfield]
  | listElementDefinition index source =>
    simp only [operationValue, elementProjectionValue] at hvalue
    obtain ⟨parent, hparent, hvalue⟩ := Outcome.peel hvalue
    obtain ⟨element, helement, hvalue⟩ := Outcome.peel hvalue
    obtain ⟨_, hbound, hvalue⟩ := Outcome.peel hvalue
    rw [Outcome.liftM_eq_ok] at helement hbound hvalue
    obtain ⟨hsame, rfl⟩ := definitionValue_eq_ok.mp hvalue
    obtain ⟨entry, parentValue, -, hsource, hread⟩ := h.parent hroot (hfirst ▸ hallowed) hparent
    rw [hread.facts] at hbound
    have htyped := hread.typed
    rw [← hread.placed, listElementType_eq_ok.mp helement] at htyped
    obtain ⟨value, hget, hgetTyped⟩ := element_reads hhold hread.read htyped hbound
    refine ⟨value, ?_, hsame ▸ hgetTyped, fun place hplace => ?_⟩
    · rw [projectedValue, hsource, Option.bind_some, hget]
    · cases hplace
      refine ⟨rfl, ?_⟩
      rw [readPlace, readRoute, hread.read, Option.bind_some, hget]
  | listSuffixDefinition argument skip =>
    simp only [operationValue, suffixProjectionType] at hvalue
    obtain ⟨expected, hexpected, hvalue⟩ := Outcome.peel hvalue
    obtain ⟨_, -, hexpected⟩ := Outcome.peel hexpected
    obtain ⟨parent, hparent, hexpected⟩ := Outcome.peel hexpected
    obtain ⟨element, helement, hexpected⟩ := Outcome.peel hexpected
    obtain ⟨_, hguard, hexpected⟩ := Outcome.peel hexpected
    rw [Outcome.liftM_eq_ok] at helement hguard hvalue
    rw [require_eq_ok, decide_eq_true_eq] at hguard
    cases hexpected
    obtain ⟨hsame, rfl⟩ := definitionValue_eq_ok.mp hvalue
    obtain ⟨entry, parentValue, -, hsource, hread⟩ := h.parent hroot (hfirst ▸ hallowed) hparent
    rw [hread.facts] at hguard
    have htyped := hread.typed
    rw [← hread.placed, listElementType_eq_ok.mp helement] at htyped
    obtain ⟨value, hsuffix, hsuffixTyped⟩ := suffix_reads hhold hread.read htyped hguard
    refine ⟨value, ?_, hsame ▸ hsuffixTyped, fun place hplace => ?_⟩
    · rw [projectedValue, hsource, Option.bind_some, hsuffix]
    · cases hplace
  | _ => cases hallowed

theorem Projected.of_facts (hfacts : after.facts = state.facts)
    (h : Projected context scrutinee root rootType firstValue state values) :
    Projected context scrutinee root rootType firstValue after values := by
  obtain ⟨hfirst, hknown, hbefore, hvalue, hprojected⟩ := h
  rw [← hfacts] at hfirst hknown hprojected
  exact ⟨hfirst, hknown, hbefore, hvalue, hprojected⟩

theorem introduceResult_facts {introduced : Option OwnerId}
    (h : introduceResult state definition introduced = .ok after) : after.facts = state.facts := by
  cases introduced with
  | none =>
    cases h
    rfl
  | some id =>
    obtain ⟨-, rfl⟩ := introduceOwner_eq_ok.mp h
    rfl

theorem verifyOperation_projects
    (h : Projected context scrutinee root rootType firstValue state values)
    (hroot : HasType context.unions context.records root rootType) (hhold : FactsHold root facts)
    (hfirst : block.firstValue = firstValue) {operation : OwnershipOperation}
    {pending : List PendingControl} {after : VerifiedBlock}
    (hallowed : edgeOperationAllowed (argumentValue scrutinee) block operation)
    (hverified : verifyOperation context (.selectionProjection scrutinee facts) ⟨state, pending⟩
      operation = .ok after) :
    ∃ values', projectOperation values operation = some values' ∧
      Projected context scrutinee root rootType firstValue after.state values' := by
  cases operation with
  | executeJoin join => cases hallowed
  | executeLoop loop => cases hallowed
  | acquireOwner id borrow span =>
    obtain ⟨_, -, hverified⟩ := Outcome.peel hverified
    obtain ⟨next, hnext, hverified⟩ := Outcome.peel hverified
    rw [Outcome.liftM_eq_ok] at hnext
    obtain ⟨-, rfl⟩ := introduceOwner_eq_ok.mp hnext
    cases hverified
    exact ⟨values, rfl, h.of_facts (by rfl)⟩
  | dropOwner id span =>
    obtain ⟨next, hnext, hverified⟩ := Outcome.peel hverified
    rw [Outcome.liftM_eq_ok] at hnext
    cases hverified
    obtain ⟨slot, -, hslot⟩ := Except.peel hnext
    cases hslot
    refine ⟨values, rfl, h.of_facts ?_⟩
    cases slot <;> rfl
  | defineValue definition =>
    obtain ⟨next, hnext, hverified⟩ := Outcome.peel hverified
    cases hverified
    unfold verifyDefinition verifyDefinitionType at hnext
    obtain ⟨candidate, hcandidate, hnext⟩ := Outcome.peel hnext
    obtain ⟨_, hid, hcandidate⟩ := Outcome.peel hcandidate
    obtain ⟨_, -, hcandidate⟩ := Outcome.peel hcandidate
    obtain ⟨moved, hmoved, hnext⟩ := Outcome.peel hnext
    obtain ⟨introduced, -, hnext⟩ := Outcome.peel hnext
    obtain ⟨owned, howned, hnext⟩ := Outcome.peel hnext
    rw [Outcome.liftM_eq_ok] at hid howned
    rw [require_eq_ok, decide_eq_true_eq] at hid
    replace hid : definition.id = state.facts.firstValue + state.facts.values.length := hid
    cases hnext
    obtain ⟨value, hvalue, htyped, hplaced⟩ :=
      operationValue_reads h hroot hhold hfirst hallowed hcandidate
    obtain rfl : moved = state := edgeOperation_moved hallowed hmoved
    have hfacts : owned.facts = moved.facts := introduceResult_facts howned
    have hentry : ∀ id, ((noteParameter owned definition).withValue candidate).facts.valueEntry id
        = if id = definition.id then some candidate else moved.facts.valueEntry id := by
      intro id
      have hend : (noteParameter owned definition).blockEnd.nextValue = definition.id := by
        rw [blockEnd_noteParameter, hid]
        show owned.facts.firstValue + owned.facts.values.length = _
        rw [hfacts]
      rw [valueEntry_withValue, hend, valueEntry_noteParameter, hfacts]
    have hnew : firstValue ≤ definition.id := by
      rw [hid, h.first]
      exact Nat.le_add_right _ _
    have hother : argumentValue scrutinee ≠ definition.id :=
      Nat.ne_of_lt (Nat.lt_of_lt_of_le h.rootBefore hnew)
    refine ⟨_, by rw [projectOperation, hvalue]; rfl, ?_, ?_, h.rootBefore, ?_, ?_⟩
    · have hsame : (noteParameter owned definition).facts.firstValue = owned.facts.firstValue := by
        unfold noteParameter
        split <;> rfl
      show (noteParameter owned definition).facts.firstValue = firstValue
      rw [hsame, hfacts, h.first]
    · obtain ⟨known, hknown, htype⟩ := h.rootKnown
      refine ⟨known, ?_, htype⟩
      rw [hentry, if_neg hother, hknown]
    · simp only [if_neg hother]
      exact h.rootValue
    · intro id known hlocal hknown
      rw [hentry] at hknown
      by_cases heq : id = definition.id
      · rw [if_pos heq] at hknown
        cases hknown
        exact ⟨value, if_pos heq, htyped, hplaced⟩
      · rw [if_neg heq] at hknown
        obtain ⟨other, hother, hrest⟩ := h.projected id known hlocal hknown
        exact ⟨other, (if_neg heq).trans hother, hrest⟩

theorem verifyOperations_projects (hroot : HasType context.unions context.records root rootType)
    (hhold : FactsHold root facts) (hfirst : block.firstValue = firstValue)
    (operations : List OwnershipOperation) :
    ∀ {values : ProjectedValues} {state after : VerifiedBlock},
      Projected context scrutinee root rootType firstValue state.state values →
      operations.all (edgeOperationAllowed (argumentValue scrutinee) block) = true →
      operations.foldlM (verifyOperation context (.selectionProjection scrutinee facts)) state
        = .ok after →
      ∃ values', operations.foldlM projectOperation values = some values' := by
  induction operations with
  | nil => exact fun _ _ _ => ⟨_, rfl⟩
  | cons operation operations ih =>
    intro values state after h hallowed hverified
    rw [List.foldlM_cons] at hverified
    rw [List.all_cons, Bool.and_eq_true] at hallowed
    obtain ⟨next, hnext, hverified⟩ := Outcome.peel hverified
    obtain ⟨values', hvalues, hprojected⟩ :=
      verifyOperation_projects h hroot hhold hfirst hallowed.1 hnext
    obtain ⟨final, hfinal⟩ := ih hprojected hallowed.2 hverified
    refine ⟨final, ?_⟩
    rw [List.foldlM_cons, hvalues, Option.bind_eq_bind, Option.bind_some, hfinal]

end Edge

/-- The projections on a verified edge read what is there, in a value the edge's facts hold of. -/
theorem verifySelectionEdge_projects {context : Context} {selection : OwnedSelection}
    {scrutinee : KnownValue} {facts : List PlaceFact} {root : ConcreteValue}
    {state : VerificationState} {cursor reached : BlockEnd} {span : Span}
    {edge : OwnedSelectionEdge} {target : SelectionTarget}
    (hroot : HasType context.unions context.records root scrutinee.valueType)
    (hhold : FactsHold root facts) (hs : Ordered state) (hcursor : state.blockEnd.le cursor)
    (hscrutinee : knownValue state.facts (argumentValue selection.scrutinee) compilerSpan
      = .ok scrutinee)
    (h : verifySelectionEdge context selection facts span
      (enter state cursor.nextValue cursor.nextOwner) edge target = .ok reached) :
    ∃ values, projectEdge selection edge root = some values := by
  unfold verifySelectionEdge at h
  obtain ⟨_, hallowed, h⟩ := Outcome.peel h
  obtain ⟨verified, hverified, -⟩ := Outcome.peel h
  rw [Outcome.liftM_eq_ok, require_eq_ok] at hallowed
  rw [knownValue, orVerificationError_eq_ok] at hscrutinee
  have hbefore : argumentValue selection.scrutinee < cursor.nextValue :=
    Nat.lt_of_lt_of_le (Ordered.value_lt hscrutinee) hcursor.1
  refine verifyOperations_projects hroot hhold rfl edge.operations ?_ hallowed hverified
  refine ⟨rfl, ⟨scrutinee, ?_, rfl⟩, hbefore, if_pos rfl, fun id known hlocal hknown => ?_⟩
  · rw [valueEntry_enter hs hcursor, hscrutinee]
  · unfold VerificationFacts.valueEntry at hknown
    rw [if_pos hlocal] at hknown
    cases hknown

/-! ## Accepted selections -/

/-- What an accepted selection guarantees of a root: the facts of every node on the root's
walk hold, what the tests on it read is there, it ends at an arm, and what the operations on
that arm's verified edge read is there. -/
structure SelectionReads (context : Context) (selection : OwnedSelection) (scrutinee : KnownValue)
    (incoming : Incoming) (root : ConcreteValue) : Prop where
  facts : ∀ position, WalkVisits selection root position →
    ∃ facts, incoming[position]? = some (some facts) ∧ FactsHold root facts
  tests : ∀ (position : Nat) node place, WalkVisits selection root position →
    selection.nodes[position]? = some node → testedPlace node = some place →
    ∃ value, readPlace root place = some value ∧
      HasType context.unions context.records value place.valueType
  arm : ∃ (position : Nat) (edge : OwnedSelectionEdge), WalkVisits selection root position ∧
    selection.nodes[position]? = some (.enterArm edge) ∧
    ∀ fuel, selection.nodes.length ≤ fuel → walkSelection selection root fuel = some edge
  edge : ∀ (position : Nat) facts edge state cursor span target reached,
    WalkVisits selection root position → selection.nodes[position]? = some (.enterArm edge) →
    incoming[position]? = some (some facts) → Ordered state → state.blockEnd.le cursor →
    knownValue state.facts (argumentValue selection.scrutinee) compilerSpan = .ok scrutinee →
    verifySelectionEdge context selection facts span
      (enter state cursor.nextValue cursor.nextOwner) edge target = .ok reached →
    ∃ values, projectEdge selection edge root = some values

/-- **An accepted selection reads only what exists**, in every value of its scrutinee's type. -/
theorem selectionPossibilities_reads {context : Context} {selection : OwnedSelection}
    {scrutinee : KnownValue} {incoming : Incoming} {root : ConcreteValue}
    (h : selectionPossibilities selection scrutinee context.unions context.records = .ok incoming)
    (hroot : HasType context.unions context.records root scrutinee.valueType) :
    SelectionReads context selection scrutinee incoming root := by
  refine ⟨fun position hvisits => (selectionPossibilities_visits h hroot hvisits).1, ?_, ?_, ?_⟩
  · intro position node place hvisits hnode hplace
    obtain ⟨⟨facts, hfacts, hhold⟩, found, facts', branches, hfound, hfacts', -, hbranches, -⟩ :=
      selectionPossibilities_visits h hroot hvisits
    cases hnode.symm.trans hfound
    cases hfacts.symm.trans hfacts'
    exact decisionBranches_reads hhold hroot hbranches hplace
  · obtain ⟨position, node, edge, hvisits, hnode, hdone, hrun⟩ := NodeGraph.run_ends
      fun position hvisits => by
        obtain ⟨harrives, hexamined⟩ := selectionPossibilities_visits h hroot hvisits
        exact hexamined.descends hroot harrives
    have harm : node = .enterArm edge := by
      cases node with
      | enterArm other =>
        cases hdone
        rfl
      | _ =>
        iterate 2 obtain ⟨_, -, hdone⟩ := Option.bind_eq_some_iff.mp hdone
        cases hdone
    have hentry := (selectionPossibilities_tests h).1
    refine ⟨position, edge, hvisits, harm ▸ hnode, fun fuel hfuel => ?_⟩
    exact hrun fuel (Nat.lt_of_lt_of_le hentry hfuel)
  · intro position facts edge state cursor span target reached hvisits hnode hfacts hs hcursor
      hscrutinee hedge
    obtain ⟨⟨facts', hfacts', hhold⟩, -⟩ := selectionPossibilities_visits h hroot hvisits
    cases hfacts.symm.trans hfacts'
    exact verifySelectionEdge_projects hroot hhold hs hcursor hscrutinee hedge

/-- The place of a value of the first union. -/
def matchedUnion : ConcretePatternPlace := ⟨.unionType 0, .matchRoot⟩

/-- Reads the `Int` that the second variant has. -/
def payloadRead : OwnershipOperation :=
  .defineValue ⟨1, .intType, .payloadDefinition ⟨⟨0, 1⟩, 0⟩ 0, .unmanagedResult, compilerSpan⟩

/-- A selection between the two variants of an optional `Int`. -/
def optionalSelection (first second : List OwnershipOperation) : OwnedSelection where
  scrutinee := .unmanagedArgument 0
  nodes := [.enterArm ⟨0, first, []⟩, .enterArm ⟨1, second, []⟩,
    .testVariant matchedUnion ⟨0, 1⟩ 1 0]
  entry := 2

def optionalContext : Context := ⟨1, [], [], [.plainCases [[], [.intType]]], []⟩

def optionalScrutinee : KnownValue := ⟨.unionType 0, compilerSpan, .unmanagedResult, none, none⟩

def optionalFacts : Incoming :=
  [some [⟨matchedUnion, .variantPossibilities [true, false]⟩],
    some [⟨matchedUnion, .variantPossibilities [false, true]⟩], some []]

/-- The dataflow is about tests only: the read on the first arm's edge is accepted, and in
`None` there is nothing to read. -/
theorem selectionPossibilities_accepts_misread :
    ¬ ∀ (context : Context) (selection : OwnedSelection) (scrutinee : KnownValue)
        (incoming : Incoming) (root : ConcreteValue) (position : Nat) (edge : OwnedSelectionEdge),
      selectionPossibilities selection scrutinee context.unions context.records = .ok incoming →
      HasType context.unions context.records root scrutinee.valueType →
      WalkVisits selection root position → selection.nodes[position]? = some (.enterArm edge) →
      ∃ values, projectEdge selection edge root = some values := by
  intro hall
  obtain ⟨values, hvalues⟩ := hall optionalContext (optionalSelection [payloadRead] [])
    optionalScrutinee optionalFacts (.union 0 []) 0 ⟨0, [payloadRead], []⟩ rfl
    (.union rfl rfl .nil) (.goto .entry rfl rfl) rfl
  cases hvalues

/-- The block that has the optional value as its first one. -/
def optionalState : VerificationState := ⟨⟨[], 0, [optionalScrutinee], 0, []⟩, [], []⟩

/-- In `Some(7)` the selection reaches the second arm, whose verified edge reads the payload. -/
theorem selectionPossibilities_reads_optional :
    SelectionReads optionalContext (optionalSelection [] [payloadRead]) optionalScrutinee
        optionalFacts (.union 1 [.int 7]) ∧
      ∃ values, projectEdge (optionalSelection [] [payloadRead]) ⟨1, [payloadRead], []⟩
        (.union 1 [.int 7]) = some values := by
  have hreads : SelectionReads optionalContext (optionalSelection [] [payloadRead])
      optionalScrutinee optionalFacts (.union 1 [.int 7]) :=
    selectionPossibilities_reads rfl
      (.union rfl rfl (.cons (.int (by decide) (by decide)) .nil))
  have hordered : Ordered optionalState := ⟨by decide, by decide, fun _ _ => rfl⟩
  refine ⟨hreads, hreads.edge 1 _ _ optionalState ⟨1, 0⟩ compilerSpan ⟨1, []⟩ ⟨2, 0⟩ ?_ rfl rfl
    hordered ⟨Nat.le_refl _, Nat.le_refl _⟩ rfl rfl⟩
  exact .goto .entry rfl rfl

end Blorp.Verify
