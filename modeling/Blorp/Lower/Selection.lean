import Blorp.Lower.Model
import Blorp.Specialize.Selection

/-!
# Lowered selections

`lower_selection` of `lower/lower.brp`: tests are copied, and an arm's arguments become
borrowed projections of the scrutinee, defined on the edge that enters the arm.
-/

namespace Blorp.Lower

open Check (Span)
open Specialize

structure ProjectedPlace where
  nextValue : Nat
  definitions : List SelectionDefinition
  value : ValueId

/-- The projected value's id is the next one; the parameter carries it. -/
def projectionParameter (parent : ProjectedPlace) (valueType : TypeRef) (span : Span) :
    ValueParameter :=
  ⟨parent.nextValue, valueType, span⟩

def extendProjection (parent : ProjectedPlace) (parameter : ValueParameter)
    (definition : SelectionDefinition) : ProjectedPlace :=
  ⟨parent.nextValue + 1, parent.definitions ++ [definition], parameter.id⟩

section

variable (scrutinee : ValueId) (nextValue : Nat) (span : Span)

mutual

def projectPlace : ConcretePatternPlace → ProjectedPlace
  | ⟨valueType, route⟩ => projectRoute valueType route

def projectRoute (valueType : TypeRef) : ConcretePatternRoute → ProjectedPlace
  | .matchRoot => ⟨nextValue, [], scrutinee⟩
  | .unionField parent field =>
      let projected := projectPlace parent
      let parameter := projectionParameter projected valueType span
      extendProjection projected parameter (.borrowUnionField parameter field projected.value)
  | .recordField parent field =>
      let projected := projectPlace parent
      let parameter := projectionParameter projected valueType span
      extendProjection projected parameter (.borrowRecordField parameter field projected.value)
  | .listElement parent index =>
      let projected := projectPlace parent
      let parameter := projectionParameter projected valueType span
      extendProjection projected parameter (.borrowListElement parameter index projected.value)

end

def projectArgument : ConcretePatternArgument → ProjectedPlace
  | .borrowPlace place => projectPlace scrutinee nextValue span place
  | .copyListSuffix place skipped =>
      let projected := projectPlace scrutinee nextValue span place
      let parameter := projectionParameter projected place.valueType span
      extendProjection projected parameter (.copyListSuffix parameter projected.value skipped)

end

structure ProjectedArguments where
  nextValue : Nat
  definitions : List SelectionDefinition
  values : List ValueId

def projectArguments (scrutinee : ValueId) (nextValue : Nat) (span : Span)
    (arguments : List ConcretePatternArgument) : ProjectedArguments :=
  arguments.foldl
    (fun state argument =>
      let projected := projectArgument scrutinee state.nextValue span argument
      ⟨projected.nextValue, state.definitions ++ projected.definitions,
        state.values ++ [projected.value]⟩)
    ⟨nextValue, [], []⟩

structure LoweredNodes where
  nextValue : Nat
  nodes : List LoweredDecisionNode

def lowerNode (scrutinee : ValueId) (span : Span) (state : LoweredNodes) :
    ConcreteDecisionNode → LoweredNodes
  | .testVariant place variant yes no =>
      { state with nodes := state.nodes ++ [.testVariant place variant yes no] }
  | .testListLength place test yes no =>
      { state with nodes := state.nodes ++ [.testListLength place test yes no] }
  | .testLiteral place literal yes no =>
      { state with nodes := state.nodes ++ [.testLiteral place literal yes no] }
  | .enterArm arm arguments =>
      let projected := projectArguments scrutinee state.nextValue span arguments
      ⟨projected.nextValue,
        state.nodes ++ [.enterArm ⟨arm, projected.definitions, projected.values⟩]⟩

structure BuiltSelection where
  nextValue : Nat
  selection : LoweredSelection

def lowerSelection (selection : ConcreteSelection) (scrutinee : ValueId) (nextValue : Nat)
    (span : Span) : BuiltSelection :=
  let built := selection.nodes.foldl (lowerNode scrutinee span) ⟨nextValue, []⟩
  ⟨built.nextValue, ⟨scrutinee, built.nodes, selection.entry⟩⟩

end Blorp.Lower
