import Blorp.Lib.Worklist
import Blorp.Lib.Entries

/-!
# Instantiation paths

Transient constructor-path boundedness for checking generic instantiation, as
`check/instantiation_paths.brp` computes it.  Controls and symbols are the indices that
the dependency producer issues.

A set of control pairs is a Dict from a dense key to the pair, read here as the
association list it refines (Library.dict_refines).  Int arithmetic wraps at 64 bits.
-/

namespace Blorp.Check

open Fuel

inductive PathOperation where
  | keepPath
  | pushPath (symbol : Int)
  | popPath (symbol : Int)
  deriving DecidableEq

structure InstantiationPath where
  source : Int
  target : Int
  operation : PathOperation
  deriving DecidableEq

inductive PathBoundedness where
  | boundedPaths
  | unboundedPaths (positions : List Int)

structure PathPair where
  source : Int
  target : Int
  deriving DecidableEq

/-- A `Dict[Int, PathPair]`. -/
abbrev PathPairs := List (Int × PathPair)

namespace PathPairs

def get (paths : PathPairs) (key : Int) : Option PathPair :=
  Entries.lookup (fun first second => first == second) paths key

def set (paths : PathPairs) (key : Int) (pair : PathPair) : PathPairs :=
  Entries.put (fun first second => first == second) paths key pair

def values (paths : PathPairs) : List PathPair := paths.map (·.2)

end PathPairs

def intMax : Int := 9223372036854775807

/-- An Int result, modulo 2^64. -/
def wrap (value : Int) : Int := value.bmod (2 ^ 64)

/-- Entry validation establishes `0 ≤ source, target < count` and `count * count ≤ intMax`,
so this dense key is injective and cannot wrap. -/
def pairKey (count source target : Int) : Int := wrap (wrap (source * count) + target)

def hasPair (paths : PathPairs) (count source target : Int) : Bool :=
  (paths.get (pairKey count source target)).isSome

def insert (paths : PathPairs) (count source target : Int) : PathPairs :=
  let key := pairKey count source target
  if (paths.get key).isSome then paths else paths.set key ⟨source, target⟩

/-- The Int range `0..count`. -/
def controls (count : Int) : List Int := (List.range count.toNat).map Int.ofNat

/-! ## Closing a set of pairs -/

def joinAt (count : Int) (pair : PathPair) (paths : PathPairs) (control : Int) : PathPairs :=
  let paths := if hasPair paths count control pair.source
    then insert paths count control pair.target else paths
  if hasPair paths count pair.target control
    then insert paths count pair.source control else paths

def closeWith (count : Int) (pair : PathPair) (opening : InstantiationPath) (symbol : Int)
    (paths : PathPairs) (closing : InstantiationPath) : PathPairs :=
  match closing.operation with
  | .popPath other =>
      if symbol = other ∧ closing.source = pair.target
        then insert paths count opening.source closing.target else paths
  | _ => paths

def openWith (count : Int) (matching : List InstantiationPath) (pair : PathPair)
    (paths : PathPairs) (opening : InstantiationPath) : PathPairs :=
  match opening.operation with
  | .pushPath symbol =>
      if opening.target = pair.source
        then matching.foldl (closeWith count pair opening symbol) paths else paths
  | _ => paths

def closePair (count : Int) (matching : List InstantiationPath) (paths : PathPairs)
    (pair : PathPair) : PathPairs :=
  matching.foldl (openWith count matching pair) ((controls count).foldl (joinAt count pair) paths)

/-- The insertion-ordered map is also the worklist: each new pair is processed once.
Empty matching transitions request plain transitive closure. -/
def closePaths (fuel : Nat) (initial : PathPairs) (count : Int)
    (matching : List InstantiationPath) : Outcome Empty PathPairs :=
  worklist PathPairs.values (closePair count matching) fuel initial

/-! ## Pumps -/

def pumpEdge (reachable : PathPairs) (count : Int) (anchors : List Int) (source target : Int) :
    Bool :=
  anchors.any fun anchor =>
    hasPair reachable count anchor source && hasPair reachable count target anchor

def addAnchor (reachable : PathPairs) (count : Int) (anchors : List Int)
    (transition : InstantiationPath) : List Int :=
  match transition.operation with
  | .pushPath _ =>
      if hasPair reachable count transition.target transition.source &&
          !pumpEdge reachable count anchors transition.source transition.target
        then anchors ++ [transition.source] else anchors
  | _ => anchors

/-- Each anchor denotes a positive component in balanced-plus-push reachability. -/
def pumpAnchors (reachable : PathPairs) (count : Int) (transitions : List InstantiationPath) :
    List Int :=
  transitions.foldl (addAnchor reachable count) []

def mark (marked : List Int) (position : Int) : List Int :=
  if marked.any fun found => found == position then marked else marked ++ [position]

/-- The pairs to derive and the transition positions marked so far. -/
structure Marking where
  pairs : PathPairs
  marked : List Int

section

variable (count : Int) (balanced : PathPairs)

def splitAt (pair : PathPair) (pairs : PathPairs) (split : Int) : PathPairs :=
  if hasPair balanced count pair.source split && hasPair balanced count split pair.target
    then insert (insert pairs count pair.source split) count split pair.target else pairs

def markClosing (pair : PathPair) (opening : InstantiationPath × Nat) (symbol : Int)
    (marking : Marking) (closing : InstantiationPath × Nat) : Marking :=
  if closing.1.target = pair.target then
    match closing.1.operation with
    | .popPath other =>
        if symbol = other && hasPair balanced count opening.1.target closing.1.source then
          { pairs := insert marking.pairs count opening.1.target closing.1.source
            marked := mark (mark marking.marked opening.2) closing.2 }
        else marking
    | _ => marking
  else marking

def markOpening (transitions : List InstantiationPath) (pair : PathPair) (marking : Marking)
    (opening : InstantiationPath × Nat) : Marking :=
  if opening.1.source = pair.source then
    match opening.1.operation with
    | .keepPath =>
        if opening.1.target = pair.target
          then { marking with marked := mark marking.marked opening.2 } else marking
    | .pushPath symbol =>
        transitions.zipIdx.foldl (markClosing count balanced pair opening symbol) marking
    | .popPath _ => marking
  else marking

def markPair (transitions : List InstantiationPath) (marking : Marking) (pair : PathPair) :
    Marking :=
  transitions.zipIdx.foldl (markOpening count balanced transitions pair)
    { marking with pairs := (controls count).foldl (splitAt count balanced pair) marking.pairs }

end

def pumpPair (count : Int) (reachable : PathPairs) (anchors : List Int) (pairs : PathPairs)
    (pair : PathPair) : PathPairs :=
  if pumpEdge reachable count anchors pair.source pair.target
    then insert pairs count pair.source pair.target else pairs

def pumpPush (count : Int) (reachable : PathPairs) (anchors marked : List Int)
    (transition : InstantiationPath × Nat) : List Int :=
  match transition.1.operation with
  | .pushPath _ =>
      if pumpEdge reachable count anchors transition.1.source transition.1.target
        then mark marked transition.2 else marked
  | _ => marked

/-- Marks every derivation of a balanced pair, not only its first producer. -/
def pumpTransitions (fuel : Nat) (balanced reachable : PathPairs) (count : Int)
    (anchors : List Int) (transitions : List InstantiationPath) : Outcome Empty (List Int) := do
  let last ← worklist (fun marking : Marking => marking.pairs.values)
    (markPair count balanced transitions) fuel
    ⟨balanced.values.foldl (pumpPair count reachable anchors) [],
      transitions.zipIdx.foldl (pumpPush count reachable anchors) []⟩
  .ok last.marked

/-! ## The decision -/

def validTransition (count : Int) (transition : InstantiationPath) : Bool :=
  (decide (transition.source ≥ 0) && decide (transition.source < count) &&
    (decide (transition.target ≥ 0) && decide (transition.target < count))) &&
  match transition.operation with
  | .pushPath symbol => decide (symbol ≥ 0)
  | .popPath symbol => decide (symbol ≥ 0)
  | .keepPath => true

/-- The loop over the transitions stops at the first one that is not valid. -/
def validTransitions (count : Int) : Bool → List InstantiationPath → Bool
  | valid, [] => valid
  | valid, transition :: rest =>
      let valid := valid && validTransition count transition
      if !valid then valid else validTransitions count valid rest

def validEntry (count : Int) (transitions : List InstantiationPath) : Bool :=
  let valid := decide (count ≥ 0)
  let valid := if count > 0 then decide (count ≤ intMax.tdiv count) else valid
  validTransitions count valid transitions

def addKeep (count : Int) (paths : PathPairs) (transition : InstantiationPath) : PathPairs :=
  match transition.operation with
  | .keepPath => insert paths count transition.source transition.target
  | _ => paths

def addPush (count : Int) (paths : PathPairs) (transition : InstantiationPath) : PathPairs :=
  match transition.operation with
  | .pushPath _ => insert paths count transition.source transition.target
  | _ => paths

def initialPaths (count : Int) (transitions : List InstantiationPath) : PathPairs :=
  transitions.foldl (addKeep count)
    ((controls count).foldl (fun paths control => insert paths count control control) [])

def boundInstantiationPaths (fuel : Nat) (count : Int) (transitions : List InstantiationPath) :
    Outcome Empty (Option PathBoundedness) :=
  if !validEntry count transitions then .ok none
  else do
    let balanced ← closePaths fuel (initialPaths count transitions) count transitions
    let forward := transitions.foldl (addPush count) balanced
    let reachable ← closePaths fuel forward count []
    let anchors := pumpAnchors reachable count transitions
    if anchors.isEmpty then .ok (some .boundedPaths)
    else do
      let positions ← pumpTransitions fuel balanced reachable count anchors transitions
      .ok (some (.unboundedPaths positions))

end Blorp.Check
