import Blorp.Own.Model
import Blorp.Lib.Loops

/-!
# What the verifier knows

The state of `verify/verify.brp`: the values and obligations a block has made so
far, the blocks around it, and the lookups every check goes through.  A nested
block shares its enclosing blocks and flags the enclosing owners it discharges.

Identities and counts are `Nat` here, so the verifier's rejections of negative
ones have nothing to reject.
-/

namespace Blorp.Verify

open Check (Span)
open Specialize
open Lower (ValueId)
open Own
open Fuel

def verificationError (span : Span) (message : String) : Diagnostic :=
  ⟨span, none, "ownership verification failed: " ++ message,
    "report this compiler error with the input program"⟩

def orVerificationError {α : Type} (value : Option α) (span : Span) (message : String) :
    Except Diagnostic α :=
  match value with
  | some present => .ok present
  | none => .error (verificationError span message)

theorem orVerificationError_eq_ok {α : Type} {value : Option α} {span : Span} {message : String}
    {a : α} : orVerificationError value span message = .ok a ↔ value = some a := by
  cases value <;> simp [orVerificationError]

def require (holds : Bool) (span : Span) (message : String) : Except Diagnostic Unit :=
  if holds then .ok () else .error (verificationError span message)

theorem require_eq_ok {holds : Bool} {span : Span} {message : String} {u : Unit} :
    require holds span message = .ok u ↔ holds = true := by
  cases holds <;> simp [require]

/-! ## State -/

structure KnownValue where
  valueType : TypeRef
  span : Span
  result : ResultOwnership
  projectionParent : Option BorrowedValue
  projectionPlace : Option ConcretePatternPlace

inductive OwnerState where
  | activeOwner (value : ValueId)
  | dischargedOwner
  deriving DecidableEq, Repr

/-- One block enclosing the block being verified, as of the join or tail match
that entered it, with its consecutive values and owners. -/
structure EnclosingScope where
  firstValue : Nat
  values : List KnownValue
  firstOwner : Nat
  owners : List OwnerState

structure VerificationFacts where
  enclosing : List EnclosingScope
  firstValue : Nat
  values : List KnownValue
  firstOwner : Nat
  parameters : List ValueId

/-- `discharged` flags the enclosing owners discharged so far, those the block
was entered with included, by owner number. -/
structure VerificationState where
  facts : VerificationFacts
  discharged : List Bool
  owners : List OwnerState

/-! ## Values -/

def EnclosingScope.holdsValue (scope : EnclosingScope) (ordinal : Nat) : Bool :=
  scope.firstValue ≤ ordinal && ordinal < scope.firstValue + scope.values.length

def EnclosingScope.holdsOwner (scope : EnclosingScope) (ordinal : Nat) : Bool :=
  scope.firstOwner ≤ ordinal && ordinal < scope.firstOwner + scope.owners.length

/-- The entry of a value, in this block or in the first enclosing one that has it. -/
def VerificationFacts.valueEntry (facts : VerificationFacts) (ordinal : Nat) : Option KnownValue :=
  if facts.firstValue ≤ ordinal then facts.values[ordinal - facts.firstValue]?
  else
    match facts.enclosing.find? (·.holdsValue ordinal) with
    | some scope => scope.values[ordinal - scope.firstValue]?
    | none => none

def knownValue (facts : VerificationFacts) (id : ValueId) (span : Span) :
    Except Diagnostic KnownValue :=
  orVerificationError (facts.valueEntry id) span
    ("value " ++ toString id ++ " is not defined before use")

/-! ## Owners -/

/-- An owner's slot: an enclosing owner by ordinal, or a local one by index. -/
inductive OwnerSlot where
  | enclosingSlot (ordinal : Nat)
  | localSlot (index : Nat)
  deriving DecidableEq, Repr

def enclosingOwner (facts : VerificationFacts) (ordinal : Nat) : Option OwnerState :=
  match facts.enclosing.find? (·.holdsOwner ordinal) with
  | some scope => scope.owners[ordinal - scope.firstOwner]?
  | none => none

def ownerSlot (facts : VerificationFacts) (ownerCount ordinal : Nat) (span : Span) :
    Except Diagnostic OwnerSlot :=
  match enclosingOwner facts ordinal with
  | some _ => .ok (.enclosingSlot ordinal)
  | none =>
      if ordinal < facts.firstOwner then
        .error (verificationError span
          ("owner " ++ toString ordinal ++ " is not available in this match arm"))
      else if ordinal < facts.firstOwner + ownerCount then
        .ok (.localSlot (ordinal - facts.firstOwner))
      else .error (verificationError span ("owner " ++ toString ordinal ++ " is not defined"))

def dischargedAlready (discharged : List Bool) (ordinal : Nat) : Bool :=
  match discharged[ordinal]? with
  | some flag => flag
  | none => false

/-- Flags enclosing owner `ordinal` discharged.  Which enclosing owners a block may
discharge is checked where it leaves. -/
def discharge (discharged : List Bool) (ordinal : Nat) : List Bool :=
  (discharged ++ List.replicate (ordinal + 1 - discharged.length) false).set ordinal true

def VerificationState.dischargeSlot (state : VerificationState) : OwnerSlot → VerificationState
  | .enclosingSlot ordinal => { state with discharged := discharge state.discharged ordinal }
  | .localSlot index => { state with owners := state.owners.set index .dischargedOwner }

def knownOwner (state : VerificationState) (id : OwnerId) (span : Span) :
    Except Diagnostic OwnerState := do
  let slot ← ownerSlot state.facts state.owners.length id span
  let entry :=
    match slot with
    | .enclosingSlot ordinal =>
        if dischargedAlready state.discharged ordinal then some .dischargedOwner
        else enclosingOwner state.facts ordinal
    | .localSlot index => state.owners[index]?
  orVerificationError entry span ("owner " ++ toString id ++ " is not defined")

def validateNextOwner (firstOwner : Nat) (owners : List OwnerState) (ordinal : Nat) (span : Span) :
    Except Diagnostic Unit :=
  if ordinal < firstOwner + owners.length then
    .error (verificationError span ("owner " ++ toString ordinal ++ " is defined more than once"))
  else if ordinal ≠ firstOwner + owners.length then
    .error (verificationError span "owner identity is not the next function ordinal")
  else .ok ()

/-! ## Borrows -/

/-- A borrow is live: its parameter is the function's, its owner holds the value
still, or the value it was projected from is borrowed live.  The fuel bounds the
chain of projections. -/
def verifyBorrow : Nat → BorrowedValue → VerificationState → Span → Outcome Diagnostic Unit
  | 0, _, _, _ => .timeout
  | fuel + 1, borrow, state, span => do
      let borrowed ← knownValue state.facts borrow.value span
      require (borrowed.result ≠ .unmanagedResult) span "borrow requires a managed value"
      match borrow.source with
      | .parameterBorrow source =>
          let borrowsParameter :=
            match borrowed.result with
            | .borrowedResult (.parameterBorrow _) => decide (source = borrow.value)
            | _ => false
          require (borrowsParameter && state.facts.parameters.any (· = source)) span
            "parameter borrow does not refer to the borrowed parameter"
      | .ownerBorrow id =>
          match ← knownOwner state id span with
          | .dischargedOwner =>
              .err (verificationError span ("borrow refers to discharged owner " ++ toString id))
          | .activeOwner owned =>
              require (owned = borrow.value) span
                ("owner " ++ toString id ++ " does not own value " ++ toString borrow.value)
      | .payloadBorrow parent =>
          match borrowed.result with
          | .borrowedResult (.payloadBorrow expected) =>
              if parent = expected then do
                let ancestor ← orVerificationError borrowed.projectionParent span
                  "projection has no parent lifetime"
                if ancestor.value = parent then verifyBorrow fuel ancestor state span
                else .err (verificationError span "payload borrow has the wrong parent value")
              else .err (verificationError span "payload borrow has the wrong parent value")
          | _ => .err (verificationError span "payload borrow requires a borrowed projection")

end Blorp.Verify
