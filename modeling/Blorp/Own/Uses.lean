import Blorp.Lib.Loops
import Blorp.Own.Model

/-!
# Last uses

The use analysis of `own/own.brp`: for each value a block introduces, the last
step of the block that reads it, the block's exit counting as a step after the
last one.
-/

namespace Blorp.Own

open Check (Span compilerSpan)
open Lower (ValueId ValueParameter LoweredStep)

structure ValueInterval where
  first : Nat
  count : Nat
  deriving DecidableEq, Repr

def inInterval (ordinal first count : Nat) : Bool :=
  decide (first ≤ ordinal) && decide (ordinal < first + count)

def visibleOutside (ordinal : Nat) (outer : List ValueInterval) : Bool :=
  outer.any fun interval => inInterval ordinal interval.first interval.count

/-- The slot of a value this block introduces; none for one of an enclosing
block.  Earlier sibling ordinals are not visible. -/
def useSlot (value : ValueId) (introducedCount : Nat) (outer : List ValueInterval)
    (firstValue slotCount : Nat) (span : Span) : Except Diagnostic (Option Nat) :=
  if visibleOutside value outer then .ok none
  else if inInterval value firstValue introducedCount then
    if inInterval (value - firstValue) 0 slotCount then .ok (some (value - firstValue))
    else .error (internalError span "invalid value identity in ownership use analysis")
  else .error (internalError span "invalid value identity in ownership use analysis")

/-- The span a block's terminal use reports: its local operand's definition. -/
def terminalSpan (steps : List LoweredStep) (result : ValueId) (outer : List ValueInterval) :
    Except Diagnostic Span :=
  if visibleOutside result outer then .ok compilerSpan
  else
    orInternalError (Lower.valueSpan steps result) compilerSpan
      "invalid return value in ownership use analysis"

/-- A terminal reads one returned value, a loop edge's arguments, or a join
result and ordered carriers with their existing parameter origins. -/
inductive BlockTerminal where
  | terminalValue (result : ValueId)
  | terminalArguments (arguments : List ValueId)
  | terminalJoin (result : ValueId) (carried : List ValueId) (parameters : List ValueParameter)

def recordUse (introducedCount : Nat) (outer : List ValueInterval) (firstValue position : Nat)
    (span : Span) (uses : List (Option Nat)) (operand : ValueId) :
    Except Diagnostic (List (Option Nat)) := do
  match ← useSlot operand introducedCount outer firstValue uses.length span with
  | some index => .ok (uses.set index (some position))
  | none => .ok uses

def firstIntroduced : LoweredStep → ValueId
  | .define definition => definition.id
  | .join joined => joined.result.id
  | .loop looped => looped.result.id

def carriedIntroduced : LoweredStep → List ValueParameter
  | .define _ => []
  | .join joined => joined.carried
  | .loop looped => looped.carried

def requireConsecutive (ordinal : Nat) (step : LoweredStep) : Except Diagnostic Unit :=
  if firstIntroduced step ≠ ordinal then
    .error
      (internalError step.stepSpan "nonconsecutive value identity in ownership use analysis")
  else
    (carriedIntroduced step).zipIdx.forM fun (parameter, index) =>
      if parameter.id ≠ ordinal + 1 + index then
        .error
          (internalError parameter.span "nonconsecutive value identity in ownership use analysis")
      else .ok ()

structure UseState where
  uses : List (Option Nat)
  stepPosition : Nat
  introducedCount : Nat

def stepUses (outer : List ValueInterval) (firstValue : Nat) (state : UseState)
    (step : LoweredStep) : Except Diagnostic UseState := do
  requireConsecutive (firstValue + state.introducedCount) step
  let uses ← step.stepReads.foldlM
    (recordUse state.introducedCount outer firstValue state.stepPosition step.stepSpan) state.uses
  .ok ⟨uses, state.stepPosition + 1, state.introducedCount + step.stepValueCount⟩

/-- Each definition's last use in this block, at the position of its last reader;
the terminal operands are read at the position after the last step. -/
def blockUses (steps : List LoweredStep) (terminal : BlockTerminal) (outer : List ValueInterval)
    (firstValue seedCount : Nat) (spanResult : Except Diagnostic Span) :
    Except Diagnostic (List (Option Nat)) := do
  let state ← steps.foldlM (stepUses outer firstValue)
    ⟨List.replicate (seedCount + Lower.blockValueCount steps) none, 0, seedCount⟩
  let record := recordUse state.introducedCount outer firstValue state.stepPosition
  -- An operand's error stays ahead of a bad exit.
  let span ← spanResult
  match terminal with
  | .terminalValue result => record span state.uses result
  | .terminalArguments arguments => arguments.foldlM (record span) state.uses
  | .terminalJoin result arguments parameters => do
      let uses ← record span state.uses result
      parameters.zipIdx.foldlM
        (fun uses (parameter, position) =>
          match arguments[position]? with
          | none => .error (internalError span "join arm carries the wrong number of values")
          | some operand => record parameter.span uses operand)
        uses

end Blorp.Own
