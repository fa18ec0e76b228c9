import Blorp.Runtime.Utf8
import Blorp.Lib.Turns

/-!
# The line reader

`fs_next_lines` of `runtime/fs.brp` and the fold of `standard_library/fs.brp` over its
batches.  A call reads past the unfinished line it is given until a read brings an LF or the
file ends, completes the last character, and returns the lines it holds.

What `read` delivers is the operating system's choice: at least one byte while the file has
more, at most what was asked for.  Its errors and interruptions are left out.
-/

namespace Blorp.Runtime

open Fuel

inductive ReadFailure where
  | invalidUtf8
  | fileTooLarge
  deriving DecidableEq

def stringMaximumCapacity : Nat := 2 ^ 63 - 1

def lineBlock : Nat := 2 ^ 16

def requestMaximum : Nat := 2 ^ 30

def lineFeed : UInt8 := 10

def carriageReturn : UInt8 := 13

/-! ## Reading -/

/-- The bytes not yet read, and how many reads were made. -/
structure Descriptor where
  remaining : Bytes
  calls : Nat

/-- One `read`: `os` chooses how much of the request each call delivers. -/
def Descriptor.read (os : Nat → Nat) (descriptor : Descriptor) (request : Nat) :
    Bytes × Descriptor :=
  let received := min (max 1 (os descriptor.calls)) request
  (descriptor.remaining.take received,
    ⟨descriptor.remaining.drop received, descriptor.calls + 1⟩)

structure LineBuffer where
  bytes : Bytes
  capacity : Nat
  ended : Bool

def LineBuffer.used (buffer : LineBuffer) : Nat := buffer.bytes.length

def grownCapacity (capacity maximum : Nat) : Nat :=
  if capacity ≥ maximum then 0 else if capacity > maximum / 2 then maximum else capacity * 2

/-- Doubles the buffer until `needed` more bytes fit; growing gives at least one byte a turn. -/
def lineRoom (needed : Nat) : Nat → LineBuffer → Except ReadFailure LineBuffer
  | 0, buffer => .ok buffer
  | turns + 1, buffer =>
      if buffer.capacity - buffer.used < needed then
        let grown := grownCapacity buffer.capacity stringMaximumCapacity
        if grown = 0 then .error .fileTooLarge
        else lineRoom needed turns { buffer with capacity := grown }
      else .ok buffer

/-- One block: it ends the reading with an LF, or at the end of the file. -/
def blockTurn (os : Nat → Nat) (state : Descriptor × LineBuffer) :
    Outcome ReadFailure (Turn (Descriptor × LineBuffer) (Descriptor × LineBuffer)) := do
  let buffer ← (liftM (lineRoom 1 1 state.2) : Outcome ReadFailure LineBuffer)
  let request := min (buffer.capacity - buffer.used) requestMaximum
  let (received, descriptor) := state.1.read os request
  let filled := { buffer with bytes := buffer.bytes ++ received }
  if received.isEmpty then .ok (.done (descriptor, { buffer with ended := true }))
  else if received.any (· == lineFeed) then .ok (.done (descriptor, filled))
  else .ok (.again (descriptor, filled))

def readLineBlocks (os : Nat → Nat) (fuel : Nat) (state : Descriptor × LineBuffer) :
    Outcome ReadFailure (Descriptor × LineBuffer) :=
  turns (blockTurn os) fuel state

structure Completing where
  descriptor : Descriptor
  buffer : LineBuffer
  missing : Nat

def characterTurn (os : Nat → Nat) (state : Completing) :
    Outcome ReadFailure (Turn Completing (Descriptor × LineBuffer)) :=
  if state.missing = 0 then .ok (.done (state.descriptor, state.buffer))
  else
    let (received, descriptor) := state.descriptor.read os state.missing
    if received.isEmpty then .err .invalidUtf8
    else if received.any fun byte => !(byte &&& 0xc0 == 0x80) then .err .invalidUtf8
    else
      .ok (.again ⟨descriptor, { state.buffer with bytes := state.buffer.bytes ++ received },
        state.missing - received.length⟩)

/-- Reads exactly the bytes still missing from the unfinished line's last character. -/
def completeCharacter (os : Nat → Nat) (fuel : Nat) (state : Descriptor × LineBuffer) :
    Outcome ReadFailure (Descriptor × LineBuffer) := do
  let missing := utf8Missing state.2.bytes
  let buffer ← (liftM (lineRoom missing missing state.2) : Outcome ReadFailure LineBuffer)
  turns (characterTurn os) fuel ⟨state.1, buffer, missing⟩

/-- At the end of the file nothing can complete a character. -/
def completedBuffer (os : Nat → Nat) (fuel : Nat) (state : Descriptor × LineBuffer) :
    Outcome ReadFailure (Descriptor × LineBuffer) :=
  if state.2.ended then .ok state else completeCharacter os fuel state

/-! ## Lines of a buffer -/

/-- Where the line that starts at `start` ends: at its LF, or at the end of the buffer. -/
def lineEnd (bytes : Bytes) (start : Nat) : Nat :=
  start + ((bytes.drop start).takeWhile (· != lineFeed)).length

def lineLength (bytes : Bytes) (start stop : Nat) : Nat :=
  if stop < bytes.length ∧ stop > start ∧ bytes[stop - 1]? = some carriageReturn then
    stop - start - 1
  else stop - start

def lineAt (bytes : Bytes) (start stop : Nat) : Bytes :=
  (bytes.drop start).take (lineLength bytes start stop)

/-- Checks one element; the state is where it starts and how many came before. -/
def checkTurn (buffer : LineBuffer) (state : Nat × Nat) :
    Outcome ReadFailure (Turn (Nat × Nat) Nat) :=
  let stop := lineEnd buffer.bytes state.1
  let length := lineLength buffer.bytes state.1 stop
  if stop = buffer.used ∧ buffer.ended ∧ length = 0 then .ok (.done state.2)
  else if !utf8IsValid (lineAt buffer.bytes state.1 stop) then .err .invalidUtf8
  else if stop = buffer.used then .ok (.done (state.2 + 1))
  else .ok (.again (stop + 1, state.2 + 1))

def checkLines (fuel : Nat) (buffer : LineBuffer) : Outcome ReadFailure Nat :=
  turns (checkTurn buffer) fuel (0, 0)

/-- The walk that makes the Strings, over the counted elements only. -/
def walkLines (bytes : Bytes) : Nat → Nat → List Bytes
  | 0, _ => []
  | count + 1, start =>
      let stop := lineEnd bytes start
      lineAt bytes start stop :: walkLines bytes count (stop + 1)

/-- Fills a fresh buffer, from `carried` on, and counts its elements. -/
def readLines (os : Nat → Nat) (fuel : Nat) (descriptor : Descriptor) (carried : Bytes) :
    Outcome ReadFailure (Descriptor × LineBuffer × Nat) := do
  let capacity :=
    if carried.length > stringMaximumCapacity - lineBlock then stringMaximumCapacity
    else carried.length + lineBlock
  let read ← readLineBlocks os fuel (descriptor, ⟨carried, capacity, false⟩)
  let (descriptor, buffer) ← completedBuffer os fuel read
  let count ← checkLines fuel buffer
  .ok (descriptor, buffer, count)

/-- The elements of one batch: `[]` at the end of the file with nothing left, `[final]` at
the end of the file, otherwise complete lines and then the new unfinished line. -/
def nextLines (os : Nat → Nat) (fuel : Nat) (descriptor : Descriptor) (carried : Bytes) :
    Outcome ReadFailure (Descriptor × List Bytes) := do
  let (descriptor, buffer, count) ← readLines os fuel descriptor carried
  .ok (descriptor, walkLines buffer.bytes count 0)

/-! ## The fold -/

def completeLines (batchLength : Nat) : Nat :=
  if batchLength > 1 then batchLength - 1 else batchLength

structure FoldState (τ ε : Type) where
  descriptor : Descriptor
  folded : Except ε τ
  carried : Bytes

/-- One batch: each complete line in order, until a step fails.  Two or more elements mean
that the file has not ended. -/
def foldTurn {τ ε : Type} (os : Nat → Nat) (fuel : Nat) (step : τ → Bytes → Except ε τ)
    (ioError : ReadFailure → ε) (state : FoldState τ ε) :
    Outcome Empty (Turn (FoldState τ ε) (Except ε τ)) :=
  match nextLines os fuel state.descriptor state.carried with
  | .ok (descriptor, batch) =>
      let folded := (batch.take (completeLines batch.length)).foldl
        (fun folded line => folded >>= fun value => step value line) state.folded
      if folded.isOk && decide (batch.length > 1) then
        .ok (.again ⟨descriptor, folded, batch.getLast?.getD []⟩)
      else .ok (.done folded)
  | .err code => .ok (.done (.error (ioError code)))
  | .timeout => .timeout

/-- Folds `step` over the file's lines in order. -/
def foldDescriptor {τ ε : Type} (os : Nat → Nat) (fuel : Nat) (content : Bytes) (initial : τ)
    (step : τ → Bytes → Except ε τ) (ioError : ReadFailure → ε) : Outcome Empty (Except ε τ) :=
  turns (foldTurn os fuel step ioError) fuel ⟨⟨content, 0⟩, .ok initial, []⟩

end Blorp.Runtime
