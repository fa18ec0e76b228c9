import Blorp.Runtime.Decimal
import Blorp.Runtime.Heap

/-!
# Strings of the runtime

The C functions of `runtime/string.brp` and `runtime/string_concat.brp`.  A String's bytes are
inline in its root; only a transferred root with one reference is written or grown.  A
suffix is read where it is copied, so a pointer into a root that has moved reads nothing.
-/

namespace Blorp.Runtime

open Fuel Counted

variable {V : Type} [Managed V]

def sized (host : Host V) (value : Nat) : HeapAction V Nat := liftM (host.size value)

/-- The one String constructor: unique, with unwritten bytes. -/
def blorpStringAllocate (host : Host V) (length : Int) : HeapAction V Nat := do
  if length < 0 ∨ length.toNat > host.stringMaximumCapacity then Action.fail .abort
  else
    let capacity :=
      if length.toNat < stringMinimumCapacity then stringMinimumCapacity else length.toNat
    let size ← sized host (host.stringHeader + capacity + 1)
    if ← memoryAllocate host size then
      create (.string ⟨length.toNat, capacity, List.replicate (capacity + 1) none⟩)
    else Action.fail .abort

def decimalBuffer (value : Int64) : HeapAction V Bytes :=
  match blorpInt64Decimal value with
  | some digits => return digits
  | none => Action.fail .access

/-- A String holds nothing, so the last release only frees it. -/
def blorpStringRelease (fuel : Nat) (value : Nat) : HeapAction V Unit :=
  (Root.counted value).drop fuel

section

variable (host : Host V)

/-! ## Appending -/

def blorpStringAppendLength (left : Nat) (suffixLength : Nat) : HeapAction V Nat := do
  let root ← loadString left
  let maximum := host.stringMaximumCapacity
  if suffixLength > maximum ∨ root.length > maximum - suffixLength then Action.fail .abort
  else liftM (Host.checked int64Max (root.length + suffixLength))

def blorpStringAppendBytes (left : Nat) (suffix : BytePointer) (suffixLength : Nat) :
    HeapAction V Nat := do
  let length ← blorpStringAppendLength host left suffixLength
  let result ← blorpStringAllocate host length
  let root ← loadString left
  let copied ← (BytePointer.storage left 0).read root.length
  writeBytes result 0 copied
  let added ← suffix.read suffixLength
  writeBytes result root.length added
  writeBytes result length [0]
  return result

def growCapacity (maximum required : Nat) (fuel capacity : Nat) : Outcome Fault Nat :=
  repeatWhile (fun capacity => decide (capacity < required))
    (fun capacity => if capacity > maximum / 2 then .ok maximum else host.size (capacity * 2))
    fuel capacity

/-- Only a transferred unique root gets here; a block that moves is found at its new
address. -/
def blorpStringReserveUnique (fuel : Nat) (value length : Nat) : HeapAction V Nat := do
  let root ← loadString value
  if length ≤ root.capacity then return value
  else
    let capacity ← (liftM (growCapacity host host.stringMaximumCapacity length fuel root.capacity) :
      HeapAction V Nat)
    let size ← sized host (host.stringHeader + capacity + 1)
    match ← memoryResize host value size with
    | none => Action.fail .abort
    | some result =>
        -- The new end of the block is unwritten.
        let grown ← loadString result
        assignString result { grown with
          capacity := capacity
          bytes := grown.bytes ++ List.replicate (capacity + 1 - grown.bytes.length) none }
        return result

/-- Transfers one left reference; a counted alias forces the copy. -/
def blorpStringAppendBytesTakeLeft (fuel : Nat) (left : Nat) (suffix : BytePointer)
    (suffixLength : Nat) : HeapAction V Nat := do
  let references ← (Root.counted left).references
  if references ≠ 1 then
    let result ← blorpStringAppendBytes host left suffix suffixLength
    blorpStringRelease fuel left
    return result
  else
    let length ← blorpStringAppendLength host left suffixLength
    let grown ← blorpStringReserveUnique host fuel left length
    let root ← loadString grown
    let added ← suffix.read suffixLength
    writeBytes grown root.length added
    let written ← loadString grown
    assignString grown { written with length := length }
    writeBytes grown length [0]
    return grown

def blorpStringConcat (left right : Nat) : HeapAction V Nat := do
  let suffix ← loadString right
  blorpStringAppendBytes host left (.storage right 0) suffix.length

def blorpStringConcatTakeLeft (fuel : Nat) (left right : Nat) : HeapAction V Nat := do
  let suffix ← loadString right
  blorpStringAppendBytesTakeLeft host fuel left (.storage right 0) suffix.length

def blorpStringAppendInt (left : Nat) (value : Int64) : HeapAction V Nat := do
  let digits ← decimalBuffer value
  blorpStringAppendBytes host left (.buffer digits) digits.length

def blorpStringAppendIntTakeLeft (fuel : Nat) (left : Nat) (value : Int64) : HeapAction V Nat := do
  let digits ← decimalBuffer value
  blorpStringAppendBytesTakeLeft host fuel left (.buffer digits) digits.length

end

end Blorp.Runtime
