import Blorp.Lib.While

/-!
# Dict

The insertion-ordered hash table of `standard_library/dict.brp`: rows in parallel Lists
in the order of their first insertion, found through an index of slots by linear
probing.  Removal marks a row dead and its slot deleted; a rebuild copies the live rows
into fresh Lists and a fresh index.

Rows and slots are counted by `Nat` where the source indexes a List.  A List's length
is bounded by its memory, far below the range of Int, so no count wraps; a hash
is multiplied as Int multiplies, modulo 2^64.
-/

namespace Blorp.Library

open Fuel

class DictKey (K : Type) where
  hash : K → Int
  equals : K → K → Bool

class LawfulDictKey (K : Type) [DictKey K] : Prop where
  refl : ∀ key : K, DictKey.equals key key = true
  symm : ∀ {first second : K}, DictKey.equals first second = true →
    DictKey.equals second first = true
  trans : ∀ {first second third : K}, DictKey.equals first second = true →
    DictKey.equals second third = true → DictKey.equals first third = true
  hash_eq : ∀ {first second : K}, DictKey.equals first second = true →
    DictKey.hash first = DictKey.hash second

def emptySlot : Int := -1

def deletedSlot : Int := -2

def minimumSlots : Int := 7

def maximumReservedEntries : Int := 1048576

def hashSpread : Int := -7046029254386353131

def growthLoadNumerator : Int := 2

def growthLoadDenominator : Int := 3

def rebuiltLoadNumerator : Int := 1

def rebuiltLoadDenominator : Int := 2

def minimumCompaction : Int := 8

/-- `values[i]` and `live[i]` belong to `keys[i]`; `slots[s]` is `emptySlot`,
`deletedSlot`, or the position of the row whose probe passes `s`. -/
structure DictContents (K V : Type) where
  keys : List K
  values : List V
  live : List Bool
  slots : List Int
  deadCount : Int

/-- `List.get` at an Int. -/
def listGet {α : Type} (values : List α) (index : Int) : Option α :=
  if index < 0 then none else values[index.toNat]?

/-! ## The index -/

/-- The fewest slots, from `minimumSlots` in steps of 2^k - 1, that hold `count` entries
within the load. -/
def slotCount (fuel : Nat) (count numerator denominator : Int) : Outcome Empty Int :=
  repeatWhile (fun slots => decide (count * denominator > slots * numerator))
    (fun slots => .ok (slots * 2 + 1)) fuel minimumSlots

section

variable {K V : Type} [DictKey K]

/-- The key's hash as a non-negative remainder; hashes may be any signed Int. -/
def homeSlot (key : K) (size : Nat) : Nat :=
  let remainder := ((DictKey.hash key * hashSpread).bmod (2 ^ 64)).tmod size
  (if remainder < 0 then remainder + size else remainder).toNat

/-- Linear probing steps to the next slot, wrapping at the end of the index. -/
def nextSlot (size slot : Nat) : Nat := if slot + 1 = size then 0 else slot + 1

/-- The first empty slot on the key's probe path in an index with no deleted slots. -/
def freeSlot (fuel : Nat) (slots : List Int) (key : K) : Outcome Empty Nat :=
  repeatWhile (fun slot => slots.getD slot emptySlot != emptySlot)
    (fun slot => .ok (nextSlot slots.length slot)) fuel (homeSlot key slots.length)

/-- Whether a probe goes on past a slot: it is deleted, or its row has another key. -/
def searching (contents : DictContents K V) (key : K) (slot : Nat) : Bool :=
  let position := contents.slots.getD slot emptySlot
  if position = emptySlot then false
  else if position = deletedSlot then true
  else
    match listGet contents.keys position with
    | some candidate => !DictKey.equals candidate key
    | none => false

/-- The slot holding `key`, or the empty slot that ends its probe path. -/
def probe (fuel : Nat) (contents : DictContents K V) (key : K) : Outcome Empty Nat :=
  repeatWhile (searching contents key)
    (fun slot => .ok (nextSlot contents.slots.length slot)) fuel
    (homeSlot key contents.slots.length)

/-! ## Rebuilding -/

/-- The rows a rebuild has kept so far, with their index. -/
structure Kept (K V : Type) where
  keys : List K
  values : List V
  slots : List Int

def keepRow (fuel : Nat) (old : DictContents K V) (kept : Kept K V) (row : K × Nat) :
    Outcome Empty (Kept K V) :=
  if old.live.getD row.2 false then
    match old.values[row.2]? with
    | some value => do
        let slot ← freeSlot fuel kept.slots row.1
        .ok ⟨kept.keys ++ [row.1], kept.values ++ [value],
          kept.slots.set slot (kept.keys.length : Int)⟩
    | none => .ok kept
  else .ok kept

def rebuilt (fuel : Nat) (old : DictContents K V) : Outcome Empty (DictContents K V) := do
  let liveCount := (old.keys.length : Int) - old.deadCount
  let size ← slotCount fuel (liveCount + 1) rebuiltLoadNumerator rebuiltLoadDenominator
  let kept ← old.keys.zipIdx.foldlM (keepRow fuel old)
    ⟨[], [], List.replicate size.toNat emptySlot⟩
  .ok ⟨kept.keys, kept.values, List.replicate kept.keys.length true, kept.slots, 0⟩

/-- The contents with a new row in `slot`, the empty slot a probe ended at. -/
def appended (contents : DictContents K V) (slot : Nat) (key : K) (value : V) : DictContents K V :=
  { contents with
    keys := contents.keys ++ [key]
    values := contents.values ++ [value]
    live := contents.live ++ [true]
    slots := contents.slots.set slot (contents.keys.length : Int) }

/-! ## Operations -/

/-- A Dict that holds `initialCapacity` entries, at most `maximumReservedEntries`, before
it grows. -/
def dict (fuel : Nat) (initialCapacity : Int) : Outcome Empty (DictContents K V) := do
  let size ← slotCount fuel (max (min initialCapacity maximumReservedEntries) 0)
    growthLoadNumerator growthLoadDenominator
  .ok ⟨[], [], [], List.replicate size.toNat emptySlot, 0⟩

def empty (fuel : Nat) : Outcome Empty (DictContents K V) := dict fuel 0

section

variable (fuel : Nat) (contents : DictContents K V) (key : K)

def get : Outcome Empty (Option V) := do
  let slot ← probe fuel contents key
  let position := contents.slots.getD slot emptySlot
  .ok (if position < 0 then none else listGet contents.values position)

def contains : Outcome Empty Bool := do
  let slot ← probe fuel contents key
  .ok (decide (contents.slots.getD slot emptySlot ≥ 0))

/-- Inserts `key` at the end of the order, or replaces its value in place. -/
def set (value : V) : Outcome Empty (DictContents K V) := do
  let slot ← probe fuel contents key
  let position := contents.slots.getD slot emptySlot
  let count := (contents.keys.length : Int) + 1
  if position ≥ 0 then
    .ok { contents with values := contents.values.set position.toNat value }
  else if count * growthLoadDenominator > contents.slots.length * growthLoadNumerator then do
    let compact ← rebuilt fuel contents
    let free ← freeSlot fuel compact.slots key
    .ok (appended compact free key value)
  else .ok (appended contents slot key value)

end

def buried (contents : DictContents K V) (slot : Nat) (position : Int) : DictContents K V :=
  { contents with
    live := contents.live.set position.toNat false
    slots := contents.slots.set slot deletedSlot
    deadCount := contents.deadCount + 1 }

def remove (fuel : Nat) (contents : DictContents K V) (key : K) :
    Outcome Empty (DictContents K V) := do
  let slot ← probe fuel contents key
  let position := contents.slots.getD slot emptySlot
  let deadCount := contents.deadCount + 1
  let liveCount := (contents.keys.length : Int) - deadCount
  if position < 0 then .ok contents
  else if deadCount ≥ minimumCompaction && deadCount > liveCount then
    rebuilt fuel (buried contents slot position)
  else .ok (buried contents slot position)

/-! ## Observations -/

def length (contents : DictContents K V) : Int := contents.keys.length - contents.deadCount

def listed {α : Type} (live : List Bool) (column : List α) : List α :=
  column.zipIdx.foldl
    (fun listed row => if live.getD row.2 false then listed ++ [row.1] else listed) []

def keys (contents : DictContents K V) : List K :=
  if contents.deadCount = 0 then contents.keys else listed contents.live contents.keys

def values (contents : DictContents K V) : List V :=
  if contents.deadCount = 0 then contents.values else listed contents.live contents.values

def entries (contents : DictContents K V) : List (K × V) :=
  (keys contents).zipIdx.foldl
    (fun pairs row =>
      match (values contents)[row.2]? with
      | some value => pairs ++ [(row.1, value)]
      | none => pairs)
    []

/-- One key of `equals`: its value must be found equal in the other Dict. -/
def sameAt (fuel : Nat) (equal : V → V → Bool) (left right : DictContents K V)
    (key : K) (index : Nat) : Outcome Empty Bool :=
  match (values left)[index]? with
  | none => .ok false
  | some value => do
      let found ← get fuel right key
      .ok (match found with
        | none => false
        | some found => equal found value)

/-- Same keys with equal values; order is irrelevant.  The loop goes on only while no
difference is found. -/
def sameEntries (fuel : Nat) (equal : V → V → Bool) (left right : DictContents K V) :
    List (K × Nat) → Bool → Outcome Empty Bool
  | _, false => .ok false
  | [], true => .ok true
  | (key, index) :: rest, true => do
      let same ← sameAt fuel equal left right key index
      sameEntries fuel equal left right rest same

def equals (fuel : Nat) (equal : V → V → Bool) (left right : DictContents K V) :
    Outcome Empty Bool :=
  sameEntries fuel equal left right (keys left).zipIdx (decide (length left = length right))

end

end Blorp.Library
