import Blorp.Runtime.Strings

/-!
# List updates of the runtime

The append, set and concat helpers of `runtime/list.brp`, for one layout `key`.  A borrowing
update copies its left operand and acquires every stored occurrence; a consuming one checks
that the operand is unique, which the immortal empty root never is, and then writes in place.
-/

namespace Blorp.Runtime

open Fuel Counted

variable {V : Type} [Managed V]

/-! ## Capacities -/

def blorpListCapacity (host : Host V) (fuel current required maximum : Nat) : Outcome Fault Nat :=
  let maximum := if maximum > int64Max then int64Max else maximum
  if current > maximum ∨ required > maximum then .err .abort
  else
    let capacity :=
      if current < listDefaultCapacity then
        if maximum < listDefaultCapacity then maximum else listDefaultCapacity
      else current
    growCapacity host maximum required fuel capacity

/-- A copy floors at the first growth's capacity; an empty join stays empty. -/
def blorpListCopyCapacity (required maximum : Nat) : Nat :=
  let firstGrowth := if maximum < listDefaultCapacity then maximum else listDefaultCapacity
  if required = 0 ∨ required ≥ firstGrowth then required else firstGrowth

/-! ## Roots -/

/-- A fresh root with `count` slots, published empty. -/
def listRootAllocation (host : Host V) (key : ListKey) (count : Nat) : HeapAction V Nat := do
  let slots ← sized host (count * host.elementSize key)
  let size ← sized host (host.listHeader key + slots)
  if ← memoryAllocate host size then create (.list ⟨key, [], count⟩)
  else Action.fail .abort

def allocateGrowingRoot (host : Host V) (key : ListKey) (required : Nat) : HeapAction V Nat :=
  listRootAllocation host key (blorpListCopyCapacity required (host.listMaximum key))

def reserveUnique (host : Host V) (fuel : Nat) (key : ListKey) (values required : Nat) :
    HeapAction V Nat := do
  let root ← loadList key (.counted values)
  if required ≤ root.capacity then return values
  else
    let capacity ← (liftM (blorpListCapacity host fuel root.capacity required
      (host.listMaximum key)) : HeapAction V Nat)
    let slots ← sized host (capacity * host.elementSize key)
    let size ← sized host (host.listHeader key + slots)
    match ← memoryResize host values size with
    | none => Action.fail .abort
    | some grown =>
        let root ← loadList key (.counted grown)
        assignList key grown { root with capacity := capacity }
        return grown

/-- Copies `count` slots of `source` from `start` on into the next slots of `result`. -/
def copySlots (key : ListKey) (source : Root) (start count : Nat) (result first : Nat) :
    HeapAction V Unit :=
  (List.range count).forM fun index => do
    let element ← slotAt key source (start + index)
    storeOccurrence key result (first + index) element

/-- A value of `uint64_t`. -/
def wide (value : Nat) : HeapAction V Nat := liftM (Host.checked uint64Max value)

/-- How every consuming update starts: an operand that is not unique is copied, and the
transferred reference dropped. -/
def takeLeft (borrowing : HeapAction V Root) (inPlace : Nat → HeapAction V Root) (fuel : Nat)
    (values : Root) : HeapAction V Root := do
  let references ← values.references
  if references ≠ 1 then
    let result ← borrowing
    values.drop fuel
    return result
  else
    match values with
    | .counted address => inPlace address
    | .emptyList _ => Action.fail .access

/-! ## Append -/

def blorpListAppend (host : Host V) (key : ListKey) (values : Root) (value : V) :
    HeapAction V Root := do
  let root ← loadList key values
  let count := root.values.length
  if count ≥ int64Max ∨ count ≥ host.listMaximum key then Action.fail .abort
  else
    let required ← wide (count + 1)
    let result ← allocateGrowingRoot host key required
    copySlots key values 0 count result 0
    storeOccurrence key result count value
    return .counted result

def blorpListAppendTakeLeft (host : Host V) (fuel : Nat) (key : ListKey) (values : Root)
    (value : V) : HeapAction V Root :=
  takeLeft (blorpListAppend host key values value)
    (fun address => do
      let root ← loadList key values
      let count := root.values.length
      if count ≥ int64Max ∨ count ≥ host.listMaximum key then Action.fail .abort
      else
        let required ← sized host (count + 1)
        let grown ← reserveUnique host fuel key address required
        storeOccurrence key grown count value
        return .counted grown)
    fuel values

/-! ## Set -/

def blorpListSet (host : Host V) (key : ListKey) (values : Root) (index : Int64) (value : V) :
    HeapAction V Root := do
  let root ← loadList key values
  let count := root.values.length
  let result ← listRootAllocation host key count
  (List.range count).forM fun slot => do
    let element ← (if index.toInt = slot then return value else slotAt key values slot :
      HeapAction V V)
    storeOccurrence key result slot element
  return .counted result

def blorpListSetTakeLeft (host : Host V) (fuel : Nat) (key : ListKey) (values : Root)
    (index : Int64) (value : V) : HeapAction V Root :=
  takeLeft (blorpListSet host key values index value)
    (fun address => do
      let root ← loadList key values
      if index.toInt < 0 ∨ index.toInt ≥ root.values.length then return values
      else
        acquireElement value
        let old ← slotAt key values index.toInt.toNat
        destroyElement fuel old
        let left ← loadList key values
        assignList key address { left with values := left.values.set index.toInt.toNat value }
        return values)
    fuel values

/-! ## Concat -/

def blorpListConcat (host : Host V) (key : ListKey) (left right : Root) : HeapAction V Root := do
  let leftRoot ← loadList key left
  let rightRoot ← loadList key right
  let first := leftRoot.values.length
  let second := rightRoot.values.length
  if second > int64Max - first ∨ first + second > host.listMaximum key then Action.fail .abort
  else
    let required ← wide (first + second)
    let result ← allocateGrowingRoot host key required
    copySlots key left 0 first result 0
    copySlots key right 0 second result first
    return .counted result

def blorpListConcatTakeLeft (host : Host V) (fuel : Nat) (key : ListKey) (values right : Root) :
    HeapAction V Root :=
  takeLeft (blorpListConcat host key values right)
    (fun address => do
      let root ← loadList key values
      let rightRoot ← loadList key right
      let first := root.values.length
      let second := rightRoot.values.length
      let room ← (liftM (Host.minus (host.listMaximum key) first) : HeapAction V Nat)
      if second > int64Max - first ∨ second > room then Action.fail .abort
      else
        let required ← wide (first + second)
        let grown ← reserveUnique host fuel key address required
        copySlots key right 0 second grown first
        return .counted grown)
    fuel values

end Blorp.Runtime
