import Blorp.Lib.Counted
import Blorp.Lib.While
import Blorp.Runtime.Utf8

/-!
# The runtime's heap

Counted roots as `runtime/memory.brp`, `runtime/string.brp` and `runtime/list.brp` allocate
them: objects of a counted store, with sizes in the host's `size_t`.  An element's layout is
left open: `Managed.roots` lists the counted roots a value holds, and its dup and drop
fragments treat each of them.  A computation that leaves `size_t` or `int64_t`, or reads what
was never written, is a fault of its own.

Counts do not wrap here.  A right count is the number of references there are, so the
source's `atomic_size_t` holds it as long as there are at most SIZE_MAX of them.

What `malloc` and `realloc` grant, and whether a resized block moves, is the host's choice.
-/

namespace Blorp.Runtime

open Fuel Counted

abbrev ListKey := Nat

/-- A counted pointer.  `[]` names its layout's one immortal root, which no dup or drop
counts. -/
inductive Root where
  | emptyList (key : ListKey)
  | counted (address : Nat)
  deriving DecidableEq, Repr

class Managed (V : Type) where
  roots : V → List Root

instance : Managed Root := ⟨fun root => [root]⟩

/-- `capacity` is the byte capacity without the trailing NUL; a byte never written is
`none`. -/
structure StringObject where
  length : Nat
  capacity : Nat
  bytes : List (Option UInt8)
  deriving DecidableEq, Repr

/-- The initialized slots; the length never exceeds them. -/
structure ListObject (V : Type) where
  key : ListKey
  values : List V
  capacity : Nat
  deriving DecidableEq, Repr

/-- Records, unions and callable environments are counted roots with fields. -/
inductive Object (V : Type) where
  | string (root : StringObject)
  | list (root : ListObject V)
  | fields (values : List V)
  deriving DecidableEq, Repr

def Root.address : Root → List Nat
  | .emptyList _ => []
  | .counted address => [address]

section

variable {V : Type} [Managed V]

def addresses (value : V) : List Nat := (Managed.roots value).flatMap Root.address

def Object.owns : Object V → List Nat
  | .string _ => []
  | .list root => root.values.flatMap addresses
  | .fields values => values.flatMap addresses

abbrev Heap (V : Type) := Store (Object V)

abbrev HeapAction (V α : Type) := StoreAction (Object V) α

end

/-! ## Sizes -/

def int64Max : Nat := 2 ^ 63 - 1

def uint64Max : Nat := 2 ^ 64 - 1

def stringMinimumCapacity : Nat := 32

def listDefaultCapacity : Nat := 4

/-- The machine: SIZE_MAX, the sizes of the root structures and of each layout's elements,
and the allocator. -/
structure Host (V : Type) where
  sizeMax : Nat
  stringHeader : Nat
  listHeader : ListKey → Nat
  elementSize : ListKey → Nat
  grants : Heap V → Nat → Bool
  moves : Heap V → Nat → Bool
  string_fits : stringHeader + 1 + stringMinimumCapacity ≤ sizeMax
  list_fits : ∀ key, listHeader key ≤ sizeMax
  element_pos : ∀ key, 0 < elementSize key

section

variable {V : Type} [Managed V]

namespace Host

/-- A value of a type that holds at most `limit`. -/
def checked (limit value : Nat) : Outcome Fault Nat :=
  if value ≤ limit then .ok value else .err .overflow

def minus (value less : Nat) : Outcome Fault Nat :=
  if less ≤ value then .ok (value - less) else .err .overflow

def size (host : Host V) (value : Nat) : Outcome Fault Nat := checked host.sizeMax value

def stringMaximumCapacity (host : Host V) : Nat :=
  let storageLimit := host.sizeMax - host.stringHeader - 1
  if storageLimit > int64Max then int64Max else storageLimit

def listMaximum (host : Host V) (key : ListKey) : Nat :=
  (host.sizeMax - host.listHeader key) / host.elementSize key

end Host

/-! ## The allocator -/

def memoryAllocate (host : Host V) (requested : Nat) : HeapAction V Bool := fun heap =>
  .ok (host.grants heap requested, heap)

def memoryResize (host : Host V) (address requested : Nat) : HeapAction V (Option Nat) := do
  let content ← load address
  let heap ← get
  if !host.grants heap requested then return none
  else if !host.moves heap requested then return some address
  else do
    free address
    fun heap => .ok (some heap.fresh, heap.add content)

/-! ## Counts -/

def Root.references : Root → HeapAction V Nat
  | .emptyList _ => return 0
  | .counted address => do
      let content ← load address
      return content.references

def Root.dup : Root → HeapAction V Unit
  | .emptyList _ => return ()
  | .counted address => acquire address

/-- The drop of any root: the last one drops what the root holds, then frees it. -/
def Root.drop (fuel : Nat) : Root → HeapAction V Unit
  | .emptyList _ => return ()
  | .counted address => release Object.owns fuel address

/-- The `acquire` fragment of an element. -/
def acquireElement (value : V) : HeapAction V Unit := (Managed.roots value).forM Root.dup

/-- The `destroy` fragment of an element. -/
def destroyElement (fuel : Nat) (value : V) : HeapAction V Unit :=
  (Managed.roots value).forM (Root.drop fuel)

/-! ## Strings in the heap -/

def loadString (address : Nat) : HeapAction V StringObject := do
  let content ← load address
  match content.object with
  | .string root => return root
  | _ => Action.fail .access

def assignString (address : Nat) (root : StringObject) : HeapAction V Unit := do
  let content ← load address
  match content.object with
  | .string _ => assign address { content with object := .string root }
  | _ => Action.fail .access

/-- `count` bytes that were all written. -/
def StringObject.read (root : StringObject) (offset count : Nat) : Option Bytes :=
  if offset + count ≤ root.bytes.length then ((root.bytes.drop offset).take count).mapM id
  else none

/-- Where bytes are copied from: a native buffer, or the storage of a String. -/
inductive BytePointer where
  | buffer (bytes : Bytes)
  | storage (address offset : Nat)
  deriving DecidableEq, Repr

def BytePointer.read (count : Nat) : BytePointer → HeapAction V Bytes
  | .buffer bytes => if count ≤ bytes.length then return bytes.take count else Action.fail .access
  | .storage address offset => do
      let root ← loadString address
      match root.read offset count with
      | some bytes => return bytes
      | none => Action.fail .access

def writeBytes (address offset : Nat) (bytes : Bytes) : HeapAction V Unit := do
  let root ← loadString address
  if offset + bytes.length ≤ root.bytes.length then
    assignString address { root with
      bytes := root.bytes.take offset ++ bytes.map some ++ root.bytes.drop (offset + bytes.length) }
  else Action.fail .access

/-! ## Lists in the heap -/

def loadList (key : ListKey) : Root → HeapAction V (ListObject V)
  | .emptyList named => if named = key then return ⟨key, [], 0⟩ else Action.fail .access
  | .counted address => do
      let content ← load address
      match content.object with
      | .list root => if root.key = key then return root else Action.fail .access
      | _ => Action.fail .access

def assignList (key : ListKey) (address : Nat) (root : ListObject V) : HeapAction V Unit := do
  let _ ← loadList key (.counted address)
  let content ← load address
  assign address { content with object := .list root }

/-- `values->values[index]`. -/
def slotAt (key : ListKey) (values : Root) (index : Nat) : HeapAction V V := do
  let root ← loadList key values
  match root.values[index]? with
  | some value => return value
  | none => Action.fail .access

def listSlotStore (key : ListKey) (address slot : Nat) (value : V) : HeapAction V Unit := do
  let root ← loadList key (.counted address)
  if slot = root.values.length ∧ slot < root.capacity then
    assignList key address { root with values := root.values ++ [value] }
  else Action.fail .access

/-- The slot owns the occurrence that `acquireElement` made. -/
def storeOccurrence (key : ListKey) (address slot : Nat) (value : V) : HeapAction V Unit := do
  acquireElement value
  listSlotStore key address slot value

end

end Blorp.Runtime
