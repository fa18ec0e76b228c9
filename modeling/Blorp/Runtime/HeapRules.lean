import Blorp.Runtime.ListUpdates

/-!
# What the heap's operations keep

`Sound host heap held` is the invariant of a heap between operations: every count is the
number of references there are, every root fits its allocation, and no root is left without
a reference.  `Filled` is a heap in which one new List is being filled.
-/

namespace Blorp.Runtime

open Fuel Counted

variable {V : Type} [Managed V]

/-! ## The invariant -/

/-- The counted text, its NUL, and a storage as large as the capacity says. -/
structure StringObject.Holds (root : StringObject) (text : Bytes) : Prop where
  length : root.length = text.length
  storage : root.bytes.length = root.capacity + 1
  written : ∃ rest, root.bytes = text.map some ++ some 0 :: rest

def Object.Fits (host : Host V) : Object V → Prop
  | .string root => (∃ text, root.Holds text) ∧ stringMinimumCapacity ≤ root.capacity ∧
      root.capacity ≤ host.stringMaximumCapacity
  | .list root => root.values.length ≤ root.capacity ∧ root.capacity ≤ host.listMaximum root.key ∧
      root.capacity ≤ int64Max
  | .fields _ => True

structure Sound (host : Host V) (heap : Heap V) (held : Multiset Nat) : Prop where
  accounts : Accounts Object.owns heap held
  fits : ∀ address found, heap.cell address = some found → found.object.Fits host
  settled : ∀ address found, heap.cell address = some found → found.references ≠ 0

/-- What a program sees of a root. -/
inductive Contents (V : Type) where
  | text (bytes : Bytes)
  | elements (key : ListKey) (values : List V)
  deriving DecidableEq

inductive HasContents (heap : Heap V) : Root → Contents V → Prop where
  | empty (key : ListKey) : HasContents heap (.emptyList key) (.elements key [])
  | text {address references root bytes}
      (cell : heap.cell address = some ⟨references, .string root⟩) (holds : root.Holds bytes) :
      HasContents heap (.counted address) (.text bytes)
  | elements {address references root}
      (cell : heap.cell address = some ⟨references, .list root⟩) :
      HasContents heap (.counted address) (.elements root.key root.values)

/-- The heap is the base but for a List at `target` with one reference, and for counts that
rose. -/
structure Filled (base heap : Heap V) (target : Nat) (root : ListObject V)
    (held : Multiset Nat) : Prop where
  apart : ∀ address, address ≠ target → base.Grown heap address
  cell : heap.cell target = some ⟨1, .list root⟩
  accounts : Accounts Object.owns heap (target ::ₘ held)

variable {host : Host V} {heap next base : Heap V} {held : Multiset Nat} {address target : Nat}
  {found : Cell (Object V)}

theorem alone (h : Accounts Object.owns heap (target ::ₘ held))
    (hcell : heap.cell target = some found) (honly : found.references = 1) :
    target ∉ held + heap.stored Object.owns := by
  have hcount := h target
  rw [Store.references_eq hcell, honly, Multiset.cons_add, Multiset.count_cons_self] at hcount
  intro hmem
  have hpos := Multiset.count_pos.mpr hmem
  omega

theorem Sound.of_apart {held' : Multiset Nat} (base : Heap V) (accounts : Accounts Object.owns next held')
    (hbase : ∀ address, address ≠ target → ∀ found, base.cell address = some found →
      found.object.Fits host ∧ found.references ≠ 0)
    (hapart : ∀ address, address ≠ target → base.Grown next address)
    (hcell : next.cell target = some found) (hfits : found.object.Fits host)
    (hlive : found.references ≠ 0) : Sound host next held' where
  accounts := accounts
  fits address left hleft := by
    by_cases hsame : address = target
    · subst hsame
      obtain rfl : found = left := Option.some_injective _ (hcell.symm.trans hleft)
      exact hfits
    · obtain ⟨before, hbefore, hobject, -⟩ := (hapart address hsame).old left hleft
      rw [hobject]
      exact (hbase address hsame before hbefore).1
  settled address left hleft := by
    by_cases hsame : address = target
    · subst hsame
      obtain rfl : found = left := Option.some_injective _ (hcell.symm.trans hleft)
      exact hlive
    · obtain ⟨before, hbefore, -, hle⟩ := (hapart address hsame).old left hleft
      have := (hbase address hsame before hbefore).2
      omega

/-! ## Elements -/

omit [Managed V] in
theorem forM_dup (roots : List Root) (heap : Heap V) :
    roots.forM Root.dup heap = (roots.flatMap Root.address).forM acquire heap := by
  induction roots generalizing heap with
  | nil => rfl
  | cons root roots ih =>
    cases root with
    | emptyList key => exact ih heap
    | counted address =>
      show (acquire address heap >>= fun passed => roots.forM Root.dup passed.2) =
        (acquire address heap >>= fun passed => (roots.flatMap Root.address).forM acquire passed.2)
      cases acquire address heap with
      | ok passed => exact ih passed.2
      | err fault => rfl
      | timeout => rfl

theorem forM_drop (fuel : Nat) (roots : List Root) (heap : Heap V) :
    roots.forM (Root.drop fuel) heap =
      (roots.flatMap Root.address).forM (release Object.owns fuel) heap := by
  induction roots generalizing heap with
  | nil => rfl
  | cons root roots ih =>
    cases root with
    | emptyList key => exact ih heap
    | counted address =>
      show (release Object.owns fuel address heap >>= fun passed =>
          roots.forM (Root.drop fuel) passed.2) =
        (release Object.owns fuel address heap >>= fun passed =>
          (roots.flatMap Root.address).forM (release Object.owns fuel) passed.2)
      cases release Object.owns fuel address heap with
      | ok passed => exact ih passed.2
      | err fault => rfl
      | timeout => rfl

theorem acquireElement_spec {value : V} (h : Accounts Object.owns heap held)
    (hlive : ∀ address ∈ addresses value, heap.references address ≠ 0) :
    ∃ next, acquireElement value heap = .ok ((), next) ∧
      Accounts Object.owns next (↑(addresses value) + held) ∧ next.fresh = heap.fresh ∧
      (∀ address, heap.Grown next address) ∧
      ∀ address, address ∉ addresses value → next.cell address = heap.cell address := by
  obtain ⟨next, hrun, hrest⟩ := acquires_spec (addresses value) h hlive
  exact ⟨next, (forM_dup _ heap).trans hrun, hrest⟩

/-! ## Slots -/

omit [Managed V] in
theorem loadList_counted {references : Nat} {root : ListObject V} {key : ListKey}
    (hcell : heap.cell address = some ⟨references, .list root⟩) (hkey : root.key = key) :
    loadList key (.counted address) heap = .ok (root, heap) := by
  show (load address heap >>= fun found => _) = _
  rw [load_eq hcell]
  simp only [Outcome.ok_bind, hkey, ↓reduceIte]
  rfl

omit [Managed V] in
theorem assignList_eq {references : Nat} {root changed : ListObject V} {key : ListKey}
    (hcell : heap.cell address = some ⟨references, .list root⟩) (hkey : root.key = key) :
    assignList key address changed heap =
      .ok ((), heap.put address (some ⟨references, .list changed⟩)) := by
  refine Action.bind_eq_ok.mpr ⟨root, heap, loadList_counted hcell hkey, ?_⟩
  exact Action.bind_eq_ok.mpr ⟨_, heap, load_eq hcell, assign_eq hcell _⟩

omit [Managed V] in
theorem listSlotStore_eq {references : Nat} {root : ListObject V} {key : ListKey} {value : V}
    (hcell : heap.cell address = some ⟨references, .list root⟩) (hkey : root.key = key)
    (hroom : root.values.length < root.capacity) :
    listSlotStore key address root.values.length value heap =
      .ok ((), heap.put address
        (some ⟨references, .list { root with values := root.values ++ [value] }⟩)) := by
  refine Action.bind_eq_ok.mpr ⟨root, heap, loadList_counted hcell hkey, ?_⟩
  rw [if_pos ⟨rfl, hroom⟩]
  exact assignList_eq hcell hkey

theorem Filled.store {root : ListObject V} (h : Filled base heap target root held) (value : V)
    (slot : Nat)
    (hvalue : ∀ address ∈ addresses value, address ≠ target ∧ heap.references address ≠ 0)
    (hslot : slot = root.values.length) (hroom : slot < root.capacity) :
    ∃ next, storeOccurrence root.key target slot value heap = .ok ((), next) ∧
      Filled base next target { root with values := root.values ++ [value] } held := by
  obtain ⟨acquired, hrun, haccounts, hfresh, hgrown, hothers⟩ := acquireElement_spec h.accounts
    fun address hmem => (hvalue address hmem).2
  have hcell : acquired.cell target = some ⟨1, .list root⟩ := by
    rw [hothers target fun hmem => (hvalue target hmem).1 rfl, h.cell]
  subst hslot
  refine ⟨_, Action.bind_eq_ok.mpr ⟨(), acquired, hrun, listSlotStore_eq hcell rfl hroom⟩,
    ?_, Store.cell_put_self (Store.lt_fresh hcell), ?_⟩
  · intro address hne
    refine ((h.apart address hne).trans (hgrown address)).trans (.of_eq ?_)
    exact Store.cell_put_of_ne hne
  · have hreplace := haccounts.replace (.list { root with values := root.values ++ [value] })
      0 hcell one_ne_zero (by simp [Object.owns])
    exact hreplace.congr (Multiset.zero_add _)

omit [Managed V] in
theorem HasContents.reads {source : Root} {key : ListKey} {values : List V}
    (h : HasContents base source (.elements key values)) (hne : source ≠ .counted target)
    (hapart : ∀ address, address ≠ target → base.Grown heap address) :
    ∃ root, loadList key source heap = .ok (root, heap) ∧ root.values = values := by
  cases h with
  | empty => exact ⟨⟨key, [], 0⟩, by simp [loadList]; rfl, rfl⟩
  | @elements address references root cell =>
    have hother : address ≠ target := fun heq => hne (by rw [heq])
    obtain ⟨⟨count, object⟩, hcell, hobject, -⟩ := (hapart address hother).kept _ cell
    simp only at hobject
    subst hobject
    exact ⟨root, loadList_counted hcell rfl, rfl⟩

section

variable {source : Root} {key : ListKey} {values : List V}
    (h : HasContents base source (.elements key values))

include h

omit [Managed V] in
theorem HasContents.reads_slot (hne : source ≠ .counted target)
    (hapart : ∀ address, address ≠ target → base.Grown heap address) {index : Nat} {value : V}
    (hvalue : values[index]? = some value) : slotAt key source index heap = .ok (value, heap) := by
  obtain ⟨root, hload, hvalues⟩ := h.reads hne hapart
  refine Action.bind_eq_ok.mpr ⟨root, heap, hload, ?_⟩
  rw [hvalues, hvalue]
  rfl

theorem HasContents.stored
    (hsettled : ∀ address found, base.cell address = some found → found.references ≠ 0) {value : V}
    (hvalue : value ∈ values) (hmem : address ∈ addresses value) :
    address ∈ base.stored Object.owns := by
  cases h with
  | empty => simp at hvalue
  | elements cell =>
    exact mem_stored cell (hsettled _ _ cell) (List.mem_flatMap.mpr ⟨value, hvalue, hmem⟩)

end

/-- One turn of a copying loop. -/
def pickSlot (pick : Nat → HeapAction V V) (key : ListKey) (result first index : Nat) :
    HeapAction V Unit :=
  pick index >>= storeOccurrence key result (first + index)

theorem Filled.fill {root : ListObject V} (h : Filled base heap target root held)
    (elements : List V) (pick : Nat → HeapAction V V)
    (hpick : ∀ index value, elements[index]? = some value → ∀ heap,
      (∀ address, address ≠ target → base.Grown heap address) → pick index heap = .ok (value, heap))
    (hlive : ∀ value ∈ elements, ∀ address ∈ addresses value,
      address ≠ target ∧ base.references address ≠ 0)
    (hroom : root.values.length + elements.length ≤ root.capacity) :
    ∃ next, (List.range elements.length).forM
        (pickSlot pick root.key target root.values.length) heap = .ok ((), next) ∧
      Filled base next target { root with values := root.values ++ elements } held := by
  suffices hall : ∃ next, (List.range elements.length).forM
        (pickSlot pick root.key target root.values.length) heap = .ok ((), next) ∧
      Filled base next target
        { root with values := root.values ++ elements.take elements.length } held by
    rwa [List.take_length] at hall
  refine Action.forM_range (I := fun index heap => Filled base heap target
    { root with values := root.values ++ elements.take index } held) _ ?_ (by simpa using h)
  intro index hindex heap hfilled
  have hvalue : elements[index]? = some elements[index] := List.getElem?_eq_getElem hindex
  have hlength : (elements.take index).length = index := List.length_take_of_le (by omega)
  obtain ⟨next, hrun, hnext⟩ := hfilled.store elements[index] (root.values.length + index)
    (fun address hmem =>
      have ⟨hne, hbefore⟩ := hlive _ (List.getElem_mem hindex) address hmem
      ⟨hne, (hfilled.apart address hne).references_ne_zero hbefore⟩)
    (by simp [hlength]) (by simp only; omega)
  refine ⟨next, Action.bind_eq_ok.mpr ⟨_, heap, hpick index _ hvalue heap hfilled.apart, hrun⟩, ?_⟩
  have htake : elements.take (index + 1) = elements.take index ++ [elements[index]] := by
    rw [List.take_add_one, hvalue]
    rfl
  simpa only [htake, List.append_assoc] using hnext

theorem Filled.copySlots {root : ListObject V} {source : Root} {values : List V}
    (h : Filled base heap target root held)
    (hsource : HasContents base source (.elements root.key values))
    (hne : source ≠ .counted target)
    (hlive : ∀ value ∈ values, ∀ address ∈ addresses value,
      address ≠ target ∧ base.references address ≠ 0)
    (hroom : root.values.length + values.length ≤ root.capacity) :
    ∃ next, copySlots root.key source 0 values.length target root.values.length heap =
        .ok ((), next) ∧
      Filled base next target { root with values := root.values ++ values } held := by
  refine h.fill values (fun index => slotAt root.key source (0 + index)) ?_ hlive hroom
  intro index value hvalue heap hapart
  exact hsource.reads_slot hne hapart (by rwa [Nat.zero_add])

/-! ## Allocating -/

/-- Longer than any String or List of the layout may be. -/
def Contents.Exceeds (host : Host V) : Contents V → Prop
  | .text bytes => host.stringMaximumCapacity < bytes.length
  | .elements key values => host.listMaximum key < values.length ∨ int64Max < values.length

instance (host : Host V) (contents : Contents V) : Decidable (contents.Exceeds host) :=
  match contents with
  | .text _ => inferInstanceAs (Decidable (_ < _))
  | .elements _ _ => inferInstanceAs (Decidable (_ ∨ _))

/-- The sizes of a root with room for some contents: the least capacity, or at most twice
what they need. -/
inductive Contents.Block (host : Host V) : Contents V → Nat → Prop where
  | text {bytes : Bytes} {capacity : Nat} (enough : bytes.length ≤ capacity)
      (most : capacity ≤ max stringMinimumCapacity (2 * bytes.length))
      (limit : capacity ≤ host.stringMaximumCapacity) :
      Block host (.text bytes) (host.stringHeader + capacity + 1)
  | elements {key : ListKey} {values : List V} {capacity : Nat} (enough : values.length ≤ capacity)
      (most : capacity ≤ max listDefaultCapacity (2 * values.length))
      (limit : capacity ≤ host.listMaximum key) :
      Block host (.elements key values) (host.listHeader key + capacity * host.elementSize key)

/-- A run that makes some contents gives up only when they would be too long, or when the
host refuses a block for them. -/
def Aborts (host : Host V) (heap : Heap V) (contents : Contents V) (fault : Fault) : Prop :=
  fault = .abort ∧ (contents.Exceeds host ∨
    ∃ size, contents.Block host size ∧ host.grants heap size = false)

omit [Managed V] in
theorem checked_settles {limit value : Nat} (h : value ≤ limit) :
    Outcome.Settles (fun _ => Host.checked limit value) (.ok value) := by
  unfold Host.checked
  rw [if_pos h]
  exact .const (by simp)

omit [Managed V] in
theorem slots_le {host : Host V} {key : ListKey} {count : Nat} (h : count ≤ host.listMaximum key) :
    host.listHeader key + count * host.elementSize key ≤ host.sizeMax := by
  have hmul := Nat.mul_le_mul_right (host.elementSize key) h
  have hdiv := Nat.div_mul_le_self (host.sizeMax - host.listHeader key) (host.elementSize key)
  have hfits := host.list_fits key
  have hmaximum : host.listMaximum key * host.elementSize key ≤
    host.sizeMax - host.listHeader key := hdiv
  omega

omit [Managed V] in
theorem listBlock_step {α : Type} {host : Host V} {heap : Heap V} {key : ListKey} {count : Nat}
    {P : Fault → Prop} {Q : α → Heap V → Prop} {rest : Nat → Nat → HeapAction V α}
    (h : count ≤ host.listMaximum key)
    (hrest : Performs P
      (fun n => rest n (host.listHeader key + count * host.elementSize key)) heap Q) :
    Performs P (fun n => do
      let slots ← sized host (count * host.elementSize key)
      let size ← sized host (host.listHeader key + slots)
      rest n size) heap Q := by
  have hle := slots_le h
  refine Performs.liftStep (checked_settles (by omega)) ?_
  exact Performs.liftStep (checked_settles hle) hrest

omit [Managed V] in
theorem listRootAllocation_performs {key : ListKey} {count : Nat} {values : List V}
    (heap : Heap V) (h : count ≤ host.listMaximum key) (henough : values.length ≤ count)
    (hmost : count ≤ max listDefaultCapacity (2 * values.length)) :
    Performs (Aborts host heap (.elements key values)) (fun _ => listRootAllocation host key count)
      heap
      fun result next => result = heap.fresh ∧ next = heap.add ⟨1, .list ⟨key, [], count⟩⟩ := by
  refine listBlock_step h (Performs.step (a := host.grants heap _) rfl ?_)
  cases hgrants : host.grants heap (host.listHeader key + count * host.elementSize key) with
  | true =>
    simp only [↓reduceIte]
    exact Performs.done (fun _ => rfl) ⟨rfl, rfl⟩
  | false =>
    simp only [Bool.false_eq_true, ↓reduceIte]
    exact Performs.fails (fun _ => rfl) ⟨rfl, .inr ⟨_, .elements henough hmost h, hgrants⟩⟩

theorem Filled.create {key : ListKey} {count : Nat} (h : Accounts Object.owns heap held) :
    Filled heap (heap.add ⟨1, .list ⟨key, [], count⟩⟩) heap.fresh ⟨key, [], count⟩ held where
  apart address hne := .of_eq (Store.cell_add_of_ne hne)
  cell := Store.cell_add_self
  accounts := Accounts.create (h.congr (by simp [Object.owns]))

/-! ## Capacities -/

omit [Managed V] in
/-- **The capacity loop ends**, at a capacity that fits and is within the maximum. -/
theorem growCapacity_settles (host : Host V) (maximum required capacity : Nat)
    (hsize : maximum ≤ host.sizeMax) (hrequired : required ≤ maximum) (hcapacity : capacity ≤ maximum)
    (hpos : 0 < capacity ∨ required = 0) :
    ∃ grown, Outcome.Settles (fun n => growCapacity host maximum required n capacity) (.ok grown) ∧
      required ≤ grown ∧ capacity ≤ grown ∧ grown ≤ maximum ∧
      grown ≤ max capacity (2 * required) := by
  have hbody : ∀ grown, (capacity ≤ grown ∧ grown ≤ maximum ∧ (0 < grown ∨ required = 0) ∧
        grown ≤ max capacity (2 * required)) →
      decide (grown < required) = true → ∃ next, Outcome.Settles
        (fun _ => if grown > maximum / 2 then .ok maximum else host.size (grown * 2)) (.ok next) ∧
      (capacity ≤ next ∧ next ≤ maximum ∧ (0 < next ∨ required = 0) ∧
        next ≤ max capacity (2 * required)) ∧
      maximum - next < maximum - grown := by
    rintro grown ⟨hle, hmaximum, hpositive, -⟩ htest
    have hless : grown < required := of_decide_eq_true htest
    by_cases hhalf : grown > maximum / 2
    · refine ⟨maximum, ?_, by omega, by omega⟩
      simp only [if_pos hhalf]
      exact .const (by simp)
    · refine ⟨grown * 2, ?_, by omega, by omega⟩
      simp only [if_neg hhalf]
      exact checked_settles (by omega)
  obtain ⟨last, hsettles, ⟨hle, hmaximum, -, hmost⟩, htest⟩ := repeatWhile_settles _ _ _ _ hbody
    capacity ⟨Nat.le_refl _, hcapacity, hpos, Nat.le_max_left _ _⟩
  exact ⟨last, hsettles, by simpa using htest, hle, hmaximum, hmost⟩

omit [Managed V] in
theorem listMaximum_le (host : Host V) (key : ListKey) : host.listMaximum key ≤ host.sizeMax :=
  (Nat.div_le_self _ _).trans (Nat.sub_le _ _)

omit [Managed V] in
theorem blorpListCapacity_settles {host : Host V} {current required maximum : Nat}
    (hsize : maximum ≤ host.sizeMax) (hcurrent : current ≤ maximum ∧ current ≤ int64Max)
    (hrequired : required ≤ maximum ∧ required ≤ int64Max) :
    ∃ grown, Outcome.Settles (fun n => blorpListCapacity host n current required maximum)
        (.ok grown) ∧ required ≤ grown ∧ current ≤ grown ∧ grown ≤ maximum ∧ grown ≤ int64Max ∧
      grown ≤ max (max current listDefaultCapacity) (2 * required) := by
  have hfloor : listDefaultCapacity ≤ int64Max := by decide
  have hfour : listDefaultCapacity = 4 := rfl
  unfold blorpListCapacity
  generalize hlimit : (if maximum > int64Max then int64Max else maximum) = limit
  have hlimitLe : limit ≤ maximum ∧ limit ≤ int64Max ∧ current ≤ limit ∧ required ≤ limit := by
    rw [← hlimit]
    split <;> omega
  simp only [if_neg (show ¬ (current > limit ∨ required > limit) by omega)]
  obtain ⟨grown, hsettles, hfits, hkeeps, hmost, hwithin⟩ := growCapacity_settles host limit required
    (if current < listDefaultCapacity then
      if limit < listDefaultCapacity then limit else listDefaultCapacity else current)
    (by omega) (by omega) (by split <;> (try split) <;> omega) (by split <;> (try split) <;> omega)
  refine ⟨grown, hsettles, hfits, ?_, by omega, by omega, ?_⟩
  · refine Nat.le_trans ?_ hkeeps
    split <;> (try split) <;> omega
  · refine hwithin.trans ?_
    split <;> (try split) <;> omega

theorem blorpListCopyCapacity_spec {required maximum : Nat} (h : required ≤ maximum) :
    required ≤ blorpListCopyCapacity required maximum ∧
      blorpListCopyCapacity required maximum ≤ maximum ∧
      blorpListCopyCapacity required maximum ≤ max required listDefaultCapacity := by
  unfold blorpListCopyCapacity
  simp only
  split <;> split <;> omega

/-! ## Resizing -/

/-- A root is where it was, or at a new address; the others are untouched. -/
structure Moved (heap next : Heap V) (address target : Nat) : Prop where
  others : ∀ other, other ≠ address → other ≠ target → next.cell other = heap.cell other
  place : target = address ∨ (heap.cell target = none ∧ next.cell address = none)

omit [Managed V] in
theorem Moved.put (h : Moved heap next address target) (hcell : next.cell target = some found)
    (content : Option (Cell (Object V))) : Moved heap (next.put target content) address target where
  others other hne hne' := (Store.cell_put_of_ne hne').trans (h.others other hne hne')
  place := by
    rcases h.place with hsame | ⟨hnew, hgone⟩
    · exact .inl hsame
    · refine .inr ⟨hnew, (Store.cell_put_of_ne ?_).trans hgone⟩
      rintro rfl
      rw [hcell] at hgone
      cases hgone

theorem memoryResize_performs {P : Fault → Prop} {object : Object V}
    (h : Accounts Object.owns heap (address ::ₘ held))
    (hcell : heap.cell address = some ⟨1, object⟩) (size : Nat) :
    Performs P (fun _ => memoryResize host address size) heap fun result next =>
      (result = none ∧ host.grants heap size = false) ∨
      ∃ target, result = some target ∧ Moved heap next address target ∧
        next.cell target = some ⟨1, object⟩ ∧ Accounts Object.owns next (target ::ₘ held) := by
  refine Performs.step (load_eq hcell) (Performs.step (a := heap) rfl ?_)
  cases hgrants : host.grants heap size with
  | false => exact Performs.done (fun _ => rfl) (.inl ⟨rfl, rfl⟩)
  | true =>
    cases hmoves : host.moves heap size with
    | false =>
      exact Performs.done (fun _ => rfl) (.inr ⟨address, rfl, ⟨fun _ _ _ => rfl, .inl rfl⟩, hcell, h⟩)
    | true =>
      refine Performs.step (free_eq hcell) (Performs.done (fun _ => rfl) (.inr ⟨_, rfl, ?_⟩))
      have hfresh : (heap.put address none).fresh = heap.fresh := Store.fresh_put
      have hne : address ≠ (heap.put address none).fresh := by
        rw [hfresh]
        exact Nat.ne_of_lt (Store.lt_fresh hcell)
      refine ⟨⟨fun other hother hother' => ?_, .inr ⟨?_, ?_⟩⟩, Store.cell_add_self,
        (h.vacate hcell rfl).create⟩
      · rw [Store.cell_add_of_ne hother', Store.cell_put_of_ne hother]
      · rw [hfresh]
        exact Store.cell_fresh
      · rw [Store.cell_add_of_ne hne, Store.cell_put_self (Store.lt_fresh hcell)]

theorem replace_same {object : Object V} {references : Nat} {before : Object V}
    (h : Accounts Object.owns heap held) (hcell : heap.cell address = some ⟨references, before⟩)
    (hlive : references ≠ 0) (howns : object.owns = before.owns) :
    Accounts Object.owns (heap.put address (some ⟨references, object⟩)) held := by
  have hreplace := (h.congr (Multiset.zero_add held).symm).replace object 0 hcell hlive
    (by rw [howns])
  exact hreplace.congr (Multiset.zero_add _)

theorem Moved.sound {held' : Multiset Nat} (h : Moved heap next address target)
    (hsound : Sound host heap held') (haccounts : Accounts Object.owns next held)
    (hcell : next.cell target = some found) (hfits : found.object.Fits host)
    (hlive : found.references ≠ 0) : Sound host next held := by
  have hall : ∀ other left, next.cell other = some left →
      left.object.Fits host ∧ left.references ≠ 0 := by
    intro other left hleft
    by_cases hsame : other = target
    · subst hsame
      obtain rfl : found = left := Option.some_injective _ (hcell.symm.trans hleft)
      exact ⟨hfits, hlive⟩
    · have hother : other ≠ address := by
        rintro rfl
        rcases h.place with rfl | ⟨-, hgone⟩
        · exact hsame rfl
        · rw [hgone] at hleft
          cases hleft
      have hbefore := (h.others other hother hsame).symm.trans hleft
      exact ⟨hsound.fits other left hbefore, hsound.settled other left hbefore⟩
  exact ⟨haccounts, fun other left hleft => (hall other left hleft).1,
    fun other left hleft => (hall other left hleft).2⟩

/-- Room for `required` slots in a root that nobody else refers to. -/
theorem reserveUnique_performs {root : ListObject V} {required : Nat} {values : List V}
    (h : Accounts Object.owns heap (address ::ₘ held))
    (hcell : heap.cell address = some ⟨1, .list root⟩)
    (hfits : (Object.list root).Fits host)
    (hrequired : required ≤ host.listMaximum root.key ∧ required ≤ int64Max)
    (hvalues : values.length = required) :
    Performs (Aborts host heap (.elements root.key values))
      (fun n => reserveUnique host n root.key address required) heap
      fun target next => ∃ capacity, required ≤ capacity ∧
        (Object.list { root with capacity := capacity }).Fits host ∧ Moved heap next address target ∧
        next.cell target = some ⟨1, .list { root with capacity := capacity }⟩ ∧
        Accounts Object.owns next (target ::ₘ held) := by
  obtain ⟨hlength, hmaximum, hint⟩ := hfits
  refine Performs.step (loadList_counted hcell rfl) ?_
  by_cases hroom : required ≤ root.capacity
  · simp only [if_pos hroom]
    exact Performs.pure ⟨root.capacity, hroom, ⟨hlength, hmaximum, hint⟩,
      ⟨fun _ _ _ => rfl, .inl rfl⟩, hcell, h⟩
  · simp only [if_neg hroom]
    obtain ⟨capacity, hsettles, henough, hkeeps, hmost, hmostInt, hwithin⟩ :=
      blorpListCapacity_settles (listMaximum_le host root.key) ⟨hmaximum, hint⟩ hrequired
    refine Performs.liftStep hsettles (listBlock_step hmost ?_)
    refine (memoryResize_performs h hcell _).bind fun result next hresult => ?_
    rcases hresult with ⟨rfl, hrefused⟩ | ⟨target, rfl, hmoved, htarget, haccounts⟩
    · exact Performs.fails (fun _ => rfl)
        ⟨rfl, .inr ⟨_, .elements (by omega) (by omega) hmost, hrefused⟩⟩
    · refine Performs.step (loadList_counted htarget rfl) ?_
      refine Performs.step (assignList_eq htarget rfl) ?_
      exact Performs.pure ⟨capacity, henough, ⟨hlength.trans hkeeps, hmost, hmostInt⟩,
        hmoved.put htarget _, Store.cell_put_self (Store.lt_fresh htarget),
        replace_same haccounts htarget one_ne_zero rfl⟩

end Blorp.Runtime
