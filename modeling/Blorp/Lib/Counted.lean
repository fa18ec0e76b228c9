import Blorp.Lib.Actions

/-!
# Reference-counted stores

A store holds objects, each with a count of the references to it.  References are held from
outside the store or by the objects in it; `owns object` lists those an object holds.
`Accounts store held` says that every count is exactly the number of references there are,
`held` being those from outside.  A count that reaches zero gives the object's own references
up before the object is freed.
-/

namespace Counted

open Fuel

variable {O : Type}

/-- How a run of the program ends when it has no value: it gives up, a size does not fit,
or it uses memory that is not there. -/
inductive Fault where
  | abort
  | overflow
  | access
  deriving DecidableEq, Repr

structure Cell (O : Type) where
  references : Nat
  object : O
  deriving Repr

/-- Addresses are positions; a freed one is not used again. -/
structure Store (O : Type) where
  cells : List (Option (Cell O))
  deriving Repr

namespace Store

def cell (store : Store O) (address : Nat) : Option (Cell O) := store.cells[address]?.join

def references (store : Store O) (address : Nat) : Nat :=
  (store.cell address).elim 0 Cell.references

def put (store : Store O) (address : Nat) (content : Option (Cell O)) : Store O :=
  ⟨store.cells.set address content⟩

def fresh (store : Store O) : Nat := store.cells.length

def add (store : Store O) (content : Cell O) : Store O := ⟨store.cells ++ [some content]⟩

end Store

/-! ## Operations -/

abbrev StoreAction (O α : Type) := Action (Store O) Fault α

def load (address : Nat) : StoreAction O (Cell O) := fun store =>
  match store.cell address with
  | some content => .ok (content, store)
  | none => .err .access

def assign (address : Nat) (content : Cell O) : StoreAction O Unit := do
  let _ ← load address
  modify fun store => store.put address (some content)

def free (address : Nat) : StoreAction O Unit := do
  let _ ← load address
  modify fun store => store.put address none

def create (object : O) : StoreAction O Nat := fun store =>
  .ok (store.fresh, store.add ⟨1, object⟩)

def acquire (address : Nat) : StoreAction O Unit := do
  let content ← load address
  assign address { content with references := content.references + 1 }

/-- Takes a reference away, and with the last one the object.  A count of zero has none to
take. -/
def release (owns : O → List Nat) : Nat → Nat → StoreAction O Unit
  | 0, _ => fun _ => .timeout
  | fuel + 1, address => do
      let content ← load address
      if content.references = 0 then Action.fail .access
      else do
        assign address { content with references := content.references - 1 }
        if content.references = 1 then do
          (owns content.object).forM (release owns fuel)
          free address

/-! ## Cells -/

namespace Store

variable {store : Store O} {address other : Nat} {content : Option (Cell O)} {found : Cell O}

theorem lt_fresh (h : store.cell address = some found) : address < store.fresh := by
  by_contra hge
  have hnone : store.cells[address]? = none := List.getElem?_eq_none (Nat.le_of_not_lt hge)
  simp [cell, hnone] at h

theorem cells_of_cell (h : store.cell address = some found) :
    store.cells[address]? = some (some found) := by
  have hlt := lt_fresh h
  unfold cell at h
  rw [List.getElem?_eq_getElem hlt] at h ⊢
  exact congrArg some h

@[simp] theorem fresh_put : (store.put address content).fresh = store.fresh :=
  List.length_set

theorem cell_put_self (h : address < store.fresh) :
    (store.put address content).cell address = content := by
  have hset : (store.cells.set address content)[address]? = some content :=
    List.getElem?_set_self h
  simp [cell, put, hset]

theorem cell_put_of_ne (h : other ≠ address) :
    (store.put address content).cell other = store.cell other := by
  have hset : (store.cells.set address content)[other]? = store.cells[other]? :=
    List.getElem?_set_ne (Ne.symm h)
  simp [cell, put, hset]

theorem put_put (last : Option (Cell O)) :
    (store.put address content).put address last = store.put address last :=
  congrArg Store.mk (List.set_set _)

theorem references_eq (h : store.cell address = some found) :
    store.references address = found.references := by
  simp [references, h]

theorem references_put_self (h : address < store.fresh) :
    (store.put address content).references address = content.elim 0 Cell.references := by
  simp [references, cell_put_self h]

theorem references_put_of_ne (h : other ≠ address) :
    (store.put address content).references other = store.references other := by
  simp [references, cell_put_of_ne h]

theorem cell_fresh : store.cell store.fresh = none := by
  simp [cell, fresh]

theorem cell_add_self {added : Cell O} : (store.add added).cell store.fresh = some added := by
  simp [cell, add, fresh]

theorem cell_add_of_ne {added : Cell O} (h : other ≠ store.fresh) :
    (store.add added).cell other = store.cell other := by
  rcases Nat.lt_or_gt_of_ne h with hlt | hgt
  · have happend : (store.cells ++ [some added])[other]? = store.cells[other]? :=
      List.getElem?_append_left hlt
    simp [cell, add, happend]
  · have hnone : store.cells[other]? = none := List.getElem?_eq_none (Nat.le_of_lt hgt)
    have hbeyond : (store.cells ++ [some added])[other]? = none := by
      refine List.getElem?_eq_none ?_
      rw [List.length_append]
      exact hgt
    simp [cell, add, hnone, hbeyond]

theorem exists_cell_of_references (h : store.references address ≠ 0) :
    ∃ found, store.cell address = some found ∧ found.references = store.references address := by
  unfold references at h ⊢
  cases hcell : store.cell address with
  | none => simp [hcell] at h
  | some found => exact ⟨found, rfl, rfl⟩

end Store

/-! ## Accounting -/

def contribution (owns : O → List Nat) (content : Option (Cell O)) : Multiset Nat :=
  content.elim 0 fun cell => if cell.references = 0 then 0 else owns cell.object

def Store.stored (owns : O → List Nat) (store : Store O) : Multiset Nat :=
  (store.cells.map (contribution owns)).sum

/-- **Every count is the number of references there are.** -/
def Accounts (owns : O → List Nat) (store : Store O) (held : Multiset Nat) : Prop :=
  ∀ address, store.references address = (held + store.stored owns).count address

variable {owns : O → List Nat} {store : Store O} {held : Multiset Nat} {address other : Nat}
  {found : Cell O}

theorem contribution_of_ne_zero {c : Cell O} (h : c.references ≠ 0) :
    contribution owns (some c) = owns c.object := by
  simp [contribution, h]

theorem Store.stored_put (owns : O → List Nat) (h : store.cell address = some found) (content : Option (Cell O)) :
    (store.put address content).stored owns + contribution owns (some found) =
      store.stored owns + contribution owns content := by
  have hcells := Store.cells_of_cell h
  suffices hall : ∀ (cells : List (Option (Cell O))) (address : Nat),
      cells[address]? = some (some found) →
      ((cells.set address content).map (contribution owns)).sum + contribution owns (some found) =
        (cells.map (contribution owns)).sum + contribution owns content from
    hall store.cells address hcells
  intro cells
  induction cells with intro address hcell
  | nil => simp at hcell
  | cons first rest ih =>
    cases address with
    | zero =>
      obtain rfl : first = some found := by simpa using hcell
      simp only [List.set_cons_zero, List.map_cons, List.sum_cons]
      abel
    | succ address =>
      have hrest := ih address (by simpa using hcell)
      simp only [List.set_cons_succ, List.map_cons, List.sum_cons, add_assoc] at hrest ⊢
      rw [hrest]

theorem Store.stored_add {added : Cell O} :
    (store.add added).stored owns = store.stored owns + contribution owns (some added) := by
  simp [Store.stored, Store.add]

variable {held' : Multiset Nat} {next last : Store O} {f : Nat → StoreAction O Unit} {object : O}
variable {fuel kept : Nat}

theorem Accounts.congr (h : Accounts owns store held) (hheld : held = held') :
    Accounts owns store held' := hheld ▸ h

theorem Accounts.live (h : Accounts owns store held) (hmem : address ∈ held + store.stored owns) :
    store.references address ≠ 0 := by
  rw [h address]
  exact Multiset.count_ne_zero.mpr hmem

theorem Accounts.live_of_held (h : Accounts owns store held) (hmem : address ∈ held) :
    store.references address ≠ 0 :=
  h.live (Multiset.mem_add.mpr (.inl hmem))

theorem mem_stored (hcell : store.cell address = some found) (hlive : found.references ≠ 0)
    (hmem : other ∈ owns found.object) : other ∈ store.stored owns := by
  have hput := Store.stored_put owns hcell none
  rw [contribution_of_ne_zero hlive] at hput
  have hright : other ∈ store.stored owns + contribution owns none := by
    rw [← hput]
    exact Multiset.mem_add.mpr (.inr hmem)
  simpa [contribution] using hright

theorem Accounts.put (h : Accounts owns store held) (hcell : store.cell address = some found)
    (content : Option (Cell O))
    (hbalance : ∀ other, (held' + contribution owns content).count other + (if other =
      address then found.references else 0) = (held + contribution owns (some found)).count other +
      (if other = address then content.elim 0 Cell.references else 0)) :
    Accounts owns (store.put address content) held' := by
  intro other
  have hstored := congrArg (Multiset.count other) (Store.stored_put owns hcell content)
  have hbefore := h other
  have hbalance := hbalance other
  simp only [Multiset.count_add] at hstored hbefore hbalance ⊢
  by_cases hsame : other = address
  · subst hsame
    rw [Store.references_put_self (Store.lt_fresh hcell)]
    rw [Store.references_eq hcell] at hbefore
    simp only [if_true] at hbalance
    omega
  · rw [Store.references_put_of_ne hsame]
    simp only [if_neg hsame] at hbalance
    omega

/-! ## What operations keep -/

def Store.Extends (store next : Store O) : Prop :=
  ∀ address found, store.cell address = some found →
    ∃ kept, next.cell address = some kept ∧ kept.object = found.object

/-- No object is new or changed; counts only fall, and none stays at zero. -/
structure Store.Shrinks (store next : Store O) : Prop where
  fresh : next.fresh = store.fresh
  kept : ∀ address left, next.cell address = some left →
    ∃ found, store.cell address = some found ∧ left.object = found.object ∧
      left.references ≤ found.references
  dying : ∀ address found, store.cell address = some found → found.references = 0 →
    next.cell address = some found
  settled : ∀ address left, next.cell address = some left → left.references = 0 →
    store.cell address = some left

theorem Store.Shrinks.refl (store : Store O) : store.Shrinks store where
  fresh := rfl
  kept _ left h := ⟨left, h, rfl, Nat.le_refl _⟩
  dying _ _ h _ := h
  settled _ _ h _ := h

theorem Store.Shrinks.trans (h : store.Shrinks next) (hnext : next.Shrinks last) :
    store.Shrinks last where
  fresh := hnext.fresh.trans h.fresh
  kept address left hleft := by
    obtain ⟨middle, hmiddle, hobject, hcount⟩ := hnext.kept address left hleft
    obtain ⟨found, hfound, hsame, hle⟩ := h.kept address middle hmiddle
    exact ⟨found, hfound, hobject.trans hsame, hcount.trans hle⟩
  dying address found hfound hzero := hnext.dying address found (h.dying address found hfound hzero) hzero
  settled address left hleft hzero := h.settled address left (hnext.settled address left hleft hzero) hzero

/-- The object at an address is the same in both, and its count has not fallen. -/
structure Store.Grown (store next : Store O) (address : Nat) : Prop where
  kept : ∀ found, store.cell address = some found →
    ∃ left, next.cell address = some left ∧ left.object = found.object ∧
      found.references ≤ left.references
  old : ∀ left, next.cell address = some left →
    ∃ found, store.cell address = some found ∧ left.object = found.object ∧
      found.references ≤ left.references

theorem Store.Grown.of_eq (h : next.cell address = store.cell address) :
    store.Grown next address where
  kept found hfound := ⟨found, h.trans hfound, rfl, Nat.le_refl _⟩
  old left hleft := ⟨left, h ▸ hleft, rfl, Nat.le_refl _⟩

theorem Store.Grown.trans (h : store.Grown next address) (hnext : next.Grown last address) :
    store.Grown last address where
  kept found hfound := by
    obtain ⟨middle, hmiddle, hobject, hle⟩ := h.kept found hfound
    obtain ⟨left, hleft, hsame, hle'⟩ := hnext.kept middle hmiddle
    exact ⟨left, hleft, hsame.trans hobject, hle.trans hle'⟩
  old left hleft := by
    obtain ⟨middle, hmiddle, hobject, hle⟩ := hnext.old left hleft
    obtain ⟨found, hfound, hsame, hle'⟩ := h.old middle hmiddle
    exact ⟨found, hfound, hobject.trans hsame, hle'.trans hle⟩

theorem Store.Grown.references_ne_zero (h : store.Grown next address)
    (hlive : store.references address ≠ 0) : next.references address ≠ 0 := by
  obtain ⟨found, hfound, hcount⟩ := Store.exists_cell_of_references hlive
  obtain ⟨left, hleft, -, hle⟩ := h.kept found hfound
  rw [Store.references_eq hleft]
  omega

theorem Store.ext_cell (hfresh : next.fresh = store.fresh)
    (h : ∀ address, next.cell address = store.cell address) : next = store := by
  obtain ⟨cells⟩ := store
  obtain ⟨others⟩ := next
  refine congrArg Store.mk (List.ext_getElem? fun address => ?_)
  have hcell := h address
  have hlength : others.length = cells.length := hfresh
  simp only [cell] at hcell
  rcases Nat.lt_or_ge address cells.length with hlt | hge
  · rw [List.getElem?_eq_getElem hlt, List.getElem?_eq_getElem (hlength ▸ hlt)] at hcell ⊢
    exact congrArg some hcell
  · rw [List.getElem?_eq_none hge, List.getElem?_eq_none (hlength ▸ hge)]

theorem Store.put_cell_self (hcell : store.cell address = some found) :
    store.put address (some found) = store := by
  refine Store.ext_cell Store.fresh_put fun other => ?_
  by_cases hsame : other = address
  · rw [hsame, Store.cell_put_self (Store.lt_fresh hcell), hcell]
  · exact Store.cell_put_of_ne hsame

/-! ## Acquiring and creating -/

section

variable (h : store.cell address = some found)

include h

theorem load_eq : load address store = .ok (found, store) := by
  simp [load, h]

theorem assign_eq (content : Cell O) :
    assign address content store = .ok ((), store.put address (some content)) := by
  show (load address store >>= fun found => _) = _
  rw [load_eq h]
  rfl

theorem free_eq : free address store = .ok ((), store.put address none) := by
  show (load address store >>= fun found => _) = _
  rw [load_eq h]
  rfl

theorem acquire_eq : acquire address store =
      .ok ((), store.put address (some { found with references := found.references + 1 })) := by
  show (load address store >>= fun content => _) = _
  rw [load_eq h]
  exact assign_eq h _

end

theorem Accounts.acquire (h : Accounts owns store held) (hcell : store.cell address = some found)
    (hlive : found.references ≠ 0) :
    Accounts owns (store.put address (some { found with references := found.references + 1 }))
      (address ::ₘ held) := by
  refine h.put hcell _ fun other => ?_
  rw [contribution_of_ne_zero hlive, contribution_of_ne_zero (Nat.succ_ne_zero _)]
  simp only [Multiset.count_add, Multiset.count_cons, Option.elim_some]
  split <;> omega

theorem forM_cons_eq_ok {given : List Nat} : (address :: given).forM f store = .ok ((), last) ↔
      ∃ next, f address store = .ok ((), next) ∧ given.forM f next = .ok ((), last) := by
  refine Action.bind_eq_ok.trans ?_
  constructor
  · rintro ⟨_, next, hfirst, hrest⟩
    exact ⟨next, hfirst, hrest⟩
  · rintro ⟨next, hfirst, hrest⟩
    exact ⟨(), next, hfirst, hrest⟩

theorem acquires_spec : ∀ (given : List Nat) {store : Store O} {held : Multiset Nat},
    Accounts owns store held → (∀ address ∈ given, store.references address ≠ 0) →
    ∃ next, given.forM acquire store = .ok ((), next) ∧ Accounts owns next (↑given + held) ∧
      next.fresh = store.fresh ∧ (∀ address, store.Grown next address) ∧
      ∀ address, address ∉ given → next.cell address = store.cell address := by
  intro given
  induction given with
  | nil =>
    intro store held h _
    exact ⟨store, rfl, h.congr (by simp), rfl, fun _ => .of_eq rfl, fun _ _ => rfl⟩
  | cons address given ih =>
    intro store held h hlive
    obtain ⟨found, hcell, hcount⟩ := Store.exists_cell_of_references (hlive address (by simp))
    have hne : found.references ≠ 0 := by rw [hcount]; exact hlive address (by simp)
    let grown : Cell O := { found with references := found.references + 1 }
    have hgrown : ∀ other, store.Grown (store.put address (some grown)) other := by
      intro other
      by_cases hsame : other = address
      · subst hsame
        have hself : (store.put other (some grown)).cell other = some grown :=
          Store.cell_put_self (Store.lt_fresh hcell)
        refine ⟨fun there hthere => ⟨grown, hself, ?_⟩, fun left hleft => ⟨found, hcell, ?_⟩⟩
        · obtain rfl : found = there := Option.some_injective _ (hcell.symm.trans hthere)
          exact ⟨rfl, Nat.le_succ _⟩
        · obtain rfl : grown = left := Option.some_injective _ (hself.symm.trans hleft)
          exact ⟨rfl, Nat.le_succ _⟩
      · exact .of_eq (Store.cell_put_of_ne hsame)
    obtain ⟨next, hrun, haccounts, hfresh, hrest, hothers⟩ := ih (h.acquire hcell hne)
      fun other hother => (hgrown other).references_ne_zero (hlive other (by simp [hother]))
    refine ⟨next, forM_cons_eq_ok.mpr ⟨_, acquire_eq hcell, hrun⟩, ?_,
      hfresh.trans Store.fresh_put, fun other => (hgrown other).trans (hrest other), ?_⟩
    · refine haccounts.congr ?_
      rw [← Multiset.cons_coe, Multiset.cons_add, Multiset.add_cons]
    · intro other hother
      rw [List.mem_cons, not_or] at hother
      rw [hothers other hother.2, Store.cell_put_of_ne hother.1]

theorem Accounts.create (h : Accounts owns store (↑(owns object) + held)) :
    Accounts owns (store.add ⟨1, object⟩) (store.fresh ::ₘ held) := by
  intro other
  have hbefore := h other
  have hcontribution : contribution owns (some (⟨1, object⟩ : Cell O)) = owns object :=
    contribution_of_ne_zero (by simp)
  rw [Store.stored_add, hcontribution]
  simp only [Multiset.count_add, Multiset.count_cons] at hbefore ⊢
  by_cases hsame : other = store.fresh
  · subst hsame
    rw [Store.references_eq Store.cell_add_self]
    rw [Store.references, Store.cell_fresh] at hbefore
    simp only [Option.elim_none] at hbefore
    simp only [if_true]
    omega
  · rw [Store.references, Store.cell_add_of_ne hsame, ← Store.references, if_neg hsame]
    omega

/-- An object takes other contents: what it gains is no longer held, what it loses is. -/
theorem Accounts.replace {given : Multiset Nat} (h : Accounts owns store (given + held))
    (object : O) (taken : Multiset Nat) (hcell : store.cell address = some found)
    (hlive : found.references ≠ 0)
    (hbalance : ↑(owns object) + taken = ↑(owns found.object) + given) :
    Accounts owns (store.put address (some { found with object := object })) (taken + held) := by
  refine h.put hcell _ fun other => ?_
  have hcount := congrArg (Multiset.count other) hbalance
  rw [contribution_of_ne_zero hlive, contribution_of_ne_zero (c := { found with object }) hlive]
  simp only [Multiset.count_add, Option.elim_some] at hcount ⊢
  omega

/-! ## Releasing -/

section

variable (h : Accounts owns store (address ::ₘ held))

include h

theorem Accounts.lower (hcell : store.cell address = some found) (hshared : 1 < found.references) :
    Accounts owns (store.put address (some { found with references := found.references - 1 }))
      held := by
  refine h.put hcell _ fun other => ?_
  rw [contribution_of_ne_zero (by omega : found.references ≠ 0),
    contribution_of_ne_zero (c := { found with references := found.references - 1 })
      (by simp; omega)]
  simp only [Multiset.count_add, Multiset.count_cons, Option.elim_some]
  split <;> omega

/-- With its last reference an object starts to die: what it held is held for it. -/
theorem Accounts.dying (hcell : store.cell address = some found) (hlast : found.references = 1) :
    Accounts owns (store.put address (some { found with references := 0 }))
      (↑(owns found.object) + held) := by
  refine h.put hcell _ fun other => ?_
  rw [contribution_of_ne_zero (by omega : found.references ≠ 0)]
  simp only [contribution, Option.elim_some, if_true, Multiset.count_add, Multiset.count_cons,
    Multiset.count_zero]
  split <;> omega

/-- An object with one reference leaves its address, to be created elsewhere. -/
theorem Accounts.vacate (hcell : store.cell address = some found) (honly : found.references = 1) :
    Accounts owns (store.put address none) (↑(owns found.object) + held) := by
  refine h.put hcell _ fun other => ?_
  rw [contribution_of_ne_zero (by omega : found.references ≠ 0)]
  simp only [contribution, Option.elim_none, Multiset.count_add, Multiset.count_cons,
    Multiset.count_zero]
  split <;> omega

end

theorem Accounts.free (h : Accounts owns store held) (hcell : store.cell address = some found)
    (hzero : found.references = 0) : Accounts owns (store.put address none) held := by
  refine h.put hcell _ fun other => ?_
  simp [contribution, hzero]

/-- Taking a reference that is not the last one. -/
theorem release_shared (owns : O → List Nat) (hcell : store.cell address = some found)
    (hshared : 1 < found.references) (fuel : Nat) :
    release owns (fuel + 1) address store =
      .ok ((), store.put address (some { found with references := found.references - 1 })) := by
  show (load address store >>= fun content => _) = _
  rw [load_eq hcell]
  simp only [Outcome.ok_bind, if_neg (by omega : ¬ found.references = 0),
    if_neg (by omega : ¬ found.references = 1)]
  show (assign address _ store >>= fun next => _) = _
  rw [assign_eq hcell]
  rfl

/-- What giving references up leaves. -/
structure Released (owns : O → List Nat) (held : Multiset Nat) (store next : Store O) : Prop where
  accounts : Accounts owns next held
  shrinks : store.Shrinks next
  fewer : (next.stored owns).card ≤ (store.stored owns).card

theorem Released.trans (h : Released owns held store next) (hnext : Released owns held' next last) :
    Released owns held' store last :=
  ⟨hnext.accounts, h.shrinks.trans hnext.shrinks, hnext.fewer.trans h.fewer⟩

theorem Released.stays (h : Released owns (address ::ₘ held) store next)
    (hcell : store.cell address = some found) :
    ∃ left, next.cell address = some left ∧ left.object = found.object ∧
      left.references ≤ found.references ∧ left.references ≠ 0 := by
  have hlive := h.accounts.live_of_held (Multiset.mem_cons_self address held)
  obtain ⟨left, hleft, hcount⟩ := Store.exists_cell_of_references hlive
  obtain ⟨there, hthere, hobject, hle⟩ := h.shrinks.kept address left hleft
  obtain rfl : found = there := Option.some_injective _ (hcell.symm.trans hthere)
  exact ⟨left, hleft, hobject, hle, by rwa [hcount]⟩

theorem stored_lower (hcell : store.cell address = some found) (hshared : 1 < found.references) :
    (store.put address (some { found with references := found.references - 1 })).stored owns =
      store.stored owns := by
  have hput := Store.stored_put owns hcell
    (some { found with references := found.references - 1 })
  rw [contribution_of_ne_zero (by omega : found.references ≠ 0),
    contribution_of_ne_zero (c := { found with references := found.references - 1 })
      (by simp; omega)] at hput
  exact add_right_cancel hput

theorem stored_dying (owns : O → List Nat) (hcell : store.cell address = some found) (hlast : found.references = 1) :
    (store.put address (some { found with references := 0 })).stored owns + ↑(owns found.object) =
      store.stored owns := by
  have hput := Store.stored_put owns hcell (some { found with references := 0 })
  rw [contribution_of_ne_zero (by omega : found.references ≠ 0)] at hput
  simpa [contribution] using hput

section

variable (hcell : store.cell address = some found)

include hcell

theorem stored_free (hzero : found.references = 0) :
    (store.put address none).stored owns = store.stored owns := by
  have hput := Store.stored_put owns hcell none
  simpa [contribution, hzero] using hput

theorem Store.Shrinks.lower {count : Nat} (hcount : 0 < count) (hle : count ≤ found.references) :
    store.Shrinks (store.put address (some { found with references := count })) where
  fresh := Store.fresh_put
  kept other left hleft := by
    by_cases hsame : other = address
    · subst hsame
      rw [Store.cell_put_self (Store.lt_fresh hcell)] at hleft
      cases hleft
      exact ⟨found, hcell, rfl, hle⟩
    · rw [Store.cell_put_of_ne hsame] at hleft
      exact ⟨left, hleft, rfl, Nat.le_refl _⟩
  dying other left hleft hzero := by
    by_cases hsame : other = address
    · subst hsame
      rw [hcell] at hleft
      cases hleft
      omega
    · rw [Store.cell_put_of_ne hsame, hleft]
  settled other left hleft hzero := by
    by_cases hsame : other = address
    · subst hsame
      rw [Store.cell_put_self (Store.lt_fresh hcell)] at hleft
      cases hleft
      simp only at hzero
      omega
    · rwa [Store.cell_put_of_ne hsame] at hleft

theorem Store.Shrinks.freed (hlast : found.references = 1)
    (h : (store.put address (some { found with references := 0 })).Shrinks next) :
    store.Shrinks (next.put address none) where
  fresh := Store.fresh_put.trans (h.fresh.trans Store.fresh_put)
  kept other left hleft := by
    by_cases hsame : other = address
    · subst hsame
      have hdead := h.dying other { found with references := 0 }
        (Store.cell_put_self (Store.lt_fresh hcell)) rfl
      rw [Store.cell_put_self (Store.lt_fresh hdead)] at hleft
      cases hleft
    · rw [Store.cell_put_of_ne hsame] at hleft
      have hkept := h.kept other left hleft
      rwa [Store.cell_put_of_ne hsame] at hkept
  dying other left hleft hzero := by
    have hsame : other ≠ address := by
      rintro rfl
      rw [hcell] at hleft
      cases hleft
      omega
    rw [Store.cell_put_of_ne hsame]
    refine h.dying other left ?_ hzero
    rw [Store.cell_put_of_ne hsame, hleft]
  settled other left hleft hzero := by
    by_cases hsame : other = address
    · subst hsame
      have hdead := h.dying other { found with references := 0 }
        (Store.cell_put_self (Store.lt_fresh hcell)) rfl
      rw [Store.cell_put_self (Store.lt_fresh hdead)] at hleft
      cases hleft
    · rw [Store.cell_put_of_ne hsame] at hleft
      have hsettled := h.settled other left hleft hzero
      rwa [Store.cell_put_of_ne hsame] at hsettled

end

theorem releases_of_release {bound : Nat} (hrelease : ∀ (store : Store O) (held : Multiset Nat)
      (address : Nat), (address ::ₘ held + store.stored owns).card < bound →
      Accounts owns store (address ::ₘ held) →
      Performs (fun _ => False) (fun n => release owns n address) store
        fun _ next => Released owns held store next) :
    ∀ (given : List Nat) (store : Store O) (held : Multiset Nat),
      (↑given + held + store.stored owns).card < bound → Accounts owns store (↑given + held) →
      Performs (fun _ => False) (fun n => given.forM (release owns n)) store
        fun _ next => Released owns held store next := by
  intro given
  induction given with
  | nil =>
    intro store held _ h
    refine Performs.pure ⟨h.congr (by simp), .refl store, Nat.le_refl _⟩
  | cons address given ih =>
    intro store held hbound h
    have hcons : (↑(address :: given) + held : Multiset Nat) = address ::ₘ (↑given + held) := by
      rw [← Multiset.cons_coe, Multiset.cons_add]
    rw [hcons] at hbound h
    refine (hrelease store _ address hbound h).bind fun _ next hnext => ?_
    refine (ih next held ?_ hnext.accounts).post fun _ last hlast => hnext.trans hlast
    have hfewer := hnext.fewer
    simp only [Multiset.card_add, Multiset.card_cons] at hbound ⊢
    omega

/-- **Giving up a reference.**  It ends without a fault, and the counts are again the
references there are. -/
theorem release_spec (owns : O → List Nat) (store : Store O) (held : Multiset Nat) (address : Nat)
    (h : Accounts owns store (address ::ₘ held)) :
    Performs (fun _ => False) (fun n => release owns n address) store
      fun _ next => Released owns held store next := by
  suffices hall : ∀ bound (store : Store O) (held : Multiset Nat) (address : Nat),
      (address ::ₘ held + store.stored owns).card < bound →
      Accounts owns store (address ::ₘ held) →
      Performs (fun _ => False) (fun n => release owns n address) store
        fun _ next => Released owns held store next from
    hall _ store held address (Nat.lt_succ_self _) h
  intro bound
  induction bound with
  | zero =>
    intro store held address hbound
    exact absurd hbound (Nat.not_lt_zero _)
  | succ bound ih =>
    intro store held address hbound h
    have hlive := h.live_of_held (Multiset.mem_cons_self address held)
    obtain ⟨found, hcell, hcount⟩ := Store.exists_cell_of_references hlive
    by_cases hlast : found.references = 1
    · -- The last reference: the object's own are given up, then it is freed.
      refine Performs.succ (g := fun n => do
        assign address { found with references := 0 }
        (owns found.object).forM (release owns n)
        free address) (fun n => ?_) ?_
      · show (load address store >>= fun content => _) = _
        rw [load_eq hcell]
        simp only [Outcome.ok_bind, hlast, if_true, if_neg one_ne_zero, Nat.sub_self]
      refine (Performs.done (fun _ => assign_eq hcell _)
        (Q := fun _ next => next = store.put address (some { found with references := 0 }))
        rfl).bind fun _ next hnext => ?_
      subst hnext
      have hstored := stored_dying owns hcell hlast
      refine (releases_of_release ih (owns found.object) _ held ?_
        (h.dying hcell hlast)).bind fun _ next hnext => ?_
      · have hcard := congrArg Multiset.card hstored
        simp only [Multiset.card_add, Multiset.card_cons] at hcard hbound ⊢
        omega
      have hdead := hnext.shrinks.dying address { found with references := 0 }
        (Store.cell_put_self (Store.lt_fresh hcell)) rfl
      refine Performs.done (fun _ => free_eq hdead) ⟨hnext.accounts.free hdead rfl,
        .freed hcell hlast hnext.shrinks, ?_⟩
      rw [stored_free hdead rfl, ← hstored, Multiset.card_add]
      exact hnext.fewer.trans (Nat.le_add_right _ _)
    · have hshared : 1 < found.references := by omega
      refine Performs.succ (g := fun _ => assign address
        { found with references := found.references - 1 }) (fun n => ?_) ?_
      · rw [release_shared owns hcell hshared, assign_eq hcell]
      refine Performs.done (fun _ => assign_eq hcell _) ⟨h.lower hcell hshared,
        .lower hcell (by omega) (by omega), ?_⟩
      rw [stored_lower hcell hshared]

theorem releases_spec (owns : O → List Nat) (store : Store O) (held : Multiset Nat)
    (given : List Nat) (h : Accounts owns store (↑given + held)) :
    Performs (fun _ => False) (fun n => given.forM (release owns n)) store
      fun _ next => Released owns held store next :=
  releases_of_release (fun store held address _ h => release_spec owns store held address h)
    given store held (Nat.lt_succ_self _) h

/-! ## An object that stays held -/

theorem load_eq_ok :
    load address store = .ok (found, next) ↔ store.cell address = some found ∧ next = store := by
  unfold load
  cases store.cell address with
  | none => simp
  | some other => simp [eq_comm]

theorem release_eq_ok (h : release owns (fuel + 1) address store = .ok ((), last)) :
    ∃ found, store.cell address = some found ∧
      ((1 < found.references ∧
          last = store.put address (some { found with references := found.references - 1 })) ∨
        (found.references = 1 ∧ ∃ next dead,
          (owns found.object).forM (release owns fuel)
            (store.put address (some { found with references := 0 })) = .ok ((), next) ∧
          next.cell address = some dead ∧ last = next.put address none)) := by
  obtain ⟨found, same, hload, hrest⟩ := Action.bind_eq_ok.mp h
  obtain ⟨hcell, hsame⟩ := load_eq_ok.mp hload
  rw [hsame] at hrest
  refine ⟨found, hcell, ?_⟩
  by_cases hzero : found.references = 0
  · rw [if_pos hzero] at hrest
    cases hrest
  rw [if_neg hzero] at hrest
  obtain ⟨_, lowered, hassign, hrest⟩ := Action.bind_eq_ok.mp hrest
  rw [assign_eq hcell] at hassign
  cases hassign
  by_cases hlast : found.references = 1
  · rw [if_pos hlast] at hrest
    obtain ⟨_, next, hgiven, hfree⟩ := Action.bind_eq_ok.mp hrest
    rw [hlast] at hgiven
    obtain ⟨dead, _, hload, hmodify⟩ := Action.bind_eq_ok.mp hfree
    obtain ⟨hdead, rfl⟩ := load_eq_ok.mp hload
    cases hmodify
    exact .inr ⟨hlast, _, dead, hgiven, hdead, rfl⟩
  · rw [if_neg hlast] at hrest
    cases hrest
    exact .inl ⟨by omega, rfl⟩

theorem forM_lowers (hf : ∀ address store last, f address store = .ok ((), last) →
      last.references other ≤ store.references other) :
    ∀ (given : List Nat) {store last : Store O}, given.forM f store = .ok ((), last) →
      last.references other ≤ store.references other := by
  intro given
  induction given with
  | nil =>
    intro store last h
    cases h
    exact Nat.le_refl _
  | cons address given ih =>
    intro store last h
    obtain ⟨next, hfirst, hrest⟩ := forM_cons_eq_ok.mp h
    exact (ih hrest).trans (hf address store next hfirst)

theorem release_lowers : ∀ {address : Nat} {store last : Store O},
    release owns fuel address store = .ok ((), last) →
    ∀ other, last.references other ≤ store.references other := by
  induction fuel with
  | zero =>
    intro address store last h
    cases h
  | succ fuel ih =>
    intro address store last h other
    obtain ⟨found, hcell, ⟨_, rfl⟩ | ⟨hlast, next, dead, hgiven, hdead, rfl⟩⟩ := release_eq_ok h
    · by_cases hsame : other = address
      · subst hsame
        rw [Store.references_put_self (Store.lt_fresh hcell), Store.references_eq hcell]
        exact Nat.sub_le _ _
      · exact Nat.le_of_eq (Store.references_put_of_ne hsame)
    · have hle := forM_lowers (fun address store last h => ih h other) _ hgiven
      by_cases hsame : other = address
      · subst hsame
        rw [Store.references_put_self (Store.lt_fresh hdead)]
        exact Nat.zero_le _
      · rw [Store.references_put_of_ne hsame] at hle ⊢
        exact hle

/-- The same store, but for the object at one address. -/
structure Store.Swapped (kept : Nat) (object : O) (store other : Store O) : Prop where
  fresh : store.fresh = other.fresh
  others : ∀ position, position ≠ kept → store.cell position = other.cell position
  here : ∃ found, other.cell kept = some found ∧
    store.cell kept = some { found with object := object }

section

variable {other : Store O} (h : Store.Swapped kept object store other)

include h

theorem Store.Swapped.put {position : Nat} (hne : position ≠ kept)
    (hcell : other.cell position = some found) (content : Option (Cell O)) :
    Store.Swapped kept object (store.put position content) (other.put position content) where
  fresh := by rw [Store.fresh_put, Store.fresh_put, h.fresh]
  others next hnext := by
    by_cases hsame : next = position
    · subst hsame
      rw [Store.cell_put_self (Store.lt_fresh hcell),
        Store.cell_put_self (Store.lt_fresh ((h.others next hnext).trans hcell))]
    · rw [Store.cell_put_of_ne hsame, Store.cell_put_of_ne hsame]
      exact h.others next hnext
  here := by
    rw [Store.cell_put_of_ne (Ne.symm hne), Store.cell_put_of_ne (Ne.symm hne)]
    exact h.here

theorem Store.Swapped.eq_put (hcell : other.cell kept = some found) :
    store = other.put kept (some { found with object := object }) := by
  obtain ⟨there, hthere, hhere⟩ := h.here
  obtain rfl : found = there := Option.some_injective _ (hcell.symm.trans hthere)
  refine Store.ext_cell (h.fresh.trans Store.fresh_put.symm) fun address => ?_
  by_cases hsame : address = kept
  · rw [hsame, hhere, Store.cell_put_self (Store.lt_fresh hcell)]
  · rw [h.others address hsame, Store.cell_put_of_ne hsame]

theorem Store.Swapped.recount (hcell : other.cell kept = some found) (count : Nat) :
    Store.Swapped kept object (store.put kept (some ⟨count, object⟩))
      (other.put kept (some { found with references := count })) where
  fresh := by rw [Store.fresh_put, Store.fresh_put, h.fresh]
  others next hnext := by
    rw [Store.cell_put_of_ne hnext, Store.cell_put_of_ne hnext]
    exact h.others next hnext
  here := by
    obtain ⟨there, hthere, hhere⟩ := h.here
    exact ⟨_, Store.cell_put_self (Store.lt_fresh hcell),
      Store.cell_put_self (Store.lt_fresh hhere)⟩

end

theorem forM_swapped (hlowers : ∀ address store last, f address store = .ok ((), last) →
      last.references kept ≤ store.references kept)
    (hf : ∀ address store other last, f address other = .ok ((), last) →
      last.references kept ≠ 0 → Store.Swapped kept object store other →
      ∃ next, f address store = .ok ((), next) ∧ Store.Swapped kept object next last) :
    ∀ (given : List Nat) {store other last : Store O}, given.forM f other = .ok ((), last) →
      last.references kept ≠ 0 → Store.Swapped kept object store other →
      ∃ next, given.forM f store = .ok ((), next) ∧ Store.Swapped kept object next last := by
  intro given
  induction given with
  | nil =>
    intro store other last h _ hswapped
    cases h
    exact ⟨store, rfl, hswapped⟩
  | cons address given ih =>
    intro store other last h hkept hswapped
    obtain ⟨middle, hfirst, hrest⟩ := forM_cons_eq_ok.mp h
    have hle := forM_lowers hlowers given hrest
    obtain ⟨next, hnext, hagain⟩ := hf address store other middle hfirst (by omega) hswapped
    obtain ⟨final, hfinal, hlast⟩ := ih hrest hkept hagain
    exact ⟨final, forM_cons_eq_ok.mpr ⟨next, hnext, hfinal⟩, hlast⟩

/-- **A release does not see an object that stays held.** -/
theorem release_swapped : ∀ {address : Nat} {store other last : Store O},
    release owns fuel address other = .ok ((), last) → last.references kept ≠ 0 →
    Store.Swapped kept object store other →
    ∃ next, release owns fuel address store = .ok ((), next) ∧
      Store.Swapped kept object next last := by
  induction fuel with
  | zero =>
    intro address store other last h
    cases h
  | succ fuel ih =>
    intro address store other last h hkept hswapped
    obtain ⟨found, hcell, ⟨hshared, rfl⟩ | ⟨hlast, middle, dead, hgiven, hdead, rfl⟩⟩ :=
      release_eq_ok h
    · by_cases hsame : address = kept
      · subst hsame
        obtain ⟨there, hthere, hhere⟩ := hswapped.here
        obtain rfl : there = found := Option.some_injective _ (hthere.symm.trans hcell)
        exact ⟨_, release_shared owns hhere hshared fuel, hswapped.recount hcell _⟩
      · have hhere := (hswapped.others address hsame).trans hcell
        exact ⟨_, release_shared owns hhere hshared fuel, hswapped.put hsame hcell _⟩
    · -- The kept object would be gone if this were its own last reference.
      have hsame : address ≠ kept := by
        rintro rfl
        exact hkept (Store.references_put_self (Store.lt_fresh hdead))
      have hhere := (hswapped.others address hsame).trans hcell
      rw [Store.references_put_of_ne (Ne.symm hsame)] at hkept
      obtain ⟨next, hnext, hagain⟩ := forM_swapped (f := release owns fuel)
        (fun address store last h => release_lowers h kept)
        (fun address store other last h hkept hswapped => ih h hkept hswapped)
        _ hgiven hkept (hswapped.put hsame hcell _)
      have hnextDead := (hagain.others address hsame).trans hdead
      refine ⟨next.put address none, ?_, hagain.put hsame hdead none⟩
      show (load address store >>= fun content => _) = _
      rw [load_eq hhere]
      simp only [Outcome.ok_bind, hlast, if_true, if_neg one_ne_zero, Nat.sub_self]
      exact Action.bind_eq_ok.mpr ⟨(), _, assign_eq hhere _,
        Action.bind_eq_ok.mpr ⟨(), next, hnext, free_eq hnextDead⟩⟩

/-- References given up while an object stays held: they end as they would with another
object in its place. -/
theorem releases_swapped {given : List Nat} {other : Store O} {Q : Unit → Store O → Prop}
    (h : Performs (fun _ => False) (fun n => given.forM (release owns n)) other Q)
    (hkept : ∀ last, Q () last → last.references kept ≠ 0)
    (hswapped : Store.Swapped kept object store other) :
    Performs (fun _ => False) (fun n => given.forM (release owns n)) store
      fun _ next => ∃ last, Q () last ∧ Store.Swapped kept object next last := by
  obtain ⟨outcome, ⟨hne, least, hleast⟩, hok, herr⟩ := h
  cases outcome with
  | timeout => exact absurd rfl hne
  | err fault => exact (herr fault rfl).elim
  | ok reached =>
    obtain ⟨_, last⟩ := reached
    have hQ := hok () last rfl
    have hlive := hkept last hQ
    have hrun : ∀ fuel, least ≤ fuel → ∃ next, given.forM (release owns fuel) store =
        .ok ((), next) ∧ Store.Swapped kept object next last := fun fuel hle =>
      forM_swapped (f := release owns fuel) (fun address store last h => release_lowers h kept)
        (fun address store other last h hkept hswapped => release_swapped h hkept hswapped)
        given (hleast fuel hle) hlive hswapped
    obtain ⟨next, hfirst, hnext⟩ := hrun least (Nat.le_refl _)
    obtain ⟨found, hcell, -⟩ := Store.exists_cell_of_references hlive
    refine ⟨.ok ((), next), ⟨by simp, least, fun fuel hle => ?_⟩, ?_, by simp⟩
    · obtain ⟨again, hsecond, hagain⟩ := hrun fuel hle
      exact hsecond.trans (by rw [hagain.eq_put hcell, hnext.eq_put hcell])
    · intro _ reached heq
      cases heq
      exact ⟨last, hQ, hnext⟩

end Counted
