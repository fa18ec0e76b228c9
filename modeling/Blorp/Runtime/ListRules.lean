import Blorp.Runtime.HeapRules

/-!
# What the List updates keep

A copying update leaves its result beside everything that was there (`Copied`).  In place,
an operand that nobody else refers to becomes the result (`Replaced`), wherever its block
ends up; a replaced occurrence is dropped only after the new one is counted.
-/

namespace Blorp.Runtime

open Fuel Counted

variable {V : Type} [Managed V] {host : Host V} {heap next base : Heap V} {held : Multiset Nat}
  {address target : Nat} {key : ListKey} {source : Root} {values : List V}

section

variable (host : Host V) (heap next : Heap V) (held : Multiset Nat) (result : Root)
    (contents : Contents V)

/-- A new root beside everything that was there. -/
structure Copied : Prop where
  sound : Sound host next (heap.fresh ::ₘ held)
  contents : HasContents next result contents
  place : result = .counted heap.fresh
  kept : ∀ address, address ≠ heap.fresh → heap.Grown next address

/-- A root in place of one that was only held; nothing else changed, though some may be gone. -/
structure Replaced : Prop where
  place : ∃ target, result = .counted target ∧ Sound host next (target ::ₘ held)
  contents : HasContents next result contents
  old : ∀ address, result ≠ .counted address → ∀ found, next.cell address = some found →
    ∃ before, heap.cell address = some before ∧ found.object = before.object

end

/-! ## Sources -/

omit [Managed V] in
theorem HasContents.ne_fresh {contents : Contents V} (h : HasContents heap source contents) :
    source ≠ .counted heap.fresh := by
  rintro rfl
  cases h with
  | text cell | elements cell => exact absurd (cell.symm.trans Store.cell_fresh) (by simp)

omit [Managed V] in
theorem HasContents.reads_here (h : HasContents heap source (.elements key values)) :
    ∃ root, loadList key source heap = .ok (root, heap) ∧ root.values = values :=
  h.reads h.ne_fresh fun _ _ => .of_eq rfl

omit [Managed V] in
theorem HasContents.of_object {contents : Contents V} (h : HasContents heap source contents)
    (hsame : ∀ address found, source = .counted address → heap.cell address = some found →
      ∃ left, next.cell address = some left ∧ left.object = found.object) :
    HasContents next source contents := by
  cases h with
  | empty => exact .empty _
  | text cell holds =>
    obtain ⟨⟨count, object⟩, hleft, hobject⟩ := hsame _ _ rfl cell
    simp only at hobject
    subst hobject
    exact .text hleft holds
  | elements cell =>
    obtain ⟨⟨count, object⟩, hleft, hobject⟩ := hsame _ _ rfl cell
    simp only at hobject
    subst hobject
    exact .elements hleft

theorem HasContents.length_le (h : HasContents heap source (.elements key values))
    (hsound : Sound host heap held) :
    values.length ≤ host.listMaximum key ∧ values.length ≤ int64Max := by
  cases h with
  | empty => exact ⟨Nat.zero_le _, Nat.zero_le _⟩
  | elements cell =>
    obtain ⟨hlength, hmaximum, hint⟩ := hsound.fits _ _ cell
    exact ⟨hlength.trans hmaximum, hlength.trans hint⟩

theorem HasContents.live (h : HasContents heap source (.elements key values))
    (hsound : Sound host heap held) {value : V} (hvalue : value ∈ values)
    (hmem : address ∈ addresses value) : heap.references address ≠ 0 :=
  hsound.accounts.live (Multiset.mem_add.mpr (.inr (h.stored hsound.settled hvalue hmem)))

omit [Managed V] in
theorem ne_fresh_of_live (hlive : heap.references address ≠ 0) : address ≠ heap.fresh := by
  rintro rfl
  exact hlive (by rw [Store.references, Store.cell_fresh]; rfl)

theorem Filled.sound {root : ListObject V} (h : Filled base heap target root held)
    (hbase : ∀ address found, base.cell address = some found →
      found.object.Fits host ∧ found.references ≠ 0)
    (hfits : (Object.list root).Fits host) : Sound host heap (target ::ₘ held) :=
  .of_apart base h.accounts (fun address _ => hbase address) h.apart h.cell hfits one_ne_zero

theorem Filled.copied {root : ListObject V} (h : Filled heap next heap.fresh root held)
    (hsound : Sound host heap held) (hfits : (Object.list root).Fits host) :
    Copied host heap next held (.counted heap.fresh) (.elements root.key root.values) where
  sound := h.sound (fun address found hcell =>
    ⟨hsound.fits address found hcell, hsound.settled address found hcell⟩) hfits
  contents := .elements h.cell
  place := rfl
  kept := h.apart

/-! ## Copying updates -/

theorem allocateGrowingRoot_performs {required : Nat} (hsound : Sound host heap held)
    (hmaximum : required ≤ host.listMaximum key) (hvalues : values.length = required) :
    Performs (Aborts host heap (.elements key values))
      (fun _ => allocateGrowingRoot host key required) heap
      fun result next => result = heap.fresh ∧ ∃ capacity, required ≤ capacity ∧
        capacity ≤ host.listMaximum key ∧ capacity ≤ max required listDefaultCapacity ∧
        Filled heap next heap.fresh ⟨key, [], capacity⟩ held := by
  obtain ⟨henough, hmost, hfloor⟩ := blorpListCopyCapacity_spec hmaximum
  refine (listRootAllocation_performs heap hmost (by omega) (by omega)).post
    fun result next hresult => ?_
  obtain ⟨rfl, rfl⟩ := hresult
  exact ⟨rfl, _, henough, hmost, hfloor, .create hsound.accounts⟩

omit [Managed V] in
theorem wide_performs {P : Fault → Prop} {value : Nat} {α : Type} {Q : α → Heap V → Prop}
    {rest : Nat → Nat → HeapAction V α} (h : value ≤ uint64Max)
    (hrest : Performs P (fun n => rest n value) heap Q) :
    Performs P (fun n => wide value >>= rest n) heap Q :=
  Performs.liftStep (checked_settles h) hrest

theorem blorpListAppend_performs (hsound : Sound host heap held)
    (hsource : HasContents heap source (.elements key values)) {value : V}
    (hvalue : ∀ address ∈ addresses value, heap.references address ≠ 0) :
    Performs (Aborts host heap (.elements key (values ++ [value])))
      (fun _ => blorpListAppend host key source value) heap
      fun result next => Copied host heap next held result (.elements key (values ++ [value])) := by
  obtain ⟨root, hload, hvalues⟩ := hsource.reads_here
  refine Performs.step hload ?_
  by_cases hlong : root.values.length ≥ int64Max ∨ root.values.length ≥ host.listMaximum key
  · simp only [if_pos hlong]
    refine Performs.fails (fun _ => rfl) ⟨rfl, .inl ?_⟩
    simp only [Contents.Exceeds, List.length_append, List.length_singleton, ← hvalues]
    omega
  · simp only [if_neg hlong]
    have hwide : int64Max < uint64Max := by decide
    refine wide_performs (by omega) ?_
    refine (allocateGrowingRoot_performs hsound (by omega) (by simp [hvalues])).bind
      fun result filled hnew => ?_
    obtain ⟨rfl, capacity, henough, hmost, hfloor, hfilled⟩ := hnew
    have hfour : listDefaultCapacity ≤ int64Max := by decide
    subst hvalues
    obtain ⟨copied, hcopy, hcopied⟩ := hfilled.copySlots hsource hsource.ne_fresh
      (fun value hmem address haddress =>
        have hlive := hsource.live hsound hmem haddress
        ⟨ne_fresh_of_live hlive, hlive⟩) (by simp; omega)
    refine Performs.step hcopy ?_
    obtain ⟨last, hstore, hlast⟩ := hcopied.store value root.values.length
      (fun address hmem =>
        have hne := ne_fresh_of_live (hvalue address hmem)
        ⟨hne, (hcopied.apart address hne).references_ne_zero (hvalue address hmem)⟩)
      (by simp) (by simp only; omega)
    refine Performs.step hstore ?_
    refine Performs.pure (hlast.copied hsound ⟨?_, hmost, by simp only; omega⟩)
    simp
    omega

theorem blorpListConcat_performs (hsound : Sound host heap held)
    (hsource : HasContents heap source (.elements key values)) {right : Root} {more : List V}
    (hright : HasContents heap right (.elements key more)) :
    Performs (Aborts host heap (.elements key (values ++ more)))
      (fun _ => blorpListConcat host key source right) heap
      fun result next => Copied host heap next held result (.elements key (values ++ more)) := by
  obtain ⟨root, hload, hvalues⟩ := hsource.reads_here
  obtain ⟨rightRoot, hloadRight, hmore⟩ := hright.reads_here
  have hint := (hsource.length_le hsound).2
  refine Performs.step hload (Performs.step hloadRight ?_)
  subst hvalues hmore
  by_cases hlong : rightRoot.values.length > int64Max - root.values.length ∨
      root.values.length + rightRoot.values.length > host.listMaximum key
  · simp only [if_pos hlong]
    refine Performs.fails (fun _ => rfl) ⟨rfl, .inl ?_⟩
    simp only [Contents.Exceeds, List.length_append]
    omega
  · simp only [if_neg hlong]
    have hwide : int64Max < uint64Max := by decide
    have hfour : listDefaultCapacity ≤ int64Max := by decide
    refine wide_performs (by omega) ?_
    refine (allocateGrowingRoot_performs hsound (by omega) (by simp)).bind
      fun result filled hnew => ?_
    obtain ⟨rfl, capacity, henough, hmost, hfloor, hfilled⟩ := hnew
    have hlive : ∀ {source : Root} {values : List V},
        HasContents heap source (.elements key values) → ∀ value ∈ values,
        ∀ address ∈ addresses value, address ≠ heap.fresh ∧ heap.references address ≠ 0 := by
      intro source values hsource value hmem address haddress
      have hlive := hsource.live hsound hmem haddress
      exact ⟨ne_fresh_of_live hlive, hlive⟩
    obtain ⟨first, hfirst, hfilledFirst⟩ := hfilled.copySlots hsource hsource.ne_fresh
      (hlive hsource) (by simp; omega)
    refine Performs.step hfirst ?_
    obtain ⟨last, hlast, hfilledLast⟩ := hfilledFirst.copySlots hright hright.ne_fresh
      (hlive hright) (by simp; omega)
    refine Performs.step hlast ?_
    refine Performs.pure (hfilledLast.copied hsound ⟨?_, hmost, by simp only; omega⟩)
    simp
    omega

/-- `values` with `value` at `index`; a negative index is none of its slots. -/
def writtenAt (values : List V) (index : Int64) (value : V) : List V :=
  if index.toInt < 0 then values else values.set index.toInt.toNat value

omit [Managed V] in
theorem length_writtenAt (values : List V) (index : Int64) (value : V) :
    (writtenAt values index value).length = values.length := by
  unfold writtenAt
  split
  · rfl
  · exact List.length_set

omit [Managed V] in
theorem getElem?_writtenAt {index : Int64} {value chosen : V} {slot : Nat}
    (h : (writtenAt values index value)[slot]? = some chosen) :
    (index.toInt = slot ∧ chosen = value) ∨
      (index.toInt ≠ slot ∧ values[slot]? = some chosen) := by
  unfold writtenAt at h
  by_cases hnegative : index.toInt < 0
  · rw [if_pos hnegative] at h
    exact .inr ⟨by omega, h⟩
  · rw [if_neg hnegative] at h
    by_cases hsame : index.toInt = slot
    · have hslot : index.toInt.toNat = slot := by omega
      rw [hslot] at h
      have hlt : slot < values.length := by
        have hset := (List.getElem?_eq_some_iff.mp h).1
        rwa [List.length_set] at hset
      rw [List.getElem?_set_self hlt] at h
      exact .inl ⟨hsame, (Option.some_injective _ h).symm⟩
    · rw [List.getElem?_set_ne (by omega)] at h
      exact .inr ⟨hsame, h⟩

theorem blorpListSet_performs (hsound : Sound host heap held)
    (hsource : HasContents heap source (.elements key values)) (index : Int64) {value : V}
    (hvalue : ∀ address ∈ addresses value, heap.references address ≠ 0) :
    Performs (Aborts host heap (.elements key (writtenAt values index value)))
      (fun _ => blorpListSet host key source index value) heap
      fun result next =>
        Copied host heap next held result (.elements key (writtenAt values index value)) := by
  obtain ⟨root, hload, hvalues⟩ := hsource.reads_here
  obtain ⟨hmaximum, hint⟩ := hsource.length_le hsound
  refine Performs.step hload ?_
  rw [hvalues]
  have hlength := length_writtenAt values index value
  refine (listRootAllocation_performs heap hmaximum (by omega) (by omega)).bind
    fun result created hnew => ?_
  obtain ⟨rfl, rfl⟩ := hnew
  let pick : Nat → HeapAction V V := fun slot =>
    if index.toInt = slot then return value else slotAt key source slot
  have hpick : ∀ slot chosen, (writtenAt values index value)[slot]? = some chosen → ∀ next,
      (∀ address, address ≠ heap.fresh → heap.Grown next address) →
      pick slot next = .ok (chosen, next) := by
    intro slot chosen hchosen next hapart
    show (if index.toInt = slot then return value else slotAt key source slot :
      HeapAction V V) next = _
    rcases getElem?_writtenAt hchosen with ⟨hsame, rfl⟩ | ⟨hother, hbefore⟩
    · rw [if_pos hsame]
      rfl
    · rw [if_neg hother]
      exact hsource.reads_slot hsource.ne_fresh hapart hbefore
  have hlive : ∀ chosen ∈ writtenAt values index value, ∀ address ∈ addresses chosen,
      address ≠ heap.fresh ∧ heap.references address ≠ 0 := by
    intro chosen hmem address haddress
    obtain ⟨slot, hchosen⟩ := List.mem_iff_getElem?.mp hmem
    have hcounted : heap.references address ≠ 0 := by
      rcases getElem?_writtenAt hchosen with ⟨-, rfl⟩ | ⟨-, hbefore⟩
      · exact hvalue address haddress
      · exact hsource.live hsound (List.mem_of_getElem? hbefore) haddress
    exact ⟨ne_fresh_of_live hcounted, hcounted⟩
  have hcreated : Filled heap (heap.add ⟨1, .list ⟨key, [], values.length⟩⟩) heap.fresh
      ⟨key, [], values.length⟩ held :=
    .create hsound.accounts
  obtain ⟨last, hfill, hlast⟩ := hcreated.fill _ pick hpick hlive (by simp [length_writtenAt])
  have hturn : pickSlot pick key heap.fresh 0 =
      fun slot => pick slot >>= storeOccurrence key heap.fresh slot := by
    funext slot
    show pick slot >>= storeOccurrence key heap.fresh (0 + slot) = _
    rw [Nat.zero_add]
  rw [length_writtenAt] at hfill
  refine Performs.step (hturn ▸ hfill) (Performs.pure ?_)
  exact hlast.copied hsound ⟨by simp [length_writtenAt], hmaximum, hint⟩

/-! ## In place -/

theorem Moved.live {other : Nat} {found : Cell (Object V)} (h : Moved heap next address target)
    (haccounts : Accounts Object.owns heap (address ::ₘ held))
    (hcell : heap.cell address = some found) (honly : found.references = 1)
    (hmem : other ∈ held + heap.stored Object.owns) :
    other ≠ target ∧ next.cell other = heap.cell other ∧ heap.references other ≠ 0 := by
  have hne : other ≠ address := fun heq => alone haccounts hcell honly (heq ▸ hmem)
  have hlive : heap.references other ≠ 0 :=
    haccounts.live (by rw [Multiset.cons_add]; exact Multiset.mem_cons_of_mem hmem)
  have hother : other ≠ target := by
    rintro rfl
    rcases h.place with rfl | ⟨hnew, -⟩
    · exact hne rfl
    · exact hlive (by rw [Store.references, hnew]; rfl)
  exact ⟨hother, h.others other hne hother, hlive⟩

omit [Managed V] in
theorem Moved.old {other : Nat} {found : Cell (Object V)} (h : Moved heap next address target)
    (hother : other ≠ target) (hcell : next.cell other = some found) :
    heap.cell other = some found := by
  have hne : other ≠ address := by
    rintro rfl
    rcases h.place with rfl | ⟨-, hgone⟩
    · exact hother rfl
    · rw [hgone] at hcell
      cases hcell
  exact (h.others other hne hother).symm.trans hcell

theorem Filled.replaced {last : Heap V} {root : ListObject V} (hmoved : Moved heap next address target)
    (hnext : Sound host next (target ::ₘ held)) (h : Filled next last target root held)
    (hfits : (Object.list root).Fits host) :
    Replaced host heap last held (.counted target) (.elements root.key root.values) where
  place := ⟨target, rfl, h.sound (fun other found hcell =>
    ⟨hnext.fits other found hcell, hnext.settled other found hcell⟩) hfits⟩
  contents := .elements h.cell
  old other hother found hcell := by
    have hne : other ≠ target := fun heq => hother (by rw [heq])
    obtain ⟨middle, hmiddle, hobject, -⟩ := (h.apart other hne).old found hcell
    exact ⟨middle, hmoved.old hne hmiddle, hobject⟩

section

variable {root : ListObject V} (hsound : Sound host heap (address ::ₘ held))
  (hcell : heap.cell address = some ⟨1, .list root⟩)

include hsound hcell

theorem reserve_performs {required : Nat}
    (hrequired : required ≤ host.listMaximum root.key ∧ required ≤ int64Max)
    (hvalues : values.length = required) :
    Performs (Aborts host heap (.elements root.key values))
      (fun n => reserveUnique host n root.key address required) heap
      fun target next => ∃ capacity, required ≤ capacity ∧
        capacity ≤ host.listMaximum root.key ∧ capacity ≤ int64Max ∧
        Moved heap next address target ∧ Sound host next (target ::ₘ held) ∧
        Filled next next target { root with capacity := capacity } held := by
  refine (reserveUnique_performs hsound.accounts hcell (hsound.fits _ _ hcell) hrequired
    hvalues).post fun target next hreserved => ?_
  obtain ⟨capacity, henough, hfits, hmoved, htarget, haccounts⟩ := hreserved
  exact ⟨capacity, henough, hfits.2.1, hfits.2.2, hmoved,
    hmoved.sound hsound haccounts htarget hfits one_ne_zero, fun _ _ => .of_eq rfl, htarget,
    haccounts⟩

end

/-! ## Taking the left operand -/

/-- A consuming update: its result in place of the transferred reference.  While others
refer to the operand, every root keeps its contents. -/
structure Consumed (host : Host V) (heap next : Heap V) (left : Root) (held : Multiset Nat)
    (result : Root) (contents : Contents V) : Prop where
  replaced : Replaced host heap next held result contents
  kept : ∀ count, left.references heap = .ok (count, heap) → count ≠ 1 → heap.Extends next

section

variable {result : Root} {contents : Contents V} (h : Copied host heap next held result contents)

include h

theorem Copied.replaced : Replaced host heap next held result contents where
  place := ⟨_, h.place, h.sound⟩
  contents := h.contents
  old other hother found hcell := by
    have hne : other ≠ heap.fresh := by
      rintro rfl
      exact hother h.place
    obtain ⟨before, hbefore, hobject, -⟩ := (h.kept other hne).old found hcell
    exact ⟨before, hbefore, hobject⟩

theorem Copied.extends : heap.Extends next := by
  intro other found hcell
  obtain ⟨left, hleft, hobject, -⟩ :=
    (h.kept other (Nat.ne_of_lt (Store.lt_fresh hcell))).kept found hcell
  exact ⟨left, hleft, hobject⟩

end

theorem Copied.drop_performs {α : Type} {P : Fault → Prop} {result : Root} {contents : Contents V}
    {found : Cell (Object V)} (value : α) (h : Copied host heap next (address ::ₘ held) result contents)
    (hcell : heap.cell address = some found) (hshared : 1 < found.references) :
    Performs P (fun n => (Root.counted address).drop n >>= fun _ => Pure.pure value) next
      fun given last => given = value ∧ Replaced host heap last held result contents ∧
        heap.Extends last := by
  have hne : address ≠ heap.fresh := Nat.ne_of_lt (Store.lt_fresh hcell)
  obtain ⟨left, hleft, hobject, hcount⟩ := (h.kept address hne).kept found hcell
  have hmany : 1 < left.references := by omega
  let lowered : Cell (Object V) := { left with references := left.references - 1 }
  have hself : (next.put address (some lowered)).cell address = some lowered :=
    Store.cell_put_self (Store.lt_fresh hleft)
  have hsound : Sound host (next.put address (some lowered)) (heap.fresh ::ₘ held) := by
    have haccounts := (h.sound.accounts.congr (Multiset.cons_swap _ _ _)).lower hleft hmany
    refine .of_apart next haccounts (fun other _ there hthere => ?_)
      (fun other hother => .of_eq (Store.cell_put_of_ne hother)) hself
      (h.sound.fits address left hleft) (by simp only [lowered]; omega)
    exact ⟨h.sound.fits other there hthere, h.sound.settled other there hthere⟩
  have hback : ∀ other there, (next.put address (some lowered)).cell other = some there →
      ∃ before, next.cell other = some before ∧ there.object = before.object := by
    intro other there hthere
    by_cases hsame : other = address
    · subst hsame
      obtain rfl : lowered = there := Option.some_injective _ (hself.symm.trans hthere)
      exact ⟨left, hleft, rfl⟩
    · rw [Store.cell_put_of_ne hsame] at hthere
      exact ⟨there, hthere, rfl⟩
  refine (Performs.succ (g := fun _ => fun _ => .ok (value, next.put address (some lowered)))
    (fun n => ?_) (Performs.done (fun _ => rfl) ⟨rfl, ⟨⟨_, h.place, hsound⟩, ?_, ?_⟩, ?_⟩))
  · exact Action.bind_eq_ok.mpr ⟨(), _, release_shared Object.owns hleft hmany n, rfl⟩
  · refine h.contents.of_object fun other found hother hfound => ⟨found, ?_, rfl⟩
    have hfresh : other = heap.fresh := by
      rw [h.place] at hother
      exact (Root.counted.inj hother).symm
    rw [Store.cell_put_of_ne (by rw [hfresh]; exact Ne.symm hne)]
    exact hfound
  · intro other hother there hthere
    obtain ⟨middle, hmiddle, hsame⟩ := hback other there hthere
    obtain ⟨before, hbefore, hobject⟩ := h.replaced.old other hother middle hmiddle
    exact ⟨before, hbefore, hsame.trans hobject⟩
  · intro other there hthere
    obtain ⟨middle, hmiddle, hsame⟩ := h.extends other there hthere
    by_cases hhere : other = address
    · subst hhere
      obtain rfl : left = middle := Option.some_injective _ (hleft.symm.trans hmiddle)
      exact ⟨lowered, hself, hsame⟩
    · exact ⟨middle, (Store.cell_put_of_ne hhere).trans hmiddle, hsame⟩

/-- **Taking the left operand.**  A copy or a change in place, they leave the same. -/
theorem takeLeft_performs {P : Fault → Prop} {left : Root} {contents : Contents V}
    {borrowing : HeapAction V Root} {inPlace : Nat → Nat → HeapAction V Root}
    (hsound : Sound host heap (↑left.address + held))
    (hborrow : Performs P (fun _ => borrowing) heap fun result next =>
      Copied host heap next (↑left.address + held) result contents)
    (hunique : ∀ address found, left = .counted address → heap.cell address = some found →
      found.references = 1 → Performs P (fun n => inPlace n address) heap
        fun result next => Replaced host heap next held result contents) :
    Performs P (fun n => takeLeft borrowing (inPlace n) n left) heap
      fun result next => Consumed host heap next left held result contents := by
  cases left with
  | emptyList key =>
    refine Performs.step (a := 0) rfl ?_
    simp only [ne_eq, zero_ne_one, not_false_eq_true, ↓reduceIte]
    refine hborrow.bind fun result next hcopied => ?_
    refine Performs.done (fun _ => rfl) ⟨?_, fun _ _ _ => hcopied.extends⟩
    have hreplaced := hcopied.replaced
    simpa [Root.address] using hreplaced
  | counted address =>
    have hheld : (↑(Root.counted address).address + held : Multiset Nat) = address ::ₘ held := by
      rw [Root.address, Multiset.coe_singleton, Multiset.singleton_add]
    rw [hheld] at hsound hborrow
    have hlive := hsound.accounts.live_of_held (Multiset.mem_cons_self address held)
    obtain ⟨found, hcell, hcount⟩ := Store.exists_cell_of_references hlive
    have hread : (Root.counted address).references heap = .ok (found.references, heap) :=
      Action.bind_eq_ok.mpr ⟨found, heap, load_eq hcell, rfl⟩
    refine Performs.step hread ?_
    by_cases honly : found.references = 1
    · simp only [honly, ne_eq, not_true_eq_false, ↓reduceIte]
      refine (hunique address found rfl hcell honly).post fun result next hreplaced => ?_
      refine ⟨hreplaced, fun count hagain hmany => ?_⟩
      rw [hread, honly] at hagain
      cases hagain
      exact absurd rfl hmany
    · simp only [ne_eq, honly, not_false_eq_true, ↓reduceIte]
      refine hborrow.bind fun result next hcopied => ?_
      refine (hcopied.drop_performs result hcell (by omega)).post fun given last hlast => ?_
      obtain ⟨rfl, hreplaced, hextends⟩ := hlast
      exact ⟨hreplaced, fun _ _ _ => hextends⟩

omit [Managed V] in
theorem HasContents.list {found : Cell (Object V)}
    (h : HasContents heap (.counted address) (.elements key values))
    (hcell : heap.cell address = some found) (honly : found.references = 1) :
    ∃ root : ListObject V, heap.cell address = some ⟨1, .list root⟩ ∧ root.key = key ∧
      root.values = values := by
  cases h with
  | elements cell =>
    have hfound := Option.some_injective _ (cell.symm.trans hcell)
    subst hfound
    simp only at honly
    subst honly
    exact ⟨_, cell, rfl, rfl⟩

theorem cons_address (address : Nat) (held : Multiset Nat) :
    (↑(Root.counted address).address + held : Multiset Nat) = address ::ₘ held := by
  rw [Root.address, Multiset.coe_singleton, Multiset.singleton_add]

theorem Sound.live_of_mem {left : Root} (hsound : Sound host heap (↑left.address + held))
    {other : Nat} (hmem : other ∈ held + heap.stored Object.owns) :
    heap.references other ≠ 0 := by
  refine hsound.accounts.live ?_
  rw [add_assoc]
  exact Multiset.mem_add.mpr (.inr hmem)

section

variable (hsound : Sound host heap (↑source.address + held))
    (hsource : HasContents heap source (.elements key values))

include hsound hsource

theorem blorpListAppendTakeLeft_performs {value : V}
    (hvalue : ∀ other ∈ addresses value, other ∈ held + heap.stored Object.owns) :
    Performs (Aborts host heap (.elements key (values ++ [value])))
      (fun n => blorpListAppendTakeLeft host n key source value) heap
      fun result next =>
        Consumed host heap next source held result (.elements key (values ++ [value])) := by
  refine takeLeft_performs hsound (blorpListAppend_performs hsound hsource
    fun other hmem => hsound.live_of_mem (hvalue other hmem)) ?_
  intro address found hleft hcell honly
  subst hleft
  rw [cons_address] at hsound
  obtain ⟨root, hroot, rfl, rfl⟩ := hsource.list hcell honly
  refine Performs.step (loadList_counted hroot rfl) ?_
  by_cases hlong : root.values.length ≥ int64Max ∨
      root.values.length ≥ host.listMaximum root.key
  · simp only [if_pos hlong]
    refine Performs.fails (fun _ => rfl) ⟨rfl, .inl ?_⟩
    simp only [Contents.Exceeds, List.length_append, List.length_singleton]
    omega
  · simp only [if_neg hlong]
    have hsize := listMaximum_le host root.key
    refine Performs.liftStep (checked_settles (by omega)) ?_
    refine (reserve_performs hsound hroot (by omega) (by simp)).bind
      fun target next hreserved => ?_
    obtain ⟨capacity, henough, hmost, hint, hmoved, hnext, hfilled⟩ := hreserved
    obtain ⟨last, hstore, hlast⟩ := hfilled.store value root.values.length
      (fun other hmem =>
        have ⟨hne, hsame, hlive⟩ := hmoved.live hsound.accounts hroot rfl (hvalue other hmem)
        ⟨hne, by rwa [Store.references, hsame]⟩) rfl (by simp only; omega)
    refine Performs.step hstore (Performs.pure (hlast.replaced hmoved hnext ⟨?_, hmost, hint⟩))
    simp
    omega

theorem blorpListConcatTakeLeft_performs {right : Root} {more : List V}
    (hright : HasContents heap right (.elements key more))
    (hlive : ∀ other ∈ right.address, other ∈ held + heap.stored Object.owns) :
    Performs (Aborts host heap (.elements key (values ++ more)))
      (fun n => blorpListConcatTakeLeft host n key source right) heap
      fun result next =>
        Consumed host heap next source held result (.elements key (values ++ more)) := by
  refine takeLeft_performs hsound (blorpListConcat_performs hsound hsource hright) ?_
  intro address found hleft hcell honly
  subst hleft
  rw [cons_address] at hsound
  obtain ⟨root, hroot, rfl, rfl⟩ := hsource.list hcell honly
  obtain ⟨rightRoot, hload, hmore⟩ := hright.reads_here
  obtain ⟨hmaximum, hint⟩ := hsource.length_le hsound
  refine Performs.step (loadList_counted hroot rfl) (Performs.step hload ?_)
  have hroom : Outcome.Settles (fun _ => Host.minus (host.listMaximum root.key) root.values.length)
      (.ok (host.listMaximum root.key - root.values.length)) := by
    unfold Host.minus
    rw [if_pos hmaximum]
    exact .const (by simp)
  refine Performs.liftStep hroom ?_
  subst hmore
  by_cases hlong : rightRoot.values.length > int64Max - root.values.length ∨
      rightRoot.values.length > host.listMaximum root.key - root.values.length
  · simp only [if_pos hlong]
    refine Performs.fails (fun _ => rfl) ⟨rfl, .inl ?_⟩
    simp only [Contents.Exceeds, List.length_append]
    omega
  · simp only [if_neg hlong]
    have hwide : int64Max < uint64Max := by decide
    refine wide_performs (by omega) ?_
    refine (reserve_performs hsound hroot (by omega) (by simp)).bind
      fun target next hreserved => ?_
    obtain ⟨capacity, henough, hmost, hlimit, hmoved, hnext, hfilled⟩ := hreserved
    have hstays : ∀ other, right = .counted other →
        other ≠ target ∧ next.cell other = heap.cell other := by
      intro other hother
      have hmem : other ∈ right.address := by simp [hother, Root.address]
      obtain ⟨hne, hsame, -⟩ := hmoved.live hsound.accounts hroot rfl (hlive other hmem)
      exact ⟨hne, hsame⟩
    have hrightNext : HasContents next right (.elements root.key rightRoot.values) :=
      hright.of_object fun other found hother hfound =>
        ⟨found, (hstays other hother).2.trans hfound, rfl⟩
    obtain ⟨last, hcopy, hlast⟩ := hfilled.copySlots hrightNext
      (fun heq => (hstays target heq).1 rfl)
      (fun value hmem other hother =>
        have hstored := hright.stored hsound.settled hmem hother
        have ⟨hne, hsame, hcounted⟩ := hmoved.live hsound.accounts hroot rfl
          (Multiset.mem_add.mpr (.inr hstored))
        ⟨hne, by rwa [Store.references, hsame]⟩) (by simp only; omega)
    refine Performs.step hcopy (Performs.pure (hlast.replaced hmoved hnext ⟨?_, hmost, hlimit⟩))
    simp
    omega

end

/-! ## Replacing an element in place -/

theorem owned_set {old : V} (value : V) {slot : Nat} (h : values[slot]? = some old) :
    (↑((values.set slot value).flatMap addresses) + ↑(addresses old) : Multiset Nat) =
      ↑(values.flatMap addresses) + ↑(addresses value) := by
  induction values generalizing slot with
  | nil => simp at h
  | cons first rest ih =>
    cases slot with
    | zero =>
      obtain rfl : first = old := by simpa using h
      simp only [List.set_cons_zero, List.flatMap_cons, ← Multiset.coe_add]
      abel
    | succ slot =>
      have hrest := ih (by simpa using h)
      simp only [List.set_cons_succ, List.flatMap_cons, ← Multiset.coe_add, add_assoc]
      rw [hrest]

theorem Sound.released {held' : Multiset Nat} (h : Sound host heap held')
    (hreleased : Released Object.owns held heap next) : Sound host next held where
  accounts := hreleased.accounts
  fits other left hleft := by
    obtain ⟨found, hfound, hobject, -⟩ := hreleased.shrinks.kept other left hleft
    rw [hobject]
    exact h.fits other found hfound
  settled other left hleft hzero :=
    h.settled other left (hreleased.shrinks.settled other left hleft hzero) hzero

/-- Dropping the old occurrence while the new one is in its slot, or before it is stored:
the heap is the same. -/
theorem overwrite_performs {root : ListObject V} {old value : V} {slot : Nat} (result : Root)
    (haccounts : Accounts Object.owns heap (↑(addresses value) + (address ::ₘ held)))
    (hcell : heap.cell address = some ⟨1, .list root⟩) (hold : root.values[slot]? = some old) :
    Performs (fun _ => False) (fun n => do
        destroyElement n old
        let left ← loadList root.key (.counted address)
        assignList root.key address { left with values := left.values.set slot value }
        return result) heap
      fun given next => given = result ∧ Released Object.owns (address ::ₘ held)
        (heap.put address (some ⟨1, .list { root with values := root.values.set slot value }⟩))
        next := by
  let changed : ListObject V := { root with values := root.values.set slot value }
  have hchanged : (heap.put address (some ⟨1, .list changed⟩)).cell address =
      some ⟨1, .list changed⟩ :=
    Store.cell_put_self (Store.lt_fresh hcell)
  have hwritten := haccounts.replace (.list changed) ↑(addresses old) hcell one_ne_zero
    (owned_set value hold)
  have hswapped : Store.Swapped address (.list root) heap
      (heap.put address (some ⟨1, .list changed⟩)) :=
    ⟨Store.fresh_put.symm, fun other hother => (Store.cell_put_of_ne hother).symm,
      ⟨_, hchanged, hcell⟩⟩
  have hgiven := releases_spec Object.owns _ (address ::ₘ held) (addresses old) hwritten
  have hdropped : Performs (fun _ => False) (fun n => destroyElement n old) heap fun _ next =>
      ∃ last, Released Object.owns (address ::ₘ held)
        (heap.put address (some ⟨1, .list changed⟩)) last ∧
        Store.Swapped address (.list root) next last := by
    have hrun := releases_swapped hgiven (fun last hlast =>
      hlast.accounts.live_of_held (Multiset.mem_cons_self address held)) hswapped
    refine hrun.congr fun n => ?_
    exact (forM_drop n (Managed.roots old) heap).symm
  refine hdropped.bind fun _ next hnext => ?_
  obtain ⟨last, hlast, hagain⟩ := hnext
  obtain ⟨found, hfound, hhere⟩ := hagain.here
  have honly : found = ⟨1, .list changed⟩ := by
    obtain ⟨left, hleft, hobject, hle, hlive⟩ := hlast.stays hchanged
    obtain rfl : found = left := Option.some_injective _ (hfound.symm.trans hleft)
    obtain ⟨count, object⟩ := found
    simp only at hobject hle hlive
    rw [hobject, show count = 1 by omega]
  subst honly
  refine Performs.step (loadList_counted hhere rfl) ?_
  refine Performs.step (assignList_eq hhere rfl) (Performs.pure ⟨rfl, ?_⟩)
  rw [hagain.eq_put hfound, Store.put_put, Store.put_cell_self hfound]
  exact hlast

theorem blorpListSetTakeLeft_performs (hsound : Sound host heap (↑source.address + held))
    (hsource : HasContents heap source (.elements key values)) (index : Int64) {value : V}
    (hvalue : ∀ other ∈ addresses value, other ∈ held + heap.stored Object.owns) :
    Performs (Aborts host heap (.elements key (writtenAt values index value)))
      (fun n => blorpListSetTakeLeft host n key source index value) heap
      fun result next =>
        Consumed host heap next source held result
          (.elements key (writtenAt values index value)) := by
  refine takeLeft_performs hsound (blorpListSet_performs hsound hsource index
    fun other hmem => hsound.live_of_mem (hvalue other hmem)) ?_
  intro address found hleft hcell honly
  subst hleft
  rw [cons_address] at hsound
  obtain ⟨root, hroot, rfl, rfl⟩ := hsource.list hcell honly
  refine Performs.step (loadList_counted hroot rfl) ?_
  by_cases houtside : index.toInt < 0 ∨ index.toInt ≥ root.values.length
  · simp only [if_pos houtside]
    have hsame : writtenAt root.values index value = root.values := by
      unfold writtenAt
      split
      · rfl
      · exact List.set_eq_of_length_le (by omega)
    rw [hsame]
    exact Performs.pure ⟨⟨address, rfl, hsound⟩, hsource, fun other _ found hfound =>
      ⟨found, hfound, rfl⟩⟩
  · simp only [if_neg houtside]
    have hset : writtenAt root.values index value =
        root.values.set index.toInt.toNat value := by
      unfold writtenAt
      rw [if_neg (by omega)]
    obtain ⟨acquired, hrun, haccounts, hfresh, hgrown, hothers⟩ :=
      acquireElement_spec hsound.accounts fun other hmem =>
        hsound.accounts.live (by
          rw [Multiset.cons_add]
          exact Multiset.mem_cons_of_mem (hvalue other hmem))
    have hacquired : acquired.cell address = some ⟨1, .list root⟩ := by
      rw [hothers address fun hmem => alone hsound.accounts hroot rfl (hvalue address hmem), hroot]
    have hslot : index.toInt.toNat < root.values.length := by omega
    have hold : root.values[index.toInt.toNat]? = some root.values[index.toInt.toNat] :=
      List.getElem?_eq_getElem hslot
    refine Performs.step hrun ?_
    have hread : slotAt root.key (.counted address) index.toInt.toNat acquired =
        .ok (root.values[index.toInt.toNat], acquired) := by
      refine Action.bind_eq_ok.mpr ⟨root, acquired, loadList_counted hacquired rfl, ?_⟩
      rw [hold]
      rfl
    refine Performs.step hread ?_
    let changed : ListObject V := { root with values := root.values.set index.toInt.toNat value }
    have hchanged : (acquired.put address (some ⟨1, .list changed⟩)).cell address =
        some ⟨1, .list changed⟩ :=
      Store.cell_put_self (Store.lt_fresh hacquired)
    have hwritten := haccounts.replace (.list changed) ↑(addresses root.values[index.toInt.toNat])
      hacquired one_ne_zero (owned_set value hold)
    have hapart : ∀ other, other ≠ address →
        heap.Grown (acquired.put address (some ⟨1, .list changed⟩)) other := fun other hother =>
      (hgrown other).trans (.of_eq (Store.cell_put_of_ne hother))
    have hbetween : Sound host (acquired.put address (some ⟨1, .list changed⟩))
        (↑(addresses root.values[index.toInt.toNat]) + (address ::ₘ held)) := by
      obtain ⟨hlength, hmaximum, hint⟩ := hsound.fits _ _ hroot
      refine .of_apart heap hwritten (fun other _ there hthere =>
        ⟨hsound.fits other there hthere, hsound.settled other there hthere⟩) hapart hchanged
        ⟨?_, hmaximum, hint⟩ one_ne_zero
      simpa [changed] using hlength
    refine (overwrite_performs (.counted address) haccounts hacquired hold).mono
      (fun _ hfalse => hfalse.elim) fun given last hlast => ?_
    obtain ⟨rfl, hreleased⟩ := hlast
    refine ⟨⟨address, rfl, hbetween.released hreleased⟩, ?_, ?_⟩
    · rw [hset]
      obtain ⟨⟨count, object⟩, hleft, hobject, -⟩ := hreleased.stays hchanged
      simp only at hobject
      subst hobject
      have hcontents := HasContents.elements hleft
      exact hcontents
    · intro other hother there hthere
      have hne : other ≠ address := fun heq => hother (by rw [heq])
      obtain ⟨middle, hmiddle, hobject, -⟩ := hreleased.shrinks.kept other there hthere
      obtain ⟨before, hbefore, hsame, -⟩ := (hapart other hne).old middle hmiddle
      exact ⟨before, hbefore, hobject.trans hsame⟩

end Blorp.Runtime
