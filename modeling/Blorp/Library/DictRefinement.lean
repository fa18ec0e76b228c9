import Blorp.Library.DictRows

/-!
# A Dict is an insertion-ordered list of entries

Every Dict that `dict` and any sequence of `set` and `remove` build holds what the
association list of the same updates holds, and every observation says so.

All of it is for any hash, of either sign and with any collisions, as long as equal keys
hash equally.
-/

namespace Blorp.Library

open Fuel Entries

section

variable {K V : Type} [DictKey K] [LawfulDictKey K] {contents : DictContents K V}

/-! ## Updates -/

/-- A probe ends at the key's live row, or at an empty slot when no live row has the key. -/
theorem Valid.probe (hvalid : Valid contents) (key : K) :
    ∃ slot, Outcome.Settles (fun n => probe n contents key) (.ok slot) ∧
      ((∃ (row : Nat) (entry : K × V), contents.slots.getD slot emptySlot = row ∧
          contents.slots[slot]? = some (row : Int) ∧
          (rows contents)[row]? = some (entry, true) ∧ DictKey.equals entry.1 key = true) ∨
        contents.slots.getD slot emptySlot = emptySlot ∧ FirstEmpty contents.slots key slot ∧
          Absent (liveKey (rows contents)) key) := by
  obtain ⟨slot, hrun, hend⟩ :=
    probe_settles hvalid.index (fun _ _ => Valid.key_of_live) hvalid.empty_mem key
  refine ⟨slot, hrun, ?_⟩
  rcases hend with ⟨row, found, hslot, hlive, hsame⟩ | ⟨hfirst, habsent⟩
  · obtain ⟨value, hrow⟩ := liveKey_eq_some.mp hlive
    refine .inl ⟨row, (found, value), ?_, hslot, hrow, hsame⟩
    rw [List.getD_eq_getElem?_getD, hslot, Option.getD_some]
  · refine .inr ⟨?_, hfirst, habsent⟩
    rw [List.getD_eq_getElem?_getD, hfirst.1, Option.getD_some]

omit [LawfulDictKey K] in
theorem absent_of_lacks {key : K} (h : Lacks DictKey.equals (held contents) key) :
    Absent (liveKey (rows contents)) key := by
  intro row found hrow
  obtain ⟨value, hlive⟩ := liveKey_eq_some.mp hrow
  exact h (found, value) (mem_present.mpr ⟨row, hlive⟩)

omit [LawfulDictKey K] in
theorem held_appended (hvalid : Valid contents) {key : K}
    (h : Lacks DictKey.equals (held contents) key) (slot : Nat) (value : V) :
    held (appended contents slot key value) = put DictKey.equals (held contents) key value := by
  unfold held put at *
  rw [rows_appended hvalid, contains_of_lacks h]
  simp

theorem set_settles (hvalid : Valid contents) (key : K) (value : V) :
    ∃ next, Outcome.Settles (fun n => set n contents key value) (.ok next) ∧ Valid next ∧
      held next = put DictKey.equals (held contents) key value := by
  obtain ⟨slot, hprobe, hfound | ⟨hposition, hfirst, habsent⟩⟩ := hvalid.probe key
  · obtain ⟨row, entry, hposition, -, hrow, hsame⟩ := hfound
    refine ⟨{ contents with values := contents.values.set row value }, ?_,
      hvalid.replaced hrow value, ?_⟩
    · refine Outcome.Settles.bind_ok hprobe ?_
      simp only [hposition, if_pos (show (row : Int) ≥ 0 by omega), Int.toNat_natCast]
      exact Outcome.Settles.ok
    · unfold held
      rw [rows_replaced hrow value]
      exact present_set_value equals_equivalence hvalid.distinct hrow hsame value
  · have hlacks := lacks_of_absent habsent
    by_cases hload : ((contents.keys.length : Int) + 1) * growthLoadDenominator >
        contents.slots.length * growthLoadNumerator
    · -- The table is full: the rebuilt one holds the same, so the key is absent there too.
      obtain ⟨compact, hrebuilt, hcompact, hheld, hroom⟩ := rebuilt_settles hvalid
      obtain ⟨free, hfree, hempty⟩ := freeSlot_settles hcompact.empty_mem key
      rw [← hheld] at hlacks ⊢
      refine ⟨appended compact free key value, ?_,
        hcompact.appended value hempty (absent_of_lacks hlacks) (by omega),
        held_appended hcompact hlacks free value⟩
      refine Outcome.Settles.bind_ok hprobe ?_
      simp only [hposition, if_neg (show ¬ emptySlot ≥ 0 by decide), if_pos hload]
      refine Outcome.Settles.bind_ok hrebuilt ?_
      exact Outcome.Settles.bind_ok hfree Outcome.Settles.ok
    · have hroom : (contents.keys.length + 1) * 3 ≤ contents.slots.length * 2 := by
        unfold growthLoadDenominator growthLoadNumerator at hload
        omega
      refine ⟨appended contents slot key value, ?_, hvalid.appended value hfirst habsent hroom,
        held_appended hvalid hlacks slot value⟩
      refine Outcome.Settles.bind_ok hprobe ?_
      simp only [hposition, if_neg (show ¬ emptySlot ≥ 0 by decide), if_neg hload]
      exact Outcome.Settles.ok

theorem remove_settles (hvalid : Valid contents) (key : K) :
    ∃ next, Outcome.Settles (fun n => remove n contents key) (.ok next) ∧ Valid next ∧
      held next = delete DictKey.equals (held contents) key := by
  obtain ⟨slot, hprobe, hfound | ⟨hposition, -, habsent⟩⟩ := hvalid.probe key
  · obtain ⟨row, entry, hposition, hslot, hrow, hsame⟩ := hfound
    have hnext := hvalid.buried hslot hrow
    have hheld : held (buried contents slot row) = delete DictKey.equals (held contents) key := by
      unfold held
      rw [rows_buried slot hrow]
      exact present_set_dead equals_equivalence hvalid.distinct hrow hsame
    by_cases hcompact : (contents.deadCount + 1 ≥ minimumCompaction &&
        contents.deadCount + 1 > (contents.keys.length : Int) - (contents.deadCount + 1)) = true
    · obtain ⟨compact, hrebuilt, hvalid', hsame', -⟩ := rebuilt_settles hnext
      refine ⟨compact, ?_, hvalid', by rw [hsame', hheld]⟩
      refine Outcome.Settles.bind_ok hprobe ?_
      simp only [hposition, if_neg (show ¬ (row : Int) < 0 by omega), hcompact, ↓reduceIte]
      exact hrebuilt
    · refine ⟨buried contents slot row, ?_, hnext, hheld⟩
      refine Outcome.Settles.bind_ok hprobe ?_
      simp only [hposition, if_neg (show ¬ (row : Int) < 0 by omega), hcompact]
      exact Outcome.Settles.ok
  · refine ⟨contents, ?_, hvalid, (delete_of_lacks (lacks_of_absent habsent)).symm⟩
    refine Outcome.Settles.bind_ok hprobe ?_
    simp only [hposition, if_pos (show emptySlot < 0 by decide)]
    exact Outcome.Settles.ok

omit [LawfulDictKey K] in
theorem dict_settles (capacity : Int) :
    ∃ start : DictContents K V, Outcome.Settles (fun n => dict n capacity) (.ok start) ∧
      Valid start ∧ held start = [] := by
  obtain ⟨size, hsize, hpos, -⟩ := slotCount_settles
    (max (min capacity maximumReservedEntries) 0) growthLoadNumerator
    growthLoadDenominator (by decide)
  have hstart := Keeps.start (K := K) (V := V) size
  refine ⟨⟨[], [], [], List.replicate size emptySlot, 0⟩, ?_,
    ⟨rfl, rfl, rfl, ?_, hstart.used, by simp, by simpa using hpos, List.Pairwise.nil⟩, rfl⟩
  · unfold dict
    refine Outcome.Settles.bind_ok hsize ?_
    simp only [Int.toNat_natCast]
    exact Outcome.Settles.ok
  · exact hstart.index

/-! ## Observations -/

theorem get_settles (hvalid : Valid contents) (key : K) :
    Outcome.Settles (fun n => get n contents key)
      (.ok (lookup DictKey.equals (held contents) key)) := by
  obtain ⟨slot, hprobe, hfound | ⟨hposition, -, habsent⟩⟩ := hvalid.probe key
  · obtain ⟨row, entry, hposition, -, hrow, hsame⟩ := hfound
    refine Outcome.Settles.bind_ok hprobe ?_
    simp only [hposition, if_neg (show ¬ (row : Int) < 0 by omega), listGet, Int.toNat_natCast,
      (getElem?_rows.mp hrow).1.2]
    unfold held
    rw [lookup_of_row equals_equivalence hvalid.distinct hrow hsame]
    exact Outcome.Settles.ok
  · refine Outcome.Settles.bind_ok hprobe ?_
    simp only [hposition, if_pos (show emptySlot < 0 by decide)]
    rw [lookup_of_lacks (lacks_of_absent habsent)]
    exact Outcome.Settles.ok

theorem contains_settles (hvalid : Valid contents) (key : K) :
    Outcome.Settles (fun n => contains n contents key)
      (.ok (Entries.contains DictKey.equals (held contents) key)) := by
  obtain ⟨slot, hprobe, hfound | ⟨hposition, -, habsent⟩⟩ := hvalid.probe key
  · obtain ⟨row, entry, hposition, -, hrow, hsame⟩ := hfound
    refine Outcome.Settles.bind_ok hprobe ?_
    unfold held
    simp only [hposition, contains_of_row hrow hsame]
    rw [decide_eq_true (show (row : Int) ≥ 0 by omega)]
    exact Outcome.Settles.ok
  · refine Outcome.Settles.bind_ok hprobe ?_
    simp only [hposition, contains_of_lacks (lacks_of_absent habsent)]
    exact Outcome.Settles.ok

omit [LawfulDictKey K] in
theorem length_eq (hvalid : Valid contents) : length contents = (held contents).length :=
  (length_held hvalid).symm

omit [DictKey K] [LawfulDictKey K] in
theorem listed_eq {α : Type} {live : List Bool} (column : List α)
    (h : column.length = live.length) : listed live column = present (column.zip live) := by
  suffices hall : ∀ (column : List α) (from_ : Nat) (acc : List α),
      from_ + column.length = live.length →
      (column.zipIdx from_).foldl
        (fun listed row => if live.getD row.2 false then listed ++ [row.1] else listed) acc
        = acc ++ present (column.zip (live.drop from_)) by
    simpa [listed] using hall column 0 [] (by omega)
  intro column
  induction column with
  | nil =>
    intro from_ acc _
    simp
  | cons value column ih =>
    intro from_ acc hlength
    have hlt : from_ < live.length := by
      rw [List.length_cons] at hlength
      omega
    rw [List.zipIdx_cons, List.foldl_cons, ih (from_ + 1) _ (by simp at hlength; omega),
      List.drop_eq_getElem_cons hlt, List.zip_cons_cons]
    simp only [List.getD_eq_getElem?_getD, List.getElem?_eq_getElem hlt, Option.getD_some]
    cases live[from_] with
    | false => simp
    | true => simp

omit [DictKey K] [LawfulDictKey K] in
theorem present_zip_live {α : Type} {live : List Bool} (hlive : ∀ flag ∈ live, flag = true) :
    ∀ column : List α, column.length = live.length → present (column.zip live) = column := by
  induction live with
  | nil =>
    intro column h
    rw [List.length_nil, List.length_eq_zero_iff] at h
    subst h
    rfl
  | cons flag live ih =>
    intro column h
    obtain ⟨value, column, rfl⟩ := List.exists_cons_of_length_eq_add_one h
    rw [hlive flag List.mem_cons_self, List.zip_cons_cons, present_live,
      ih (fun flag hflag => hlive flag (List.mem_cons_of_mem _ hflag)) column (by simpa using h)]

omit [LawfulDictKey K] in
theorem Valid.all_live (hvalid : Valid contents) (h : contents.deadCount = 0) :
    ∀ flag ∈ contents.live, flag = true := by
  intro flag hflag
  have hnone : contents.live.count false = 0 := by
    have := hvalid.dead
    omega
  cases flag with
  | false => exact absurd hflag (List.count_eq_zero.mp hnone)
  | true => rfl

omit [LawfulDictKey K] in
theorem column_eq {α : Type} (hvalid : Valid contents) {column : List α}
    (h : column.length = contents.keys.length) :
    (if contents.deadCount = 0 then column else listed contents.live column)
      = present (column.zip contents.live) := by
  have hlength : column.length = contents.live.length := by rw [h, hvalid.live_length]
  by_cases hdead : contents.deadCount = 0
  · rw [if_pos hdead, present_zip_live (hvalid.all_live hdead) column hlength]
  · rw [if_neg hdead, listed_eq column hlength]

omit [LawfulDictKey K] in
theorem keys_eq (hvalid : Valid contents) : keys contents = (held contents).map (·.1) := by
  unfold keys held rows
  rw [column_eq hvalid rfl, ← present_map, ← List.zip_map_left, List.map_fst_zip]
  exact Nat.le_of_eq hvalid.values_length.symm

omit [LawfulDictKey K] in
theorem values_eq (hvalid : Valid contents) : values contents = (held contents).map (·.2) := by
  unfold values held rows
  rw [column_eq hvalid hvalid.values_length, ← present_map, ← List.zip_map_left, List.map_snd_zip]
  exact Nat.le_of_eq hvalid.values_length

omit [LawfulDictKey K] in
theorem entries_eq (hvalid : Valid contents) : entries contents = held contents := by
  unfold entries
  rw [keys_eq hvalid, values_eq hvalid]
  -- Any pairing that appends the value found at a key's position.
  suffices hall : ∀ (column : List V) (pair : List (K × V) → K × Nat → List (K × V)),
      (∀ pairs row value, column[row.2]? = some value →
        pair pairs row = pairs ++ [(row.1, value)]) →
      ∀ rest passed acc : List (K × V), column = (passed ++ rest).map (·.2) →
        ((rest.map (·.1)).zipIdx passed.length).foldl pair acc = acc ++ rest by
    refine hall ((held contents).map (·.2)) _ (fun pairs row value hvalue => ?_)
      (held contents) [] [] rfl
    simp [hvalue]
  intro column pair hpair rest
  induction rest with
  | nil =>
    intro passed acc _
    simp
  | cons entry rest ih =>
    intro passed acc hcolumn
    have hvalue : column[passed.length]? = some entry.2 := by
      rw [hcolumn, List.map_append, List.getElem?_append_right (by rw [List.length_map])]
      simp
    have hstep := ih (passed ++ [entry]) (acc ++ [entry]) (by rw [hcolumn]; simp)
    rw [List.map_cons, List.zipIdx_cons, List.foldl_cons, hpair _ _ _ hvalue]
    simpa using hstep

/-! ## Comparing two Dicts -/

/-- One entry of the left Dict agrees with the right one. -/
def agreesWith (equal : V → V → Bool) (right : List (K × V)) (entry : K × V) : Bool :=
  match lookup DictKey.equals right entry.1 with
  | some found => equal found entry.2
  | none => false

theorem sameAt_settles {left right : DictContents K V} (hright : Valid right)
    (equal : V → V → Bool) {entry : K × V} {index : Nat}
    (hvalue : (values left)[index]? = some entry.2) :
    Outcome.Settles (fun n => sameAt n equal left right entry.1 index)
      (.ok (agreesWith equal (held right) entry)) := by
  unfold sameAt agreesWith
  simp only [hvalue]
  refine Outcome.Settles.bind_ok (get_settles hright entry.1) ?_
  cases lookup DictKey.equals (held right) entry.1 with
  | none => exact Outcome.Settles.ok
  | some found => exact Outcome.Settles.ok

omit [LawfulDictKey K] in
theorem sameEntries_false (fuel : Nat) (equal : V → V → Bool) (left right : DictContents K V)
    (rest : List (K × Nat)) : sameEntries fuel equal left right rest false = .ok false := by
  cases rest <;> rfl

theorem equals_settles {left right : DictContents K V} (hleft : Valid left) (hright : Valid right)
    (equal : V → V → Bool) :
    Outcome.Settles (fun n => equals n equal left right)
      (.ok (agree DictKey.equals equal (held left) (held right))) := by
  suffices hall : ∀ rest passed same, held left = passed ++ rest →
      Outcome.Settles (fun n => sameEntries n equal left right
          ((rest.map (·.1)).zipIdx passed.length) same)
        (.ok (same && rest.all (agreesWith equal (held right)))) by
    have hlengths : decide (length left = length right)
        = ((held left).length == (held right).length) := by
      rw [length_eq hleft, length_eq hright, beq_eq_decide]
      simp
    unfold equals agree
    rw [keys_eq hleft, hlengths]
    exact hall (held left) [] _ rfl
  intro rest
  induction rest with
  | nil =>
    intro passed same _
    cases same with
    | false => exact Outcome.Settles.ok
    | true => exact Outcome.Settles.ok
  | cons entry rest ih =>
    intro passed same hsplit
    cases same with
    | false =>
      simp only [sameEntries_false, Bool.false_and]
      exact Outcome.Settles.ok
    | true =>
      have hvalue : (values left)[passed.length]? = some entry.2 := by
        rw [values_eq hleft, hsplit]
        simp
      have hrest := ih (passed ++ [entry]) (agreesWith equal (held right) entry)
        (by simpa using hsplit)
      rw [List.length_append, List.length_singleton] at hrest
      rw [List.all_cons, Bool.true_and]
      exact Outcome.Settles.bind_ok (sameAt_settles hright equal hvalue) hrest

/-! ## Sequences of updates -/

inductive Update (K V : Type) where
  | set (key : K) (value : V)
  | remove (key : K)

def update (fuel : Nat) (contents : DictContents K V) :
    Update K V → Outcome Empty (DictContents K V)
  | .set key value => set fuel contents key value
  | .remove key => remove fuel contents key

def build (fuel : Nat) (capacity : Int) (updates : List (Update K V)) :
    Outcome Empty (DictContents K V) := do
  let start ← dict fuel capacity
  updates.foldlM (update fuel) start

/-- The same updates on the association list. -/
def listUpdate (entries : List (K × V)) : Update K V → List (K × V)
  | .set key value => put DictKey.equals entries key value
  | .remove key => delete DictKey.equals entries key

theorem update_settles (hvalid : Valid contents) (change : Update K V) :
    ∃ next, Outcome.Settles (fun n => update n contents change) (.ok next) ∧ Valid next ∧
      held next = listUpdate (held contents) change := by
  cases change with
  | set key value => exact set_settles hvalid key value
  | remove key => exact remove_settles hvalid key

theorem build_settles (capacity : Int) (updates : List (Update K V)) :
    ∃ contents, Outcome.Settles (fun n => build n capacity updates) (.ok contents) ∧
      Valid contents ∧ held contents = updates.foldl listUpdate [] := by
  obtain ⟨start, hdict, hstart, hnone⟩ := dict_settles (K := K) (V := V) capacity
  obtain ⟨contents, hrun, hvalid, hheld⟩ := Outcome.Settles.foldlM (ε := Empty)
    (f := fun n => update n) updates
    (I := fun passed contents => Valid contents ∧ held contents = passed.foldl listUpdate [])
    (by
      intro passed change rest _ contents ⟨hvalid, hheld⟩
      obtain ⟨next, hnext, hvalid', hheld'⟩ := update_settles hvalid change
      refine ⟨next, hnext, hvalid', ?_⟩
      rw [List.foldl_append, ← hheld]
      exact hheld')
    ⟨hstart, hnone⟩
  exact ⟨contents, Outcome.Settles.bind_ok hdict hrun, hvalid, hheld⟩

/-! ## The whole refinement -/

/-- What the operations rely on: parallel columns, counted dead rows, an index that names
each live row once and no dead one, and an empty slot to end every probe. -/
structure Represented (contents : DictContents K V) : Prop where
  values_parallel : contents.values.length = contents.keys.length
  live_parallel : contents.live.length = contents.keys.length
  dead_counted : contents.deadCount = contents.live.count false
  live_found : ∀ (row : Nat) (key : K), contents.live[row]? = some true →
    contents.keys[row]? = some key →
    ∃ slot, Outcome.Settles (fun n => probe n contents key) (.ok slot) ∧
      contents.slots[slot]? = some (row : Int)
  live_once : ∀ row : Nat, contents.live[row]? = some true →
    ∃! slot : Nat, contents.slots[slot]? = some (row : Int)
  dead_nowhere : ∀ row : Nat, contents.live[row]? ≠ some true →
    ∀ slot : Nat, contents.slots[slot]? ≠ some (row : Int)
  slot_each : contents.slots.countP (· != emptySlot) = contents.keys.length
  some_empty : emptySlot ∈ contents.slots
  probe_ends : ∀ key : K, ∃ slot, Outcome.Settles (fun n => probe n contents key) (.ok slot)
  freeSlot_ends : ∀ key : K,
    ∃ slot, Outcome.Settles (fun n => freeSlot n contents.slots key) (.ok slot)

/-- Every observation of a Dict is that of an association list. -/
structure Observes (contents : DictContents K V) (list : List (K × V)) : Prop where
  get : ∀ key, Outcome.Settles (fun n => get n contents key)
    (.ok (lookup DictKey.equals list key))
  contains : ∀ key, Outcome.Settles (fun n => contains n contents key)
    (.ok (Entries.contains DictKey.equals list key))
  length : length contents = list.length
  keys : keys contents = list.map (·.1)
  values : values contents = list.map (·.2)
  entries : entries contents = list

omit [LawfulDictKey K]  [DictKey K] in
theorem exists_row (h : contents.values.length = contents.keys.length) {row : Nat}
    {live : Bool} (hlive : contents.live[row]? = some live) {key : K}
    (hkey : contents.keys[row]? = some key) :
    ∃ value, (rows contents)[row]? = some ((key, value), live) := by
  have hlt : row < contents.values.length := by
    rw [h]
    exact (List.getElem?_eq_some_iff.mp hkey).1
  exact ⟨_, getElem?_rows.mpr ⟨⟨hkey, List.getElem?_eq_getElem hlt⟩, hlive⟩⟩

theorem Valid.represented (hvalid : Valid contents) : Represented contents := by
  have hrow : ∀ row : Nat, contents.live[row]? = some true →
      ∃ entry, (rows contents)[row]? = some (entry, true) := by
    intro row hlive
    have hlt : row < contents.keys.length := by
      rw [← hvalid.live_length]
      exact (List.getElem?_eq_some_iff.mp hlive).1
    obtain ⟨value, hrow⟩ :=
      exists_row hvalid.values_length hlive (List.getElem?_eq_getElem hlt)
    exact ⟨_, hrow⟩
  refine ⟨hvalid.values_length, hvalid.live_length, hvalid.dead, ?_, ?_, ?_, hvalid.used,
    hvalid.empty_mem, ?_, ?_⟩
  · intro row key hlive hkey
    obtain ⟨value, hrow⟩ := exists_row hvalid.values_length hlive hkey
    obtain ⟨slot, hprobe, ⟨other, entry, -, hslot, hother, hsame⟩ | ⟨-, -, habsent⟩⟩ :=
      hvalid.probe key
    · obtain rfl : other = row :=
        hvalid.distinct.same_row equals_equivalence hother hrow hsame
      exact ⟨slot, hprobe, hslot⟩
    · have := habsent row key (liveKey_of_row hrow)
      rw [LawfulDictKey.refl] at this
      cases this
  · intro row hlive
    obtain ⟨entry, hrow⟩ := hrow row hlive
    obtain ⟨slot, hslot, -⟩ := hvalid.index.reached row entry.1 (liveKey_of_row hrow)
    exact ⟨slot, hslot, fun other hother => hvalid.index.once other slot row hother hslot⟩
  · intro row hdead slot
    refine hvalid.index.not_named ?_ slot
    cases hkey : liveKey (rows contents) row with
    | none => rfl
    | some key =>
      obtain ⟨value, hrow⟩ := liveKey_eq_some.mp hkey
      exact absurd (getElem?_rows.mp hrow).2 hdead
  · intro key
    obtain ⟨slot, hprobe, -⟩ := hvalid.probe key
    exact ⟨slot, hprobe⟩
  · intro key
    obtain ⟨slot, hfree, -⟩ := freeSlot_settles hvalid.empty_mem key
    exact ⟨slot, hfree⟩

theorem Valid.observes (hvalid : Valid contents) : Observes contents (held contents) :=
  ⟨get_settles hvalid, contains_settles hvalid, length_eq hvalid, keys_eq hvalid,
    values_eq hvalid, entries_eq hvalid⟩

/-- **A Dict refines the association list of its updates**: whatever capacity it starts
with, every sequence of updates ends, keeps the representation, and every observation is
the list's, comparing with any other Dict included. -/
theorem dict_refines (K V : Type) [DictKey K] [LawfulDictKey K] (capacity : Int)
    (updates : List (Update K V)) :
    ∃ contents, Outcome.Settles (fun n => build n capacity updates) (.ok contents) ∧
      Represented contents ∧ Observes contents (updates.foldl listUpdate []) ∧
      ∀ (equal : V → V → Bool) (capacity' : Int) (updates' : List (Update K V)),
        ∃ other, Outcome.Settles (fun n => build n capacity' updates') (.ok other) ∧
          Outcome.Settles (fun n => equals n equal contents other)
            (.ok (agree DictKey.equals equal (updates.foldl listUpdate [])
              (updates'.foldl listUpdate []))) := by
  obtain ⟨contents, hbuild, hvalid, hheld⟩ := build_settles capacity updates
  refine ⟨contents, hbuild, hvalid.represented, ?_, ?_⟩
  · rw [← hheld]
    exact hvalid.observes
  · intro equal capacity' updates'
    obtain ⟨other, hother, hvalid', hheld'⟩ := build_settles capacity' updates'
    refine ⟨other, hother, ?_⟩
    rw [← hheld, ← hheld']
    exact equals_settles hvalid hvalid' equal

end

instance : DictKey Int := ⟨id, fun first second => first == second⟩

instance : LawfulDictKey Int where
  refl := by simp [DictKey.equals]
  symm := by
    simp only [DictKey.equals, beq_iff_eq]
    exact fun h => h.symm
  trans := by
    simp only [DictKey.equals, beq_iff_eq]
    exact fun h₁ h₂ => h₁.trans h₂
  hash_eq := by simp [DictKey.equals]

/-- Two Int keys, one removed and set again: it moves to the end. -/
theorem dict_refines_reinserted : ∃ contents : DictContents Int Int, Outcome.Settles
      (fun n => build n 0 [.set 1 10, .set 8 20, .remove 1, .set 1 30]) (.ok contents) ∧
      entries contents = [(8, 20), (1, 30)] := by
  obtain ⟨contents, hbuild, -, hobserves, -⟩ :=
    dict_refines Int Int 0 [.set 1 10, .set 8 20, .remove 1, .set 1 30]
  exact ⟨contents, hbuild, hobserves.entries⟩

/-- A removed row's index stands in no slot: the slot says only that it was deleted. -/
theorem dict_dead_row_unindexed : ∃ contents : DictContents Int Int,
      Outcome.Settles (fun n => build n 0 [.set 1 10, .remove 1]) (.ok contents) ∧
      0 < contents.keys.length ∧ ∀ slot : Nat, contents.slots[slot]? ≠ some 0 := by
  refine ⟨⟨[1], [10], [false], [-1, -1, -2, -1, -1, -1, -1], 1⟩,
    .closed 8 (by simp) fun _ => rfl, by simp, fun slot hslot => ?_⟩
  have := List.mem_of_getElem? hslot
  simp at this

end Blorp.Library
