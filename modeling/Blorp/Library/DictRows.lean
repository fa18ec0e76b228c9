import Blorp.Library.DictIndex
import Blorp.Lib.Entries

/-!
# The rows of a Dict

The representation invariant of a Dict, `Valid`, and what each private step of an update
does to the rows.  `held` is what a Dict holds: its live rows, in order.
-/

namespace Blorp.Library

open Fuel Entries

section

variable {K V : Type}

/-- Each row's entry, and whether the row is live. -/
def rows (contents : DictContents K V) : List ((K × V) × Bool) :=
  (contents.keys.zip contents.values).zip contents.live

def held (contents : DictContents K V) : List (K × V) := present (rows contents)

def liveKey (rows : List ((K × V) × Bool)) (row : Nat) : Option K :=
  match rows[row]? with
  | some (entry, true) => some entry.1
  | _ => none

variable {row slot : Nat} {key : K} {entry : K × V} {live : Bool} {slots : List Int}
variable {old : DictContents K V}

theorem liveKey_eq_some {rows : List ((K × V) × Bool)} :
    liveKey rows row = some key ↔ ∃ value, rows[row]? = some ((key, value), true) := by
  unfold liveKey
  constructor
  · intro h
    split at h
    · rename_i entry hrow
      obtain rfl : entry.1 = key := by simpa using h
      exact ⟨entry.2, hrow⟩
    · cases h
  · rintro ⟨value, hrow⟩
    rw [hrow]

theorem liveKey_of_row {rows : List ((K × V) × Bool)} (h : rows[row]? = some (entry, true)) :
    liveKey rows row = some entry.1 :=
  liveKey_eq_some.mpr ⟨entry.2, h⟩

theorem liveKey_of_length_le {rows : List ((K × V) × Bool)} (h : rows.length ≤ row) :
    liveKey rows row = none := by
  unfold liveKey
  rw [List.getElem?_eq_none h]

theorem liveKey_append (rows : List ((K × V) × Bool)) (entry : K × V) :
    liveKey (rows ++ [(entry, true)]) = Function.update (liveKey rows) rows.length (some entry.1) := by
  funext row
  by_cases heq : row = rows.length
  · subst heq
    simp [liveKey]
  · rw [Function.update_of_ne heq]
    unfold liveKey
    rcases Nat.lt_or_gt_of_ne heq with hlt | hgt
    · rw [List.getElem?_append_left hlt]
    · rw [List.getElem?_eq_none (by simp; omega), List.getElem?_eq_none (by omega)]

theorem liveKey_set_dead (rows : List ((K × V) × Bool)) (row : Nat) (entry : K × V) :
    liveKey (rows.set row (entry, false)) = Function.update (liveKey rows) row none := by
  funext other
  by_cases heq : other = row
  · subst heq
    rw [Function.update_self]
    unfold liveKey
    rw [List.getElem?_set]
    by_cases hlt : other < rows.length
    · simp [hlt]
    · simp [hlt]
  · rw [Function.update_of_ne heq]
    unfold liveKey
    rw [List.getElem?_set, if_neg (Ne.symm heq)]

theorem liveKey_set_value {rows : List ((K × V) × Bool)} (h : rows[row]? = some (entry, true))
    (value : V) : liveKey (rows.set row ((entry.1, value), true)) = liveKey rows := by
  funext other
  by_cases heq : other = row
  · subst heq
    rw [liveKey_of_row h]
    have hlt := (List.getElem?_eq_some_iff.mp h).1
    exact liveKey_eq_some.mpr ⟨value, by simp [hlt]⟩
  · unfold liveKey
    rw [List.getElem?_set, if_neg (Ne.symm heq)]

/-! ## The invariant -/

variable [DictKey K]

/-- The columns are parallel, the slots index the live rows, each row has taken one slot,
and a third of the slots is empty. -/
structure Valid (contents : DictContents K V) : Prop where
  values_length : contents.values.length = contents.keys.length
  live_length : contents.live.length = contents.keys.length
  dead : contents.deadCount = contents.live.count false
  index : Indexed contents.slots (liveKey (rows contents))
  used : contents.slots.countP (· != emptySlot) = contents.keys.length
  room : contents.keys.length * 3 ≤ contents.slots.length * 2
  slots_pos : 0 < contents.slots.length
  distinct : Distinct DictKey.equals (held contents)

variable {contents : DictContents K V}

theorem rows_length (hvalid : Valid contents) : (rows contents).length = contents.keys.length := by
  simp [rows, hvalid.values_length, hvalid.live_length]

theorem rows_live (hvalid : Valid contents) : (rows contents).map (·.2) = contents.live := by
  unfold rows
  exact List.map_snd_zip (by simp [hvalid.values_length, hvalid.live_length])

omit [DictKey K] in
theorem getElem?_rows : (rows contents)[row]? = some (entry, live) ↔
      (contents.keys[row]? = some entry.1 ∧ contents.values[row]? = some entry.2) ∧
        contents.live[row]? = some live := by
  unfold rows
  rw [List.getElem?_zip_eq_some, List.getElem?_zip_eq_some]

theorem length_held (hvalid : Valid contents) :
    ((held contents).length : Int) = contents.keys.length - contents.deadCount := by
  have h := length_present (rows contents)
  rw [rows_live hvalid, rows_length hvalid] at h
  rw [hvalid.dead]
  unfold held
  omega

theorem empty_mem_of_countP (h : slots.countP (· != emptySlot) < slots.length) :
    emptySlot ∈ slots := by
  by_contra hnone
  have hall : slots.countP (· != emptySlot) = slots.length := by
    refine List.countP_eq_length.mpr fun slot hslot => ?_
    simp only [bne_iff_ne]
    rintro rfl
    exact hnone hslot
  omega

theorem Valid.empty_mem (hvalid : Valid contents) : emptySlot ∈ contents.slots := by
  refine empty_mem_of_countP ?_
  have hroom := hvalid.room
  have hpos := hvalid.slots_pos
  rw [hvalid.used]
  omega

omit [DictKey K] in
theorem Valid.key_of_live (h : liveKey (rows contents) row = some key) :
    contents.keys[row]? = some key := by
  obtain ⟨value, hrow⟩ := liveKey_eq_some.mp h
  exact (getElem?_rows.mp hrow).1.1

theorem equals_equivalence [LawfulDictKey K] :
    Equivalence fun first second : K => DictKey.equals first second = true :=
  ⟨LawfulDictKey.refl, LawfulDictKey.symm, LawfulDictKey.trans⟩

theorem lacks_of_absent (h : Absent (liveKey (rows contents)) key) :
    Lacks DictKey.equals (held contents) key := by
  intro entry hentry
  obtain ⟨row, hrow⟩ := mem_present.mp hentry
  exact h row entry.1 (liveKey_of_row hrow)

/-! ## Steps on the rows -/

theorem countP_set_free (h : slots[slot]? = some emptySlot) {position : Int}
    (hposition : position ≠ emptySlot) :
    (slots.set slot position).countP (· != emptySlot) = slots.countP (· != emptySlot) + 1 := by
  obtain ⟨hlt, hslot⟩ := List.getElem?_eq_some_iff.mp h
  rw [List.countP_set hlt, hslot]
  simp [hposition]

theorem countP_set_used {old : Int} (h : slots[slot]? = some old) (hold : old ≠ emptySlot)
    {position : Int} (hposition : position ≠ emptySlot) :
    (slots.set slot position).countP (· != emptySlot) = slots.countP (· != emptySlot) := by
  obtain ⟨hlt, hslot⟩ := List.getElem?_eq_some_iff.mp h
  have hused : 0 < slots.countP (· != emptySlot) :=
    List.countP_pos_iff.mpr ⟨old, List.mem_of_getElem? h, by simpa using hold⟩
  rw [List.countP_set hlt, hslot]
  simp only [bne_iff_ne, ne_eq, hold, not_false_eq_true, ↓reduceIte, hposition]
  omega

theorem rows_appended (hvalid : Valid contents) (slot : Nat) (key : K) (value : V) :
    rows (appended contents slot key value) = rows contents ++ [((key, value), true)] := by
  unfold rows appended
  rw [List.zip_append hvalid.values_length.symm,
    List.zip_append (by simp [hvalid.values_length, hvalid.live_length])]
  rfl

theorem Valid.appended (hvalid : Valid contents) (value : V)
    (hslot : FirstEmpty contents.slots key slot) (habsent : Absent (liveKey (rows contents)) key)
    (hroom : (contents.keys.length + 1) * 3 ≤ contents.slots.length * 2) :
    Valid (appended contents slot key value) := by
  have hrows := rows_appended hvalid slot key value
  have hkeys : liveKey (rows (Library.appended contents slot key value))
      = Function.update (liveKey (rows contents)) contents.keys.length (some key) := by
    rw [hrows, liveKey_append, rows_length hvalid]
  refine ⟨?_, ?_, ?_, ?_, ?_, ?_, ?_, ?_⟩
  · simp [Library.appended, hvalid.values_length]
  · simp [Library.appended, hvalid.live_length]
  · simp [Library.appended, hvalid.dead]
  · rw [hkeys]
    exact hvalid.index.insert hslot (liveKey_of_length_le (by rw [rows_length hvalid]))
  · simp only [Library.appended, List.length_append, List.length_singleton]
    rw [countP_set_free hslot.1 (row_ne_empty _), hvalid.used]
  · simpa [Library.appended] using hroom
  · simpa [Library.appended] using hvalid.slots_pos
  · unfold held
    rw [hrows, present_append, present_live, present_nil]
    exact hvalid.distinct.snoc (lacks_of_absent habsent) value

omit [DictKey K] in
theorem rows_buried (slot : Nat) (hrow : (rows contents)[row]? = some (entry, live)) :
    rows (buried contents slot row) = (rows contents).set row (entry, false) := by
  apply List.ext_getElem?
  intro other
  obtain ⟨⟨hkey, hvalue⟩, hlive⟩ := getElem?_rows.mp hrow
  by_cases heq : other = row
  · subst heq
    rw [List.getElem?_set, if_pos rfl, if_pos (List.getElem?_eq_some_iff.mp hrow).1]
    refine getElem?_rows.mpr ⟨⟨hkey, hvalue⟩, ?_⟩
    simp [buried, (List.getElem?_eq_some_iff.mp hlive).1]
  · rw [List.getElem?_set, if_neg (Ne.symm heq)]
    unfold rows buried List.zip
    simp only [List.getElem?_zipWith, Int.toNat_natCast, List.getElem?_set, if_neg (Ne.symm heq)]

theorem Valid.buried (hvalid : Valid contents) (hslot : contents.slots[slot]? = some (row : Int))
    (hrow : (rows contents)[row]? = some (entry, true)) : Valid (buried contents slot row) := by
  have hrows := rows_buried slot hrow
  have hlive := (getElem?_rows.mp hrow).2
  obtain ⟨hlt, hget⟩ := List.getElem?_eq_some_iff.mp hlive
  refine ⟨hvalid.values_length, ?_, ?_, ?_, ?_, ?_, ?_, ?_⟩
  · simp [Library.buried, hvalid.live_length]
  · simp only [Library.buried, Int.toNat_natCast, hvalid.dead]
    rw [List.count_set hlt, hget]
    simp
  · rw [hrows, liveKey_set_dead]
    exact hvalid.index.erase hslot
  · simp only [Library.buried]
    rw [countP_set_used hslot (row_ne_empty row) deleted_ne_empty, hvalid.used]
  · simpa [Library.buried] using hvalid.room
  · simpa [Library.buried] using hvalid.slots_pos
  · unfold held
    rw [hrows]
    exact hvalid.distinct.sublist (present_set_dead_sublist hrow)

omit [DictKey K] in
theorem rows_replaced (hrow : (rows contents)[row]? = some (entry, live)) (value : V) :
    rows { contents with values := contents.values.set row value }
      = (rows contents).set row ((entry.1, value), live) := by
  apply List.ext_getElem?
  intro other
  obtain ⟨⟨hkey, hvalue⟩, hlive⟩ := getElem?_rows.mp hrow
  by_cases heq : other = row
  · subst heq
    rw [List.getElem?_set, if_pos rfl, if_pos (List.getElem?_eq_some_iff.mp hrow).1]
    refine getElem?_rows.mpr ⟨⟨hkey, ?_⟩, hlive⟩
    simp [(List.getElem?_eq_some_iff.mp hvalue).1]
  · rw [List.getElem?_set, if_neg (Ne.symm heq)]
    unfold rows List.zip
    simp only [List.getElem?_zipWith, List.getElem?_set, if_neg (Ne.symm heq)]

theorem Valid.replaced [LawfulDictKey K] (hvalid : Valid contents)
    (hrow : (rows contents)[row]? = some (entry, true)) (value : V) :
    Valid { contents with values := contents.values.set row value } := by
  have hrows := rows_replaced hrow value
  refine ⟨?_, hvalid.live_length, hvalid.dead, ?_, hvalid.used, hvalid.room, hvalid.slots_pos, ?_⟩
  · simpa using hvalid.values_length
  · rw [hrows, liveKey_set_value hrow]
    exact hvalid.index
  · unfold held
    rw [hrows, present_set_value equals_equivalence hvalid.distinct hrow
      (LawfulDictKey.refl entry.1) value]
    exact hvalid.distinct.put value

/-! ## Rebuilding -/

theorem slotCount_settles (count numerator denominator : Int) (hnumerator : 0 < numerator) :
    ∃ size : Nat, Outcome.Settles (fun n => slotCount n count numerator denominator)
        (.ok (size : Int)) ∧ 0 < size ∧ count * denominator ≤ size * numerator := by
  obtain ⟨size, hrun, hsize, hfits⟩ := repeatWhile_settles (ε := Empty)
    (fun slots => decide (count * denominator > slots * numerator))
    (fun _ slots => .ok (slots * 2 + 1)) (fun slots => 0 < slots)
    (fun slots => (count * denominator - slots * numerator).toNat)
    (by
      intro slots hslots htest
      have hgrows : (slots * 2 + 1) * numerator = slots * numerator + (slots + 1) * numerator := by
        ring
      have hpos : 0 < (slots + 1) * numerator := Int.mul_pos (by omega) hnumerator
      have hload : count * denominator > slots * numerator := by simpa using htest
      refine ⟨_, Outcome.Settles.ok, by omega, ?_⟩
      rw [hgrows]
      omega)
    minimumSlots (by decide)
  obtain ⟨slots, rfl⟩ := Int.eq_ofNat_of_zero_le (Int.le_of_lt hsize)
  exact ⟨slots, hrun, by omega, by simpa using hfits⟩

omit [DictKey K] in
theorem zip_fresh (entries : List (K × V)) :
    ((entries.map (·.1)).zip (entries.map (·.2))).zip (List.replicate entries.length true)
      = entries.map fun entry => (entry, true) := by
  induction entries with
  | nil => rfl
  | cons entry entries ih => simp [List.replicate_succ, ih]

omit [DictKey K] in
theorem present_fresh (entries : List (K × V)) :
    present (entries.map fun entry => (entry, true)) = entries := by
  induction entries with
  | nil => rfl
  | cons entry entries ih => simp [ih]

omit [DictKey K] in
theorem liveKey_fresh (entries : List (K × V)) :
    liveKey (entries.map fun entry => (entry, true)) = fun row => (entries.map (·.1))[row]? := by
  funext row
  unfold liveKey
  cases h : entries[row]? with
  | none => simp [h]
  | some entry => simp [h]

omit [DictKey K] in
theorem update_getElem? (keys : List K) (key : K) :
    Function.update (fun row : Nat => keys[row]?) keys.length (some key)
      = fun row => (keys ++ [key])[row]? := by
  funext row
  by_cases heq : row = keys.length
  · subst heq
    simp
  · rw [Function.update_of_ne heq]
    rcases Nat.lt_or_gt_of_ne heq with hlt | hgt
    · rw [List.getElem?_append_left hlt]
    · rw [List.getElem?_eq_none (by omega), List.getElem?_eq_none (by simp; omega)]

/-- What a rebuild has kept of some entries. -/
structure Keeps (size : Nat) (entries : List (K × V)) (kept : Kept K V) : Prop where
  keys : kept.keys = entries.map (·.1)
  values : kept.values = entries.map (·.2)
  slots : kept.slots.length = size
  index : Indexed kept.slots fun row => kept.keys[row]?
  used : kept.slots.countP (· != emptySlot) = kept.keys.length

theorem Keeps.start (size : Nat) :
    Keeps size ([] : List (K × V)) ⟨[], [], List.replicate size emptySlot⟩ := by
  refine ⟨rfl, rfl, by simp, ⟨?_, ?_, ?_⟩, ?_⟩
  · intro slot position hslot
    rw [List.getElem?_replicate] at hslot
    split at hslot
    · exact .inl (by simpa using hslot.symm)
    · cases hslot
  · intro row key hrow
    simp at hrow
  · intro first second row hfirst
    rw [List.getElem?_replicate] at hfirst
    split at hfirst
    · exact absurd (by simpa using hfirst.symm) (row_ne_empty row)
    · cases hfirst
  · simp [List.countP_replicate]

theorem Keeps.snoc {size : Nat} {entries : List (K × V)} {kept : Kept K V}
    (h : Keeps size entries kept) (hslot : FirstEmpty kept.slots entry.1 slot) :
    Keeps size (entries ++ [entry]) ⟨kept.keys ++ [entry.1], kept.values ++ [entry.2],
      kept.slots.set slot (kept.keys.length : Int)⟩ := by
  refine ⟨by simp [h.keys], by simp [h.values], by simp [h.slots], ?_, ?_⟩
  · rw [← update_getElem?]
    exact h.index.insert hslot (by simp)
  · rw [countP_set_free hslot.1 (row_ne_empty _), h.used]
    simp

theorem keepRow_settles {size : Nat} {kept : Kept K V} {entries : List (K × V)}
    (hrow : (rows old)[row]? = some (entry, live)) (hkept : Keeps size entries kept)
    (hroom : entries.length < size) :
    ∃ next, Outcome.Settles (fun n => keepRow n old kept (entry.1, row)) (.ok next) ∧
      Keeps size (entries ++ present [(entry, live)]) next := by
  obtain ⟨⟨-, hvalue⟩, hlive⟩ := getElem?_rows.mp hrow
  unfold keepRow
  simp only [List.getD_eq_getElem?_getD, hlive, Option.getD_some, hvalue]
  cases live with
  | false =>
    refine ⟨kept, Outcome.Settles.ok, ?_⟩
    simpa using hkept
  | true =>
    have hempty : emptySlot ∈ kept.slots := by
      refine empty_mem_of_countP ?_
      rw [hkept.used, hkept.slots, hkept.keys, List.length_map]
      exact hroom
    obtain ⟨slot, hslot, hfirst⟩ := freeSlot_settles hempty entry.1
    refine ⟨_, ?_, by simpa using hkept.snoc hfirst⟩
    simp only [↓reduceIte]
    exact Outcome.Settles.bind_ok hslot Outcome.Settles.ok

theorem kept_settles (hvalid : Valid old) (size : Nat) (hroom : (held old).length < size) :
    ∃ kept, Outcome.Settles (fun n => old.keys.zipIdx.foldlM (keepRow n old)
        ⟨[], [], List.replicate size emptySlot⟩) (.ok kept) ∧ Keeps size (held old) kept := by
  obtain ⟨kept, hrun, hkept⟩ := Outcome.Settles.foldlM (ε := Empty) (f := fun n => keepRow n old)
    old.keys.zipIdx
    (I := fun passed kept => Keeps size (present ((rows old).take passed.length)) kept)
    (by
      intro passed row rest hsplit kept hkept
      have hget : old.keys.zipIdx[passed.length]? = some row := by simp [hsplit]
      rw [List.getElem?_zipIdx] at hget
      obtain ⟨key, hkey, rfl⟩ := Option.map_eq_some_iff.mp hget
      have hlt : passed.length < (rows old).length := by
        rw [rows_length hvalid]
        exact (List.getElem?_eq_some_iff.mp hkey).1
      obtain ⟨⟨entry, live⟩, hrow⟩ : ∃ row, (rows old)[passed.length]? = some row :=
        ⟨_, List.getElem?_eq_getElem hlt⟩
      obtain ⟨⟨hkey', -⟩, -⟩ := getElem?_rows.mp hrow
      obtain rfl : key = entry.1 := by simpa [hkey] using hkey'
      have hfewer : (present ((rows old).take passed.length)).length ≤ (held old).length :=
        ((List.take_sublist _ _).filterMap _).length_le
      obtain ⟨next, hnext, hkeeps⟩ := keepRow_settles hrow hkept (by omega)
      refine ⟨next, by simpa using hnext, ?_⟩
      rw [List.length_append, List.length_singleton, List.take_add_one, hrow, present_append]
      exact hkeeps)
    (by simpa using Keeps.start size)
  refine ⟨kept, hrun, ?_⟩
  rw [List.length_zipIdx, ← rows_length hvalid, List.take_length] at hkept
  exact hkept

/-- A rebuild holds the same entries, in an index with room for one more. -/
theorem rebuilt_settles (hvalid : Valid old) :
    ∃ compact, Outcome.Settles (fun n => rebuilt n old) (.ok compact) ∧ Valid compact ∧
      held compact = held old ∧ (compact.keys.length + 1) * 2 ≤ compact.slots.length := by
  obtain ⟨size, hsize, hpos, hload⟩ := slotCount_settles
    ((old.keys.length : Int) - old.deadCount + 1) rebuiltLoadNumerator
    rebuiltLoadDenominator (by decide)
  rw [← length_held hvalid] at hload
  have hload : (((held old).length : Int) + 1) * 2 ≤ size * 1 := hload
  obtain ⟨kept, hrun, hkept⟩ := kept_settles hvalid size (by omega)
  have hrows : rows (K := K) (V := V)
      ⟨kept.keys, kept.values, List.replicate kept.keys.length true, kept.slots, 0⟩
      = (held old).map fun entry => (entry, true) := by
    unfold rows
    simp only [hkept.keys, hkept.values, List.length_map]
    exact zip_fresh (held old)
  have hheld : held (K := K) (V := V)
      ⟨kept.keys, kept.values, List.replicate kept.keys.length true, kept.slots, 0⟩ = held old := by
    unfold held at *
    rw [hrows, present_fresh]
  have hlength : kept.keys.length = (held old).length := by rw [hkept.keys, List.length_map]
  refine ⟨⟨kept.keys, kept.values, List.replicate kept.keys.length true, kept.slots, 0⟩, ?_,
    ⟨?_, ?_, ?_, ?_, hkept.used, ?_, ?_, ?_⟩, hheld, ?_⟩
  · unfold rebuilt
    refine Outcome.Settles.bind_ok hsize ?_
    refine Outcome.Settles.bind_ok (by simpa using hrun) ?_
    exact Outcome.Settles.ok
  · simp [hkept.keys, hkept.values]
  · simp
  · simp [List.count_replicate]
  · rw [hrows, liveKey_fresh, ← hkept.keys]
    exact hkept.index
  · simp only [hkept.slots, hlength]
    omega
  · simpa only [hkept.slots] using hpos
  · rw [hheld]
    exact hvalid.distinct
  · simp only [hkept.slots, hlength]
    omega

end

end Blorp.Library
