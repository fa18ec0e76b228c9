import Blorp.Library.Dict
import Blorp.Lib.Probing

/-!
# The index of a Dict

What the slots of a Dict say about its rows, and what probing them finds.
-/

namespace Blorp.Library

open Fuel Probing

section

variable {K V : Type} [DictKey K]

theorem homeSlot_lt {size : Nat} (hsize : 0 < size) (key : K) : homeSlot key size < size := by
  unfold homeSlot
  have hlower := Int.lt_tmod_of_pos ((DictKey.hash key * hashSpread).bmod (2 ^ 64))
    (show (0 : Int) < size by omega)
  have hupper := Int.tmod_lt_of_pos ((DictKey.hash key * hashSpread).bmod (2 ^ 64))
    (show (0 : Int) < size by omega)
  simp only
  split <;> omega

theorem homeSlot_eq [LawfulDictKey K] {first second : K}
    (h : DictKey.equals first second = true) (size : Nat) :
    homeSlot first size = homeSlot second size := by
  unfold homeSlot
  rw [LawfulDictKey.hash_eq h]

/-- The slot a key's probe visits after `distance` steps. -/
def pathSlot (slots : List Int) (key : K) (distance : Nat) : Nat :=
  slotAt slots.length (homeSlot key slots.length) distance

variable {slots : List Int} {slot row : Nat} {keyOf : Nat → Option K}

theorem pathSlot_lt (hsize : 0 < slots.length) (key : K) (distance : Nat) :
    pathSlot slots key distance < slots.length :=
  slotAt_lt (homeSlot_lt hsize key) distance

/-- A probe reaches a slot without passing an empty one. -/
def Reaches (slots : List Int) (key : K) (slot : Nat) : Prop :=
  ∃ distance < slots.length, pathSlot slots key distance = slot ∧
    ∀ nearer < distance, slots.getD (pathSlot slots key nearer) emptySlot ≠ emptySlot

/-- The rows with a key are those the slots name, each in one slot that its key's probe
reaches. -/
structure Indexed (slots : List Int) (keyOf : Nat → Option K) : Prop where
  slot : ∀ (slot : Nat) (position : Int), slots[slot]? = some position →
    position = emptySlot ∨ position = deletedSlot ∨
      ∃ (row : Nat) (key : K), position = row ∧ keyOf row = some key
  reached : ∀ row key, keyOf row = some key →
    ∃ slot : Nat, slots[slot]? = some (row : Int) ∧ Reaches slots key slot
  once : ∀ (first second row : Nat), slots[first]? = some (row : Int) →
    slots[second]? = some (row : Int) → first = second

theorem getD_slot (h : slot < slots.length) {position : Int} :
    slots.getD slot emptySlot = position ↔ slots[slot]? = some position := by
  rw [List.getD_eq_getElem?_getD, List.getElem?_eq_getElem h]
  simp

/-! ## One row more, one row less -/

theorem row_ne_empty (row : Nat) : (row : Int) ≠ emptySlot := by
  unfold emptySlot
  omega

theorem row_ne_deleted (row : Nat) : (row : Int) ≠ deletedSlot := by
  unfold deletedSlot
  omega

theorem deleted_ne_empty : deletedSlot ≠ emptySlot := by decide

theorem Reaches.set {key : K} {reached : Nat} {position : Int} (h : Reaches slots key reached)
    (hposition : position ≠ emptySlot) : Reaches (slots.set slot position) key reached := by
  obtain ⟨distance, hlt, hpath, hnearer⟩ := h
  unfold Reaches pathSlot at *
  rw [List.length_set]
  refine ⟨distance, hlt, hpath, fun nearer hlt => ?_⟩
  rw [List.getD_eq_getElem?_getD, List.getElem?_set]
  have hold := hnearer nearer hlt
  rw [List.getD_eq_getElem?_getD] at hold
  by_cases hslot : slot = slotAt slots.length (homeSlot key slots.length) nearer
  · rw [if_pos hslot]
    by_cases hin : slot < slots.length
    · simpa [hin] using hposition
    · rw [List.getElem?_eq_none (by omega)] at hold
      exact absurd rfl hold
  · rwa [if_neg hslot]

def FirstEmpty (slots : List Int) (key : K) (slot : Nat) : Prop :=
  slots[slot]? = some emptySlot ∧ Reaches slots key slot

theorem getElem?_set_slot {old : Int} (h : slots[slot]? = some old) (position : Int) (other : Nat) :
    (slots.set slot position)[other]? = if other = slot then some position else slots[other]? := by
  have hlt := (List.getElem?_eq_some_iff.mp h).1
  rw [List.getElem?_set]
  by_cases hslot : slot = other
  · subst hslot
    simp [hlt]
  · rw [if_neg hslot, if_neg (Ne.symm hslot)]

theorem Indexed.not_named (hindex : Indexed slots keyOf) (hrow : keyOf row = none) (slot : Nat) :
    slots[slot]? ≠ some (row : Int) := by
  intro hslot
  rcases hindex.slot slot row hslot with hempty | hdeleted | ⟨other, key, hother, hkey⟩
  · exact row_ne_empty row hempty
  · exact row_ne_deleted row hdeleted
  · obtain rfl : row = other := by omega
    rw [hrow] at hkey
    cases hkey

theorem Indexed.insert (hindex : Indexed slots keyOf) {key : K} (hslot : FirstEmpty slots key slot)
    (hrow : keyOf row = none) :
    Indexed (slots.set slot (row : Int)) (Function.update keyOf row (some key)) := by
  have hget := getElem?_set_slot hslot.1 (row : Int)
  constructor
  · intro other position hother
    rw [hget] at hother
    by_cases heq : other = slot
    · rw [if_pos heq] at hother
      refine .inr (.inr ⟨row, key, by simpa using hother.symm, by simp⟩)
    · rw [if_neg heq] at hother
      rcases hindex.slot other position hother with hempty | hdeleted | ⟨named, found, rfl, hfound⟩
      · exact .inl hempty
      · exact .inr (.inl hdeleted)
      · refine .inr (.inr ⟨named, found, rfl, ?_⟩)
        rw [Function.update_of_ne, hfound]
        rintro rfl
        rw [hrow] at hfound
        cases hfound
  · intro named found hnamed
    by_cases heq : named = row
    · subst heq
      obtain rfl : key = found := by simpa using hnamed
      exact ⟨slot, by rw [hget, if_pos rfl], hslot.2.set (row_ne_empty named)⟩
    · rw [Function.update_of_ne heq] at hnamed
      obtain ⟨there, hthere, hreach⟩ := hindex.reached named found hnamed
      refine ⟨there, ?_, hreach.set (row_ne_empty row)⟩
      rw [hget, if_neg, hthere]
      rintro rfl
      rw [hslot.1] at hthere
      exact row_ne_empty named (by simpa using hthere.symm)
  · intro first second named hfirst hsecond
    rw [hget] at hfirst hsecond
    have hnone := hindex.not_named hrow
    split_ifs at hfirst hsecond with h₁ h₂ h₂
    · rw [h₁, h₂]
    · obtain rfl : row = named := by simpa using hfirst
      exact absurd hsecond (hnone second)
    · obtain rfl : row = named := by simpa using hsecond
      exact absurd hfirst (hnone first)
    · exact hindex.once first second named hfirst hsecond

theorem Indexed.erase (hindex : Indexed slots keyOf) (hslot : slots[slot]? = some (row : Int)) :
    Indexed (slots.set slot deletedSlot) (Function.update keyOf row none) := by
  have hget := getElem?_set_slot hslot deletedSlot
  constructor
  · intro other position hother
    rw [hget] at hother
    by_cases heq : other = slot
    · rw [if_pos heq] at hother
      exact .inr (.inl (by simpa using hother.symm))
    · rw [if_neg heq] at hother
      rcases hindex.slot other position hother with hempty | hdeleted | ⟨named, found, rfl, hfound⟩
      · exact .inl hempty
      · exact .inr (.inl hdeleted)
      · refine .inr (.inr ⟨named, found, rfl, ?_⟩)
        rw [Function.update_of_ne, hfound]
        rintro rfl
        exact heq (hindex.once other slot named hother hslot)
  · intro named found hnamed
    have hne : named ≠ row := by
      rintro rfl
      simp at hnamed
    rw [Function.update_of_ne hne] at hnamed
    obtain ⟨there, hthere, hreach⟩ := hindex.reached named found hnamed
    refine ⟨there, ?_, hreach.set deleted_ne_empty⟩
    rw [hget, if_neg, hthere]
    rintro rfl
    rw [hslot] at hthere
    have : (row : Int) = named := by simpa using hthere
    omega
  · intro first second named hfirst hsecond
    rw [hget] at hfirst hsecond
    have hne := row_ne_deleted named
    split_ifs at hfirst hsecond with h₁ h₂ h₂
    · rw [h₁, h₂]
    · exact absurd (by simpa using hfirst.symm) hne
    · exact absurd (by simpa using hsecond.symm) hne
    · exact hindex.once first second named hfirst hsecond

/-! ## Probing -/

theorem walk_settles (hsize : 0 < slots.length) (key : K) (test : Nat → Bool)
    (h : ∃ slot < slots.length, test slot = false) :
    ∃ distance < slots.length,
      Outcome.Settles (fun n => repeatWhile (ε := Empty) test
        (fun slot => .ok (nextSlot slots.length slot)) n (homeSlot key slots.length))
        (.ok (pathSlot slots key distance)) ∧
      test (pathSlot slots key distance) = false ∧
      ∀ nearer < distance, test (pathSlot slots key nearer) = true := by
  have hhome := homeSlot_lt hsize key
  obtain ⟨distance, hlt, hstop, hbefore⟩ := exists_first hhome h
  have hbefore : ∀ nearer < distance, test (pathSlot slots key nearer) = true := by
    intro nearer hnearer
    exact Bool.eq_true_of_not_eq_false (hbefore nearer hnearer)
  refine ⟨distance, hlt, ?_, hstop, hbefore⟩
  have hrun := repeatWhile_iterate (ε := Empty) test (Probing.step slots.length) distance
    (homeSlot key slots.length)
  simp only [step_iterate hhome] at hrun
  exact hrun hbefore hstop

theorem freeSlot_settles (h : emptySlot ∈ slots) (key : K) :
    ∃ slot, Outcome.Settles (fun n => freeSlot n slots key) (.ok slot) ∧
      FirstEmpty slots key slot := by
  obtain ⟨slot, hslot⟩ := List.getElem?_of_mem h
  have hlt := (List.getElem?_eq_some_iff.mp hslot).1
  have hsize : 0 < slots.length := by omega
  obtain ⟨distance, hd, hrun, hstop, hbefore⟩ := walk_settles hsize key
    (fun slot => slots.getD slot emptySlot != emptySlot)
    ⟨slot, hlt, by simpa using (getD_slot hlt).mpr hslot⟩
  refine ⟨pathSlot slots key distance, hrun, ?_, distance, hd, rfl, ?_⟩
  · exact (getD_slot (pathSlot_lt hsize key distance)).mp (by simpa using hstop)
  · intro nearer hnearer
    simpa using hbefore nearer hnearer

def SlotOf (slots : List Int) (keyOf : Nat → Option K) (key : K) (slot : Nat) : Prop :=
  ∃ (row : Nat) (found : K), slots[slot]? = some (row : Int) ∧ keyOf row = some found ∧
    DictKey.equals found key = true

def Absent (keyOf : Nat → Option K) (key : K) : Prop :=
  ∀ row found, keyOf row = some found → DictKey.equals found key = false

theorem searching_iff {contents : DictContents K V} (hindex : Indexed contents.slots keyOf)
    (hkeys : ∀ row key, keyOf row = some key → contents.keys[row]? = some key) (key : K)
    (hslot : slot < contents.slots.length) :
    searching contents key slot = false ↔
      contents.slots[slot]? = some emptySlot ∨ SlotOf contents.slots keyOf key slot := by
  have hposition := List.getElem?_eq_getElem hslot
  unfold searching
  rw [List.getD_eq_getElem?_getD, hposition, Option.getD_some]
  rcases hindex.slot slot _ hposition with hempty | hdeleted | ⟨row, found, hrow, hfound⟩
  · rw [hempty] at hposition ⊢
    simp
  · rw [hdeleted]
    have hnone : ¬ SlotOf contents.slots keyOf key slot := by
      rintro ⟨row, _, hrow, -⟩
      rw [hposition, hdeleted] at hrow
      simp [deletedSlot] at hrow
    simp [hnone, emptySlot, deletedSlot]
  · have hne : (row : Int) ≠ emptySlot ∧ (row : Int) ≠ deletedSlot := by
      unfold emptySlot deletedSlot
      omega
    have hget : listGet contents.keys (row : Int) = some found := by
      unfold listGet
      rw [if_neg (by omega)]
      exact hkeys row found hfound
    rw [hrow] at hposition ⊢
    simp only [hne.1, hne.2, ↓reduceIte, hget, Option.some.injEq, false_or]
    constructor
    · intro hsame
      exact ⟨row, found, hposition, hfound, by simpa using hsame⟩
    · rintro ⟨row', found', hrow', hfound', hsame⟩
      rw [hposition] at hrow'
      obtain rfl : row = row' := by simpa using hrow'
      rw [hfound] at hfound'
      obtain rfl : found = found' := by simpa using hfound'
      simp [hsame]

variable [LawfulDictKey K]

/-- A probe finds the key's slot, or ends at the first empty slot and the key is absent. -/
theorem probe_settles {contents : DictContents K V} (hindex : Indexed contents.slots keyOf)
    (hkeys : ∀ row key, keyOf row = some key → contents.keys[row]? = some key)
    (hempty : emptySlot ∈ contents.slots) (key : K) :
    ∃ slot, Outcome.Settles (fun n => probe n contents key) (.ok slot) ∧
      (SlotOf contents.slots keyOf key slot ∨
        FirstEmpty contents.slots key slot ∧ Absent keyOf key) := by
  obtain ⟨some_empty, hslot⟩ := List.getElem?_of_mem hempty
  have hlt := (List.getElem?_eq_some_iff.mp hslot).1
  have hsize : 0 < contents.slots.length := by omega
  obtain ⟨distance, hd, hrun, hstop, hbefore⟩ := walk_settles hsize key
    (searching contents key)
    ⟨some_empty, hlt, (searching_iff hindex hkeys key hlt).mpr (.inl hslot)⟩
  have hpassed : ∀ nearer < distance,
      contents.slots.getD (pathSlot contents.slots key nearer) emptySlot ≠ emptySlot := by
    intro nearer hnearer hgone
    have hpath := pathSlot_lt hsize key nearer
    have := (searching_iff hindex hkeys key hpath).mpr (.inl ((getD_slot hpath).mp hgone))
    rw [hbefore nearer hnearer] at this
    cases this
  refine ⟨pathSlot contents.slots key distance, hrun, ?_⟩
  rcases (searching_iff hindex hkeys key (pathSlot_lt hsize key distance)).mp hstop with
    hend | hfound
  · refine .inr ⟨⟨hend, distance, hd, rfl, hpassed⟩, ?_⟩
    intro row found hrow
    cases hsame : DictKey.equals found key with
    | false => rfl
    | true =>
      -- The row's slot stops the probe, and only slots that are not empty come before it.
      exfalso
      obtain ⟨slot, hslot, there, hthere, hpath, hnearer⟩ := hindex.reached row found hrow
      unfold pathSlot at hpath hnearer
      rw [homeSlot_eq hsame] at hpath
      simp only [homeSlot_eq hsame] at hnearer
      have hlast := (getD_slot (pathSlot_lt hsize key distance)).mpr hend
      rcases Nat.lt_trichotomy distance there with hlt | heq | hgt
      · exact hnearer distance hlt hlast
      · subst heq
        unfold pathSlot at hend
        rw [hpath, hslot] at hend
        simp [emptySlot] at hend
      · have hstops : searching contents key slot = false :=
          (searching_iff hindex hkeys key (List.getElem?_eq_some_iff.mp hslot).1).mpr
            (.inr ⟨row, found, hslot, hrow, hsame⟩)
        have := hbefore there hgt
        unfold pathSlot at this
        rw [hpath, hstops] at this
        cases this
  · exact .inl hfound

end

end Blorp.Library
