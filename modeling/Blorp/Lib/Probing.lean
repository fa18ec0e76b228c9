import Mathlib.Data.Nat.Find
import Mathlib.Data.List.GetD
import Mathlib.Logic.Function.Iterate
import Mathlib.Data.Int.ModEq

/-!
# Linear probing

A probe walks the slots of an index from a home slot, one after another and around its
end, up to the first slot that stops it.  Slots are counted by their distance from home:
`slotAt size home d` is the slot `d` steps on.
-/

namespace Probing

def step (size slot : Nat) : Nat := if slot + 1 = size then 0 else slot + 1

def slotAt (size home distance : Nat) : Nat := (home + distance) % size

theorem slotAt_lt {size home : Nat} (hsize : home < size) (distance : Nat) :
    slotAt size home distance < size :=
  Nat.mod_lt _ (by omega)

theorem step_iterate {size home : Nat} (hsize : home < size) (distance : Nat) :
    (step size)^[distance] home = slotAt size home distance := by
  induction distance with
  | zero => simp [slotAt, Nat.mod_eq_of_lt hsize]
  | succ distance ih =>
    rw [Function.iterate_succ_apply', ih]
    have hlt := slotAt_lt hsize distance
    unfold slotAt step at *
    rw [← Nat.add_assoc, Nat.add_mod (home + distance) 1 size]
    by_cases hlast : (home + distance) % size + 1 = size
    · rw [if_pos hlast]
      by_cases hone : size = 1
      · subst hone
        simp [Nat.mod_one]
      · rw [Nat.mod_eq_of_lt (a := 1) (by omega), hlast, Nat.mod_self]
    · have hone : 1 % size = 1 := Nat.mod_eq_of_lt (by omega)
      rw [if_neg hlast, hone,
        Nat.mod_eq_of_lt (show (home + distance) % size + 1 < size by omega)]

theorem exists_distance {size home slot : Nat} (hsize : home < size) (hslot : slot < size) :
    ∃ distance < size, slotAt size home distance = slot := by
  by_cases hle : home ≤ slot
  · refine ⟨slot - home, by omega, ?_⟩
    unfold slotAt
    rw [Nat.mod_eq_of_lt (by omega)]
    omega
  · refine ⟨slot + size - home, by omega, ?_⟩
    unfold slotAt
    rw [show home + (slot + size - home) = slot + size by omega, Nat.add_mod_right,
      Nat.mod_eq_of_lt hslot]

theorem exists_first {size home : Nat} (hsize : home < size) {stops : Nat → Prop}
    [DecidablePred stops] (h : ∃ slot < size, stops slot) :
    ∃ distance < size, stops (slotAt size home distance) ∧
      ∀ nearer < distance, ¬ stops (slotAt size home nearer) := by
  obtain ⟨slot, hslot, hstops⟩ := h
  obtain ⟨distance, hdistance, rfl⟩ := exists_distance hsize hslot
  have hex : ∃ d, stops (slotAt size home d) := ⟨distance, hstops⟩
  refine ⟨Nat.find hex, ?_, Nat.find_spec hex, fun nearer hnearer => Nat.find_min hex hnearer⟩
  exact Nat.lt_of_le_of_lt (Nat.find_le hstops) hdistance

end Probing
