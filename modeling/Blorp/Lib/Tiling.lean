import Mathlib.Data.List.Basic
import Mathlib.Order.Basic

/-!
# Tilings of a range

`Tiles Gap a spans c` cuts the range from `a` to `c` into spans and gaps, each starting
where the one before it ends.  Then the spans lie in the range, in order and apart
(`Tiles.within`, `Tiles.ordered`), and a position outside them is in a gap that meets no
span (`Tiles.covered`).
-/

namespace Tiling

structure Range where
  start : Nat
  stop : Nat

/-- Two ranges without a common position, the first one first. -/
def Range.Before (first second : Range) : Prop := first.stop ≤ second.start

/-- A cut of a range into spans and gaps. -/
inductive Tiles (Gap : Nat → Nat → Prop) : Nat → List Range → Nat → Prop
  | nil (a : Nat) : Tiles Gap a [] a
  | gap {a b c : Nat} {spans : List Range} : a ≤ b → Gap a b → Tiles Gap b spans c →
      Tiles Gap a spans c
  | span {a b c : Nat} {spans : List Range} : a ≤ b → Tiles Gap b spans c →
      Tiles Gap a (⟨a, b⟩ :: spans) c

variable {Gap : Nat → Nat → Prop} {a b c : Nat} {spans more : List Range}

namespace Tiles

theorem le (h : Tiles Gap a spans c) : a ≤ c := by
  induction h with
  | nil => exact Nat.le_refl _
  | gap hle _ _ ih => omega
  | span hle _ ih => omega

theorem append (h : Tiles Gap a spans b) (hmore : Tiles Gap b more c) :
    Tiles Gap a (spans ++ more) c := by
  induction h with
  | nil => exact hmore
  | gap hle hgap _ ih => exact .gap hle hgap (ih hmore)
  | span hle _ ih => exact .span hle (ih hmore)

theorem one (hle : a ≤ b) : Tiles Gap a [⟨a, b⟩] b := .span hle (.nil b)

theorem trivial (hle : a ≤ b) (hgap : Gap a b) : Tiles Gap a [] b := .gap hle hgap (.nil b)

theorem within (h : Tiles Gap a spans c) :
    ∀ range ∈ spans, a ≤ range.start ∧ range.start ≤ range.stop ∧ range.stop ≤ c := by
  induction h with intro range hrange
  | nil => cases hrange
  | gap hle _ _ ih =>
    have := ih range hrange
    omega
  | span hle hrest ih =>
    rcases List.mem_cons.mp hrange with rfl | hlater
    · have := hrest.le
      simp only
      omega
    · have := ih range hlater
      omega

theorem ordered (h : Tiles Gap a spans c) : spans.Pairwise Range.Before := by
  induction h with
  | nil => exact .nil
  | gap _ _ _ ih => exact ih
  | span _ hrest ih =>
    refine List.pairwise_cons.mpr ⟨fun range hrange => ?_, ih⟩
    exact (hrest.within range hrange).1

theorem covered (h : Tiles Gap a spans c) {position : Nat} (hfrom : a ≤ position)
    (hto : position < c) :
    (∃ range ∈ spans, range.start ≤ position ∧ position < range.stop) ∨
    ∃ start stop, Gap start stop ∧ a ≤ start ∧ start ≤ position ∧ position < stop ∧
      ∀ range ∈ spans, range.stop ≤ start ∨ stop ≤ range.start := by
  induction h with
  | nil => omega
  | @gap a b c spans hle hgap hrest ih =>
    by_cases hin : position < b
    · refine .inr ⟨a, b, hgap, Nat.le_refl _, hfrom, hin, fun range hrange => ?_⟩
      exact .inr (hrest.within range hrange).1
    · rcases ih (by omega) hto with hspan | ⟨start, stop, hgap, hfirst, hrange⟩
      · exact .inl hspan
      · exact .inr ⟨start, stop, hgap, by omega, hrange⟩
  | @span a b c spans hle hrest ih =>
    by_cases hin : position < b
    · exact .inl ⟨⟨a, b⟩, List.mem_cons_self, hfrom, hin⟩
    · rcases ih (by omega) hto with ⟨range, hmem, hspan⟩ |
        ⟨start, stop, hgap, hfirst, hstart, hstop, hapart⟩
      · exact .inl ⟨range, List.mem_cons_of_mem _ hmem, hspan⟩
      · refine .inr ⟨start, stop, hgap, by omega, hstart, hstop, fun range hrange => ?_⟩
        rcases List.mem_cons.mp hrange with rfl | hlater
        · exact .inl hfirst
        · exact hapart range hlater

end Tiles

end Tiling
