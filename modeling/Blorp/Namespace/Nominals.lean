import Blorp.Namespace.Declared

/-!
# Nominal declarations in source order

`next_nominal`, called again with the counter of the row it gave one further: three lists of
rows, each in source order, merge into one.
-/

namespace Blorp.Namespace

open Fuel

/-! ## Order -/

def InOrder (first second : NominalRow) : Prop :=
  first.nominalModule < second.nominalModule ∨
    (first.nominalModule = second.nominalModule ∧ first.nominalStart ≤ second.nominalStart)

theorem InOrder.refl (row : NominalRow) : InOrder row row := .inr ⟨rfl, Nat.le_refl _⟩

variable {second row : NominalRow} {rows : Cursors}

theorem InOrder.trans {first third : NominalRow} (h : InOrder first second)
    (h' : InOrder second third) : InOrder first third := by
  unfold InOrder at *
  rcases h with hlt | ⟨heq, hle⟩
  · rcases h' with hlt' | ⟨heq', -⟩
    · exact .inl (Nat.lt_trans hlt hlt')
    · exact .inl (heq' ▸ hlt)
  · rcases h' with hlt' | ⟨heq', hle'⟩
    · exact .inl (heq ▸ hlt')
    · exact .inr ⟨heq.trans heq', Nat.le_trans hle hle'⟩

theorem InOrder.module_le {first : NominalRow} (h : InOrder first second) :
    first.nominalModule ≤ second.nominalModule := by
  rcases h with hlt | ⟨heq, -⟩
  · exact Nat.le_of_lt hlt
  · exact Nat.le_of_eq heq

theorem inOrder_of_precedes {first : NominalRow} (h : declarationPrecedes first second = true) :
    InOrder first second := by
  unfold declarationPrecedes at h
  split at h
  · rename_i heq
    exact .inr ⟨heq, Nat.le_of_lt (of_decide_eq_true h)⟩
  · exact .inl (of_decide_eq_true h)

theorem inOrder_of_not_precedes {first : NominalRow}
    (h : ¬ declarationPrecedes first second = true) : InOrder second first := by
  unfold declarationPrecedes at h
  split at h
  · rename_i heq
    exact .inr ⟨heq.symm, Nat.le_of_not_lt fun hlt => h (decide_eq_true hlt)⟩
  · rename_i hne
    have hle := Nat.le_of_not_lt fun hlt => h (decide_eq_true hlt)
    exact .inl (Nat.lt_of_le_of_ne hle (Ne.symm hne))

theorem earlierNominal_inOrder (first second : NominalRow) :
    InOrder (earlierNominal first second) first ∧ InOrder (earlierNominal first second) second := by
  unfold earlierNominal
  split
  · rename_i h
    exact ⟨InOrder.refl _, inOrder_of_precedes h⟩
  · rename_i h
    exact ⟨inOrder_of_not_precedes h, InOrder.refl _⟩

theorem earlierNominal_mem (first second : NominalRow) :
    earlierNominal first second ∈ [first, second] := by
  rcases earlierNominal_eq first second with heq | heq <;> simp [heq]

/-! ## The next row -/

def Cursors.nominalHeads (rows : Cursors) : List NominalRow :=
  (rows.records.head?.map .recordDeclarationRow).toList ++
    ((rows.unions.head?.map .unionDeclarationRow).toList ++
      (rows.opaques.head?.map .opaqueDeclarationRow).toList)

theorem nextNominal_first (h : rows.nextNominal = some row) :
    row ∈ rows.nominalHeads ∧ ∀ other ∈ rows.nominalHeads, InOrder row other := by
  unfold Cursors.nextNominal at h
  unfold Cursors.nominalHeads
  cases hrecord : rows.records.head? with
  | none => cases hunion : rows.unions.head? with
    | none => cases hopaque : rows.opaques.head? with
      | none => simp [hrecord, hunion, hopaque] at h
      | some opaqueRow =>
        obtain rfl : NominalRow.opaqueDeclarationRow opaqueRow = row := by
          simpa [hrecord, hunion, hopaque] using h
        simpa using InOrder.refl _
    | some unionRow => cases hopaque : rows.opaques.head? with
      | none =>
        obtain rfl : NominalRow.unionDeclarationRow unionRow = row := by
          simpa [hrecord, hunion, hopaque] using h
        simpa using InOrder.refl _
      | some opaqueRow =>
        simp only [hrecord, hunion, hopaque, Option.some.injEq] at h
        subst h
        refine ⟨earlierNominal_mem _ _, ?_⟩
        simpa using earlierNominal_inOrder _ _
  | some recordRow => cases hunion : rows.unions.head? with
    | none => cases hopaque : rows.opaques.head? with
      | none =>
        obtain rfl : NominalRow.recordDeclarationRow recordRow = row := by
          simpa [hrecord, hunion, hopaque] using h
        simpa using InOrder.refl _
      | some opaqueRow =>
        simp only [hrecord, hunion, hopaque, Option.some.injEq] at h
        subst h
        refine ⟨earlierNominal_mem _ _, ?_⟩
        simpa using earlierNominal_inOrder _ _
    | some unionRow => cases hopaque : rows.opaques.head? with
      | none =>
        simp only [hrecord, hunion, hopaque, Option.some.injEq] at h
        subst h
        refine ⟨earlierNominal_mem _ _, ?_⟩
        simpa using earlierNominal_inOrder _ _
      | some opaqueRow =>
        simp only [hrecord, hunion, hopaque] at h
        split at h
        · rename_i hfirst
          rw [Bool.and_eq_true] at hfirst
          cases h
          simpa using And.intro (InOrder.refl _) (And.intro (inOrder_of_precedes hfirst.1)
            (inOrder_of_precedes hfirst.2))
        · rename_i hnot
          cases h
          obtain ⟨hunionLe, hopaqueLe⟩ := earlierNominal_inOrder (.unionDeclarationRow unionRow)
            (.opaqueDeclarationRow opaqueRow)
          refine ⟨List.mem_cons_of_mem _ (earlierNominal_mem _ _), ?_⟩
          -- The record is not first, so the union or the opaque type is not after it.
          have hrecordLe : InOrder (earlierNominal (.unionDeclarationRow unionRow)
              (.opaqueDeclarationRow opaqueRow)) (.recordDeclarationRow recordRow) := by
            rw [Bool.and_eq_true, not_and_or] at hnot
            rcases hnot with hnot | hnot
            · exact hunionLe.trans (inOrder_of_not_precedes hnot)
            · exact hopaqueLe.trans (inOrder_of_not_precedes hnot)
          simpa using And.intro hrecordLe (And.intro hunionLe hopaqueLe)

theorem nextNominal_least (h : rows.nextNominal = some row) : row ∈ rows.nominalHeads ∧
      ∀ other ∈ rows.nominalHeads, row.nominalModule ≤ other.nominalModule := by
  obtain ⟨hmem, hfirst⟩ := nextNominal_first h
  exact ⟨hmem, fun other hother => (hfirst other hother).module_le⟩

theorem nextNominal_none (h : rows.nextNominal = none) : rows.nominalHeads = [] := by
  unfold Cursors.nextNominal at h
  unfold Cursors.nominalHeads
  cases hrecord : rows.records.head? with
  | none => cases hunion : rows.unions.head? with
    | none => cases hopaque : rows.opaques.head? <;> simp_all
    | some => cases hopaque : rows.opaques.head? <;> simp [hrecord, hunion, hopaque] at h
  | some => cases hunion : rows.unions.head? with
    | none => cases hopaque : rows.opaques.head? <;> simp [hrecord, hunion, hopaque] at h
    | some => cases hopaque : rows.opaques.head? with
      | none => simp [hrecord, hunion, hopaque] at h
      | some =>
        simp only [hrecord, hunion, hopaque] at h
        split at h <;> cases h

theorem mem_nominalHeads {head : NominalRow} : head ∈ rows.nominalHeads ↔
    (∃ row, rows.records.head? = some row ∧ .recordDeclarationRow row = head) ∨
    (∃ row, rows.unions.head? = some row ∧ .unionDeclarationRow row = head) ∨
    (∃ row, rows.opaques.head? = some row ∧ .opaqueDeclarationRow row = head) := by
  simp [Cursors.nominalHeads]

/-! ## Every row -/

/-- Traversal positions, never identities. -/
structure Seen where
  records : Nat
  unions : Nat
  opaques : Nat

def DeclarationInventory.past (inventory : DeclarationInventory) (seen : Seen) : Cursors :=
  { inventory.cursors with
    records := inventory.records.drop seen.records
    unions := inventory.unions.drop seen.unions
    opaques := inventory.opaques.drop seen.opaques }

def nextNominal (inventory : DeclarationInventory) (seen : Seen) : Option NominalRow :=
  (inventory.past seen).nextNominal

/-- The counters after a row: the one of its kind moves. -/
def Seen.after (seen : Seen) : NominalRow → Seen
  | .recordDeclarationRow _ => { seen with records := seen.records + 1 }
  | .unionDeclarationRow _ => { seen with unions := seen.unions + 1 }
  | .opaqueDeclarationRow _ => { seen with opaques := seen.opaques + 1 }

/-- The rows that repeated calls give, until there is none. -/
def nominalRows (inventory : DeclarationInventory) : Nat → Seen → Outcome Empty (List NominalRow)
  | 0, _ => .timeout
  | fuel + 1, seen =>
      match nextNominal inventory seen with
      | none => .ok []
      | some row => do
          let rest ← nominalRows inventory fuel (seen.after row)
          pure (row :: rest)

/-- The rows not yet seen, kind by kind. -/
def Cursors.nominals (rows : Cursors) : List NominalRow :=
  rows.records.map .recordDeclarationRow ++
    (rows.unions.map .unionDeclarationRow ++ rows.opaques.map .opaqueDeclarationRow)

structure NominalsOrdered (rows : Cursors) : Prop where
  records : (rows.records.map NominalRow.recordDeclarationRow).Pairwise InOrder
  unions : (rows.unions.map NominalRow.unionDeclarationRow).Pairwise InOrder
  opaques : (rows.opaques.map NominalRow.opaqueDeclarationRow).Pairwise InOrder

theorem past_after (inventory : DeclarationInventory) (seen : Seen) (row : NominalRow) :
    inventory.past (seen.after row) = ((inventory.past seen).takeNominal row).2 := by
  cases row with
  | recordDeclarationRow row | unionDeclarationRow row | opaqueDeclarationRow row =>
    simp [DeclarationInventory.past, Seen.after, Cursors.takeNominal]

theorem takeNominal_perm (h : row ∈ rows.nominalHeads) :
    (row :: (rows.takeNominal row).2.nominals).Perm rows.nominals := by
  rcases mem_nominalHeads.mp h with ⟨first, hfirst, rfl⟩ | ⟨first, hfirst, rfl⟩ | ⟨first, hfirst, rfl⟩
  · have hcons := List.eq_cons_of_mem_head? hfirst
    unfold Cursors.nominals Cursors.takeNominal
    rw [hcons]
    exact List.Perm.refl _
  · have hcons := List.eq_cons_of_mem_head? hfirst
    unfold Cursors.nominals Cursors.takeNominal
    rw [hcons]
    exact List.perm_middle.symm
  · have hcons := List.eq_cons_of_mem_head? hfirst
    unfold Cursors.nominals Cursors.takeNominal
    rw [hcons, ← List.append_assoc, ← List.append_assoc]
    exact List.perm_middle.symm

theorem NominalsOrdered.takeNominal (h : NominalsOrdered rows) (row : NominalRow) :
    NominalsOrdered (rows.takeNominal row).2 := by
  cases row with
  | recordDeclarationRow row =>
    have htail : (rows.records.tail.map NominalRow.recordDeclarationRow).Pairwise InOrder := by
      rw [List.map_tail]
      exact h.records.tail
    exact { h with records := htail }
  | unionDeclarationRow row =>
    have htail : (rows.unions.tail.map NominalRow.unionDeclarationRow).Pairwise InOrder := by
      rw [List.map_tail]
      exact h.unions.tail
    exact { h with unions := htail }
  | opaqueDeclarationRow row =>
    have htail : (rows.opaques.tail.map NominalRow.opaqueDeclarationRow).Pairwise InOrder := by
      rw [List.map_tail]
      exact h.opaques.tail
    exact { h with opaques := htail }

theorem inOrder_of_head {rows : List NominalRow} (h : rows.Pairwise InOrder)
    (hhead : ∀ head, rows.head? = some head → InOrder row head) :
    ∀ other ∈ rows, InOrder row other := by
  intro other hother
  cases rows with
  | nil => cases hother
  | cons first rest =>
    have hfirst := hhead first rfl
    rcases List.mem_cons.mp hother with rfl | hrest
    · exact hfirst
    · exact hfirst.trans ((List.pairwise_cons.mp h).1 other hrest)

theorem NominalsOrdered.first (h : NominalsOrdered rows)
    (hfirst : ∀ other ∈ rows.nominalHeads, InOrder row other) :
    ∀ other ∈ rows.nominals, InOrder row other := by
  intro other hother
  unfold Cursors.nominals at hother
  rcases List.mem_append.mp hother with hmem | hmem
  · refine inOrder_of_head h.records (fun head hhead => hfirst head ?_) other hmem
    rw [List.head?_map, Option.map_eq_some_iff] at hhead
    exact mem_nominalHeads.mpr (.inl hhead)
  · rcases List.mem_append.mp hmem with hmem | hmem
    · refine inOrder_of_head h.unions (fun head hhead => hfirst head ?_) other hmem
      rw [List.head?_map, Option.map_eq_some_iff] at hhead
      exact mem_nominalHeads.mpr (.inr (.inl hhead))
    · refine inOrder_of_head h.opaques (fun head hhead => hfirst head ?_) other hmem
      rw [List.head?_map, Option.map_eq_some_iff] at hhead
      exact mem_nominalHeads.mpr (.inr (.inr hhead))

theorem nominals_eq_nil (h : rows.nextNominal = none) : rows.nominals = [] := by
  have hheads := nextNominal_none h
  unfold Cursors.nominalHeads at hheads
  unfold Cursors.nominals
  simp only [List.append_eq_nil_iff, Option.toList_eq_nil_iff, Option.map_eq_none_iff,
    List.head?_eq_none_iff, List.map_eq_nil_iff] at hheads ⊢
  exact hheads

theorem nominalRows_run (inventory : DeclarationInventory) :
    ∀ (count : Nat) (seen : Seen), (inventory.past seen).nominals.length = count →
      ∃ rows, (∀ fuel, count < fuel → nominalRows inventory fuel seen = .ok rows) ∧
        rows.Perm (inventory.past seen).nominals ∧
        (NominalsOrdered (inventory.past seen) → rows.Pairwise InOrder) := by
  intro count
  induction count with
  | zero =>
    intro seen hcount
    have hnil := List.length_eq_zero_iff.mp hcount
    cases hnext : nextNominal inventory seen with
    | some row =>
      have hperm := takeNominal_perm (nextNominal_first hnext).1
      rw [hnil] at hperm
      exact absurd hperm.length_eq (by simp)
    | none =>
      refine ⟨[], fun fuel hfuel => ?_, by rw [hnil], fun _ => List.Pairwise.nil⟩
      obtain ⟨fewer, rfl⟩ : ∃ fewer, fuel = fewer + 1 := ⟨fuel - 1, by omega⟩
      simp [nominalRows, hnext]
  | succ count ih =>
    intro seen hcount
    cases hnext : nextNominal inventory seen with
    | none =>
      rw [nominals_eq_nil hnext] at hcount
      cases hcount
    | some row =>
      obtain ⟨hmem, hfirst⟩ := nextNominal_first hnext
      have hperm := takeNominal_perm hmem
      rw [← past_after] at hperm
      have hrest : (inventory.past (seen.after row)).nominals.length = count := by
        have hlength := hperm.length_eq
        rw [List.length_cons, hcount] at hlength
        omega
      obtain ⟨rows, hrun, hrows, hordered⟩ := ih (seen.after row) hrest
      refine ⟨row :: rows, fun fuel hfuel => ?_, (hrows.cons row).trans hperm, fun h => ?_⟩
      · obtain ⟨fewer, rfl⟩ : ∃ fewer, fuel = fewer + 1 := ⟨fuel - 1, by omega⟩
        simp only [nominalRows, hnext, hrun fewer (by omega)]
        rfl
      · have hafter := h.takeNominal row
        rw [← past_after] at hafter
        refine List.pairwise_cons.mpr ⟨fun other hother => ?_, hordered hafter⟩
        have hin := hperm.subset (List.mem_cons_of_mem row (hrows.subset hother))
        exact h.first hfirst other hin

theorem nominalRows_settles (inventory : DeclarationInventory) :
    ∃ rows, Outcome.Settles (fun fuel => nominalRows inventory fuel ⟨0, 0, 0⟩) (.ok rows) ∧
      rows.Perm inventory.cursors.nominals ∧
      (NominalsOrdered inventory.cursors → rows.Pairwise InOrder) := by
  obtain ⟨rows, hrun, hperm, hordered⟩ := nominalRows_run inventory _ ⟨0, 0, 0⟩ rfl
  exact ⟨rows, ⟨by simp, _, fun fuel hfuel => hrun fuel hfuel⟩, hperm, hordered⟩

end Blorp.Namespace
