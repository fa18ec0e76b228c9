import Blorp.Check.InstantiationPaths

/-!
# Sets of control pairs

Under the entry validation the dense key of a pair is injective, so a `PathPairs` is a
set of pairs in the order they were added: membership is `hasPair` (Table.hasPair_iff)
and `insert` adds one pair (Table.insert).
-/

namespace Blorp.Check

open Fuel Entries

structure Within (count source target : Int) : Prop where
  source_nonneg : 0 ≤ source
  source_lt : source < count
  target_nonneg : 0 ≤ target
  target_lt : target < count

/-- Few enough controls for dense keys. -/
def Dense (count : Int) : Prop := 0 ≤ count ∧ count * count ≤ intMax

theorem mem_controls {count control : Int} :
    control ∈ controls count ↔ 0 ≤ control ∧ control < count := by
  unfold controls
  rw [List.mem_map]
  constructor
  · rintro ⟨index, hindex, rfl⟩
    rw [List.mem_range] at hindex
    simp only [Int.ofNat_eq_natCast]
    omega
  · rintro ⟨hnonneg, hlt⟩
    refine ⟨control.toNat, ?_, by simpa using hnonneg⟩
    rw [List.mem_range]
    omega

section

variable {count : Int}

variable {source target : Int} {paths : PathPairs}

theorem pairKey_eq (hdense : Dense count) (h : Within count source target) :
    pairKey count source target = source * count + target := by
  obtain ⟨hs, hs', ht, ht'⟩ := h
  have hrow : 0 ≤ source * count := Int.mul_nonneg hs (by omega)
  have hlast : (source + 1) * count ≤ count * count :=
    Int.mul_le_mul_of_nonneg_right (by omega) (by omega)
  rw [Int.add_mul, Int.one_mul] at hlast
  have hmax := hdense.2
  unfold intMax at hmax
  unfold pairKey wrap
  rw [Int.bmod_eq_of_le (n := source * count) (by omega) (by omega),
    Int.bmod_eq_of_le (by omega) (by omega)]

theorem pairKey_injective {source' target' : Int} (hdense : Dense count)
    (h : Within count source target) (h' : Within count source' target')
    (heq : pairKey count source target = pairKey count source' target') :
    source = source' ∧ target = target' := by
  rw [pairKey_eq hdense h, pairKey_eq hdense h'] at heq
  have hquotient : ∀ s t : Int, 0 ≤ t → t < count → (s * count + t) / count = s := by
    intro s t ht ht'
    rw [Int.add_comm, Int.add_mul_ediv_right t s (by omega), Int.ediv_eq_zero_of_lt ht ht']
    omega
  have hsource : source = source' := by
    rw [← hquotient source target h.target_nonneg h.target_lt, heq,
      hquotient source' target' h'.target_nonneg h'.target_lt]
  subst hsource
  exact ⟨rfl, by omega⟩

/-! ## Tables -/

/-- A set of control pairs under their keys. -/
structure Table (count : Int) (paths : PathPairs) : Prop where
  keyed : ∀ entry ∈ paths, entry.1 = pairKey count entry.2.source entry.2.target
  within : ∀ pair ∈ paths.values, Within count pair.source pair.target
  nodup : paths.values.Nodup

theorem Table.nil : Table count [] := ⟨by simp, by simp [PathPairs.values], List.nodup_nil⟩

theorem isSome_get (paths : PathPairs) (key : Int) :
    (paths.get key).isSome = paths.any fun entry => entry.1 == key :=
  isSome_lookup _ paths key

theorem Table.hasPair_iff (h : Table count paths) (hdense : Dense count)
    (hwithin : Within count source target) :
    hasPair paths count source target = true ↔ ⟨source, target⟩ ∈ paths.values := by
  unfold hasPair
  rw [isSome_get, List.any_eq_true]
  constructor
  · rintro ⟨entry, hentry, hkey⟩
    have hvalue : entry.2 ∈ paths.values := List.mem_map_of_mem hentry
    have hkey : entry.1 = pairKey count source target := by simpa using hkey
    rw [h.keyed entry hentry] at hkey
    obtain ⟨hsource, htarget⟩ :=
      pairKey_injective hdense (h.within entry.2 hvalue) hwithin hkey
    rw [← hsource, ← htarget]
    exact hvalue
  · intro hmem
    obtain ⟨entry, hentry, heq⟩ := List.mem_map.mp hmem
    refine ⟨entry, hentry, ?_⟩
    rw [h.keyed entry hentry, heq]
    simp

theorem Table.insert (h : Table count paths) (hdense : Dense count)
    (hwithin : Within count source target) :
    Table count (insert paths count source target) ∧
      paths.values <+: (Check.insert paths count source target).values ∧
      ⟨source, target⟩ ∈ (Check.insert paths count source target).values ∧
      ∀ pair ∈ (Check.insert paths count source target).values,
        pair ∈ paths.values ∨ pair = ⟨source, target⟩ := by
  have hiff := h.hasPair_iff hdense hwithin
  unfold hasPair at hiff
  unfold Check.insert
  by_cases hknown : (paths.get (pairKey count source target)).isSome = true
  · simp only [hknown, ↓reduceIte]
    exact ⟨h, List.prefix_rfl, hiff.mp hknown, fun pair hpair => .inl hpair⟩
  · have hnew : ⟨source, target⟩ ∉ paths.values := fun hmem => hknown (hiff.mpr hmem)
    have hset : paths.set (pairKey count source target) ⟨source, target⟩
        = paths ++ [(pairKey count source target, ⟨source, target⟩)] := by
      unfold PathPairs.set put
      rw [← isSome_lookup]
      exact if_neg hknown
    have hvalues : PathPairs.values (paths ++ [(pairKey count source target, ⟨source, target⟩)])
        = paths.values ++ [⟨source, target⟩] := by
      simp [PathPairs.values]
    simp only [hknown, Bool.false_eq_true, ↓reduceIte]
    rw [hset, hvalues]
    refine ⟨⟨?_, ?_, ?_⟩, List.prefix_append _ _, by simp, by simp⟩
    · intro entry hentry
      rcases List.mem_append.mp hentry with hold | hlast
      · exact h.keyed entry hold
      · obtain rfl := List.mem_singleton.mp hlast
        rfl
    · rw [hvalues]
      intro pair hpair
      rcases List.mem_append.mp hpair with hold | hlast
      · exact h.within pair hold
      · obtain rfl := List.mem_singleton.mp hlast
        exact hwithin
    · rw [hvalues]
      refine List.nodup_append.mpr ⟨h.nodup, by simp, ?_⟩
      intro pair hpair other hother
      obtain rfl := List.mem_singleton.mp hother
      rintro rfl
      exact hnew hpair

theorem Table.length_le (h : Table count paths) :
    paths.values.length ≤ (controls count).length * (controls count).length := by
  have hsubset : paths.values ⊆
      (controls count ×ˢ controls count).map fun pair => ⟨pair.1, pair.2⟩ := by
    intro pair hpair
    obtain ⟨hs, hs', ht, ht'⟩ := h.within pair hpair
    refine List.mem_map.mpr ⟨(pair.source, pair.target), ?_, rfl⟩
    exact List.mem_product.mpr ⟨mem_controls.mpr ⟨hs, hs'⟩, mem_controls.mpr ⟨ht, ht'⟩⟩
  have hle := (h.nodup.subperm hsubset).length_le
  rwa [List.length_map, List.length_product] at hle

/-! ## Growing tables -/

/-- A table whose pairs all satisfy `R`. -/
structure Good (count : Int) (R : Int → Int → Prop) (paths : PathPairs) : Prop where
  table : Table count paths
  justified : ∀ pair ∈ paths.values, R pair.source pair.target

/-- A step that keeps a table good and only adds to it. -/
def Extends (count : Int) (R : Int → Int → Prop) (paths next : PathPairs) : Prop :=
  Good count R paths → Good count R next ∧ paths.values <+: next.values

section

variable {R : Int → Int → Prop} {paths next last : PathPairs}

theorem Extends.refl (paths : PathPairs) : Extends count R paths paths :=
  fun h => ⟨h, List.prefix_rfl⟩

theorem Extends.trans (h₁ : Extends count R paths next) (h₂ : Extends count R next last) :
    Extends count R paths last := by
  intro h
  obtain ⟨hnext, hgrown⟩ := h₁ h
  obtain ⟨hlast, hgrown'⟩ := h₂ hnext
  exact ⟨hlast, hgrown.trans hgrown'⟩

theorem Extends.mem (h : Extends count R paths next) (hgood : Good count R paths)
    {pair : PathPair} (hpair : pair ∈ paths.values) : pair ∈ next.values :=
  (h hgood).2.subset hpair

theorem Good.insert (h : Good count R paths) (hdense : Dense count) {source target : Int}
    (hwithin : Within count source target) (hR : R source target) :
    Good count R (insert paths count source target) ∧
      paths.values <+: (Check.insert paths count source target).values ∧
      ⟨source, target⟩ ∈ (Check.insert paths count source target).values := by
  obtain ⟨htable, hgrown, hmem, honly⟩ := h.table.insert hdense hwithin
  refine ⟨⟨htable, fun pair hpair => ?_⟩, hgrown, hmem⟩
  rcases honly pair hpair with hold | rfl
  · exact h.justified pair hold
  · exact hR

theorem Extends.insert_if (hdense : Dense count) {guard : Prop} [Decidable guard]
    {source target : Int}
    (h : Good count R paths → guard → Within count source target ∧ R source target) :
    Extends count R paths (if guard then insert paths count source target else paths) := by
  intro hgood
  by_cases hguard : guard
  · obtain ⟨hwithin, hR⟩ := h hgood hguard
    obtain ⟨hnext, hgrown, -⟩ := hgood.insert hdense hwithin hR
    rw [if_pos hguard]
    exact ⟨hnext, hgrown⟩
  · rw [if_neg hguard]
    exact ⟨hgood, List.prefix_rfl⟩

theorem Extends.foldl {α : Type} {f : PathPairs → α → PathPairs} {xs : List α}
    (h : ∀ x ∈ xs, ∀ paths, Extends count R paths (f paths x)) :
    Extends count R paths (xs.foldl f paths) :=
  foldl_rel Extends.refl Extends.trans xs h paths

theorem Extends.foldl_mem {α : Type} {f : PathPairs → α → PathPairs} {xs : List α} {x : α}
    {pair : PathPair} (h : ∀ x ∈ xs, ∀ paths, Extends count R paths (f paths x)) (hx : x ∈ xs)
    (hgood : Good count R paths)
    (hadds : ∀ between, Good count R between → paths.values <+: between.values →
      pair ∈ (f between x).values) : pair ∈ (xs.foldl f paths).values := by
  obtain ⟨between, hbefore, hafter⟩ :=
    foldl_visits Extends.refl Extends.trans xs h hx paths
  obtain ⟨hbetween, hgrown⟩ := hbefore hgood
  exact hafter.mem (h x hx between hbetween).1 (hadds between hbetween hgrown)

end

end

end Blorp.Check
