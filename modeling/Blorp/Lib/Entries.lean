import Mathlib.Data.List.Basic

/-!
# Insertion-ordered entries

A map as the list of its entries in the order of their first insertion.  Keys are told
apart by a test of their own, not by equality.  These are the meanings that a table
with an index is compared with.
-/

namespace Entries

variable {κ ν : Type}

section

variable (same : κ → κ → Bool)

section

variable (entries : List (κ × ν)) (key : κ)

def lookup : Option ν :=
  (entries.find? fun entry => same entry.1 key).map (·.2)

def contains : Bool := entries.any fun entry => same entry.1 key

/-- Replaces the value of a present key in place, and appends an absent one. -/
def put (value : ν) : List (κ × ν) :=
  if contains same entries key then
    entries.map fun entry => if same entry.1 key then (entry.1, value) else entry
  else entries ++ [(key, value)]

def delete : List (κ × ν) :=
  entries.filter fun entry => !same entry.1 key

end

/-- The same keys with equal values, in any order. -/
def agree (equal : ν → ν → Bool) (left right : List (κ × ν)) : Bool :=
  left.length == right.length && left.all fun entry =>
    match lookup same right entry.1 with
    | some found => equal found entry.2
    | none => false

end

/-! ## Rows with tombstones

A table may keep a deleted entry as a dead row.  What it holds is its live rows.  -/

def present {ρ : Type} (rows : List (ρ × Bool)) : List ρ :=
  rows.filterMap fun row => if row.2 then some row.1 else none

section

variable {ρ ρ' : Type}

@[simp] theorem present_nil : present ([] : List (ρ × Bool)) = [] := rfl

@[simp] theorem present_append (rows more : List (ρ × Bool)) :
    present (rows ++ more) = present rows ++ present more := by
  simp [present]

@[simp] theorem present_live (row : ρ) (rows : List (ρ × Bool)) :
    present ((row, true) :: rows) = row :: present rows := by
  simp [present]

@[simp] theorem present_dead (row : ρ) (rows : List (ρ × Bool)) :
    present ((row, false) :: rows) = present rows := by
  simp [present]

theorem mem_present {rows : List (ρ × Bool)} {row : ρ} :
    row ∈ present rows ↔ ∃ position : Nat, rows[position]? = some (row, true) := by
  unfold present
  rw [List.mem_filterMap]
  constructor
  · rintro ⟨⟨found, live⟩, hmem, hlive⟩
    obtain ⟨position, hposition⟩ := List.getElem?_of_mem hmem
    cases live with
    | false => simp at hlive
    | true =>
      obtain rfl : found = row := by simpa using hlive
      exact ⟨position, hposition⟩
  · rintro ⟨position, hposition⟩
    exact ⟨(row, true), List.mem_of_getElem? hposition, rfl⟩

theorem present_map (f : ρ → ρ') (rows : List (ρ × Bool)) :
    present (rows.map (Prod.map f id)) = (present rows).map f := by
  induction rows with
  | nil => rfl
  | cons row rows ih =>
    obtain ⟨row, live⟩ := row
    cases live with
    | false => simpa using ih
    | true => simpa using ih

theorem length_present (rows : List (ρ × Bool)) :
    (present rows).length + (rows.map (·.2)).count false = rows.length := by
  induction rows with
  | nil => rfl
  | cons row rows ih =>
    obtain ⟨row, live⟩ := row
    cases live with
    | false =>
      simp only [present_dead, List.map_cons, List.count_cons_self, List.length_cons]
      omega
    | true =>
      simp only [present_live, List.map_cons, List.length_cons]
      rw [List.count_cons_of_ne (by decide)]
      omega

theorem split_at {rows : List ρ} {position : Nat} {row : ρ} (h : rows[position]? = some row) :
    ∃ before after, rows = before ++ row :: after ∧ before.length = position := by
  obtain ⟨hlt, rfl⟩ := List.getElem?_eq_some_iff.mp h
  refine ⟨rows.take position, rows.drop (position + 1), by simp, ?_⟩
  rw [List.length_take]
  omega

theorem present_set_dead_sublist {rows : List (ρ × Bool)} {position : Nat} {row : ρ} {live : Bool}
    (h : rows[position]? = some (row, live)) :
    (present (rows.set position (row, false))).Sublist (present rows) := by
  obtain ⟨before, after, rfl, rfl⟩ := split_at h
  rw [List.set_append_right _ _ (Nat.le_refl _), Nat.sub_self, List.set_cons_zero, present_append,
    present_append, present_dead]
  refine List.Sublist.append_left ?_ _
  cases live with
  | false => simp
  | true => simp

end

/-! ## The row of a key

The keys of the live rows are distinct, so replacing the value in a key's row or marking
it dead changes that entry and no other.  -/

section

variable {same : κ → κ → Bool} {key : κ}

section

variable (same : κ → κ → Bool) (entries : List (κ × ν))

def Distinct : Prop :=
  entries.Pairwise fun first second => same first.1 second.1 = false

def Lacks (key : κ) : Prop :=
  ∀ entry ∈ entries, same entry.1 key = false

theorem isSome_lookup (key : κ) : (lookup same entries key).isSome = contains same entries key := by
  unfold lookup contains
  rw [Option.isSome_map, Bool.eq_iff_iff, List.find?_isSome, List.any_eq_true]

end

section

variable {entries : List (κ × ν)} (h : Lacks same entries key)

include h

theorem lookup_of_lacks : lookup same entries key = none := by
  unfold lookup
  rw [List.find?_eq_none.mpr fun other hother => by simp [h other hother]]
  rfl

theorem contains_of_lacks : contains same entries key = false :=
  List.any_eq_false.mpr fun other hother => by simp [h other hother]

theorem delete_of_lacks : delete same entries key = entries :=
  List.filter_eq_self.mpr fun other hother => by simp [h other hother]

theorem map_replace_of_lacks (value : ν) :
    (entries.map fun entry => if same entry.1 key then (entry.1, value) else entry) = entries := by
  rw [List.map_congr_left (g := id) fun other hother => by simp [h other hother], List.map_id]

end

theorem Distinct.around (hequiv : Equivalence fun first second => same first second = true)
    {before after : List (κ × ν)} {entry : κ × ν}
    (h : Distinct same (before ++ entry :: after)) (hkey : same entry.1 key = true) :
    Lacks same before key ∧ Lacks same after key := by
  obtain ⟨-, hafter, hbefore⟩ := List.pairwise_append.mp h
  constructor
  · intro other hother
    cases hsame : same other.1 key with
    | false => rfl
    | true =>
      have hboth := hequiv.trans hsame (hequiv.symm hkey)
      rw [hbefore other hother entry List.mem_cons_self] at hboth
      cases hboth
  · intro other hother
    cases hsame : same other.1 key with
    | false => rfl
    | true =>
      have hboth := hequiv.trans hkey (hequiv.symm hsame)
      rw [(List.pairwise_cons.mp hafter).1 other hother] at hboth
      cases hboth

variable {rows : List ((κ × ν) × Bool)} {position : Nat} {entry : κ × ν}

theorem contains_of_row (hrow : rows[position]? = some (entry, true))
    (hkey : same entry.1 key = true) : contains same (present rows) key = true :=
  List.any_eq_true.mpr ⟨entry, mem_present.mpr ⟨position, hrow⟩, hkey⟩

theorem Distinct.same_row (hequiv : Equivalence fun first second => same first second = true)
    (hdistinct : Distinct same (present rows)) {other : Nat} {entry' : κ × ν}
    (hrow : rows[position]? = some (entry, true)) (hother : rows[other]? = some (entry', true))
    (hsame : same entry.1 entry'.1 = true) : position = other := by
  suffices hall : ∀ {first second : Nat} {left right : κ × ν},
      rows[first]? = some (left, true) → rows[second]? = some (right, true) →
      same left.1 right.1 = true → ¬ first < second by
    have h₁ := hall hrow hother hsame
    have h₂ := hall hother hrow (hequiv.symm hsame)
    omega
  intro first second left right hfirst hsecond hsame hlt
  obtain ⟨before, after, rfl, rfl⟩ := split_at hsecond
  rw [present_append, present_live] at hdistinct
  obtain ⟨-, -, hbefore⟩ := List.pairwise_append.mp hdistinct
  rw [List.getElem?_append_left hlt] at hfirst
  have hne := hbefore left (mem_present.mpr ⟨first, hfirst⟩) right List.mem_cons_self
  rw [hsame] at hne
  cases hne

variable (hequiv : Equivalence fun first second => same first second = true)
  (hdistinct : Distinct same (present rows)) (hrow : rows[position]? = some (entry, true))
  (hkey : same entry.1 key = true)

include hequiv hdistinct hrow hkey

theorem lookup_of_row : lookup same (present rows) key = some entry.2 := by
  obtain ⟨before, after, rfl, rfl⟩ := split_at hrow
  rw [present_append, present_live] at hdistinct ⊢
  obtain ⟨hbefore, -⟩ := hdistinct.around hequiv hkey
  unfold lookup
  rw [List.find?_append,
    List.find?_eq_none.mpr fun other hother => by simp [hbefore other hother]]
  simp [hkey]

theorem present_set_value (value : ν) :
    present (rows.set position ((entry.1, value), true)) = put same (present rows) key value := by
  have hcontains := contains_of_row hrow hkey
  obtain ⟨before, after, rfl, rfl⟩ := split_at hrow
  rw [present_append, present_live] at hdistinct
  obtain ⟨hbefore, hafter⟩ := hdistinct.around hequiv hkey
  unfold put
  rw [if_pos hcontains, List.set_append_right _ _ (Nat.le_refl _), Nat.sub_self, List.set_cons_zero,
    present_append, present_live, present_append, present_live, List.map_append, List.map_cons,
    map_replace_of_lacks hbefore, map_replace_of_lacks hafter, if_pos hkey]

theorem present_set_dead :
    present (rows.set position (entry, false)) = delete same (present rows) key := by
  obtain ⟨before, after, rfl, rfl⟩ := split_at hrow
  rw [present_append, present_live] at hdistinct
  obtain ⟨hbefore, hafter⟩ := hdistinct.around hequiv hkey
  have hbefore := delete_of_lacks hbefore
  have hafter := delete_of_lacks hafter
  unfold delete at *
  rw [List.set_append_right _ _ (Nat.le_refl _), Nat.sub_self, List.set_cons_zero,
    present_append, present_dead, present_append, present_live, List.filter_append, hbefore,
    List.filter_cons_of_neg (by simp [hkey]), hafter]

end

/-! ## Distinct keys stay distinct -/

section

variable {same : κ → κ → Bool} {entries : List (κ × ν)} {key : κ}

theorem Distinct.snoc (h : Distinct same entries) (hlacks : Lacks same entries key) (value : ν) :
    Distinct same (entries ++ [(key, value)]) := by
  refine List.pairwise_append.mpr ⟨h, List.pairwise_singleton _ _, ?_⟩
  intro entry hentry new hnew
  obtain rfl : new = (key, value) := by simpa using hnew
  exact hlacks entry hentry

theorem Distinct.put (h : Distinct same entries) (value : ν) :
    Distinct same (put same entries key value) := by
  unfold Entries.put
  split
  · refine List.pairwise_map.mpr (h.imp fun {first second} hne => ?_)
    have hfst : ∀ entry : κ × ν,
        (if same entry.1 key then (entry.1, value) else entry).1 = entry.1 := by
      intro entry
      split <;> rfl
    rw [hfst, hfst]
    exact hne
  · rename_i hcontains
    refine h.snoc (fun entry hentry => ?_) value
    cases hsame : same entry.1 key with
    | false => rfl
    | true => exact absurd (List.any_eq_true.mpr ⟨entry, hentry, hsame⟩) hcontains

end

/-! ## Keys told apart by equality -/

section

variable [DecidableEq κ] {entries : List (κ × ν)} {key other : κ}

theorem lookup_put_self (entries : List (κ × ν)) (key : κ) (value : ν) :
    lookup (· == ·) (put (· == ·) entries key value) key = some value := by
  unfold put
  split
  · rename_i hcontains
    induction entries with
    | nil => cases hcontains
    | cons entry rest ih =>
      by_cases hentry : entry.1 = key
      · simp [lookup, hentry]
      · have hrest : contains (· == ·) rest key = true := by
          simpa [contains, hentry] using hcontains
        simpa [lookup, hentry] using ih hrest
  · rename_i hcontains
    have hnone : entries.find? (fun entry => entry.1 == key) = none := by
      rw [List.find?_eq_none]
      intro entry hentry hsame
      exact hcontains (List.any_eq_true.mpr ⟨entry, hentry, hsame⟩)
    simp [lookup, List.find?_append, hnone]

theorem lookup_put_of_ne (entries : List (κ × ν)) (value : ν) (hne : other ≠ key) :
    lookup (· == ·) (put (· == ·) entries key value) other = lookup (· == ·) entries other := by
  unfold put
  split
  · clear * - hne
    induction entries with
    | nil => rfl
    | cons entry rest ih =>
      by_cases hentry : entry.1 = key
      · have hother : (key == other) = false := by simpa using hne.symm
        simpa [lookup, hentry, hother] using ih
      · by_cases hother : entry.1 = other
        · simp [lookup, hother, hne]
        · simpa [lookup, hentry, hother] using ih
  · have hother : (key == other) = false := by simpa using hne.symm
    simp [lookup, List.find?_append, hother]

theorem Distinct.mem_iff (h : Distinct (· == ·) entries) {value : ν} :
    (key, value) ∈ entries ↔ lookup (· == ·) entries key = some value := by
  induction entries with
  | nil => simp [lookup]
  | cons entry rest ih =>
    obtain ⟨hfirst, hrest⟩ := List.pairwise_cons.mp h
    by_cases hentry : entry.1 = key
    · have hnot : (key, value) ∉ rest := by
        intro hmem
        simpa [hentry] using hfirst _ hmem
      obtain ⟨first, held⟩ := entry
      obtain rfl : first = key := hentry
      simp [lookup, hnot, eq_comm]
    · have hne : (key, value) ≠ entry := by
        rintro rfl
        exact hentry rfl
      have hlookup : lookup (· == ·) (entry :: rest) key = lookup (· == ·) rest key := by
        simp [lookup, hentry]
      rw [hlookup, ← ih hrest, List.mem_cons]
      exact ⟨fun hmem => hmem.resolve_left hne, .inr⟩

end

end Entries
