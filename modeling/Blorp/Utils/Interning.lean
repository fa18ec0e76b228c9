import Blorp.Utils.Names
import Mathlib.Data.List.Forall2

/-!
# Interning

A table of the program is the seed table extended by batches of spellings.  Its IDs are the
positions of its distinct spellings, so that interning and `nameSpelling` are inverse, and an
extension keeps every ID.
-/

namespace Blorp

open Library (Text)

/-- Every ID is the position of its spelling, and no spelling has two. -/
structure NameTable.Dense (names : NameTable) : Prop where
  ids : names.bySpelling = names.keys.zipIdx
  distinct : names.keys.Nodup

def extended (names : NameTable) (batches : List (List Text)) : NameTable :=
  batches.foldl (fun names spellings => (internNames names spellings).1) names

namespace NameTable

variable {names : NameTable}

theorem Dense.entries_distinct (h : names.Dense) :
    Entries.Distinct (fun first second : Text => first == second) names.bySpelling := by
  have hkeys := List.pairwise_map.mp h.distinct
  refine hkeys.imp fun {first second} hne => ?_
  rw [beq_eq_false_iff_ne]
  exact hne

theorem sameText_eq : (fun first second : Text => first == second) =
    fun first second => @BEq.beq Text instBEqOfDecidableEq first second := by
  funext first second
  by_cases h : first = second
  · subst h
    rw [beq_self_eq_true]
    exact (decide_eq_true rfl).symm
  · rw [beq_false_of_ne h]
    exact (decide_eq_false h).symm

variable {spelling : Text}

/-- Looking a spelling up inverts `nameSpelling`. -/
theorem Dense.get_eq_some_iff (h : names.Dense) {id : Nat} :
    names.get spelling = some id ↔ nameSpelling names id = some spelling := by
  have hmem : (spelling, id) ∈ names.bySpelling ↔ names.get spelling = some id := by
    have hdistinct := h.entries_distinct
    unfold get
    rw [sameText_eq] at hdistinct ⊢
    exact hdistinct.mem_iff
  rw [← hmem, h.ids, List.mem_zipIdx_iff_getElem?]
  rfl

theorem Dense.spelling_inj (h : names.Dense) {first second : Nat}
    (hfirst : nameSpelling names first = some spelling)
    (hsecond : nameSpelling names second = some spelling) : first = second := by
  rw [← h.get_eq_some_iff] at hfirst hsecond
  rw [hfirst] at hsecond
  exact Option.some_inj.mp hsecond

theorem get_eq_none (h : names.get spelling = none) : spelling ∉ names.keys := by
  intro hmem
  obtain ⟨entry, hentry, rfl⟩ := List.mem_map.mp hmem
  unfold get Entries.lookup at h
  rw [Option.map_eq_none_iff, List.find?_eq_none] at h
  exact h entry hentry (beq_self_eq_true entry.1)

theorem set_new (h : spelling ∉ names.keys) (id : Nat) :
    names.set spelling id = ⟨names.bySpelling ++ [(spelling, id)]⟩ := by
  have hlacks : Entries.Lacks (fun first second : Text => first == second) names.bySpelling
      spelling := by
    intro entry hentry
    rw [beq_eq_false_iff_ne]
    rintro rfl
    exact h (List.mem_map_of_mem hentry)
  unfold set Entries.put
  rw [Entries.contains_of_lacks hlacks]
  rfl

theorem Dense.set_new (h : names.Dense) (hnew : spelling ∉ names.keys) :
    (names.set spelling names.bySpelling.length).Dense ∧
      (names.set spelling names.bySpelling.length).keys = names.keys ++ [spelling] := by
  have hlength : names.bySpelling.length = names.keys.length := by rw [keys, List.length_map]
  have hkeys : (names.set spelling names.bySpelling.length).keys = names.keys ++ [spelling] := by
    rw [NameTable.set_new hnew, keys, List.map_append]
    rfl
  refine ⟨⟨?_, ?_⟩, hkeys⟩
  · rw [hkeys, NameTable.set_new hnew, List.zipIdx_append, ← h.ids, hlength]
    simp
  · rw [hkeys]
    exact List.nodup_append.mpr ⟨h.distinct, by simp, by
      intro key hkey other hother heq
      rw [List.mem_singleton.mp hother] at heq
      exact hnew (heq ▸ hkey)⟩

end NameTable

/-! ## Extensions -/

/-- An extended table and the IDs of a batch. -/
structure Extends (names : NameTable) (spellings : List Text) (next : NameTable) (ids : List Nat) :
    Prop where
  dense : next.Dense
  kept : names.keys <+: next.keys
  issued : List.Forall₂ (fun spelling id => nameSpelling next id = some spelling) spellings ids

variable {names : NameTable}

theorem nameSpelling_kept {next : NameTable} (h : names.keys <+: next.keys) {id : Nat}
    {spelling : Text} (hid : nameSpelling names id = some spelling) :
    nameSpelling next id = some spelling := by
  obtain ⟨more, hmore⟩ := h
  have hlt := (List.getElem?_eq_some_iff.mp hid).1
  unfold nameSpelling at hid ⊢
  rw [← hmore, List.getElem?_append_left hlt, hid]

theorem internName_spec (h : names.Dense) (ids : List Nat) (spelling : Text) :
    ∃ next id, internName (names, ids) spelling = (next, ids ++ [id]) ∧ next.Dense ∧
      names.keys <+: next.keys ∧ nameSpelling next id = some spelling := by
  cases hget : names.get spelling with
  | some id =>
    refine ⟨names, id, ?_, h, List.prefix_refl _, h.get_eq_some_iff.mp hget⟩
    simp [internName, hget]
  | none =>
    obtain ⟨hdense, hkeys⟩ := h.set_new (NameTable.get_eq_none hget)
    refine ⟨names.set spelling names.bySpelling.length, names.bySpelling.length, ?_, hdense, ?_, ?_⟩
    · simp [internName, hget]
    · rw [hkeys]
      exact List.prefix_append _ _
    · have hlength : names.bySpelling.length = names.keys.length := by
        rw [NameTable.keys, List.length_map]
      rw [nameSpelling, hkeys, hlength, List.getElem?_concat_length]

theorem foldl_internName (spellings : List Text) :
    ∀ {last : NameTable} (ids : List Nat), last.Dense → names.keys <+: last.keys →
      ∃ next more, spellings.foldl internName (last, ids) = (next, ids ++ more) ∧
        Extends names spellings next more ∧ last.keys <+: next.keys := by
  induction spellings with intro last ids hlast hkept
  | nil => exact ⟨last, [], by simp, ⟨hlast, hkept, .nil⟩, List.prefix_refl _⟩
  | cons spelling spellings ih =>
    obtain ⟨middle, id, hstep, hmiddle, hgrown, hid⟩ := internName_spec hlast ids spelling
    obtain ⟨next, more, hrest, hextends, hmore⟩ := ih (ids ++ [id]) hmiddle (hkept.trans hgrown)
    refine ⟨next, id :: more, ?_, ⟨hextends.dense, hextends.kept, ?_⟩, hgrown.trans hmore⟩
    · rw [List.foldl_cons, hstep, hrest]
      simp
    · exact .cons (nameSpelling_kept hmore hid) hextends.issued

theorem internNames_spec (h : names.Dense) (spellings : List Text) :
    Extends names spellings (internNames names spellings).1 (internNames names spellings).2 := by
  obtain ⟨next, ids, hrun, hextends, -⟩ := foldl_internName spellings [] h (List.prefix_refl _)
  unfold internNames
  rw [hrun]
  exact hextends

/-- Any sequence of extensions. -/
theorem extended_spec (batches : List (List Text)) : ∀ {names : NameTable}, names.Dense →
      (extended names batches).Dense ∧ names.keys <+: (extended names batches).keys := by
  induction batches with
  | nil => exact fun h => ⟨h, List.prefix_refl _⟩
  | cons spellings batches ih =>
    intro names h
    have hstep := internNames_spec h spellings
    obtain ⟨hdense, hkept⟩ := ih hstep.dense
    exact ⟨hdense, hstep.kept.trans hkept⟩

theorem programNames_dense : programNames.1.Dense := by
  constructor
  · decide +kernel
  · decide +kernel

/-- **Bijection.**  In a table of the program, the IDs are dense, `nameSpelling` and the lookup
are inverse, and a batch gives each of its spellings the ID that spells it, the old one where
there is one.  A later table keeps the IDs, and another table of the program has the same
mapping exactly when `sameNameTable` says so. -/
theorem names_bijective (batches others : List (List Text)) :
    let names := extended programNames.1 batches
    let other := extended programNames.1 others
    names.bySpelling.map (·.2) = List.range names.bySpelling.length ∧
    (∀ spelling id, names.get spelling = some id ↔ nameSpelling names id = some spelling) ∧
    (∀ first second spelling, nameSpelling names first = some spelling →
      nameSpelling names second = some spelling → first = second) ∧
    (∀ spellings, List.Forall₂ (fun spelling id =>
        nameSpelling (internNames names spellings).1 id = some spelling ∧
        ∀ old, names.get spelling = some old → id = old)
      spellings (internNames names spellings).2) ∧
    (∀ more id spelling, nameSpelling names id = some spelling →
      nameSpelling (extended names more) id = some spelling) ∧
    (sameNameTable names other = true ↔ ∀ id, nameSpelling names id = nameSpelling other id) := by
  intro names other
  obtain ⟨hdense, -⟩ := extended_spec batches programNames_dense
  have hdense : names.Dense := hdense
  refine ⟨?_, fun _ _ => hdense.get_eq_some_iff, fun _ _ _ => hdense.spelling_inj, ?_, ?_, ?_⟩
  · rw [hdense.ids, List.length_zipIdx, List.range_eq_range']
    exact List.zipIdx_map_snd 0 names.keys
  · intro spellings
    have hbatch := internNames_spec hdense spellings
    refine hbatch.issued.imp fun {spelling id} hid => ⟨hid, fun old hold => ?_⟩
    have hkept := nameSpelling_kept hbatch.kept (hdense.get_eq_some_iff.mp hold)
    exact hbatch.dense.spelling_inj hid hkept
  · intro more id spelling hid
    exact nameSpelling_kept (extended_spec more hdense).2 hid
  · have hsame : sameNameTable names other = true ↔ names.keys = other.keys := beq_iff_eq
    rw [hsame]
    exact List.ext_getElem?_iff

/-- A program that reads x, then y and main. -/
theorem names_bijective_two :
    nameSpelling (extended programNames.1 [["x".toList], ["y".toList, "main".toList]]) 0
      = some "main".toList := by
  obtain ⟨-, -, -, -, hkept, -⟩ := names_bijective [] []
  exact hkept [["x".toList], ["y".toList, "main".toList]] 0 "main".toList (by decide +kernel)

end Blorp
