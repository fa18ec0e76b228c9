import Blorp.Verify.PlaceValues

/-!
# Facts over-approximate

Refining a place by a test keeps every value that goes the same way, and merging two
paths keeps the values of both: bounds are only moved over excluded lengths, and a
variant that is possible on one path stays so.
-/

namespace Blorp.Verify

open Check (Span ListLengthTest)
open Specialize
open Own

/-! ## Bounds -/

section Bounds

variable {excluded : List Nat} {length : Nat}

theorem skipExcluded_admits (hlength : length ∉ excluded) (hmost : length ≤ intMaximum) :
    ∀ (rounds minimum : Nat), minimum ≤ length →
      ∃ least, skipExcluded excluded rounds minimum = some least ∧ least ≤ length := by
  intro rounds
  induction rounds with
  | zero => exact fun minimum hminimum => ⟨minimum, rfl, hminimum⟩
  | succ rounds ih =>
    intro minimum hminimum
    unfold skipExcluded
    by_cases hexcluded : minimum ∈ excluded
    · have hne : minimum ≠ length := fun heq => hlength (heq ▸ hexcluded)
      have hroom : ¬ minimum = intMaximum := by omega
      rw [if_pos (by simpa using hexcluded), if_neg hroom]
      exact ih (minimum + 1) (by omega)
    · rw [if_neg (by simpa using hexcluded)]
      exact ⟨minimum, rfl, hminimum⟩

theorem lastIncluded_admits (hlength : length ∉ excluded) : ∀ limit : Nat, length ≤ limit →
      ∃ last, lastIncluded excluded limit = some last ∧ length ≤ last := by
  intro limit
  induction limit with
  | zero =>
    intro hlimit
    obtain rfl : length = 0 := by omega
    exact ⟨0, lastIncluded_of_notMem hlength, hlimit⟩
  | succ last ih =>
    intro hlimit
    unfold lastIncluded
    by_cases hexcluded : last + 1 ∈ excluded
    · have hne : length ≠ last + 1 := fun heq => hlength (heq ▸ hexcluded)
      rw [if_pos (by simpa using hexcluded)]
      exact ih (by omega)
    · rw [if_neg (by simpa using hexcluded)]
      exact ⟨last + 1, rfl, hlimit⟩

theorem normalizeBounds_admits {bounds : LengthBounds} (h : bounds.Admits length)
    (hmost : length ≤ intMaximum) :
    ∃ normalized, normalizeBounds bounds = some normalized ∧ normalized.Admits length := by
  obtain ⟨least, hskip, hleast⟩ :=
    skipExcluded_admits h.included hmost bounds.excluded.length bounds.minimum h.least
  unfold normalizeBounds
  rw [hskip, Option.bind_eq_bind, Option.bind_some]
  cases hmaximum : bounds.maximum with
  | none =>
    refine ⟨_, rfl, hleast, fun limit hlimit => ?_, h.included⟩
    cases hlimit
  | some limit =>
    obtain ⟨last, hlast, hwithin⟩ := lastIncluded_admits h.included limit (h.most limit hmaximum)
    have hroom : ¬ last < least := by omega
    simp only [hlast, Option.bind_some, if_neg hroom]
    refine ⟨_, rfl, hleast, fun other hother => ?_, h.included⟩
    exact Option.some.inj hother ▸ hwithin

theorem mergeBounds_admits {left right : LengthBounds}
    (h : left.Admits length ∨ right.Admits length) : (mergeBounds left right).Admits length := by
  refine ⟨?_, ?_, ?_⟩
  · show (if left.minimum < right.minimum then left.minimum else right.minimum) ≤ length
    rcases h with h | h
    all_goals
      have hleast := h.least
      split <;> omega
  · intro limit hlimit
    unfold mergeBounds at hlimit
    simp only at hlimit
    split at hlimit
    · next first second hfirst hsecond =>
      rcases h with h | h
      · have hmost := h.most first hfirst
        split at hlimit <;> cases hlimit <;> omega
      · have hmost := h.most second hsecond
        split at hlimit <;> cases hlimit <;> omega
    · cases hlimit
  · intro hmem
    obtain ⟨hleft, hright⟩ := List.mem_filter.mp hmem
    rcases h with h | h
    · exact h.included hleft
    · exact h.included (by simpa using hright)

end Bounds

/-! ## Possible variants -/

theorem mergePossible_spec {existing incoming : List Bool}
    (hlength : existing.length = incoming.length) :
    (mergePossible existing incoming).length = existing.length ∧ ∀ position : Nat,
      existing[position]? = some true ∨ incoming[position]? = some true →
        (mergePossible existing incoming)[position]? = some true := by
  have hfold : ∀ (mark : List Bool → Bool × Nat → List Bool),
      (∀ merged row, mark merged row = if row.1 then merged.set row.2 true else merged) →
      ∀ (bits : List Bool) (first : Nat) (merged : List Bool),
      let result := (bits.zipIdx first).foldl mark merged
      result.length = merged.length ∧ ∀ position : Nat, position < merged.length →
        (merged[position]? = some true ∨
          ∃ offset, position = first + offset ∧ bits[offset]? = some true) →
        result[position]? = some true := by
    intro mark hmark bits
    induction bits with intro first merged
    | nil =>
      refine ⟨rfl, fun position _ hbit => ?_⟩
      rcases hbit with hbit | ⟨offset, -, hbit⟩
      · exact hbit
      · simp at hbit
    | cons bit bits ih =>
      rw [List.zipIdx_cons, List.foldl_cons, hmark]
      obtain ⟨hsame, hbits⟩ := ih (first + 1) (if bit then merged.set first true else merged)
      have hcount : (if bit then merged.set first true else merged).length = merged.length := by
        split
        · exact List.length_set
        · rfl
      refine ⟨hsame.trans hcount, fun position hposition hbit => ?_⟩
      refine hbits position (hcount ▸ hposition) ?_
      rcases hbit with hbit | ⟨offset, hoffset, hbit⟩
      · left
        split
        · by_cases heq : first = position
          · subst heq
            exact List.getElem?_set_self hposition
          · rw [List.getElem?_set_ne heq, hbit]
        · exact hbit
      · cases offset with
        | zero =>
          obtain rfl : bit = true := by simpa using hbit
          left
          rw [if_pos rfl, hoffset, Nat.add_zero, List.getElem?_set_self (by omega)]
        | succ offset => exact .inr ⟨offset, by omega, by simpa using hbit⟩
  unfold mergePossible
  split
  · next hempty =>
    obtain rfl := List.isEmpty_iff.mp hempty
    refine ⟨hlength.symm, fun position hbit => ?_⟩
    rcases hbit with hbit | hbit
    · simp at hbit
    · exact hbit
  · obtain ⟨hsame, hbits⟩ := hfold _ (fun _ _ => rfl) incoming 0 existing
    refine ⟨hsame, fun position hbit => ?_⟩
    rcases hbit with hbit | hbit
    · exact hbits position (List.getElem?_eq_some_iff.mp hbit).1 (.inl hbit)
    · refine hbits position ?_ (.inr ⟨position, by omega, hbit⟩)
      rw [hlength]
      exact (List.getElem?_eq_some_iff.mp hbit).1

/-! ## Merging two paths -/

section Merge

variable {unions : List ConcreteUnion} {left right : List PlaceFact}

theorem mem_mergeGuards {fact : PlaceFact} (h : fact ∈ mergeGuards left right) :
    ∃ first second, ⟨fact.place, first⟩ ∈ left ∧ ⟨fact.place, second⟩ ∈ right ∧
      ((∃ possible other, first = .variantPossibilities possible ∧
          second = .variantPossibilities other ∧
          fact.constraint = .variantPossibilities (mergePossible possible other)) ∨
        ∃ bounds other, first = .listLengths bounds ∧ second = .listLengths other ∧
          fact.constraint = .listLengths (mergeBounds bounds other)) := by
  obtain ⟨⟨place, constraint⟩, hmem, hmerged⟩ := List.mem_filterMap.mp h
  unfold mergeGuard at hmerged
  split at hmerged
  · next other possible hother hpossible =>
    cases hmerged
    exact ⟨_, _, hpossible ▸ hmem, placeConstraint_mem hother,
      .inl ⟨possible, other, rfl, rfl, rfl⟩⟩
  · next other bounds hother hbounds =>
    cases hmerged
    exact ⟨_, _, hbounds ▸ hmem, placeConstraint_mem hother, .inr ⟨bounds, other, rfl, rfl, rfl⟩⟩
  · cases hmerged

theorem Sized.same_length (hleft : Sized unions left) (hright : Sized unions right)
    {place : ConcretePatternPlace} {possible other : List Bool}
    (hmem : ⟨place, .variantPossibilities possible⟩ ∈ left)
    (hmem' : ⟨place, .variantPossibilities other⟩ ∈ right) : possible.length = other.length := by
  obtain ⟨owner, layout, htype, hlayout, hlength⟩ := hleft _ hmem possible rfl
  obtain ⟨owner', layout', htype', hlayout', hlength'⟩ := hright _ hmem' other rfl
  have howner : owner = owner' := TypeRef.unionType.inj (htype.symm.trans htype')
  subst howner
  have hsame : layout = layout' := Option.some.inj (hlayout.symm.trans hlayout')
  rw [hlength, hlength', hsame]

theorem Sized.merge (hleft : Sized unions left) (hright : Sized unions right) :
    Sized unions (mergeGuards left right) := by
  intro fact hfact possible hpossible
  obtain ⟨first, second, hfirst, hsecond, hmerged⟩ := mem_mergeGuards hfact
  rcases hmerged with ⟨bits, other, rfl, rfl, hconstraint⟩ | ⟨bounds, other, -, -, hconstraint⟩
  · obtain ⟨owner, layout, htype, hlayout, hlength⟩ := hleft _ hfirst bits rfl
    refine ⟨owner, layout, htype, hlayout, ?_⟩
    have hsame := hleft.same_length hright hfirst hsecond
    have heq : possible = mergePossible bits other := by
      simpa using hpossible.symm.trans hconstraint
    rw [heq, (mergePossible_spec hsame).1, hlength]
  · cases hpossible.symm.trans hconstraint

theorem FactsHold.merge {root : ConcreteValue} (hleft : Sized unions left)
    (hright : Sized unions right) (h : FactsHold root left ∨ FactsHold root right) :
    FactsHold root (mergeGuards left right) := by
  intro fact hfact
  obtain ⟨first, second, hfirst, hsecond, hmerged⟩ := mem_mergeGuards hfact
  have hvalue : ∃ value, readPlace root fact.place = some value ∧
      (first.Admits value ∨ second.Admits value) := by
    rcases h with h | h
    · obtain ⟨value, hread, hadmits⟩ := h _ hfirst
      exact ⟨value, hread, .inl hadmits⟩
    · obtain ⟨value, hread, hadmits⟩ := h _ hsecond
      exact ⟨value, hread, .inr hadmits⟩
  obtain ⟨value, hread, hadmits⟩ := hvalue
  refine ⟨value, hread, ?_⟩
  rcases hmerged with ⟨possible, other, rfl, rfl, hconstraint⟩ | ⟨bounds, other, rfl, rfl, hconstraint⟩
  · rw [hconstraint]
    cases value with
    | union position fields =>
      exact (mergePossible_spec (hleft.same_length hright hfirst hsecond)).2 position hadmits
    | _ => rcases hadmits with hadmits | hadmits <;> cases hadmits
  · rw [hconstraint]
    cases value with
    | list elements => exact mergeBounds_admits hadmits
    | _ => rcases hadmits with hadmits | hadmits <;> cases hadmits

end Merge

/-! ## Reads that a check allows -/

section Reads

variable {unions : List ConcreteUnion} {records : List ConcreteRecord} {facts : List PlaceFact}
variable {root : ConcreteValue} {span : Span}

/-- A value at a union place is one of the variants the facts leave possible. -/
structure PossibleUnion (unions : List ConcreteUnion) (records : List ConcreteRecord)
    (owner : UnionInstanceId) (possible : List Bool) (position : Nat)
    (fields : List ConcreteValue) : Prop where
  typed : ∃ layout types, unions[owner]? = some layout ∧
    layout.unionVariants[position]? = some types ∧
    List.Forall₂ (HasType unions records) fields types
  possible : possible[position]? = some true

variable {place : ConcretePatternPlace} {possible : List Bool} {owner : UnionInstanceId}
variable {value : ConcreteValue} {valueType element : TypeRef}

theorem variantPossibilities_length (hsized : Sized unions facts)
    (htype : place.valueType = .unionType owner)
    (h : variantPossibilities place facts unions span = .ok possible) :
    ∃ layout, unions[owner]? = some layout ∧ possible.length = layout.unionVariants.length := by
  unfold variantPossibilities at h
  split at h
  · next bits hconstraint =>
    cases h
    obtain ⟨other, found, hother, hfound, hlength⟩ :=
      hsized _ (placeConstraint_mem hconstraint) possible rfl
    have howner : other = owner := TypeRef.unionType.inj (hother.symm.trans htype)
    exact ⟨found, howner ▸ hfound, hlength⟩
  · rw [htype] at h
    simp only at h
    split at h
    · cases h
    · next layout hlayout =>
      cases h
      exact ⟨layout, hlayout, List.length_map _⟩

theorem variantPossibilities_admits (hhold : FactsHold root facts)
    (htype : place.valueType = .unionType owner) (hread : readPlace root place = some value)
    (htyped : HasType unions records value place.valueType)
    (h : variantPossibilities place facts unions span = .ok possible) :
    ∃ position fields, value = .union position fields ∧
      PossibleUnion unions records owner possible position fields := by
  rw [htype] at htyped
  cases htyped with
  | union hdeclared hvariant hfields =>
    rename_i layout position types fields
    refine ⟨position, fields, rfl, ?_⟩
    unfold variantPossibilities at h
    split at h
    · next bits hconstraint =>
      cases h
      exact ⟨⟨layout, types, hdeclared, hvariant, hfields⟩, hhold.constraint hread hconstraint⟩
    · rw [htype] at h
      simp only [hdeclared] at h
      cases h
      refine ⟨⟨layout, types, hdeclared, hvariant, hfields⟩, ?_⟩
      rw [List.getElem?_map, hvariant, Option.map_some]

theorem lengthBounds_admits (hhold : FactsHold root facts) {elements : List ConcreteValue}
    (hread : readPlace root place = some (.list elements)) :
    (lengthBounds place facts).Admits elements.length := by
  unfold lengthBounds
  split
  · next bounds hconstraint => exact hhold.constraint hread hconstraint
  · refine ⟨Nat.zero_le _, fun limit hlimit => ?_, List.not_mem_nil⟩
    cases hlimit

theorem variantField_reads {position : Nat} {fields : List ConcreteValue}
    {field : VariantFieldInstanceId} {types : List TypeRef}
    (hunion : PossibleUnion unions records owner possible position fields)
    (howner : owner = field.variant.owner)
    (hsingle : singletonVariant possible field.variant.position = true)
    (hshape : variantShape field.variant unions span = .ok types)
    (hfield : types[field.position]? = some valueType) :
    ∃ value, (ConcreteValue.union position fields).variantField field = some value ∧
      HasType unions records value valueType := by
  subst howner
  have hposition : position = field.variant.position :=
    (singletonVariant_iff.mp hsingle).2 position hunion.possible
  subst hposition
  obtain ⟨layout, declared, hdeclared, hvariant, hfields⟩ := hunion.typed
  obtain ⟨found, hfound, hshape⟩ := Except.peel hshape
  rw [orVerificationError_eq_ok] at hfound hshape
  obtain rfl : found = layout := Option.some.inj (hfound.symm.trans hdeclared)
  obtain rfl : types = declared := Option.some.inj (hshape.symm.trans hvariant)
  obtain ⟨hlength, hall⟩ := List.forall₂_iff_get.mp hfields
  obtain ⟨hbound, hget⟩ := List.getElem?_eq_some_iff.mp hfield
  have hin : field.position < fields.length := hlength ▸ hbound
  refine ⟨fields[field.position], ?_, ?_⟩
  · simp [ConcreteValue.variantField]
  · exact hget ▸ hall field.position hin hbound

theorem recordField_reads {owner : RecordInstanceId} {layout : ConcreteRecord}
    {field : FieldInstanceId} (htyped : HasType unions records value (.recordType owner))
    (hlayout : recordLayout owner records span = .ok layout)
    (hfield : recordFieldType field owner layout span = .ok valueType) :
    ∃ read, value.recordField field = some read ∧ HasType unions records read valueType := by
  obtain ⟨found, hfound, hlayout⟩ := Except.peel hlayout
  rw [orVerificationError_eq_ok] at hfound
  have hsame : found = layout := by
    unfold validRecordLayout at hlayout
    split at hlayout
    · exact Except.ok.inj hlayout
    · cases hlayout
  unfold recordFieldType at hfield
  split at hfield
  · cases hfield
  · rw [orVerificationError_eq_ok] at hfield
    cases htyped with
    | record hdeclared hfields =>
      rename_i declared fields
      obtain rfl : found = declared := Option.some.inj (hfound.symm.trans hdeclared)
      subst hsame
      obtain ⟨hlength, hall⟩ := List.forall₂_iff_get.mp hfields
      obtain ⟨hbound, hget⟩ := List.getElem?_eq_some_iff.mp hfield
      have hin : field.position < fields.length := hlength ▸ hbound
      have hread := hall field.position hin hbound
      simp only [List.get_eq_getElem, hget] at hread
      exact ⟨fields[field.position], List.getElem?_eq_getElem hin, hread⟩

theorem recordOwner_eq_ok {message : String} {owner : RecordInstanceId} :
    recordOwner valueType span message = .ok owner ↔ valueType = .recordType owner := by
  unfold recordOwner
  split
  · simp
  · next hnot =>
    constructor
    · intro h
      cases h
    · intro h
      exact absurd h (hnot owner)

theorem listElementType_eq_ok :
    listElementType valueType span = .ok element ↔ valueType = .listType element := by
  unfold listElementType
  split
  · simp
  · next hnot =>
    constructor
    · intro h
      cases h
    · intro h
      exact absurd h (hnot element)

theorem element_reads (hhold : FactsHold root facts) {index : Nat}
    (hread : readPlace root place = some value)
    (htyped : HasType unions records value (.listType element))
    (hbound : verifyElementBound place index facts span = .ok ()) :
    ∃ read, value.element index = some read ∧ HasType unions records read element := by
  cases htyped with
  | list hshort helements =>
    rename_i elements
    have hguard : index < (lengthBounds place facts).minimum := by
      simpa using require_eq_ok.mp hbound
    have hleast := (lengthBounds_admits hhold hread).least
    have hin : index < elements.length := by omega
    exact ⟨elements[index], List.getElem?_eq_getElem hin, helements _ (List.getElem_mem hin)⟩

theorem suffix_reads (hhold : FactsHold root facts) {skip : Nat}
    (hread : readPlace root place = some value)
    (htyped : HasType unions records value (.listType element))
    (hguard : skip ≤ (lengthBounds place facts).minimum) :
    ∃ read, value.suffix skip = some read ∧ HasType unions records read (.listType element) := by
  cases htyped with
  | list hshort helements =>
    rename_i elements
    have hleast := (lengthBounds_admits hhold hread).least
    refine ⟨.list (elements.drop skip), if_pos (by omega), .list ?_ ?_⟩
    · rw [List.length_drop]
      omega
    · exact fun value hvalue => helements value (List.mem_of_mem_drop hvalue)

mutual

/-- **An established place exists**, and has a value of its type. -/
theorem verifyPatternPlace_reads {rootType : TypeRef} (hhold : FactsHold root facts)
    (hroot : HasType unions records root rootType) : ∀ place : ConcretePatternPlace,
    verifyPatternPlace rootType facts unions span records place = .ok () →
    ∃ value, readPlace root place = some value ∧ HasType unions records value place.valueType
  | ⟨valueType, route⟩, h => verifyPatternRoute_reads hhold hroot valueType route h

theorem verifyPatternRoute_reads {rootType : TypeRef} (hhold : FactsHold root facts)
    (hroot : HasType unions records root rootType) (valueType : TypeRef) :
    ∀ route : ConcretePatternRoute,
    verifyPatternRoute rootType facts unions span records valueType route = .ok () →
    ∃ value, readRoute root route = some value ∧ HasType unions records value valueType
  | .matchRoot, h => by
      have htype : valueType = rootType := by simpa using require_eq_ok.mp h
      exact ⟨root, rfl, htype ▸ hroot⟩
  | .unionField parent field, h => by
      obtain ⟨_, hparent, h⟩ := Except.peel h
      obtain ⟨value, hread, htyped⟩ := verifyPatternPlace_reads hhold hroot parent hparent
      obtain ⟨_, howner, h⟩ := Except.peel h
      obtain ⟨types, hshape, h⟩ := Except.peel h
      obtain ⟨expected, hexpected, h⟩ := Except.peel h
      obtain ⟨_, hsame, h⟩ := Except.peel h
      obtain ⟨possible, hpossible, hsingle⟩ := Except.peel h
      rw [require_eq_ok, decide_eq_true_eq] at howner hsame
      rw [orVerificationError_eq_ok] at hexpected
      rw [require_eq_ok] at hsingle
      obtain ⟨position, fields, rfl, hunion⟩ :=
        variantPossibilities_admits hhold howner hread htyped hpossible
      obtain ⟨read, hfield, hfieldTyped⟩ :=
        variantField_reads hunion rfl hsingle hshape hexpected
      obtain rfl : expected = valueType := hsame
      refine ⟨read, ?_, hfieldTyped⟩
      rw [readRoute, hread, Option.bind_some, hfield]
  | .recordField parent field, h => by
      obtain ⟨_, hparent, h⟩ := Except.peel h
      obtain ⟨value, hread, htyped⟩ := verifyPatternPlace_reads hhold hroot parent hparent
      obtain ⟨owner, howner, h⟩ := Except.peel h
      obtain ⟨layout, hlayout, h⟩ := Except.peel h
      obtain ⟨expected, hexpected, hsame⟩ := Except.peel h
      rw [require_eq_ok, decide_eq_true_eq] at hsame
      rw [recordOwner_eq_ok.mp howner] at htyped
      obtain ⟨read, hfield, hfieldTyped⟩ := recordField_reads htyped hlayout hexpected
      obtain rfl : expected = valueType := hsame
      refine ⟨read, ?_, hfieldTyped⟩
      rw [readRoute, hread, Option.bind_some, hfield]
  | .listElement parent index, h => by
      obtain ⟨_, hparent, h⟩ := Except.peel h
      obtain ⟨value, hread, htyped⟩ := verifyPatternPlace_reads hhold hroot parent hparent
      obtain ⟨element, helement, h⟩ := Except.peel h
      obtain ⟨_, hsame, hbound⟩ := Except.peel h
      rw [require_eq_ok, decide_eq_true_eq] at hsame
      rw [listElementType_eq_ok.mp helement] at htyped
      obtain ⟨read, hget, hgetTyped⟩ := element_reads hhold hread htyped hbound
      obtain rfl : element = valueType := hsame
      refine ⟨read, ?_, hgetTyped⟩
      rw [readRoute, hread, Option.bind_some, hget]

end

/-! ## Refining a place by a test -/

variable {place : ConcretePatternPlace} {variant : VariantInstanceId} {succeeds : Bool}

variable {branch : Option (List PlaceFact)} {refined : List PlaceFact} {test : ListLengthTest}

theorem refineVariants_cases
    (h : refineVariants place variant succeeds facts unions span = .ok branch) :
    place.valueType = .unionType variant.owner ∧ ∃ possible,
      variantPossibilities place facts unions span = .ok possible ∧
      branch = if hasPossible (narrowed possible variant.position succeeds) then
          some (putConstraint place
            (.variantPossibilities (narrowed possible variant.position succeeds)) facts)
        else none := by
  unfold refineVariants at h
  obtain ⟨_, howner, h⟩ := Except.peel h
  obtain ⟨possible, hpossible, h⟩ := Except.peel h
  obtain ⟨_, -, h⟩ := Except.peel h
  rw [require_eq_ok, decide_eq_true_eq] at howner
  refine ⟨howner, possible, hpossible, ?_⟩
  change (if hasPossible (narrowed possible variant.position succeeds) then _ else _) = _ at h
  split at h
  · next hleft =>
    cases h
    exact (if_pos hleft).symm
  · next hleft =>
    cases h
    exact (if_neg hleft).symm

theorem refineVariants_sized (hsized : Sized unions facts)
    (h : refineVariants place variant succeeds facts unions span = .ok (some refined)) :
    Sized unions refined := by
  obtain ⟨howner, possible, hpossible, hbranch⟩ := refineVariants_cases h
  split at hbranch
  · cases hbranch
    refine hsized.put fun bits hbits => ?_
    obtain ⟨layout, hlayout, hlength⟩ := variantPossibilities_length hsized howner hpossible
    have heq : bits = narrowed possible variant.position succeeds := by simpa using hbits.symm
    exact ⟨variant.owner, layout, howner, hlayout, by rw [heq, narrowed_length, hlength]⟩
  · cases hbranch

theorem refineVariants_admits (hhold : FactsHold root facts) {position : Nat}
    {fields : List ConcreteValue} (hread : readPlace root place = some (.union position fields))
    (htyped : HasType unions records (.union position fields) place.valueType)
    (hgoes : decide (position = variant.position) = succeeds)
    (h : refineVariants place variant succeeds facts unions span = .ok branch) :
    ∃ refined, branch = some refined ∧ FactsHold root refined := by
  obtain ⟨howner, possible, hpossible, rfl⟩ := refineVariants_cases h
  obtain ⟨other, fields', hsame, hunion⟩ :=
    variantPossibilities_admits hhold howner hread htyped hpossible
  cases hsame
  have hkept : (narrowed possible variant.position succeeds)[position]? = some true :=
    narrowed_true.mpr ⟨hunion.possible, hgoes⟩
  rw [if_pos (hasPossible_iff.mpr ⟨position, hkept⟩)]
  exact ⟨_, rfl, hhold.put hread hkept⟩

theorem refineLengths_sized (hsized : Sized unions facts)
    (h : refineLengths place test succeeds facts = some refined) : Sized unions refined := by
  have hput : ∃ normalized, refined = putConstraint place (.listLengths normalized) facts := by
    unfold refineLengths at h
    simp only at h
    split at h
    all_goals
      obtain ⟨bounds, -, h⟩ := Option.bind_eq_some_iff.mp h
      obtain ⟨normalized, -, h⟩ := Option.bind_eq_some_iff.mp h
      exact ⟨normalized, (Option.some.inj h).symm⟩
  obtain ⟨normalized, rfl⟩ := hput
  refine hsized.put fun bits hbits => ?_
  cases hbits

theorem refineLengths_admits (hhold : FactsHold root facts) {elements : List ConcreteValue}
    (hread : readPlace root place = some (.list elements)) (hshort : elements.length ≤ intMaximum)
    (hgoes : test.holds elements.length = succeeds) :
    ∃ refined, refineLengths place test succeeds facts = some refined ∧ FactsHold root refined := by
  have hbounds := lengthBounds_admits hhold hread
  have hleast := hbounds.least
  -- the test narrows the bounds of its place to some that still admit the length
  suffices hnarrow : ∀ refined : LengthBounds, refined.Admits elements.length →
      ∃ facts', (do
        let normalized ← normalizeBounds refined
        some (putConstraint place (.listLengths normalized) facts)) = some facts' ∧
        FactsHold root facts' by
    unfold refineLengths
    cases test with
    | exactLength length =>
      cases succeeds with
      | true =>
        have heq : elements.length = length := by simpa [ListLengthTest.holds] using hgoes
        refine hnarrow _ ⟨?_, ?_, hbounds.included⟩
        · simp only
          split <;> omega
        · intro limit hlimit
          simp only at hlimit
          split at hlimit
          · cases hlimit
            omega
          · next most hmost =>
            have hwithin := hbounds.most most hmost
            split at hlimit <;> cases hlimit <;> omega
      | false =>
        have hne : elements.length ≠ length := by simpa [ListLengthTest.holds] using hgoes
        refine hnarrow _ ⟨hleast, hbounds.most, fun hmem => ?_⟩
        rcases List.mem_append.mp hmem with hmem | hmem
        · exact hbounds.included hmem
        · exact hne (List.mem_singleton.mp hmem)
    | minimumLength length =>
      cases succeeds with
      | true =>
        have hmore : length ≤ elements.length := by simpa [ListLengthTest.holds] using hgoes
        refine hnarrow _ ⟨?_, hbounds.most, hbounds.included⟩
        simp only
        split <;> omega
      | false =>
        have hfewer : elements.length < length := by simpa [ListLengthTest.holds] using hgoes
        cases length with
        | zero => omega
        | succ limit =>
          refine hnarrow _ ⟨hleast, fun other hother => ?_, hbounds.included⟩
          simp only at hother
          split at hother
          · cases hother
            omega
          · next most hmost =>
            have hwithin := hbounds.most most hmost
            split at hother <;> cases hother <;> omega
  intro refined hrefined
  obtain ⟨normalized, hnormalized, hadmits⟩ := normalizeBounds_admits hrefined hshort
  refine ⟨putConstraint place (.listLengths normalized) facts, ?_, hhold.put hread hadmits⟩
  rw [hnormalized, Option.bind_eq_bind, Option.bind_some]

end Reads

end Blorp.Verify
