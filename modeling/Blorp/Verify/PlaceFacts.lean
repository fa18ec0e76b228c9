import Blorp.Verify.Places

/-!
# What a test leaves known

A test changes the constraint of its own place and of no other.  What it leaves there is
narrower (`Narrows`): a place that was established stays so.  The places under a place, from
an element index on, are its inside; two distinct children of a place have nothing in common.
-/

namespace Blorp.Verify

open Check (Span)
open Specialize

/-! ## One constraint -/

theorem placeConstraint_cons (place : ConcretePatternPlace) (fact : PlaceFact)
    (facts : List PlaceFact) : placeConstraint place (fact :: facts) =
      if place = fact.place then some fact.constraint else placeConstraint place facts := by
  unfold placeConstraint
  rw [List.find?_cons]
  by_cases h : place = fact.place
  · simp [h]
  · simp [h]

theorem putConstraint_cons (place : ConcretePatternPlace) (constraint : PlaceConstraint)
    (fact : PlaceFact) (facts : List PlaceFact) : putConstraint place constraint (fact :: facts) =
      if place = fact.place then ⟨place, constraint⟩ :: facts
      else fact :: putConstraint place constraint facts := by
  unfold putConstraint
  rw [List.findIdx?_cons]
  by_cases h : place = fact.place
  · simp [h]
  · simp only [h, decide_false, Bool.false_eq_true, ↓reduceIte]
    cases List.findIdx? (fun fact => decide (place = fact.place)) facts <;> rfl

theorem placeConstraint_put_self (place : ConcretePatternPlace) (constraint : PlaceConstraint)
    (facts : List PlaceFact) :
    placeConstraint place (putConstraint place constraint facts) = some constraint := by
  induction facts with
  | nil => simp [putConstraint, placeConstraint]
  | cons fact facts ih =>
    rw [putConstraint_cons]
    split
    · rw [placeConstraint_cons, if_pos rfl]
    · next hne => rw [placeConstraint_cons, if_neg hne, ih]

variable {place : ConcretePatternPlace}

theorem placeConstraint_put_ne {other : ConcretePatternPlace} (h : other ≠ place)
    (constraint : PlaceConstraint) (facts : List PlaceFact) :
    placeConstraint other (putConstraint place constraint facts) = placeConstraint other facts := by
  induction facts with
  | nil => simp [putConstraint, placeConstraint, h]
  | cons fact facts ih =>
    rw [putConstraint_cons]
    split
    · next heq => rw [placeConstraint_cons, placeConstraint_cons, if_neg h, if_neg (heq ▸ h)]
    · rw [placeConstraint_cons, placeConstraint_cons, ih]

variable {facts facts' : List PlaceFact}

theorem variantPossibilities_congr (h : placeConstraint place facts' = placeConstraint place facts)
    (unions : List ConcreteUnion) (span : Span) :
    variantPossibilities place facts' unions span = variantPossibilities place facts unions span := by
  unfold variantPossibilities
  rw [h]

theorem lengthBounds_congr (h : placeConstraint place facts' = placeConstraint place facts) :
    lengthBounds place facts' = lengthBounds place facts := by
  unfold lengthBounds
  rw [h]

/-! ## Places under a place -/

def parentPlace (place : ConcretePatternPlace) : Option ConcretePatternPlace :=
  match place.route with
  | .matchRoot => none
  | .unionField parent _ => some parent
  | .recordField parent _ => some parent
  | .listElement parent _ => some parent

mutual

def placeDepth : ConcretePatternPlace → Nat
  | ⟨_, route⟩ => routeDepth route

def routeDepth : ConcretePatternRoute → Nat
  | .matchRoot => 0
  | .unionField parent _ => placeDepth parent + 1
  | .recordField parent _ => placeDepth parent + 1
  | .listElement parent _ => placeDepth parent + 1

end

theorem placeDepth_of_parent {parent : ConcretePatternPlace} (h : parentPlace place = some parent) :
    placeDepth place = placeDepth parent + 1 := by
  obtain ⟨valueType, route⟩ := place
  cases route <;> cases h <;> rfl

/-- The places below `base` whose first step, if it is an element, is at `skip` or later. -/
inductive StrictlyUnder (base : ConcretePatternPlace) (skip : Nat) : ConcretePatternPlace → Prop where
  | child {place : ConcretePatternPlace} (parent : parentPlace place = some base)
      (later : ∀ index, place.route = .listElement base index → skip ≤ index) :
      StrictlyUnder base skip place
  | deeper {place between : ConcretePatternPlace} (parent : parentPlace place = some between)
      (inside : StrictlyUnder base skip between) : StrictlyUnder base skip place

def UnderPlace (base : ConcretePatternPlace) (skip : Nat) (place : ConcretePatternPlace) : Prop :=
  place = base ∨ StrictlyUnder base skip place

section StrictlyUnder

variable {base place : ConcretePatternPlace} {skip : Nat}

theorem StrictlyUnder.depth (h : StrictlyUnder base skip place) : placeDepth base < placeDepth place := by
  induction h with rw [placeDepth_of_parent parent]
  | child parent later => omega
  | deeper parent inside ih => omega

theorem StrictlyUnder.ne (h : StrictlyUnder base skip place) : place ≠ base := by
  rintro rfl
  exact absurd h.depth (Nat.lt_irrefl _)

theorem StrictlyUnder.mono {fewer : Nat} (h : StrictlyUnder base skip place) (hskip : fewer ≤ skip) :
    StrictlyUnder base fewer place := by
  induction h with
  | child parent later =>
    exact .child parent fun index hroute => Nat.le_trans hskip (later index hroute)
  | deeper parent inside ih => exact .deeper parent ih

theorem UnderPlace.mono {fewer : Nat} (h : UnderPlace base skip place) (hskip : fewer ≤ skip) :
    UnderPlace base fewer place := by
  rcases h with rfl | h
  · exact .inl rfl
  · exact .inr (h.mono hskip)

theorem StrictlyUnder.of_child {child : ConcretePatternPlace} (hchild : StrictlyUnder base skip child)
    {later : Nat} (h : UnderPlace child later place) : StrictlyUnder base skip place := by
  rcases h with rfl | h
  · exact hchild
  · induction h with
    | child parent _ => exact .deeper parent hchild
    | deeper parent _ ih => exact .deeper parent ih

theorem UnderPlace.unique {other : ConcretePatternPlace} {skip' : Nat}
    (hdepth : placeDepth base = placeDepth other) (h : UnderPlace base skip place)
    (h' : UnderPlace other skip' place) : base = other := by
  rcases h with rfl | h
  · rcases h' with rfl | h'
    · rfl
    · exact absurd h'.depth (by omega)
  · induction h with
    | child parent later =>
      rcases h' with rfl | h'
      · have hlater := placeDepth_of_parent parent
        omega
      · cases h' with
        | child parent' later' => exact Option.some.inj (parent.symm.trans parent')
        | deeper parent' inside =>
          obtain rfl := Option.some.inj (parent.symm.trans parent')
          exact absurd inside.depth (by omega)
    | deeper parent inside ih =>
      rcases h' with rfl | h'
      · have hlater := placeDepth_of_parent parent
        have hdeep := inside.depth
        omega
      · cases h' with obtain rfl := Option.some.inj (parent.symm.trans parent')
        | child parent' later' => exact absurd inside.depth (by omega)
        | deeper parent' inside' => exact ih (.inr inside')

theorem UnderPlace.of_siblings {left right : ConcretePatternPlace} {skip' : Nat}
    (hleft : parentPlace left = some base) (hright : parentPlace right = some base)
    (hne : left ≠ right) (h : UnderPlace left skip place) : ¬ UnderPlace right skip' place := by
  intro h'
  refine hne (h.unique ?_ h')
  rw [placeDepth_of_parent hleft, placeDepth_of_parent hright]

theorem UnderPlace.element_before {valueType : TypeRef} {index later : Nat}
    (h : UnderPlace ⟨valueType, .listElement base index⟩ later place) :
    ¬ UnderPlace base (index + 1) place := by
  rintro (rfl | hinside)
  · have hchild : StrictlyUnder place 0 ⟨valueType, .listElement place index⟩ :=
      .child rfl fun _ _ => Nat.zero_le _
    exact (hchild.of_child h).ne rfl
  · have hdepth : placeDepth (⟨valueType, .listElement base index⟩ : ConcretePatternPlace)
        = placeDepth base + 1 := placeDepth_of_parent rfl
    -- the ancestor of `place` just below `base` is the element itself
    have hstep : ∀ {place}, StrictlyUnder base (index + 1) place → ∃ child,
        parentPlace child = some base ∧ UnderPlace child 0 place ∧
          ∀ i, child.route = .listElement base i → index + 1 ≤ i := by
      intro place hplace
      induction hplace with
      | child parent later => exact ⟨_, parent, .inl rfl, later⟩
      | deeper parent inside ih =>
        obtain ⟨child, hparent, hwithin, hlater⟩ := ih
        refine ⟨child, hparent, .inr ?_, hlater⟩
        rcases hwithin with rfl | hwithin
        · exact .child parent fun _ _ => Nat.zero_le _
        · exact .deeper parent hwithin
    obtain ⟨child, hparent, hwithin, hlater⟩ := hstep hinside
    have heq := h.unique (by rw [hdepth, placeDepth_of_parent hparent]) hwithin
    have hindex := hlater index (by rw [← heq])
    omega

end StrictlyUnder

/-! ## Facts that grow -/

/-- Nothing that a place needs to be read is lost. -/
structure Narrows (unions : List ConcreteUnion) (span : Span) (facts facts' : List PlaceFact) :
    Prop where
  variants : ∀ place possible ordinal, variantPossibilities place facts unions span = .ok possible →
    singletonVariant possible ordinal = true →
    ∃ possible', variantPossibilities place facts' unions span = .ok possible' ∧
      singletonVariant possible' ordinal = true
  lengths : ∀ place, (lengthBounds place facts).minimum ≤ (lengthBounds place facts').minimum

theorem Narrows.refl (unions : List ConcreteUnion) (span : Span) (facts : List PlaceFact) :
    Narrows unions span facts facts :=
  ⟨fun _ possible _ h hsingle => ⟨possible, h, hsingle⟩, fun _ => Nat.le_refl _⟩

theorem Narrows.trans {unions : List ConcreteUnion} {span : Span} {facts facts' facts'' :
    List PlaceFact} (h : Narrows unions span facts facts') (h' : Narrows unions span facts' facts'') :
    Narrows unions span facts facts'' := by
  refine ⟨fun place possible ordinal hpossible hsingle => ?_, fun place => ?_⟩
  · obtain ⟨possible', hpossible', hsingle'⟩ := h.variants place possible ordinal hpossible hsingle
    exact h'.variants place possible' ordinal hpossible' hsingle'
  · exact Nat.le_trans (h.lengths place) (h'.lengths place)

section Growing

variable {rootType : TypeRef} {facts facts' : List PlaceFact} {unions : List ConcreteUnion}
variable {span : Span} {records : List ConcreteRecord}

variable {parent : ConcretePatternPlace}

theorem verifyFieldPlace_grows (h : Narrows unions span facts facts')
    {field : VariantFieldInstanceId}
    (hok : verifyFieldPlace place parent field facts unions span = .ok ()) :
    verifyFieldPlace place parent field facts' unions span = .ok () := by
  unfold verifyFieldPlace at hok ⊢
  obtain ⟨_, howner, hok⟩ := Except.peel hok
  obtain ⟨fields, hfields, hok⟩ := Except.peel hok
  obtain ⟨expected, hexpected, hok⟩ := Except.peel hok
  obtain ⟨_, htype, hok⟩ := Except.peel hok
  obtain ⟨possible, hpossible, hok⟩ := Except.peel hok
  obtain ⟨possible', hpossible', hsingle⟩ :=
    h.variants parent possible field.variant.position hpossible (require_eq_ok.mp hok)
  exact Except.bind_eq_ok.mpr ⟨_, howner, Except.bind_eq_ok.mpr ⟨fields, hfields,
    Except.bind_eq_ok.mpr ⟨expected, hexpected, Except.bind_eq_ok.mpr ⟨_, htype,
      Except.bind_eq_ok.mpr ⟨possible', hpossible', require_eq_ok.mpr hsingle⟩⟩⟩⟩⟩

theorem verifyElementPlace_grows (h : Narrows unions span facts facts') {index : Nat}
    (hok : verifyElementPlace place parent index facts span = .ok ()) :
    verifyElementPlace place parent index facts' span = .ok () := by
  unfold verifyElementPlace at hok ⊢
  obtain ⟨element, helement, hok⟩ := Except.peel hok
  obtain ⟨_, htype, hok⟩ := Except.peel hok
  have hbound : index < (lengthBounds parent facts).minimum := by simpa using require_eq_ok.mp hok
  have hgrown := h.lengths parent
  refine Except.bind_eq_ok.mpr ⟨element, helement, Except.bind_eq_ok.mpr ⟨_, htype, ?_⟩⟩
  exact require_eq_ok.mpr (by simpa using Nat.lt_of_lt_of_le hbound hgrown)

mutual

theorem verifyPatternPlace_grows (h : Narrows unions span facts facts') :
    ∀ place : ConcretePatternPlace,
      verifyPatternPlace rootType facts unions span records place = .ok () →
      verifyPatternPlace rootType facts' unions span records place = .ok ()
  | ⟨valueType, route⟩, hok => verifyPatternRoute_grows h valueType route hok

theorem verifyPatternRoute_grows (h : Narrows unions span facts facts') (valueType : TypeRef) :
    ∀ route : ConcretePatternRoute,
      verifyPatternRoute rootType facts unions span records valueType route = .ok () →
      verifyPatternRoute rootType facts' unions span records valueType route = .ok ()
  | .matchRoot, hok => hok
  | .unionField parent field, hok => by
      obtain ⟨_, hparent, hok⟩ := Except.peel hok
      exact Except.bind_eq_ok.mpr
        ⟨_, verifyPatternPlace_grows h parent hparent, verifyFieldPlace_grows h hok⟩
  | .recordField parent field, hok => by
      obtain ⟨_, hparent, hok⟩ := Except.peel hok
      exact Except.bind_eq_ok.mpr ⟨_, verifyPatternPlace_grows h parent hparent, hok⟩
  | .listElement parent index, hok => by
      obtain ⟨_, hparent, hok⟩ := Except.peel hok
      exact Except.bind_eq_ok.mpr
        ⟨_, verifyPatternPlace_grows h parent hparent, verifyElementPlace_grows h hok⟩

end

end Growing

/-! ## Narrowing a union place -/

variable {possible : List Bool} {place : ConcretePatternPlace} {facts : List PlaceFact}
variable {unions : List ConcreteUnion} {span : Span}

theorem singletonVariant_iff {ordinal : Nat} :
    singletonVariant possible ordinal = true ↔ possible[ordinal]? = some true ∧
      ∀ position, possible[position]? = some true → position = ordinal := by
  have hcount : ∀ (bits : List Bool) (at_ : Nat), bits[at_]? = some true →
      ((bits.filter id).length = 1 ↔ ∀ position, bits[position]? = some true → position = at_) := by
    intro bits
    induction bits with
    | nil => intro at_ h; simp at h
    | cons bit bits ih =>
      intro at_ h
      cases at_ with
      | zero =>
        obtain rfl : bit = true := by simpa using h
        simp only [List.filter_cons_of_pos, id_eq, List.length_cons, Nat.add_eq_right,
          List.length_eq_zero_iff, List.filter_eq_nil_iff, Bool.not_eq_true]
        constructor
        · intro hnone position hposition
          cases position with
          | zero => rfl
          | succ position =>
            have hmem := List.mem_of_getElem? (List.getElem?_cons_succ ▸ hposition)
            exact absurd (hnone true hmem) (by simp)
        · intro hall b hb
          obtain ⟨i, hi⟩ := List.mem_iff_getElem?.mp hb
          cases b with
          | false => rfl
          | true => exact absurd (hall (i + 1) (by simpa using hi)) (by omega)
      | succ at_ =>
        have h' : bits[at_]? = some true := by simpa using h
        cases bit with
        | false =>
          rw [List.filter_cons_of_neg (by simp), ih at_ h']
          constructor
          · intro hall position hposition
            cases position with
            | zero => simp at hposition
            | succ position => rw [hall position (by simpa using hposition)]
          · intro hall position hposition
            have hnext := hall (position + 1) (by simpa using hposition)
            omega
        | true =>
          constructor
          · intro hone
            have hmem : true ∈ bits.filter id := List.mem_filter.mpr ⟨List.mem_of_getElem? h', rfl⟩
            have hpos := List.length_pos_of_mem hmem
            simp only [List.filter_cons_of_pos, id_eq, List.length_cons] at hone
            omega
          · intro hall
            exact absurd (hall 0 rfl) (by omega)
  unfold singletonVariant projectionIncludes
  constructor
  · intro h
    split at h
    · next hone =>
      split at h
      · next included hincluded =>
        subst h
        exact ⟨hincluded, (hcount _ _ hincluded).mp hone⟩
      · cases h
    · cases h
  · rintro ⟨hincluded, hall⟩
    rw [if_pos ((hcount _ _ hincluded).mpr hall), hincluded]

theorem hasPossible_iff :
    hasPossible possible = true ↔ ∃ position : Nat, possible[position]? = some true := by
  simp only [hasPossible, List.any_eq_true, id_eq, exists_eq_right, List.mem_iff_getElem?]

def narrowed (possible : List Bool) (ordinal : Nat) (succeeds : Bool) : List Bool :=
  possible.zipIdx.map fun (included, position) =>
    if decide (position = ordinal) == succeeds then included else false

theorem narrowed_length (possible : List Bool) (ordinal : Nat) (succeeds : Bool) :
    (narrowed possible ordinal succeeds).length = possible.length := by
  simp [narrowed]

theorem narrowed_true {ordinal position : Nat} {succeeds : Bool} :
    (narrowed possible ordinal succeeds)[position]? = some true ↔
      possible[position]? = some true ∧ decide (position = ordinal) = succeeds := by
  simp only [narrowed, List.getElem?_map, List.getElem?_zipIdx, Nat.zero_add]
  cases hpossible : possible[position]? with
  | none => simp
  | some included =>
    by_cases h : decide (position = ordinal) = succeeds
    · simp [h]
    · simp [h]

theorem refineVariants_some {variant : VariantInstanceId} {succeeds : Bool}
    (howner : place.valueType = .unionType variant.owner)
    (hpossible : variantPossibilities place facts unions span = .ok possible)
    (hdeclared : variant.position < possible.length)
    (hleft : ∃ position : Nat, (narrowed possible variant.position succeeds)[position]? = some true) :
    refineVariants place variant succeeds facts unions span = .ok (some (putConstraint place
      (.variantPossibilities (narrowed possible variant.position succeeds)) facts)) := by
  have hvariant : orVerificationError possible[variant.position]? span "unknown variant identity"
      = .ok possible[variant.position] :=
    orVerificationError_eq_ok.mpr (List.getElem?_eq_getElem hdeclared)
  refine Except.bind_eq_ok.mpr ⟨(), require_eq_ok.mpr (by simpa using howner), ?_⟩
  refine Except.bind_eq_ok.mpr ⟨possible, hpossible, Except.bind_eq_ok.mpr ⟨_, hvariant, ?_⟩⟩
  exact if_pos (hasPossible_iff.mpr hleft)

/-- A place whose constraint, if it has one, is about variants. -/
def VariantsOnly (place : ConcretePatternPlace) (facts : List PlaceFact) : Prop :=
  ∀ bounds, placeConstraint place facts ≠ some (.listLengths bounds)

/-- A place whose constraint, if it has one, is about lengths. -/
def LengthsOnly (place : ConcretePatternPlace) (facts : List PlaceFact) : Prop :=
  ∀ possible, placeConstraint place facts ≠ some (.variantPossibilities possible)

theorem variantPossibilities_put (place : ConcretePatternPlace) (refined : List Bool)
    (facts : List PlaceFact) (unions : List ConcreteUnion) (span : Span) :
    variantPossibilities place (putConstraint place (.variantPossibilities refined) facts) unions span
      = .ok refined := by
  unfold variantPossibilities
  rw [placeConstraint_put_self]

theorem lengthBounds_put (place : ConcretePatternPlace) (bounds : LengthBounds)
    (facts : List PlaceFact) :
    lengthBounds place (putConstraint place (.listLengths bounds) facts) = bounds := by
  unfold lengthBounds
  rw [placeConstraint_put_self]

theorem lengthBounds_of_variantsOnly (h : VariantsOnly place facts) :
    lengthBounds place facts = ⟨0, none, []⟩ := by
  unfold lengthBounds
  split
  · next bounds hbounds => exact absurd hbounds (h bounds)
  · rfl

theorem Narrows.variantsPut {refined : List Bool} (hkind : VariantsOnly place facts)
    (hpossible : variantPossibilities place facts unions span = .ok possible)
    (hsub : ∀ position : Nat, refined[position]? = some true → possible[position]? = some true)
    (hsome : ∃ position : Nat, refined[position]? = some true) :
    Narrows unions span facts (putConstraint place (.variantPossibilities refined) facts) := by
  refine ⟨fun other bits ordinal hbits hsingle => ?_, fun other => ?_⟩
  · by_cases h : other = place
    · subst h
      rw [hpossible] at hbits
      cases hbits
      obtain ⟨hordinal, hall⟩ := singletonVariant_iff.mp hsingle
      refine ⟨refined, variantPossibilities_put other refined facts unions span, ?_⟩
      obtain ⟨position, hposition⟩ := hsome
      have heq := hall position (hsub position hposition)
      exact singletonVariant_iff.mpr ⟨heq ▸ hposition, fun i hi => hall i (hsub i hi)⟩
    · refine ⟨bits, ?_, hsingle⟩
      rw [variantPossibilities_congr (placeConstraint_put_ne h _ facts), hbits]
  · by_cases h : other = place
    · subst h
      rw [lengthBounds_of_variantsOnly hkind]
      exact Nat.zero_le _
    · exact Nat.le_of_eq (by rw [lengthBounds_congr (placeConstraint_put_ne h _ facts)])

theorem Narrows.lengthsPut {element : TypeRef} {bounds : LengthBounds}
    (htype : place.valueType = .listType element) (hkind : LengthsOnly place facts)
    (hmore : (lengthBounds place facts).minimum ≤ bounds.minimum) :
    Narrows unions span facts (putConstraint place (.listLengths bounds) facts) := by
  refine ⟨fun other bits ordinal hbits hsingle => ?_, fun other => ?_⟩
  · by_cases h : other = place
    · subst h
      unfold variantPossibilities at hbits
      split at hbits
      · next possible hconstraint => exact absurd hconstraint (hkind possible)
      · rw [htype] at hbits
        cases hbits
    · refine ⟨bits, ?_, hsingle⟩
      rw [variantPossibilities_congr (placeConstraint_put_ne h _ facts), hbits]
  · by_cases h : other = place
    · subst h
      rw [lengthBounds_put]
      exact hmore
    · exact Nat.le_of_eq (by rw [lengthBounds_congr (placeConstraint_put_ne h _ facts)])

/-! ## Narrowing a list place -/

theorem skipExcluded_of_notMem {excluded : List Nat} {minimum : Nat} (h : minimum ∉ excluded)
    (rounds : Nat) : skipExcluded excluded rounds minimum = some minimum := by
  cases rounds with
  | zero => rfl
  | succ rounds => simp [skipExcluded, h]

theorem lastIncluded_of_notMem {excluded : List Nat} {last : Nat} (h : last ∉ excluded) :
    lastIncluded excluded last = some last := by
  cases last <;> simp [lastIncluded, h]

section Lengths

variable {place : ConcretePatternPlace} {facts : List PlaceFact} {skip : Nat} {excluded : List Nat}
variable (hbounds : lengthBounds place facts = ⟨skip, none, excluded⟩)
variable (hexcluded : ∀ length ∈ excluded, length < skip)
include hbounds hexcluded

theorem refineLengths_exact_yes : refineLengths place (.exactLength skip) true facts =
      some (putConstraint place (.listLengths ⟨skip, some skip, excluded⟩) facts) := by
  have hnot : skip ∉ excluded := fun hmem => absurd (hexcluded skip hmem) (Nat.lt_irrefl _)
  simp [refineLengths, hbounds, normalizeBounds, skipExcluded_of_notMem hnot,
    lastIncluded_of_notMem hnot]

theorem refineLengths_exact_no (hmost : skip < intMaximum) :
    refineLengths place (.exactLength skip) false facts =
      some (putConstraint place (.listLengths ⟨skip + 1, none, excluded ++ [skip]⟩) facts) := by
  have hnot : skip + 1 ∉ excluded ++ [skip] := by
    simp only [List.mem_append, List.mem_singleton, not_or]
    exact ⟨fun hmem => absurd (hexcluded _ hmem) (by omega), by omega⟩
  have hne : ¬ skip = intMaximum := by omega
  have hskip : skipExcluded (excluded ++ [skip]) (excluded ++ [skip]).length skip
      = some (skip + 1) := by
    rw [List.length_append, List.length_singleton, skipExcluded, if_pos (by simp), if_neg hne,
      skipExcluded_of_notMem hnot]
  simp only [refineLengths, hbounds, normalizeBounds, hskip, Option.bind_eq_bind, Option.bind_some]

theorem refineLengths_minimum_yes : refineLengths place (.minimumLength (skip + 1)) true facts =
      some (putConstraint place (.listLengths ⟨skip + 1, none, excluded⟩) facts) := by
  have hnot : skip + 1 ∉ excluded := fun hmem => absurd (hexcluded _ hmem) (by omega)
  simp [refineLengths, hbounds, normalizeBounds, skipExcluded_of_notMem hnot]

theorem refineLengths_minimum_no : refineLengths place (.minimumLength (skip + 1)) false facts =
      some (putConstraint place (.listLengths ⟨skip, some skip, excluded⟩) facts) := by
  have hnot : skip ∉ excluded := fun hmem => absurd (hexcluded skip hmem) (Nat.lt_irrefl _)
  simp [refineLengths, hbounds, normalizeBounds, skipExcluded_of_notMem hnot,
    lastIncluded_of_notMem hnot]

end Lengths

end Blorp.Verify
