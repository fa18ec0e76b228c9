import Blorp.Check.Resolve
import Blorp.Check.ColumnTypes

/-!
# Rows that resolution produces

Every case `resolvePattern` makes is a pattern of its place's type, and what its
captures read is reached through that pattern: through the variants, tuples and
list cells it names (`PlaceUnder`).  So in a subject the pattern matches, every
captured place exists.
-/

namespace Blorp.Check

open Fuel Outcome

variable {σ : Type}

/-! ## Places reached through a pattern -/

def Pattern.element : Nat → Pattern → Option Pattern
  | 0, .consListPattern head _ => some head
  | index + 1, .consListPattern _ tail => tail.element index
  | _, _ => none

def Pattern.hasCells : Nat → Pattern → Bool
  | 0, _ => true
  | count + 1, .consListPattern _ tail => tail.hasCells count
  | _ + 1, _ => false

/-- `place` lies under `base`, reached through the constructors of `pattern`,
with the pattern that is left there. -/
inductive PlaceUnder (unions : List CheckedUnion) (base : CheckedPatternPlace) (pattern : Pattern) :
    CheckedPatternPlace → Pattern → Prop where
  | here : PlaceUnder unions base pattern base pattern
  | unionField {parent : CheckedPatternPlace} {owner : UnionId} {arguments types : List TypeRef}
      {id : VariantId} {fields : List Pattern} {ordinal : Nat} {type : TypeRef} {child : Pattern}
      (under : PlaceUnder unions base pattern parent (.variantPattern id fields))
      (parentType : parent.valueType = unionType owner arguments)
      (declared : DeclaredAt unions ⟨owner, arguments⟩ id types)
      (typeAt : types[ordinal]? = some type) (childAt : fields[ordinal]? = some child) :
      PlaceUnder unions base pattern (.mk type (.unionField parent id ordinal)) child
  | recordField {parent : CheckedPatternPlace} {types : List TypeRef} {fields : List Pattern}
      {ordinal : Nat} {type : TypeRef} {child : Pattern}
      (under : PlaceUnder unions base pattern parent (.tuplePattern fields))
      (parentType : parent.valueType = .tupleType types)
      (typeAt : types[ordinal]? = some type) (childAt : fields[ordinal]? = some child) :
      PlaceUnder unions base pattern (.mk type (.recordField parent ordinal)) child
  | listElement {parent : CheckedPatternPlace} {element : TypeRef} {shape child : Pattern}
      {index : Nat} (under : PlaceUnder unions base pattern parent shape)
      (parentType : parent.valueType = .listType element)
      (childAt : shape.element index = some child) :
      PlaceUnder unions base pattern (.mk element (.listElement parent index)) child

def ArgumentFits (unions : List CheckedUnion) (base : CheckedPatternPlace) (pattern : Pattern) :
    CheckedPatternArgument → Prop
  | .borrowPlace place => ∃ child, PlaceUnder unions base pattern place child
  | .copyListSuffix place skip => ∃ child element, PlaceUnder unions base pattern place child ∧
      place.valueType = .listType element ∧ child.hasCells skip = true

variable {unions : List CheckedUnion} {base : CheckedPatternPlace} {pattern : Pattern}

variable {middle place : CheckedPatternPlace} {argument : CheckedPatternArgument}
variable {scalar : σ → TypeRef → Prop}

theorem PlaceUnder.trans {inner child : Pattern} (h : PlaceUnder unions base pattern middle inner)
    (h' : PlaceUnder unions middle inner place child) :
    PlaceUnder unions base pattern place child := by
  induction h' with
  | here => exact h
  | unionField _ parentType declared typeAt childAt ih =>
    exact .unionField ih parentType declared typeAt childAt
  | recordField _ parentType typeAt childAt ih => exact .recordField ih parentType typeAt childAt
  | listElement _ parentType childAt ih => exact .listElement ih parentType childAt

theorem ArgumentFits.under {inner : Pattern} (h : PlaceUnder unions base pattern middle inner)
    (ha : ArgumentFits unions middle inner argument) :
    ArgumentFits unions base pattern argument := by
  cases argument with
  | borrowPlace place =>
    obtain ⟨child, hc⟩ := ha
    exact ⟨child, h.trans hc⟩
  | copyListSuffix place skip =>
    obtain ⟨child, element, hc, ht, hs⟩ := ha
    exact ⟨child, element, h.trans hc, ht, hs⟩

/-! ## They exist where the pattern matches -/

theorem matchesAll_getElem {patterns : List Pattern} {values : List (Value σ)}
    (h : Pattern.matchesAll patterns values = true) {i : Nat} {p : Pattern}
    (hp : patterns[i]? = some p) : ∃ x, values[i]? = some x ∧ p.matches x = true := by
  induction patterns generalizing values i with
  | nil => simp at hp
  | cons q qs ih =>
    cases values with
    | nil => simp [Pattern.matchesAll] at h
    | cons y ys =>
      simp only [Pattern.matchesAll, Bool.and_eq_true] at h
      cases i with
      | zero =>
        simp only [List.getElem?_cons_zero, Option.some.injEq] at hp
        subst hp
        exact ⟨y, rfl, h.1⟩
      | succ i =>
        simp only [List.getElem?_cons_succ] at hp ⊢
        exact ih h.2 hp

theorem element_matches : ∀ {index : Nat} {p child : Pattern} {elements : List (Value σ)},
    p.element index = some child → p.matches (.list elements) = true →
    ∃ x, elements[index]? = some x ∧ child.matches x = true := by
  intro index
  induction index with intro p child elements he hm
  | zero =>
    cases p with
    | consListPattern head tail =>
      cases he
      cases elements with
      | nil => simp [Pattern.matches] at hm
      | cons x xs =>
        simp only [Pattern.matches, Bool.and_eq_true] at hm
        exact ⟨x, rfl, hm.1⟩
    | _ => simp [Pattern.element] at he
  | succ index ih =>
    cases p with
    | consListPattern head tail =>
      cases elements with
      | nil => simp [Pattern.matches] at hm
      | cons x xs =>
        simp only [Pattern.matches, Bool.and_eq_true] at hm
        simpa using ih he hm.2
    | _ => simp [Pattern.element] at he

theorem hasCells_length : ∀ {count : Nat} {p : Pattern} {elements : List (Value σ)},
    p.hasCells count = true → p.matches (.list elements) = true → count ≤ elements.length := by
  intro count
  induction count with
  | zero => intro _ _ _ _; omega
  | succ count ih =>
    intro p elements hc hm
    cases p with
    | consListPattern head tail =>
      cases elements with
      | nil => simp [Pattern.matches] at hm
      | cons x xs =>
        simp only [Pattern.matches, Bool.and_eq_true] at hm
        have := ih hc hm.2
        simp only [List.length_cons]
        omega
    | _ => simp [Pattern.hasCells] at hc

theorem PlaceUnder.exists_read (hd : DeclarationsValid unions) {subject x : Value σ}
    {child : Pattern} (h : PlaceUnder unions base pattern place child)
    (hr : readPlace subject base = some x) (hx : HasType unions scalar x base.valueType)
    (hm : pattern.matches x = true) :
    ∃ y, readPlace subject place = some y ∧ HasType unions scalar y place.valueType ∧
      child.matches y = true := by
  induction h with
  | here => exact ⟨x, hr, hx, hm⟩
  | @unionField parent owner arguments types id fields ordinal type child under parentType declared
      typeAt childAt ih =>
    obtain ⟨y, hy, ht, hmy⟩ := ih
    rw [parentType] at ht
    cases ht with
    | @variant _ _ other _ values declared' typed =>
      simp only [Pattern.matches, Bool.and_eq_true, beq_iff_eq] at hmy
      obtain ⟨rfl, hmy⟩ := hmy
      obtain ⟨z, hz, hmz⟩ := matchesAll_getElem hmy childAt
      refine ⟨z, by simp only [readPlace, readRoute, hy, if_true]; exact hz, ?_, hmz⟩
      rw [declaredAt_unique hd declared' declared] at typed
      obtain ⟨hi, rfl⟩ := List.getElem?_eq_some_iff.mp hz
      obtain ⟨hi', rfl⟩ := List.getElem?_eq_some_iff.mp typeAt
      exact (List.forall₂_iff_get.mp typed).2 ordinal hi hi'
    | scalar isScalar => cases isScalar
  | @recordField parent types fields ordinal type child under parentType typeAt childAt ih =>
    obtain ⟨y, hy, ht, hmy⟩ := ih
    rw [parentType] at ht
    cases ht with
    | tuple typed =>
      obtain ⟨z, hz, hmz⟩ := matchesAll_getElem hmy childAt
      refine ⟨z, by simp only [readPlace, readRoute, hy]; exact hz, ?_, hmz⟩
      obtain ⟨hi, rfl⟩ := List.getElem?_eq_some_iff.mp hz
      obtain ⟨hi', rfl⟩ := List.getElem?_eq_some_iff.mp typeAt
      exact (List.forall₂_iff_get.mp typed).2 ordinal hi hi'
    | scalar isScalar => cases isScalar
  | @listElement parent element shape child index under parentType childAt ih =>
    obtain ⟨y, hy, ht, hmy⟩ := ih
    rw [parentType] at ht
    cases ht with
    | list typed =>
      obtain ⟨z, hz, hmz⟩ := element_matches childAt hmy
      exact ⟨z, by simp only [readPlace, readRoute, hy]; exact hz,
        typed z (List.mem_of_getElem? hz), hmz⟩
    | scalar isScalar => cases isScalar

theorem ArgumentFits.exists (hd : DeclarationsValid unions) {subject x : Value σ}
    (h : ArgumentFits unions base pattern argument) (hr : readPlace subject base = some x)
    (hx : HasType unions scalar x base.valueType) (hm : pattern.matches x = true) :
    ArgumentExists subject argument := by
  cases argument with
  | borrowPlace place =>
    obtain ⟨child, hc⟩ := h
    obtain ⟨y, hy, -, -⟩ := hc.exists_read hd hr hx hm
    exact ⟨y, hy⟩
  | copyListSuffix place skip =>
    obtain ⟨child, element, hc, ht, hs⟩ := h
    obtain ⟨y, hy, hty, hmy⟩ := hc.exists_read hd hr hx hm
    rw [ht] at hty
    cases hty with
    | @list elements _ typed => exact ⟨elements, hy, hasCells_length hs hmy⟩
    | scalar isScalar => cases isScalar

/-! ## Resolution keeps the types -/

/-- A case is a pattern for the place, and its captures read through it. -/
structure CaseFits (unions : List CheckedUnion) (place : CheckedPatternPlace) (c : PatternCase) :
    Prop where
  pattern : PatternFits unions c.pattern place.valueType
  captures : ∀ cap ∈ c.captures, ArgumentFits unions place c.pattern cap.argument

/-- Patterns for the places in order, and captures that read through one of them. -/
structure PartFits (unions : List CheckedUnion) (places : List CheckedPatternPlace)
    (part : PatternParts) : Prop where
  patterns : List.Forall₂ (fun p (place : CheckedPatternPlace) => PatternFits unions p place.valueType)
    part.patterns places
  captures : ∀ cap ∈ part.captures, ∃ (i : Nat) (p : Pattern) (place : CheckedPatternPlace),
    part.patterns[i]? = some p ∧ places[i]? = some place ∧ ArgumentFits unions place p cap.argument

/-- The loop of `resolve_fields` has resolved the first `position` places. -/
structure FieldsFit (unions : List CheckedUnion) (places : List CheckedPatternPlace)
    (state : FieldsState) : Prop where
  position : state.position ≤ places.length
  parts : ∀ part ∈ state.parts, PartFits unions (places.take state.position) part

/-- A resolver that types the parts it returns. -/
def ResolverFits (unions : List CheckedUnion) (count : Nat) (fields : FieldResolver) : Prop :=
  ∀ places scope ordinal next resolved, places.length = count →
    fields places scope ordinal next = .ok resolved →
    ∀ part ∈ resolved.parts, PartFits unions places part

section Fields

variable {unions : List CheckedUnion} {places : List CheckedPatternPlace}

theorem FieldsFit.start (scope : List ScopedValue) (next : Nat) :
    FieldsFit unions places (.start scope next) := by
  refine ⟨Nat.zero_le _, fun part hp => ?_⟩
  simp only [FieldsState.start, List.mem_singleton] at hp
  subst hp
  exact ⟨by simp [FieldsState.start], by simp⟩

theorem getElem?_take_of_some {α : Type} {as : List α} {n i : Nat} {a : α}
    (h : (as.take n)[i]? = some a) : as[i]? = some a := by
  rw [List.getElem?_take] at h
  split at h
  · exact h
  · cases h

variable {place : CheckedPatternPlace}

theorem PartFits.snoc {part : PatternParts} (h : PartFits unions places part) {c : PatternCase}
    (hc : CaseFits unions place c) :
    PartFits unions (places ++ [place])
      ⟨part.patterns ++ [c.pattern], part.captures ++ c.captures,
        part.alternatives ++ c.alternatives⟩ := by
  refine ⟨List.rel_append h.patterns (.cons hc.pattern .nil), fun cap hcap => ?_⟩
  rcases List.mem_append.mp hcap with hcap | hcap
  · obtain ⟨i, p, pl, hp, hpl, ha⟩ := h.captures cap hcap
    have hi := (List.getElem?_eq_some_iff.mp hp).1
    have hi' := (List.getElem?_eq_some_iff.mp hpl).1
    exact ⟨i, p, pl, by rw [List.getElem?_append_left hi]; exact hp,
      by rw [List.getElem?_append_left hi']; exact hpl, ha⟩
  · refine ⟨part.patterns.length, c.pattern, place, by simp, ?_, hc.captures cap hcap⟩
    rw [h.patterns.length_eq]
    simp

theorem FieldsFit.add {state : FieldsState} (h : FieldsFit unions places state)
    (hplace : places[state.position]? = some place) {resolved : ResolvedPattern}
    (hcases : ∀ c ∈ resolved.cases, CaseFits unions place c) :
    FieldsFit unions places (state.add resolved) := by
  have hlt := (List.getElem?_eq_some_iff.mp hplace).1
  refine ⟨hlt, fun part hp => ?_⟩
  simp only [FieldsState.add, combineParts, List.mem_flatMap, List.mem_map] at hp
  obtain ⟨front, hfront, c, hc, rfl⟩ := hp
  have hsnoc := (h.parts front hfront).snoc (hcases c hc)
  have htake : places.take (state.position + 1) = places.take state.position ++ [place] := by
    rw [List.take_add_one, hplace]
    rfl
  show PartFits unions (places.take (state.position + 1)) _
  rw [htake]
  exact hsnoc

theorem finishFields_fits {state : FieldsState} (h : FieldsFit unions places state)
    {resolved : ResolvedFields} (hf : finishFields places.length state = .ok resolved) :
    ∀ part ∈ resolved.parts, PartFits unions places part := by
  unfold finishFields at hf
  obtain ⟨_, -, hf⟩ := Except.peel hf
  cases hf
  intro part hp
  obtain ⟨front, hfront, rfl⟩ := List.mem_map.mp hp
  have hfit := h.parts front hfront
  have hsplit : places = places.take state.position ++ places.drop state.position :=
    (List.take_append_drop _ _).symm
  refine ⟨?_, fun cap hcap => ?_⟩
  · show List.Forall₂ _ (front.patterns ++ List.replicate (places.length - state.position) .anything)
      places
    rw [← List.length_drop]
    conv => rhs; rw [hsplit]
    refine List.rel_append hfit.patterns ?_
    generalize places.drop state.position = rest
    induction rest with
    | nil => exact .nil
    | cons place rest ih => exact .cons (.anything _) ih
  · obtain ⟨i, p, pl, hpat, hpl, ha⟩ := hfit.captures cap hcap
    have hi := (List.getElem?_eq_some_iff.mp hpat).1
    exact ⟨i, p, pl, by rw [List.getElem?_append_left hi]; exact hpat, getElem?_take_of_some hpl, ha⟩

end Fields

/-! ## Each form of pattern -/

section Forms

variable {context : ResolutionContext} {place : CheckedPatternPlace}

theorem mem_build {resolved : ResolvedFields} {shape : List Pattern → Pattern} {c : PatternCase}
    (h : c ∈ (resolved.build shape).cases) : ∃ part ∈ resolved.parts,
      c = ⟨shape part.patterns, part.captures, part.alternatives⟩ := by
  obtain ⟨part, hp, rfl⟩ := List.mem_map.mp h
  exact ⟨part, hp, rfl⟩

variable {unions : List CheckedUnion} {patterns : List Pattern} {owner : UnionId}
variable {contract : VariantContract} {count ordinal next : Nat} {fields : FieldResolver}
variable {span : Span} {scope : List ScopedValue} {resolved : ResolvedPattern} {name : WrittenName}
variable {occurrence : UnionOccurrence}

theorem forall₂_types_of_places {places : List CheckedPatternPlace}
    (h : List.Forall₂ (fun p (place : CheckedPatternPlace) => PatternFits unions p
      place.valueType) patterns places) :
    List.Forall₂ (PatternFits unions) patterns (places.map CheckedPatternPlace.valueType) := by
  induction h with
  | nil => exact .nil
  | cons hp _ ih => exact .cons hp ih

theorem resolveVariant_fits {arguments : List TypeRef}
    (htype : place.valueType = unionType owner arguments)
    (hdecl : DeclaredAt unions ⟨owner, arguments⟩ contract.variant (contract.fields.map
      TypeUse.valueType)) (hfields : ResolverFits unions count fields)
    (h : resolveVariant contract count fields place span scope ordinal next = .ok resolved) :
    ∀ c ∈ resolved.cases, CaseFits unions place c := by
  unfold resolveVariant at h
  split at h
  · next hcount =>
    unfold resolveVariantFields at h
    obtain ⟨parts, hparts, h⟩ := Except.peel h
    cases h
    intro c hc
    obtain ⟨part, hp, rfl⟩ := mem_build hc
    have hfit := hfields _ _ _ _ _ (by simp [unionFieldPlaces, hcount]) hparts part hp
    have htypes : (unionFieldPlaces place contract.variant
        (contract.fields.map TypeUse.valueType)).map CheckedPatternPlace.valueType =
        contract.fields.map TypeUse.valueType := by
      apply List.ext_getElem
      · simp [unionFieldPlaces]
      · intro i h1 h2
        simp [unionFieldPlaces, CheckedPatternPlace.valueType]
    refine ⟨?_, fun cap hcap => ?_⟩
    · rw [htype]
      refine .variant hdecl ?_
      rw [← htypes]
      exact forall₂_types_of_places hfit.patterns
    · obtain ⟨i, p, pl, hpat, hpl, ha⟩ := hfit.captures cap hcap
      simp only [unionFieldPlaces, List.getElem?_mapIdx, Option.map_eq_some_iff] at hpl
      obtain ⟨type, htypeAt, rfl⟩ := hpl
      exact ha.under (.unionField .here htype hdecl htypeAt hpat)
  · cases h

theorem resolveTuple_fits (hfields : ResolverFits unions count fields)
    (h : resolveTuple count fields span place scope ordinal next = .ok resolved) :
    ∀ c ∈ resolved.cases, CaseFits unions place c := by
  obtain ⟨types, htype⟩ : ∃ types, place.valueType = .tupleType types := by
    unfold resolveTuple at h
    split at h
    · next elements he => exact ⟨elements, he⟩
    · cases h
  simp only [resolveTuple, htype] at h
  change (if types.length = count then _ else _) = _ at h
  split at h
  · next hcount =>
    obtain ⟨parts, hparts, h⟩ := Except.peel h
    cases h
    intro c hc
    obtain ⟨part, hp, rfl⟩ := mem_build hc
    have hfit := hfields _ _ _ _ _ (by simp [tuplePlaces, hcount]) hparts part hp
    have hmap : (tuplePlaces place types).map CheckedPatternPlace.valueType = types := by
      apply List.ext_getElem
      · simp [tuplePlaces]
      · intro i h1 h2
        simp [tuplePlaces, CheckedPatternPlace.valueType]
    refine ⟨?_, fun cap hcap => ?_⟩
    · rw [htype]
      refine .tuple ?_
      rw [← hmap]
      exact forall₂_types_of_places hfit.patterns
    · obtain ⟨i, p, pl, hpat, hpl, ha⟩ := hfit.captures cap hcap
      simp only [tuplePlaces, List.getElem?_mapIdx, Option.map_eq_some_iff] at hpl
      obtain ⟨type, htypeAt, rfl⟩ := hpl
      exact ha.under (.recordField .here htype htypeAt hpat)
  · cases h

theorem capture_cases {valueType : TypeRef} {argument : CheckedPatternArgument}
    (h : capture context name valueType argument scope ordinal next = .ok resolved) :
    resolved.cases = [⟨.anything, [⟨name, valueType, argument⟩], []⟩] := by
  unfold capture at h
  obtain ⟨binding, -, h⟩ := Except.peel h
  cases h
  rfl

theorem declaredVariantContract_some {variant : VariantId}
    (h : declaredVariantContract context owner variant span = .ok (some contract)) :
    ∃ declaration declared, context.unions[owner]? = some declaration ∧
      declared ∈ declaration.variants ∧ contract = ⟨declared.id, declared.fields⟩ := by
  unfold declaredVariantContract at h
  obtain ⟨declaration, hdecl, h⟩ := Except.peel h
  have hunion : context.unions[owner]? = some declaration := by
    unfold orCheckerInvariant at hdecl
    split at hdecl
    · next found hfound => cases hdecl; exact hfound
    · cases hdecl
  split at h
  · next declared hat =>
    split at h
    · cases h
      exact ⟨declaration, declared, hunion, List.mem_of_getElem? hat, rfl⟩
    · cases h
  · cases h

theorem instantiatePatternVariant_declared {variant : VariantId} {declared : VariantContract}
    (howner : occurrence.owner = owner)
    (h : declaredVariantContract context owner variant span = .ok (some declared))
    (hi : instantiatePatternVariant declared occurrence = .ok contract) :
    DeclaredAt context.unions occurrence contract.variant
      (contract.fields.map TypeUse.valueType) := by
  obtain ⟨declaration, found, hunion, hmem, rfl⟩ := declaredVariantContract_some h
  obtain ⟨uses, huses, hi⟩ := Except.peel hi
  cases hi
  exact ⟨declaration, found, uses, howner ▸ hunion, hmem, rfl, huses, rfl⟩

theorem findVariant_declared (h : findVariant context occurrence name = .ok (some contract)) :
    DeclaredAt context.unions occurrence contract.variant
      (contract.fields.map TypeUse.valueType) := by
  unfold findVariant at h
  obtain ⟨found, hfound, h⟩ := Except.peel h
  cases found with
  | none =>
    obtain ⟨declaration, -, h⟩ := Except.peel h
    split at h <;> cases h
  | some variant =>
    obtain ⟨instantiated, hi, h⟩ := Except.peel h
    cases h
    unfold findDeclaredVariant at hfound
    split at hfound
    · exact instantiatePatternVariant_declared rfl hfound hi
    · cases hfound

theorem findQualifiedVariant_declared {name : ParsedQualified}
    (h : findQualifiedVariant context occurrence name = .ok (some contract)) :
    DeclaredAt context.unions occurrence contract.variant
      (contract.fields.map TypeUse.valueType) := by
  unfold findQualifiedVariant at h
  obtain ⟨aliased, -, h⟩ := Except.peel h
  split at h
  · next offered hoffered =>
    obtain ⟨declared, hdeclared, h⟩ := Except.peel h
    cases declared with
    | none => cases h
    | some variant =>
      obtain ⟨instantiated, hi, h⟩ := Except.peel h
      cases h
      exact instantiatePatternVariant_declared rfl hdeclared hi
  · cases h
  · cases h

theorem TypeRef.unionOccurrence_some {type : TypeRef} (h : type.unionOccurrence = some occurrence) :
    type = unionType occurrence.owner occurrence.arguments := by
  unfold TypeRef.unionOccurrence at h
  split at h
  · cases h
    rfl
  · cases h

theorem noFields_fits (unions : List CheckedUnion) : ResolverFits unions 0 noFields := by
  intro places scope ordinal next resolved hlen h
  have hstart : FieldsFit unions places (.start scope next) := .start scope next
  refine finishFields_fits hstart ?_
  rw [hlen]
  exact h

variable {position : PatternPosition} {rest : Option SpreadTarget}

theorem resolveCaptureName_fits
    (h : resolveCaptureName context name place position scope ordinal next = .ok resolved) :
    ∀ c ∈ resolved.cases, CaseFits unions place c := by
  unfold resolveCaptureName at h
  cases position with
  | wholeArm => cases h
  | payload =>
    rw [capture_cases h]
    intro c hc
    obtain rfl := List.mem_singleton.mp hc
    refine ⟨.anything _, fun cap hcap => ?_⟩
    obtain rfl := List.mem_singleton.mp hcap
    exact ⟨.anything, .here⟩

theorem resolveName_fits
    (h : resolveName context name place position scope ordinal next = .ok resolved) :
    ∀ c ∈ resolved.cases, CaseFits context.unions place c := by
  unfold resolveName at h
  split at h
  · next occurrence hocc =>
    split at h
    · cases h
    · next contract hfound =>
      exact resolveVariant_fits (TypeRef.unionOccurrence_some hocc) (findVariant_declared hfound)
        (noFields_fits _) h
    · exact resolveCaptureName_fits h
  · exact resolveCaptureName_fits h

theorem resolveConstructor_fits {head : PatternHead}
    (hfields : ResolverFits context.unions count fields)
    (h : resolveConstructor context head count fields span place scope ordinal next =
      .ok resolved) : ∀ c ∈ resolved.cases, CaseFits context.unions place c := by
  cases hocc : place.valueType.unionOccurrence with
  | none => cases head <;> simp only [resolveConstructor, hocc] at h <;> cases h
  | some occurrence =>
    have htype := TypeRef.unionOccurrence_some hocc
    cases head with simp only [resolveConstructor, hocc] at h
    | bareHead name =>
      obtain ⟨_, hsome, h⟩ := Except.peel h
      cases hsome
      obtain ⟨found, hfound, h⟩ := Except.peel h
      cases found with
      | none => cases h
      | some contract => exact resolveVariant_fits htype (findVariant_declared hfound) hfields h
    | qualifiedHead name =>
      obtain ⟨_, hsome, h⟩ := Except.peel h
      cases hsome
      obtain ⟨found, hfound, h⟩ := Except.peel h
      cases found with
      | none => cases h
      | some contract =>
        exact resolveVariant_fits htype (findQualifiedVariant_declared hfound) hfields h

/-! A list pattern is a chain of cells ending in its tail. -/

theorem listShape_fits {element : TypeRef} {tail : Pattern}
    (htail : PatternFits unions tail (.listType element))
    (h : ∀ p ∈ patterns, PatternFits unions p element) :
    PatternFits unions (listShape patterns tail) (.listType element) := by
  induction patterns with
  | nil => exact htail
  | cons p patterns ih =>
    exact .consList (h p List.mem_cons_self) (ih fun q hq => h q (List.mem_cons_of_mem _ hq))

theorem listShape_element {tail p : Pattern} {i : Nat} (h : patterns[i]? = some p) :
    (listShape patterns tail).element i = some p := by
  induction patterns generalizing i with
  | nil => simp at h
  | cons q patterns ih =>
    cases i with
    | zero => simpa [listShape, Pattern.element] using h
    | succ i =>
      simp only [List.getElem?_cons_succ] at h
      exact ih h

theorem listShape_hasCells (tail : Pattern) (patterns : List Pattern) :
    (listShape patterns tail).hasCells patterns.length = true := by
  induction patterns with
  | nil => rfl
  | cons q patterns ih => exact ih

theorem resolveListTail_cases {skip : Nat} {resolved : ResolvedFields} {tail : ResolvedPattern}
    (h : resolveListTail context rest place skip resolved ordinal = .ok tail) :
    ∀ c ∈ tail.cases, (c.pattern = .emptyListPattern ∨ c.pattern = .anything) ∧
      ∀ cap ∈ c.captures, cap.argument = .copyListSuffix place skip := by
  have hplain : ∀ (shape : Pattern) (scope : List ScopedValue) (next : Nat),
      shape = .emptyListPattern ∨ shape = .anything → ∀ c ∈ (plain shape scope next).cases,
        (c.pattern = .emptyListPattern ∨ c.pattern = .anything) ∧
          ∀ cap ∈ c.captures, cap.argument = .copyListSuffix place skip := by
    intro shape scope next hshape c hc
    obtain rfl := List.mem_singleton.mp hc
    exact ⟨hshape, by simp⟩
  unfold resolveListTail at h
  cases hfailure : resolved.pendingFailure with simp only [hfailure] at h
  | some error =>
    cases h
    exact hplain _ resolved.scope resolved.nextAlternative (by cases rest <;> simp)
  | none =>
    cases rest with
    | none =>
      cases h
      exact hplain _ resolved.scope resolved.nextAlternative (.inl rfl)
    | some target =>
      cases target with
      | spreadWildcard span =>
        cases h
        exact hplain _ resolved.scope resolved.nextAlternative (.inr rfl)
      | spreadName name =>
        simp only at h
        split at h
        · next captured hcapture =>
          cases h
          rw [capture_cases hcapture]
          intro c hc
          obtain rfl := List.mem_singleton.mp hc
          refine ⟨.inr rfl, fun cap hcap => ?_⟩
          obtain rfl := List.mem_singleton.mp hcap
          rfl
        · obtain ⟨_, -, h⟩ := Except.peel h
          cases h
          exact hplain _ resolved.scope resolved.nextAlternative (.inr rfl)

theorem resolveList_fits (hfields : ResolverFits unions count fields)
    (h : resolveList context count fields rest span place scope ordinal next = .ok resolved) :
    ∀ c ∈ resolved.cases, CaseFits unions place c := by
  unfold resolveList at h
  split at h
  · next element htype =>
    unfold resolveListElements at h
    obtain ⟨parts, hparts, h⟩ := Except.peel h
    obtain ⟨tail, htail, h⟩ := Except.peel h
    cases h
    intro c hc
    simp only [List.mem_flatMap, List.mem_map] at hc
    obtain ⟨part, hp, ending, he, rfl⟩ := hc
    have hfit := hfields _ _ _ _ _ (by simp [listPlaces]) hparts part hp
    obtain ⟨hshape, hsuffix⟩ := resolveListTail_cases htail ending he
    have hlength : part.patterns.length = count := by
      rw [hfit.patterns.length_eq]
      simp [listPlaces]
    refine ⟨?_, fun cap hcap => ?_⟩
    · rw [htype]
      refine listShape_fits ?_ fun p hpmem => ?_
      · rcases hshape with hshape | hshape <;> rw [hshape]
        · exact .emptyList _
        · exact .anything _
      · obtain ⟨i, hi, rfl⟩ := List.getElem_of_mem hpmem
        have := (List.forall₂_iff_get.mp hfit.patterns).2 i hi (by simp [listPlaces]; omega)
        simpa [listPlaces, CheckedPatternPlace.valueType] using this
    · rcases List.mem_append.mp hcap with hcap | hcap
      · obtain ⟨i, p, pl, hpat, hpl, ha⟩ := hfit.captures cap hcap
        simp only [listPlaces, List.getElem?_map, Option.map_eq_some_iff] at hpl
        obtain ⟨j, hj, rfl⟩ := hpl
        obtain ⟨hlt, rfl⟩ := List.getElem?_eq_some_iff.mp hj
        simp only [List.getElem_range] at ha
        exact ha.under (.listElement .here htype (listShape_element hpat))
      · rw [hsuffix cap hcap]
        refine ⟨_, element, .here, htype, ?_⟩
        rw [← hlength]
        exact listShape_hasCells _ _
  · cases h

end Forms

/-! ## The whole pattern -/

section Whole

variable {context : ResolutionContext}

variable {unions : List CheckedUnion}

theorem literal_fits {literal : LiteralPattern} {type : TypeRef} (h : literal.fits type = true) :
    PatternFits unions (.exactPattern literal) type := by
  cases literal with simp only [LiteralPattern.fits, decide_eq_true_eq] at h
  | exactBytes text =>
    subst h
    exact .bytes text
  | exactInt value =>
    subst h
    exact .int value

variable {place : CheckedPatternPlace}

theorem plain_fits (h : PatternFits unions pattern place.valueType) (scope : List ScopedValue)
    (next : Nat) : ∀ c ∈ (plain pattern scope next).cases, CaseFits unions place c := by
  intro c hc
  obtain rfl := List.mem_singleton.mp hc
  exact ⟨h, by simp⟩

theorem AlternativesState.add_fits {state : AlternativesState}
    (h : ∀ c ∈ state.cases, CaseFits unions place c) {resolved : ResolvedPattern}
    (hr : ∀ c ∈ resolved.cases, CaseFits unions place c) (span : Span) :
    ∀ c ∈ (state.add span resolved).cases, CaseFits unions place c := by
  intro c hc
  rcases List.mem_append.mp hc with hc | hc
  · exact h c hc
  · obtain ⟨branch, hb, rfl⟩ := List.mem_map.mp hc
    exact ⟨(hr branch hb).pattern, (hr branch hb).captures⟩

mutual

theorem resolvePattern_fits : ∀ (pattern : ParsedPattern) (place : CheckedPatternPlace)
    (position : PatternPosition) (scope : List ScopedValue) (ordinal next : Nat)
    (resolved : ResolvedPattern),
    resolvePattern context pattern place position scope ordinal next = .ok resolved →
    ∀ c ∈ resolved.cases, CaseFits context.unions place c
  | .patternTuple fields span, place, position, scope, ordinal, next, resolved, h => by
      rw [resolvePattern] at h
      exact resolveTuple_fits (resolveFields_resolver fields) h
  | .patternWildcard span, place, position, scope, ordinal, next, resolved, h => by
      rw [resolvePattern] at h
      cases h
      exact plain_fits (.anything _) _ _
  | .patternName name, place, position, scope, ordinal, next, resolved, h => by
      rw [resolvePattern] at h
      exact resolveName_fits h
  | .patternConstructor head fields span, place, position, scope, ordinal, next, resolved, h => by
      rw [resolvePattern] at h
      exact resolveConstructor_fits (resolveFields_resolver fields) h
  | .patternOr alternatives span, place, position, scope, ordinal, next, resolved, h => by
      rw [resolvePattern, finishAlternatives] at h
      obtain ⟨_, -, h⟩ := Except.peel h
      obtain ⟨canonical, -, h⟩ := Except.peel h
      cases h
      exact resolveAlternatives_fits alternatives place position scope ordinal _ (by simp)
  | .patternList fields rest span, place, position, scope, ordinal, next, resolved, h => by
      rw [resolvePattern] at h
      exact resolveList_fits (resolveFields_resolver fields) h
  | .patternLiteral literal span, place, position, scope, ordinal, next, resolved, h => by
      rw [resolvePattern] at h
      split at h
      · next hfits =>
        cases h
        exact plain_fits (literal_fits hfits) _ _
      · cases h
  | .patternChar span, place, position, scope, ordinal, next, resolved, h => by
      rw [resolvePattern] at h
      cases h

theorem resolveFields_fits : ∀ (fields : List ParsedPattern) (places : List CheckedPatternPlace)
    (ordinal : Nat) (state : FieldsState), FieldsFit context.unions places state →
    FieldsFit context.unions places (resolveFields context fields places ordinal state)
  | [], places, ordinal, state, h => by
      rw [resolveFields]
      exact h
  | field :: rest, places, ordinal, state, h => by
      rw [resolveFields]
      split
      · exact ⟨h.position, h.parts⟩
      · next place hplace =>
        split
        · exact ⟨h.position, h.parts⟩
        · next resolved hresolved =>
          have hadd : FieldsFit context.unions places (state.add resolved) :=
            h.add hplace (resolvePattern_fits field place .payload _ _ _ _ hresolved)
          dsimp only
          split
          · exact hadd
          · exact resolveFields_fits rest places ordinal _ hadd

theorem resolveFields_resolver (fields : List ParsedPattern) :
    ResolverFits context.unions fields.length fun places scope ordinal next =>
      finishFields fields.length
        (resolveFields context fields places ordinal (.start scope next)) := by
  intro places scope ordinal next resolved hlen h
  rw [← hlen] at h
  exact finishFields_fits (resolveFields_fits fields places ordinal _ (.start scope next)) h

theorem resolveAlternatives_fits : ∀ (alternatives : List ParsedPattern)
    (place : CheckedPatternPlace) (position : PatternPosition) (scope : List ScopedValue)
    (ordinal : Nat) (state : AlternativesState),
    (∀ c ∈ state.cases, CaseFits context.unions place c) →
    ∀ c ∈ (resolveAlternatives context alternatives place position scope ordinal state).cases,
      CaseFits context.unions place c
  | [], place, position, scope, ordinal, state, h => by
      rw [resolveAlternatives]
      exact h
  | alternative :: rest, place, position, scope, ordinal, state, h => by
      rw [resolveAlternatives]
      split
      · exact h
      · next resolved hresolved =>
        have hadd := AlternativesState.add_fits h
          (resolvePattern_fits alternative place position _ _ _ _ hresolved) alternative.span
        dsimp only
        split
        · exact hadd
        · exact resolveAlternatives_fits rest place position scope ordinal _ hadd

end

end Whole

end Blorp.Check
