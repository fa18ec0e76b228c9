import Blorp.Check.Supertraits
import Blorp.Lib.While

/-!
# What a trait proof establishes

`Provable` is the derivation `prove_trait` searches: a parameter has a trait by a declared
bound that entails it, any other type by the one family of its head, whose bounds hold of
the arguments.  The search and the derivation agree, and derivations are closed under
supertraits and under substitution as soon as every family comes with its supertraits'.
-/

namespace Blorp.Check

open Fuel

variable {traits : AcceptedTraits} {assumptions : List TraitRequirement} {span : Span}

inductive Provable (traits : AcceptedTraits) (assumptions : List TraitRequirement) :
    TraitId → TypeRef → Prop
  | assumed {required : TraitId} {assumption : TraitRequirement}
      (hmem : assumption ∈ assumptions)
      (hentails : Entails traits.declarations assumption.requiredTrait required) :
      Provable traits assumptions required (.parameterType assumption.parameter)
  | family {required : TraitId} {receiver : TypeRef} {head : TypeHead}
      {row : AcceptedImplementation} (hhead : receiver.typeHead = some head)
      (hrow : traits.familyFor required head = some row)
      (harity : row.parameterBounds.length ≤ receiver.receiverArguments.length)
      (hbounds : ∀ (position : Nat) (bounds : List LocatedTrait) (argument : TypeRef)
        (bound : LocatedTrait), row.parameterBounds[position]? = some bounds →
        receiver.receiverArguments[position]? = some argument → bound ∈ bounds →
        Provable traits assumptions bound.requiredTrait argument) :
      Provable traits assumptions required receiver

/-! ## The search and the derivation -/

theorem proveTrait_parameter (unavailable : List EqualityUnavailable) (fuel : Nat)
    (required : TraitId) (parameter : TypeParameterId) :
    proveTrait ⟨traits, unavailable⟩ assumptions span (fuel + 1) required
        (.parameterType parameter) = (do
      let known ← anyOutcome (fun assumption : TraitRequirement => do
        let entailed ← entails traits.declarations fuel assumption.requiredTrait required
        .ok (decide (assumption.parameter = parameter) && entailed)) assumptions
      if known then .ok ()
      else .err (traitError span (.missingTraitBound required (.parameterType parameter)))) := by
  rfl

variable {required : TraitId} {receiver : TypeRef} {head : TypeHead}

theorem proveTrait_family (unavailable : List EqualityUnavailable) (fuel : Nat)
    (hhead : receiver.typeHead = some head) :
    proveTrait ⟨traits, unavailable⟩ assumptions span (fuel + 1) required receiver = (do
      let accepted ← selectedFamily ⟨traits, unavailable⟩ fuel required receiver span
      accepted.parameterBounds.zipIdx.forM
        (proveBounds (proveTrait ⟨traits, unavailable⟩ assumptions span fuel)
          receiver.receiverArguments span)) := by
  cases receiver with
  | parameterType parameter => cases hhead
  | _ => rfl

theorem anyOutcome_eq_true {ε α : Type} {test : α → Outcome ε Bool} :
    ∀ {xs : List α}, anyOutcome test xs = .ok true → ∃ x ∈ xs, test x = .ok true := by
  intro xs
  induction xs with
  | nil =>
    intro h
    cases h
  | cons x xs ih =>
    intro h
    obtain ⟨found, hfound, h⟩ := Outcome.peel h
    cases found with
    | true => exact ⟨x, by simp, hfound⟩
    | false =>
      obtain ⟨y, hy, htest⟩ := ih h
      exact ⟨y, List.mem_cons_of_mem _ hy, htest⟩

/-- `entails` is right as soon as it ends. -/
theorem Entails.of_entails {ε : Type} {declarations : List AcceptedTrait} :
    ∀ {fuel : Nat} {held : TraitId}, entails (ε := ε) declarations fuel held required = .ok true →
      Entails declarations held required := by
  intro fuel
  induction fuel with
  | zero =>
    intro held h
    cases h
  | succ fuel ih =>
    intro held h
    unfold entails at h
    split at h
    · rename_i heq
      rw [heq]
    · obtain ⟨supertrait, hmem, habove⟩ := anyOutcome_eq_true h
      exact .head ⟨supertrait, hmem, rfl⟩ (ih habove)

theorem selectedFamily_eq_ok {availability : TraitAvailability} {fuel : Nat}
    {row : AcceptedImplementation}
    (h : selectedFamily availability fuel required receiver span = .ok row) :
    ∃ head, receiver.typeHead = some head ∧
      availability.accepted.familyFor required head = some row := by
  unfold selectedFamily at h
  split at h
  · cases h
  · rename_i head hhead
    split at h
    · rename_i implementation hrow
      cases h
      exact ⟨head, hhead, hrow⟩
    · obtain ⟨rejection, -, h⟩ := Outcome.peel h
      cases h

theorem provable_of_proveTrait {unavailable : List EqualityUnavailable} :
    ∀ {fuel : Nat} {required : TraitId} {receiver : TypeRef},
      proveTrait ⟨traits, unavailable⟩ assumptions span fuel required receiver = .ok () →
      Provable traits assumptions required receiver := by
  intro fuel
  induction fuel with intro required receiver h
  | zero => cases h
  | succ fuel ih =>
    by_cases hparameter : ∃ parameter, receiver = .parameterType parameter
    · obtain ⟨parameter, rfl⟩ := hparameter
      rw [proveTrait_parameter] at h
      obtain ⟨known, hknown, h⟩ := Outcome.peel h
      cases known with
      | false => cases h
      | true =>
        obtain ⟨assumption, hmem, htest⟩ := anyOutcome_eq_true hknown
        obtain ⟨entailed, hentailed, htest⟩ := Outcome.peel htest
        have hboth : assumption.parameter = parameter ∧ entailed = true := by simpa using htest
        obtain ⟨rfl, rfl⟩ := hboth
        exact .assumed hmem (.of_entails hentailed)
    · have hselected : ∃ row, selectedFamily ⟨traits, unavailable⟩ fuel required receiver span
          = .ok row ∧ row.parameterBounds.zipIdx.forM
            (proveBounds (proveTrait ⟨traits, unavailable⟩ assumptions span fuel)
              receiver.receiverArguments span) = .ok () := by
        cases receiver with
        | parameterType parameter => exact absurd ⟨parameter, rfl⟩ hparameter
        | _ => exact Outcome.peel h
      obtain ⟨row, hrow, hbounds⟩ := hselected
      obtain ⟨head, hhead, hfamily⟩ := selectedFamily_eq_ok hrow
      have hall := Outcome.forM_eq_ok.mp hbounds
      have hat : ∀ (position : Nat) (bounds : List LocatedTrait),
          row.parameterBounds[position]? = some bounds →
          ∃ argument, receiver.receiverArguments[position]? = some argument ∧
            ∀ bound ∈ bounds, Provable traits assumptions bound.requiredTrait argument := by
        intro position bounds hposition
        have hchecked := hall (bounds, position) (List.mem_zipIdx_iff_getElem?.mpr hposition)
        unfold proveBounds at hchecked
        split at hchecked
        · cases hchecked
        · rename_i argument hargument
          refine ⟨argument, hargument, fun bound hbound => ?_⟩
          exact ih (Outcome.forM_eq_ok.mp hchecked bound hbound)
      refine .family hhead hfamily ?_ ?_
      · by_contra hlt
        have hposition : receiver.receiverArguments.length < row.parameterBounds.length := by omega
        obtain ⟨argument, hargument, -⟩ := hat _ _ (List.getElem?_eq_getElem hposition)
        simp at hargument
      · intro position bounds argument bound hposition hargument hbound
        obtain ⟨found, hfound, hproved⟩ := hat position bounds hposition
        rw [hargument] at hfound
        cases hfound
        exact hproved bound hbound

theorem Provable.settles (hacyclic : Acyclic traits.declarations)
    (unavailable : List EqualityUnavailable) (span : Span)
    (h : Provable traits assumptions required receiver) :
    Outcome.Settles
      (fun n => proveTrait ⟨traits, unavailable⟩ assumptions span n required receiver)
      (.ok ()) := by
  induction h with
  | @assumed required assumption hmem hentails =>
    have hsearch := anyOutcome_settles
      (f := fun n (other : TraitRequirement) => do
        let entailed ← entails (ε := CheckError) traits.declarations n other.requiredTrait required
        .ok (decide (other.parameter = assumption.parameter) && entailed))
      (P := fun other => other.parameter = assumption.parameter ∧
        Entails traits.declarations other.requiredTrait required) assumptions ?_
    · obtain ⟨known, hknown, hiff⟩ := hsearch
      have hfound : known = true := hiff.mpr ⟨assumption, hmem, rfl, hentails⟩
      subst hfound
      refine Outcome.Settles.succ (fun n => proveTrait_parameter unavailable n required _) ?_
      exact Outcome.Settles.bind_ok hknown Outcome.Settles.ok
    · intro other _
      obtain ⟨b, hb, hiff⟩ := entails_settles (ε := CheckError) hacyclic other.requiredTrait required
      refine ⟨_, Outcome.Settles.bind_ok hb Outcome.Settles.ok, ?_⟩
      simp [hiff]
  | @family required receiver head row hhead hrow harity hbounds ih =>
    refine Outcome.Settles.succ (fun n => proveTrait_family unavailable n hhead) ?_
    refine Outcome.Settles.bind_ok (a := row) ?_ ?_
    · have hselected : ∀ n, selectedFamily ⟨traits, unavailable⟩ n required receiver span
          = .ok row := by
        intro n
        simp [selectedFamily, hhead, hrow]
      exact .closed 0 (by simp) hselected
    · refine Outcome.Settles.forM _ ?_
      rintro ⟨bounds, position⟩ hmem
      have hposition := List.mem_zipIdx_iff_getElem?.mp hmem
      have hlt : position < row.parameterBounds.length := (List.getElem?_eq_some_iff.mp hposition).1
      have hargument := List.getElem?_eq_getElem
        (l := receiver.receiverArguments) (i := position) (by omega)
      simp only [proveBounds, hargument]
      refine Outcome.Settles.forM _ fun bound hbound => ?_
      exact ih position bounds _ bound hposition hargument hbound

/-- `prove_trait` ends, without error. -/
def Proves (availability : TraitAvailability) (assumptions : List TraitRequirement) (span : Span)
    (required : TraitId) (receiver : TypeRef) : Prop :=
  Outcome.Settles (fun n => proveTrait availability assumptions span n required receiver) (.ok ())

theorem proves_iff (hacyclic : Acyclic traits.declarations)
    {unavailable : List EqualityUnavailable} :
    Proves ⟨traits, unavailable⟩ assumptions span required receiver ↔
      Provable traits assumptions required receiver := by
  constructor
  · rintro ⟨-, least, hleast⟩
    exact provable_of_proveTrait (hleast least le_rfl)
  · intro h
    exact h.settles hacyclic unavailable span

/-! ## Supertraits -/

/-- Each family's direct supertraits are implemented for its head, under bounds that its
own entail position by position. -/
def SupertraitsImplemented (traits : AcceptedTraits) : Prop :=
  ∀ (required above : TraitId) (head : TypeHead) (row : AcceptedImplementation),
    traits.familyFor required head = some row → Direct traits.declarations required above →
    ∃ family, traits.familyFor above head = some family ∧
      ∀ (position : Nat) (bounds : List LocatedTrait),
        family.parameterBounds[position]? = some bounds →
        ∃ held, row.parameterBounds[position]? = some held ∧
          ∀ bound ∈ bounds, ∃ declared ∈ held,
            Entails traits.declarations declared.requiredTrait bound.requiredTrait

theorem Provable.entailed (hclosed : SupertraitsImplemented traits) {above : TraitId}
    (h : Provable traits assumptions required receiver)
    (habove : Entails traits.declarations required above) :
    Provable traits assumptions above receiver := by
  induction h generalizing above with
  | assumed hmem hentails => exact .assumed hmem (hentails.trans habove)
  | @family required receiver head row hhead hrow harity hbounds ih =>
    -- Along the supertraits the family changes, but everything its bounds entail stays
    -- provable of the arguments.
    have hfamily : ∃ family, traits.familyFor above head = some family ∧
        family.parameterBounds.length ≤ receiver.receiverArguments.length ∧
        ∀ (position : Nat) (bounds : List LocatedTrait) (argument : TypeRef)
          (bound : LocatedTrait), family.parameterBounds[position]? = some bounds →
          receiver.receiverArguments[position]? = some argument → bound ∈ bounds →
          ∀ entailed, Entails traits.declarations bound.requiredTrait entailed →
            Provable traits assumptions entailed argument := by
      induction habove with
      | refl =>
        refine ⟨row, hrow, harity, ?_⟩
        intro position bounds argument bound hposition hargument hbound entailed hentailed
        exact ih position bounds argument bound hposition hargument hbound hentailed
      | tail _ hdirect ihabove =>
        obtain ⟨below, hbelow, hlength, hheld⟩ := ihabove
        obtain ⟨family, hfamily, hentailed⟩ := hclosed _ _ head below hbelow hdirect
        refine ⟨family, hfamily, ?_, ?_⟩
        · by_contra hlt
          have hposition : below.parameterBounds.length < family.parameterBounds.length := by omega
          obtain ⟨held, hat, -⟩ := hentailed _ _ (List.getElem?_eq_getElem hposition)
          simp at hat
        · intro position bounds argument bound hposition hargument hbound entailed habove
          obtain ⟨held, hat, hall⟩ := hentailed position bounds hposition
          obtain ⟨declared, hdeclared, hdown⟩ := hall bound hbound
          exact hheld position held argument declared hat hargument hdeclared entailed
            (hdown.trans habove)
    obtain ⟨family, hfound, hlength, hproved⟩ := hfamily
    refine .family hhead hfound hlength ?_
    intro position bounds argument bound hposition hargument hbound
    exact hproved position bounds argument bound hposition hargument hbound _ .refl

/-! ## Substitution -/

mutual

/-- Every parameter replaced at once. -/
def TypeRef.instantiate (image : TypeParameterId → TypeRef) : TypeRef → TypeRef
  | .parameterType id => image id
  | .listType element => .listType (element.instantiate image)
  | .tupleType elements => .tupleType (instantiateAll image elements)
  | .nominalType owner arguments => .nominalType owner (instantiateAll image arguments)
  | .callableType purity parameters result =>
      .callableType purity (instantiateAll image parameters) (result.instantiate image)
  | .voidType => .voidType
  | .intType => .intType
  | .floatType => .floatType
  | .stringType => .stringType

def instantiateAll (image : TypeParameterId → TypeRef) : List TypeRef → List TypeRef
  | [] => []
  | value :: values => value.instantiate image :: instantiateAll image values

end

/-- What `substitute_type` puts for a parameter; it reports the others. -/
def Substitution.image (substitution : Substitution) (id : TypeParameterId) : TypeRef :=
  if id.owner = substitution.owner then (substitution.values[id.position]?).getD (.parameterType id)
  else .parameterType id

mutual

theorem substituteType_eq_instantiate {substitution : Substitution} {span : Span} :
    ∀ {value replaced : TypeRef}, substituteType substitution span value = .ok replaced →
      replaced = value.instantiate substitution.image
  | .parameterType id, replaced, h => by
      unfold substituteType at h
      simp only [TypeRef.instantiate, Substitution.image]
      by_cases howner : id.owner = substitution.owner
      · cases hvalue : substitution.values[id.position]? with
        | none => simp [howner, hvalue, orCheckerInvariant] at h
        | some value =>
          simp only [howner, hvalue, orCheckerInvariant, ↓reduceIte] at h ⊢
          cases h
          rfl
      · simp [howner, orCheckerInvariant] at h
  | .listType element, replaced, h => by
      obtain ⟨value, hvalue, h⟩ := Except.peel h
      cases h
      simp [TypeRef.instantiate, substituteType_eq_instantiate hvalue]
  | .tupleType elements, replaced, h | .nominalType owner arguments, replaced, h => by
      obtain ⟨values, hvalues, h⟩ := Except.peel h
      cases h
      simp [TypeRef.instantiate, substituteTypes_eq_instantiate hvalues]
  | .callableType purity parameters result, replaced, h => by
      obtain ⟨values, hvalues, h⟩ := Except.peel h
      obtain ⟨value, hvalue, h⟩ := Except.peel h
      cases h
      simp [TypeRef.instantiate, substituteTypes_eq_instantiate hvalues,
        substituteType_eq_instantiate hvalue]
  | .voidType, replaced, h => by cases h; rfl
  | .intType, replaced, h => by cases h; rfl
  | .floatType, replaced, h => by cases h; rfl
  | .stringType, replaced, h => by cases h; rfl

theorem substituteTypes_eq_instantiate {substitution : Substitution} {span : Span} :
    ∀ {values replaced : List TypeRef}, substituteTypes substitution span values = .ok replaced →
      replaced = instantiateAll substitution.image values
  | [], replaced, h => by cases h; rfl
  | value :: values, replaced, h => by
      obtain ⟨first, hfirst, h⟩ := Except.peel h
      obtain ⟨rest, hrest, h⟩ := Except.peel h
      cases h
      simp [instantiateAll, substituteType_eq_instantiate hfirst, substituteTypes_eq_instantiate
        hrest]

end

theorem instantiateAll_eq_map (image : TypeParameterId → TypeRef) (values : List TypeRef) :
    instantiateAll image values = values.map (TypeRef.instantiate image) := by
  induction values with
  | nil => rfl
  | cons value values ih => simp [instantiateAll, ih]

theorem TypeRef.typeHead_instantiate {image : TypeParameterId → TypeRef}
    (h : receiver.typeHead = some head) : (receiver.instantiate image).typeHead = some head := by
  cases receiver with
  | nominalType owner arguments =>
    rw [← h]
    cases owner <;> rfl
  | parameterType id => cases h
  | tupleType elements => cases h
  | callableType purity parameters result => cases h
  | _ => exact h

theorem TypeRef.receiverArguments_instantiate (image : TypeParameterId → TypeRef)
    (h : receiver.typeHead = some head) :
    (receiver.instantiate image).receiverArguments =
      receiver.receiverArguments.map (TypeRef.instantiate image) := by
  cases receiver with
  | nominalType owner arguments => exact instantiateAll_eq_map image arguments
  | parameterType id => cases h
  | _ => rfl

theorem Provable.instantiate (hclosed : SupertraitsImplemented traits)
    {image : TypeParameterId → TypeRef}
    (himage : ∀ assumption ∈ assumptions, Provable traits [] assumption.requiredTrait (image
      assumption.parameter)) (h : Provable traits assumptions required receiver) :
    Provable traits [] required (receiver.instantiate image) := by
  induction h with
  | @assumed required assumption hmem hentails =>
    exact (himage assumption hmem).entailed hclosed hentails
  | @family required receiver head row hhead hrow harity hbounds ih =>
    have harguments := TypeRef.receiverArguments_instantiate image hhead
    refine .family (TypeRef.typeHead_instantiate hhead) hrow (by simpa [harguments] using harity) ?_
    intro position bounds argument bound hposition hargument hbound
    rw [harguments, List.getElem?_map] at hargument
    obtain ⟨written, hwritten, rfl⟩ := Option.map_eq_some_iff.mp hargument
    exact ih position bounds written bound hposition hwritten hbound

theorem Provable.exists_family (h : Provable traits [] required receiver) :
    ∃ head row, receiver.typeHead = some head ∧ traits.familyFor required head = some row := by
  cases h with
  | assumed hmem _ => cases hmem
  | family hhead hrow _ _ => exact ⟨_, _, hhead, hrow⟩

end Blorp.Check
