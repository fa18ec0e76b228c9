import Blorp.Check.TraitProofs

/-!
# Accepted implementations

What the declaration checks leave: the rows of `validate_implementations` with the automatic
equalities of `prepare_equality_availability`, the rows that `finalize_trait_instances`
keeps, and the supertrait obligations of `validate_supertrait_implementations` over those.
-/

namespace Blorp.Check

open Fuel

/-! ## Tables -/

/-- A table that `implementation_table` built from rows. -/
structure IsTable (table : ImplementationTable) : Prop where
  byKey : table.byKey = table.ordered.map fun row => (row.key, row)
  distinct : (table.ordered.map (·.key)).Nodup
  members : ∀ row ∈ table.ordered, ∀ member ∈ row.methods, member.method.owner = row.traitId

variable {row : AcceptedImplementation}

theorem indexRow_eq_some {byKey after : List (ImplementationKey × AcceptedImplementation)}
    (h : indexRow byKey row = some after) :
    (∀ entry ∈ byKey, entry.1 ≠ row.key) ∧ (∀ member ∈ row.methods, member.method.owner = row.traitId) ∧
      after = byKey ++ [(row.key, row)] := by
  unfold indexRow at h
  dsimp only at h
  split at h
  · rename_i hnew
    simp only [Bool.and_eq_true, Bool.not_eq_true'] at hnew
    obtain ⟨hlacks, hmembers⟩ := hnew
    cases h
    refine ⟨?_, ?_, ?_⟩
    · simpa [Entries.contains] using hlacks
    · simpa using hmembers
    · simp [Entries.put, hlacks]
  · cases h

theorem indexRow_ok {byKey : List (ImplementationKey × AcceptedImplementation)}
    (hnew : ∀ entry ∈ byKey, entry.1 ≠ row.key)
    (hmembers : ∀ member ∈ row.methods, member.method.owner = row.traitId) :
    indexRow byKey row = some (byKey ++ [(row.key, row)]) := by
  have hlacks : Entries.contains (· == ·) byKey row.key = false := by
    simpa [Entries.contains] using hnew
  have hown : (row.methods.any fun member => member.method.owner != row.traitId) = false := by
    simpa using hmembers
  simp [indexRow, hlacks, hown, Entries.put]

theorem exists_implementationTable {rows : List AcceptedImplementation}
    (hdistinct : (rows.map (·.key)).Nodup)
    (hmembers : ∀ row ∈ rows, ∀ member ∈ row.methods, member.method.owner = row.traitId) :
    ∃ table, implementationTable rows = some table := by
  suffices hall : ∀ rest passed : List AcceptedImplementation,
      ((passed ++ rest).map (·.key)).Nodup →
      (∀ row ∈ rest, ∀ member ∈ row.methods, member.method.owner = row.traitId) →
      ∃ byKey, rest.foldlM indexRow (passed.map fun row => (row.key, row)) = some byKey by
    obtain ⟨byKey, hbyKey⟩ := hall rows [] hdistinct hmembers
    exact ⟨⟨rows, byKey⟩, Option.bind_eq_some_iff.mpr ⟨byKey, hbyKey, rfl⟩⟩
  intro rest
  induction rest with intro passed hdistinct hmembers
  | nil => exact ⟨_, rfl⟩
  | cons row rest ih =>
    have hnew : ∀ entry ∈ passed.map fun row => (row.key, row), entry.1 ≠ row.key := by
      intro entry hentry
      obtain ⟨earlier, hearlier, rfl⟩ := List.mem_map.mp hentry
      rw [List.map_append] at hdistinct
      exact (List.nodup_append.mp hdistinct).2.2 _ (List.mem_map_of_mem hearlier) _ List.mem_cons_self
    obtain ⟨byKey, hbyKey⟩ := ih (passed ++ [row]) (by rwa [List.append_assoc])
      fun other hother => hmembers other (List.mem_cons_of_mem _ hother)
    refine ⟨byKey, Option.bind_eq_some_iff.mpr ⟨_, indexRow_ok hnew (hmembers row
      List.mem_cons_self), ?_⟩⟩
    simpa using hbyKey

theorem isTable_of_implementationTable {rows : List AcceptedImplementation}
    {table : ImplementationTable} (h : implementationTable rows = some table) :
    table.ordered = rows ∧ IsTable table := by
  obtain ⟨byKey, hbyKey, h⟩ := Option.bind_eq_some_iff.mp h
  cases h
  suffices hall : ∀ (rest passed : List AcceptedImplementation)
      (entries : List (ImplementationKey × AcceptedImplementation)),
      rest.foldlM indexRow entries = some byKey →
      IsTable ⟨passed, entries⟩ → IsTable ⟨passed ++ rest, byKey⟩ from
    ⟨rfl, hall rows [] [] hbyKey ⟨rfl, by simp, by simp⟩⟩
  intro rest
  induction rest with intro passed entries hfold htable
  | nil =>
    cases hfold
    simpa using htable
  | cons row rest ih =>
    obtain ⟨after, hafter, hfold⟩ := Option.bind_eq_some_iff.mp hfold
    obtain ⟨hnew, hmembers, rfl⟩ := indexRow_eq_some hafter
    have hentries : entries = passed.map fun row => (row.key, row) := htable.byKey
    have hsnoc : IsTable ⟨passed ++ [row], entries ++ [(row.key, row)]⟩ := by
      refine ⟨by simp [hentries], ?_, ?_⟩
      · simp only [List.map_append, List.map_cons, List.map_nil]
        refine List.nodup_append.mpr ⟨htable.distinct, by simp, ?_⟩
        intro key hkey other hother
        obtain ⟨earlier, hearlier, rfl⟩ := List.mem_map.mp hkey
        rw [List.mem_singleton.mp hother]
        exact hnew (earlier.key, earlier) (by simpa [hentries] using hearlier)
      · intro other hother
        rcases List.mem_append.mp hother with hother | hother
        · exact htable.members other hother
        · rw [List.mem_singleton.mp hother]
          exact hmembers
    simpa using ih (passed ++ [row]) _ hfold hsnoc

theorem IsTable.familyFor_iff {traits : AcceptedTraits} (h : IsTable traits.implementations)
    {required : TraitId} {head : TypeHead} :
    traits.familyFor required head = some row ↔
      row ∈ traits.implementations.ordered ∧ row.traitId = required ∧ row.receiverHead = head := by
  unfold AcceptedTraits.familyFor Entries.lookup
  rw [h.byKey, List.find?_map, Option.map_map, Option.map_eq_some_iff]
  constructor
  · rintro ⟨found, hfound, rfl⟩
    have hkey : found.key = ⟨required, head⟩ := by simpa using List.find?_some hfound
    refine ⟨List.mem_of_find?_eq_some hfound, ?_, ?_⟩
    · exact congrArg ImplementationKey.traitId hkey
    · exact congrArg ImplementationKey.head hkey
  · rintro ⟨hmem, rfl, rfl⟩
    have hfound : (traits.implementations.ordered.find?
        ((fun entry => entry.1 == row.key) ∘ fun row => (row.key, row))).isSome := by
      rw [List.find?_isSome]
      exact ⟨row, hmem, by simp⟩
    obtain ⟨found, hfound⟩ := Option.isSome_iff_exists.mp hfound
    refine ⟨found, hfound, ?_⟩
    have hkey : found.key = row.key := by simpa using List.find?_some hfound
    exact List.inj_on_of_nodup_map h.distinct (List.mem_of_find?_eq_some hfound) hmem hkey

/-! ## Rows -/

section Rows

variable (implementationTrait : ModuleId → Nat → Option TraitId)
  (rows : List WrittenImplementation) (headers : List ImplementationHeader)

/-- How a row comes into the table: written, or derived for an aggregate. -/
inductive AcceptedRow (traits : AcceptedTraits) : AcceptedImplementation → Prop
  | authored (written : WrittenImplementation) (bodies : List (TraitMethodId × FunctionId))
      {header : ImplementationHeader} {owner : TraitId} {declaration : AcceptedTrait}
      {row : AcceptedImplementation} (hwritten : written ∈ rows)
      (howner : implementationTrait written.module written.id = some owner)
      (hheader : headers[written.id]? = some header)
      (hdeclaration : traits.declarations[owner]? = some declaration)
      (haccepted : acceptedImplementation written header owner declaration bodies = .ok row) :
      AcceptedRow traits row
  | automatic {contract : CanonicalEquality} {declaration : AcceptedTrait} (span : Span)
      (candidate : EqualityCandidate) (parameters : List TypeParameterId)
      (hequality : traits.equality = some contract)
      (hdeclaration : traits.declarations[contract.canonicalOwner]? = some declaration) :
      AcceptedRow traits
        (supportedImplementation span candidate parameters declaration contract.canonicalOwner)

/-- What the declaration checks have established once they all end without error. -/
structure Accepted (availability : TraitAvailability) (final : FinalTraits) : Prop where
  contracts : Acyclic availability.accepted.declarations
  /-- `accept_equality` admits no supertraits. -/
  equality : ∀ (contract : CanonicalEquality) (declaration : AcceptedTrait),
    availability.accepted.equality = some contract →
    availability.accepted.declarations[contract.canonicalOwner]? = some declaration →
    declaration.supertraits = []
  table : implementationTable availability.accepted.implementations.ordered =
    some availability.accepted.implementations
  accepted : ∀ row ∈ availability.accepted.implementations.ordered,
    AcceptedRow implementationTrait rows headers availability.accepted row
  sealed : ∃ removed, finalTraits availability.accepted removed = .ok final
  validated : ∃ fuel, validateSupertraitImplementations implementationTrait rows headers
    availability final fuel = .ok ()

end Rows

theorem completedMembers_complete {span : Span} :
    ∀ {methods : List AcceptedTraitMethod} {members last : List ImplementedMethod},
      completedMembers span methods members = .ok last →
      members <+: last ∧ ∀ method ∈ methods, ∃ member ∈ last, member.method = method.id := by
  intro methods
  induction methods with intro members last h
  | nil =>
    cases h
    exact ⟨List.prefix_refl _, by simp⟩
  | cons method methods ih =>
    obtain ⟨next, hnext, h⟩ := Except.peel h
    obtain ⟨hgrows, hrest⟩ := ih h
    have hfirst : members <+: next ∧ ∃ member ∈ next, member.method = method.id := by
      dsimp only at hnext
      split at hnext
      · rename_i hany
        cases hnext
        exact ⟨List.prefix_refl _, by simpa using hany⟩
      · split at hnext
        · rename_i function hdefault
          cases hnext
          exact ⟨List.prefix_append _ _, ⟨method.id, .traitDefault function⟩, by simp, rfl⟩
        · cases hnext
    obtain ⟨hnextGrows, member, hmember, hmethod⟩ := hfirst
    refine ⟨hnextGrows.trans hgrows, ?_⟩
    intro other hother
    rcases List.mem_cons.mp hother with rfl | hother
    · exact ⟨member, hgrows.subset hmember, hmethod⟩
    · exact hrest other hother

theorem derivedMembers_complete (aggregate : AggregateId) (contract : AcceptedTrait) :
    ∀ method ∈ contract.methods,
      ∃ member ∈ derivedMembers aggregate contract, member.method = method.id := by
  intro method hmethod
  refine ⟨_, List.mem_map_of_mem hmethod, ?_⟩
  cases method.defaultBody <;> rfl

/-- The lookup of a method gives the body that the row of the receiver's head has for it. -/
def Selects (traits : AcceptedTraits) (required : TraitId) (method : TraitMethodId)
    (receiver : TypeRef) : Prop :=
  ∃ head row member, receiver.typeHead = some head ∧ traits.familyFor required head = some row ∧
    member ∈ row.methods ∧ member.method = method ∧
    methodBody traits ⟨method, receiver⟩ = some (selectedBody receiver member.body)

section Acceptance

variable {implementationTrait : ModuleId → Nat → Option TraitId}
  {rows : List WrittenImplementation} {headers : List ImplementationHeader}

variable {traits : AcceptedTraits} {written : WrittenImplementation} {header : ImplementationHeader}

theorem AcceptedRow.implements {row : AcceptedImplementation}
    (h : AcceptedRow implementationTrait rows headers traits row) {declaration : AcceptedTrait}
    (hdeclaration : traits.declarations[row.traitId]? = some declaration) :
    ∀ method ∈ declaration.methods, ∃ member ∈ row.methods, member.method = method.id := by
  cases h with
  | @authored written bodies header owner found row hwritten howner hheader hfound haccepted =>
    obtain ⟨members, hmembers, haccepted⟩ := Except.peel haccepted
    cases haccepted
    rw [hfound] at hdeclaration
    cases hdeclaration
    exact (completedMembers_complete hmembers).2
  | automatic span candidate parameters hequality hfound =>
    have hsame := hfound.symm.trans hdeclaration
    cases hsame
    exact derivedMembers_complete _ _

theorem finalTraits_rows {removed : List AggregateId} {final : FinalTraits}
    (htable : IsTable traits.implementations) (h : finalTraits traits removed = .ok final) :
    final.traits.declarations = traits.declarations ∧ IsTable final.traits.implementations ∧
      ∀ row ∈ final.traits.implementations.ordered, row ∈ traits.implementations.ordered := by
  obtain ⟨implementations, himplementations, h⟩ := Except.peel h
  cases h
  unfold keptImplementations at himplementations
  split at himplementations
  · cases himplementations
    exact ⟨rfl, htable, fun row hrow => hrow⟩
  · unfold orCheckerInvariant at himplementations
    split at himplementations
    · rename_i kept hkept
      cases himplementations
      obtain ⟨hordered, hisTable⟩ := isTable_of_implementationTable hkept
      refine ⟨rfl, hisTable, fun row hrow => ?_⟩
      rw [hordered] at hrow
      exact (List.mem_filter.mp hrow).1
    · cases himplementations

theorem boundsEntailed_eq_ok {declarations : List AcceptedTrait} {fuel : Nat}
    {implemented : TraitId} {required : List LocatedTrait} {position : Nat}
    (h : boundsEntailed declarations fuel written header implemented (required, position) =
      .ok ()) :
    ∃ held, header.parameterBounds[position]? = some held ∧
      ∀ bound ∈ required, ∃ declared ∈ held,
        Entails declarations declared.requiredTrait bound.requiredTrait := by
  unfold boundsEntailed at h
  split at h
  · rename_i held parameter hheld hparameter
    refine ⟨held, hheld, fun bound hbound => ?_⟩
    obtain ⟨entailed, hentailed, hbound⟩ :=
      Outcome.peel (Outcome.forM_eq_ok.mp h bound hbound)
    cases entailed with
    | false => cases hbound
    | true =>
      obtain ⟨declared, hdeclared, hentails⟩ := anyOutcome_eq_true hentailed
      exact ⟨declared, hdeclared, .of_entails hentails⟩
  · cases h

theorem implementationObligations_eq_ok {availability : TraitAvailability} {final : FinalTraits}
    {fuel : Nat} {implemented above : TraitId}
    (h : implementationObligations availability final fuel written header implemented = .ok ())
    (hdirect : Direct final.traits.declarations implemented above) :
    ∃ family, final.traits.familyFor above header.receiverHead = some family ∧
      ∀ (position : Nat) (bounds : List LocatedTrait),
        family.parameterBounds[position]? = some bounds →
        ∃ held, header.parameterBounds[position]? = some held ∧
          ∀ bound ∈ bounds, ∃ declared ∈ held,
            Entails final.traits.declarations declared.requiredTrait bound.requiredTrait := by
  unfold implementationObligations at h
  obtain ⟨declaration, hdeclaration, h⟩ := Outcome.peel h
  obtain ⟨supertrait, hmem, rfl⟩ := hdirect
  have hfound : final.traits.declarations[implemented]? = some declaration := by
    unfold orCheckerInvariant at hdeclaration
    split at hdeclaration
    · rename_i found hfound
      cases hdeclaration
      exact hfound
    · cases hdeclaration
  simp only [directSupertraits, hfound] at hmem
  have hchecked := Outcome.forM_eq_ok.mp h supertrait hmem
  split at hchecked
  · cases hchecked
  · rename_i family hfamily
    refine ⟨family, hfamily, fun position bounds hposition => ?_⟩
    exact boundsEntailed_eq_ok (Outcome.forM_eq_ok.mp hchecked (bounds, position)
      (List.mem_zipIdx_iff_getElem?.mpr hposition))

namespace Accepted

variable {availability : TraitAvailability} {final : FinalTraits} {traits : AcceptedTraits}

theorem isTable (h : Accepted implementationTrait rows headers availability final) :
    IsTable availability.accepted.implementations :=
  (isTable_of_implementationTable h.table).2

/-- The traits proofs are checked against, and those that survive finalization: the same
declarations, and rows that acceptance admitted. -/
structure Survives (availability : TraitAvailability) (final : FinalTraits)
    (traits : AcceptedTraits) : Prop where
  isTable : IsTable traits.implementations
  declarations : traits.declarations = availability.accepted.declarations
  rows : ∀ row ∈ traits.implementations.ordered,
    row ∈ availability.accepted.implementations.ordered
  keeps : ∀ row ∈ final.traits.implementations.ordered, row ∈ traits.implementations.ordered

theorem survives (h : Accepted implementationTrait rows headers availability final)
    (htraits : traits = availability.accepted ∨ traits = final.traits) :
    Survives availability final traits := by
  obtain ⟨removed, hsealed⟩ := h.sealed
  obtain ⟨hdeclarations, hisTable, hrows⟩ := finalTraits_rows h.isTable hsealed
  rcases htraits with rfl | rfl
  · exact ⟨h.isTable, rfl, fun _ hrow => hrow, hrows⟩
  · exact ⟨hisTable, hdeclarations, hrows, fun _ hrow => hrow⟩

/-- Every family of an accepted table comes with its supertraits'. -/
theorem closed (h : Accepted implementationTrait rows headers availability final)
    (htraits : traits = availability.accepted ∨ traits = final.traits) :
    SupertraitsImplemented traits := by
  intro required above head row hfamily hdirect
  have hsurvives := h.survives htraits
  obtain ⟨hrow, hrequired, hhead⟩ := hsurvives.isTable.familyFor_iff.mp hfamily
  rw [hsurvives.declarations] at hdirect ⊢
  cases h.accepted row (hsurvives.rows row hrow) with
  | @authored written bodies header owner declaration row hwritten howner hheader hfound
      haccepted =>
    obtain ⟨removed, hsealed⟩ := h.sealed
    obtain ⟨hdeclarations, hisTable, -⟩ := finalTraits_rows h.isTable hsealed
    obtain ⟨members, hmembers, haccepted⟩ := Except.peel haccepted
    cases haccepted
    dsimp only at hrequired hhead
    subst hrequired hhead
    obtain ⟨fuel, hvalidated⟩ := h.validated
    have hobliged := Outcome.forM_eq_ok.mp hvalidated written hwritten
    simp only [howner, hheader] at hobliged
    rw [← hdeclarations] at hdirect ⊢
    obtain ⟨family, hfamily, hbounds⟩ := implementationObligations_eq_ok hobliged hdirect
    obtain ⟨hmem, hkey⟩ := hisTable.familyFor_iff.mp hfamily
    exact ⟨family, hsurvives.isTable.familyFor_iff.mpr ⟨hsurvives.keeps family hmem, hkey⟩, hbounds⟩
  | @automatic contract declaration span candidate parameters hequality hfound =>
    -- Canonical equality has no supertraits.
    obtain ⟨supertrait, hmem, -⟩ := hdirect
    have hat : availability.accepted.declarations[required]? = some declaration := by
      rw [← hrequired]
      exact hfound
    simp only [directSupertraits, hat, h.equality contract declaration hequality hfound] at hmem
    cases hmem

theorem exists_body (h : Accepted implementationTrait rows headers availability final)
    (htraits : traits = availability.accepted ∨ traits = final.traits) {required : TraitId}
    {receiver : TypeRef} (hprovable : Provable traits [] required receiver)
    {declaration : AcceptedTrait} (hdeclaration : traits.declarations[required]? = some declaration)
    {method : AcceptedTraitMethod} (hmethod : method ∈ declaration.methods) :
    Selects traits required method.id receiver := by
  have hsurvives := h.survives htraits
  obtain ⟨head, row, hhead, hfamily⟩ := hprovable.exists_family
  obtain ⟨hrow, rfl, -⟩ := hsurvives.isTable.familyFor_iff.mp hfamily
  rw [hsurvives.declarations] at hdeclaration
  obtain ⟨member, hmember, hsame⟩ :=
    (h.accepted row (hsurvives.rows row hrow)).implements hdeclaration method hmethod
  have howner : method.id.owner = row.traitId := by
    rw [← hsame]
    exact hsurvives.isTable.members row hrow member hmember
  have hfound : (row.methods.find? fun member => member.method == method.id).isSome := by
    rw [List.find?_isSome]
    exact ⟨member, hmember, by simpa using hsame⟩
  obtain ⟨selected, hselected⟩ := Option.isSome_iff_exists.mp hfound
  refine ⟨head, row, selected, hhead, hfamily, List.mem_of_find?_eq_some hselected,
    by simpa using List.find?_some hselected, ?_⟩
  simp [methodBody, hhead, howner, hfamily, hselected]

end Accepted

/-! ## Proofs against an accepted table -/

/-- Trait proofs close under supertraits and under substitution, and a proof without bounds
selects a body for every method.  Both for the traits bodies are checked against and for
those finalization keeps. -/
theorem trait_proofs_closed {availability : TraitAvailability} {final : FinalTraits}
    (h : Accepted implementationTrait rows headers availability final) (traits : AcceptedTraits)
    (htraits : traits = availability.accepted ∨ traits = final.traits)
    (unavailable : List EqualityUnavailable) (span : Span)
    (assumptions : List TraitRequirement) (required : TraitId) (receiver : TypeRef)
    (hproves : Proves ⟨traits, unavailable⟩ assumptions span required receiver) :
    (∀ above, Outcome.Settles
        (fun n => entails (ε := CheckError) traits.declarations n required above) (.ok true) →
      Proves ⟨traits, unavailable⟩ assumptions span above receiver) ∧
    (∀ image : TypeParameterId → TypeRef,
      (∀ assumption ∈ assumptions, Proves ⟨traits, unavailable⟩ [] span assumption.requiredTrait
        (image assumption.parameter)) →
      Proves ⟨traits, unavailable⟩ [] span required (receiver.instantiate image) ∧
      ∀ declaration, traits.declarations[required]? = some declaration →
        ∀ method ∈ declaration.methods,
          Selects traits required method.id (receiver.instantiate image)) ∧
    (∀ (substitution : Substitution) (replaced : TypeRef),
      substituteType substitution span receiver = .ok replaced →
      (∀ assumption ∈ assumptions, ∃ image,
        substituteType substitution span (.parameterType assumption.parameter) = .ok image ∧
          Proves ⟨traits, unavailable⟩ [] span assumption.requiredTrait image) →
      Proves ⟨traits, unavailable⟩ [] span required replaced ∧
      ∀ declaration, traits.declarations[required]? = some declaration →
        ∀ method ∈ declaration.methods,
          Selects traits required method.id replaced) := by
  have hclosed := h.closed htraits
  have hacyclic : Acyclic traits.declarations := by
    rw [(h.survives htraits).declarations]
    exact h.contracts
  simp only [proves_iff hacyclic] at hproves ⊢
  have hinstance : ∀ image : TypeParameterId → TypeRef,
      (∀ assumption ∈ assumptions, Provable traits [] assumption.requiredTrait
        (image assumption.parameter)) →
      Provable traits [] required (receiver.instantiate image) ∧
      ∀ declaration, traits.declarations[required]? = some declaration →
        ∀ method ∈ declaration.methods,
          Selects traits required method.id (receiver.instantiate image) := by
    intro image himage
    have hprovable := hproves.instantiate hclosed himage
    exact ⟨hprovable, fun declaration hdeclaration method hmethod =>
      h.exists_body htraits hprovable hdeclaration hmethod⟩
  refine ⟨?_, hinstance, ?_⟩
  · rintro above ⟨-, least, hleast⟩
    exact hproves.entailed hclosed (.of_entails (hleast least le_rfl))
  · intro substitution replaced hreplaced himages
    rw [substituteType_eq_instantiate hreplaced]
    refine hinstance substitution.image fun assumption hmem => ?_
    obtain ⟨image, himage, hprovable⟩ := himages assumption hmem
    rw [substituteType_eq_instantiate himage] at hprovable
    exact hprovable

end Acceptance

/-! An order above an equality, both for Int and for lists of what has them. -/

def orderedRow (id : Nat) (owner : TraitId) (head : TypeHead) (bounds : List (List LocatedTrait)) :
    AcceptedImplementation :=
  ⟨compilerSpan, owner, head, bounds, [⟨⟨owner, 0⟩, .authoredMethod id⟩], some 0⟩

def orderedRows : List AcceptedImplementation :=
  [orderedRow 0 0 (.primitiveHead .builtinInt) [],
    orderedRow 1 1 (.primitiveHead .builtinInt) [],
    orderedRow 2 0 .listHead [[⟨0, compilerSpan⟩]],
    orderedRow 3 1 .listHead [[⟨1, compilerSpan⟩]]]

def orderedTraits : AcceptedTraits where
  declarations := [⟨0, [], [⟨⟨0, 0⟩, none⟩]⟩, ⟨1, [⟨0, compilerSpan⟩], [⟨⟨1, 0⟩, none⟩]⟩]
  implementations := ⟨orderedRows, orderedRows.map fun row => (row.key, row)⟩
  equality := some ⟨⟨0, 0⟩, none⟩

def orderedHeaders : List ImplementationHeader :=
  orderedRows.map fun row => ⟨row.receiverHead, row.parameterBounds⟩

def orderedWritten : List WrittenImplementation :=
  orderedHeaders.zipIdx.map fun header =>
    ⟨header.2, 0, compilerSpan, .receiverName ⟨0, compilerSpan⟩,
      header.1.parameterBounds.map fun _ => ⟨1, compilerSpan⟩, compilerSpan⟩

def orderedTrait (_ : ModuleId) (id : Nat) : Option TraitId := orderedRows[id]?.map (·.traitId)

theorem orderedTraits_accepted :
    Accepted orderedTrait orderedWritten orderedHeaders ⟨orderedTraits, []⟩ ⟨orderedTraits, []⟩ where
  contracts := by
    refine ⟨?_, ?_⟩
    · intro i declaration h
      rcases i with _ | _ | i
      · cases h
        rfl
      · cases h
        rfl
      · cases h
    · intro declaration h
      simp only [orderedTraits, List.mem_cons, List.not_mem_nil, or_false] at h
      rcases h with rfl | rfl
      · exact ⟨3, rfl⟩
      · exact ⟨3, rfl⟩
  equality := by
    intro contract declaration hequality hdeclaration
    cases hequality
    cases hdeclaration
    rfl
  table := rfl
  accepted := by
    intro row hrow
    simp only [orderedTraits, orderedRows, List.mem_cons, List.not_mem_nil, or_false] at hrow
    rcases hrow with rfl | rfl | rfl | rfl
    · exact .authored orderedWritten[0] [(⟨0, 0⟩, 0)] (List.getElem_mem _) rfl rfl rfl rfl
    · exact .authored orderedWritten[1] [(⟨1, 0⟩, 1)] (List.getElem_mem _) rfl rfl rfl rfl
    · exact .authored orderedWritten[2] [(⟨0, 0⟩, 2)] (List.getElem_mem _) rfl rfl rfl rfl
    · exact .authored orderedWritten[3] [(⟨1, 0⟩, 3)] (List.getElem_mem _) rfl rfl rfl rfl
  sealed := ⟨[], rfl⟩
  validated := ⟨3, rfl⟩

def orderedParameter : TypeParameterId := ⟨.functionDeclaration 0, 0⟩

theorem orderedTraits_int : Provable orderedTraits [] 1 .intType :=
  .family rfl rfl le_rfl fun _ _ _ _ h => by cases h

theorem orderedTraits_list : Provable orderedTraits [⟨orderedParameter, 1, compilerSpan⟩] 1
      (.listType (.parameterType orderedParameter)) := by
  refine .family rfl rfl le_rfl ?_
  intro position bounds argument bound hbounds hargument hbound
  rcases position with _ | position
  · cases hbounds
    cases hargument
    rw [List.mem_singleton.mp hbound]
    exact .assumed (List.mem_singleton_self _) .refl
  · cases hargument

/-- Lists of what has an order have an equality too, and lists of Int have the order. -/
theorem trait_proofs_closed_orderedLists :
    Proves ⟨orderedTraits, []⟩ [⟨orderedParameter, 1, compilerSpan⟩] compilerSpan 0
        (.listType (.parameterType orderedParameter)) ∧
      Proves ⟨orderedTraits, []⟩ [] compilerSpan 1 (.listType .intType) ∧
      Selects orderedTraits 1 ⟨1, 0⟩ (.listType .intType) := by
  have hacyclic := orderedTraits_accepted.contracts
  obtain ⟨habove, hinstance, -⟩ := trait_proofs_closed orderedTraits_accepted orderedTraits (.inl rfl)
    [] compilerSpan [⟨orderedParameter, 1, compilerSpan⟩] 1
    (.listType (.parameterType orderedParameter)) ((proves_iff hacyclic).mpr orderedTraits_list)
  obtain ⟨hproves, hbody⟩ := hinstance (fun _ => .intType) fun assumption hmem => by
    rw [List.mem_singleton.mp hmem]
    exact (proves_iff hacyclic).mpr orderedTraits_int
  exact ⟨habove 0 (.closed 2 (by simp) fun _ => rfl), hproves,
    hbody _ rfl _ (List.mem_singleton_self _)⟩

end Blorp.Check
