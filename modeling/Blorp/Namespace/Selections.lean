import Blorp.Namespace.Visible

/-!
# Selections find what is offered

How the scopes of the modules a module imports answer its selections.
-/

namespace Blorp.Namespace

open Check (NameId ModuleId WrittenName Entity)
open Load (ParsedModuleRow ImportSelection)

/-- A scope that holds what is visible in its module. -/
structure ScopeOk (parsed : ParsedContents) (row : ParsedModuleRow) (scope : ModuleScope) :
    Prop where
  offered : ∀ space name entity, offer (holder scope.names space name) = .ok entity ↔
    Offers parsed row.module space name entity
  holding : ∀ name receiver, holding scope name = .ok (.type receiver) ↔
    HoldsType parsed row.module name receiver
  visible : ∀ space name entity, (∃ held, holder scope.names space name = some held ∧
      sameEntity held.entity entity = true) ↔ Visible parsed row space name entity

theorem claims_unique {entity : Entity} (hnot : ∀ aliased, entity ≠ .alias aliased)
    {space space' : Space} (h : claims entity space = true) (h' : claims entity space' = true) :
    space = space' := by
  cases entity <;> cases space <;> cases space' <;> simp_all [claims]

section

variable {parsed : ParsedContents} {row : ParsedModuleRow}

theorem Declares.origin {entry : Entry} (h : Declares parsed row entry) :
    entry.origin.IsDeclared := by
  rcases h with hrow | ⟨implementation, -, -, id, owner, -, -, method, -, hentry⟩
  · exact (declaredIn_row hrow).origin
  · exact ⟨_, (implementedEntry_method hentry).2⟩

theorem Declares.not_alias {entry : Entry} (h : Declares parsed row entry) :
    ∀ aliased, entry.entity ≠ .alias aliased := by
  rcases h with hrow | ⟨implementation, -, -, id, owner, -, -, method, -, hentry⟩
  · exact (declaredIn_row hrow).not_alias
  · obtain ⟨other, hother⟩ := (implementedEntry_method hentry).1
    intro aliased heq
    rw [heq] at hother
    cases hother

section

variable {module : ModuleId} {space : Space} {name : NameId} {entity : Entity}
    (h : Offers parsed module space name entity)

include h

theorem Offers.claims : claims entity space = true := by
  obtain ⟨row, -, -, entry, -, hclaims, rfl, -⟩ := h
  exact hclaims.space

theorem Offers.not_alias : ∀ aliased, entity ≠ .alias aliased := by
  obtain ⟨row, -, -, entry, hdeclares, -, rfl, -⟩ := h
  exact hdeclares.not_alias

end

/-! ## Bare selections -/

theorem bareSelection_eq_ok {target : ModuleScope} {name : NameId} {entity : Entity} :
    bareSelection target name = .ok entity ↔
      offer (holder target.names .values name) = .ok entity ∧
          (∀ variant, entity ≠ .constructor variant) ∧
          (∀ type, ¬ offer (holder target.names .types name) = .ok type) ∨
        offer (holder target.names .types name) = .ok entity ∧
          ∀ value, offer (holder target.names .values name) = .ok value →
            ∃ variant, value = .constructor variant := by
  unfold bareSelection bareValue bareType
  cases hvalues : offer (holder target.names .values name) with
  | error reason =>
    cases htypes : offer (holder target.names .types name) with
    | error typeReason => simp
    | ok type => simp
  | ok value =>
    cases htypes : offer (holder target.names .types name) with
    | error typeReason => cases value <;> simp <;> rintro rfl <;> simp
    | ok type => cases value <;> simp

/-! ## One selection -/

variable {target : ModuleId} {trow : ParsedModuleRow} {scope : ModuleScope}

section

variable (hscope : ScopeOk parsed trow scope) (htarget : trow.module = target)

include hscope htarget

theorem selectionOk_named (written : WrittenName) : SelectionOk scope (.namedSelection written) ↔
      SelectionOffered parsed row target (.namedSelection written) := by
  have hoffered := fun space entity => htarget ▸ hscope.offered space written.id entity
  simp only [SelectionOk, SelectionOffered, bareSelection_eq_ok, hoffered]
  constructor
  · rintro ⟨entity, ⟨hvalue, hbare, hnone⟩ | ⟨htype, hvalues⟩⟩
    · refine ⟨⟨.values, entity, .named hbare, hvalue⟩, ?_⟩
      rintro ⟨value, type, -, -, htype⟩
      exact hnone type htype
    · refine ⟨⟨.types, entity, .named ?_, htype⟩, ?_⟩
      · rintro variant rfl
        exact Bool.noConfusion htype.claims
      · rintro ⟨value, type, hpicks, hvalue, -⟩
        obtain ⟨variant, rfl⟩ := hvalues value hvalue
        cases hpicks with
        | named bare => exact bare variant rfl
  · rintro ⟨⟨space, entity, hpicks, hentity⟩, hone⟩
    obtain ⟨hbare⟩ := hpicks
    cases space with
    | values =>
      refine ⟨entity, .inl ⟨hentity, hbare, fun type htype => hone ⟨entity, type, .named hbare, ?_⟩⟩⟩
      exact ⟨hentity, htype⟩
    | types =>
      refine ⟨entity, .inr ⟨hentity, fun value hvalue => ?_⟩⟩
      by_contra hnot
      exact hone ⟨value, entity, .named (not_exists.mp hnot), hvalue, hentity⟩

theorem selectionOk_constructor (written : WrittenName) (listed : List WrittenName) :
    SelectionOk scope (.constructorSelection written listed) ↔
      SelectionOffered parsed row target (.constructorSelection written listed) := by
  subst htarget
  simp [SelectionOk, SelectionOffered, ConstructorOk, hscope.offered]

theorem selectionEntries_iff {selection : ImportSelection} (hok : SelectionOk scope selection)
    (space : Space) (name : NameId) (entity : Entity) :
    (∃ entry ∈ selectionEntries scope selection, Claims entry space name ∧
        entry.entity = entity) ↔
      Picks selection name entity ∧ Offers parsed target space name entity := by
  subst htarget
  cases selection with
  | namedSelection written =>
    obtain ⟨picked, hpicked⟩ := hok
    simp only [selectionEntries, hpicked, List.mem_singleton, exists_eq_left]
    rw [bareSelection_eq_ok] at hpicked
    simp only [hscope.offered] at hpicked
    constructor
    · rintro ⟨⟨rfl, hspace⟩, rfl⟩
      dsimp only at hspace ⊢
      rcases hpicked with ⟨hvalue, hbare, -⟩ | ⟨htype, -⟩
      · obtain rfl := claims_unique hvalue.not_alias hspace hvalue.claims
        exact ⟨.named hbare, hvalue⟩
      · obtain rfl := claims_unique htype.not_alias hspace htype.claims
        refine ⟨.named ?_, htype⟩
        rintro variant rfl
        exact Bool.noConfusion htype.claims
    · rintro ⟨hpicks, hoffers⟩
      cases hpicks with
      | named hbare =>
        have hsame : picked = entity := by
          cases space with
          | values =>
            have hvalue := (hscope.offered _ _ _).mpr hoffers
            rcases hpicked with ⟨hpicked, -, -⟩ | ⟨-, hvalues⟩
            · rw [(hscope.offered _ _ _).mpr hpicked] at hvalue
              exact Except.ok.inj hvalue
            · obtain ⟨variant, heq⟩ := hvalues entity hoffers
              exact absurd heq (hbare variant)
          | types =>
            have htype := (hscope.offered _ _ _).mpr hoffers
            rcases hpicked with ⟨-, -, hnone⟩ | ⟨hpicked, -⟩
            · exact absurd hoffers (hnone entity)
            · rw [(hscope.offered _ _ _).mpr hpicked] at htype
              exact Except.ok.inj htype
        subst hsame
        exact ⟨⟨rfl, hoffers.claims⟩, rfl⟩
  | constructorSelection written listed =>
    obtain ⟨owner, hunion, hlisted⟩ := hok
    simp only [selectionEntries, hunion, List.mem_cons, exists_eq_or_imp, List.mem_filterMap]
    constructor
    · rintro (⟨⟨rfl, hspace⟩, rfl⟩ | ⟨entry, ⟨constructor, hconstructor, hentry⟩, hclaims, rfl⟩)
      · have hoffers := (hscope.offered _ _ _).mp hunion
        obtain rfl := claims_unique hoffers.not_alias hspace hoffers.claims
        exact ⟨.union, hoffers⟩
      · obtain ⟨variant, hvariant, -⟩ := hlisted constructor hconstructor
        obtain rfl : ⟨constructor, .constructor variant, .imported⟩ = entry := by
          simpa [constructorEntry, hvariant] using hentry
        obtain rfl : constructor.id = name := hclaims.spelling
        have hoffers := (hscope.offered _ _ _).mp hvariant
        obtain rfl := claims_unique hoffers.not_alias hclaims.space hoffers.claims
        exact ⟨.constructor hconstructor, hoffers⟩
    · rintro ⟨hpicks, hoffers⟩
      cases hpicks with
      | union =>
        left
        obtain rfl : space = .types := claims_unique hoffers.not_alias hoffers.claims rfl
        rw [(hscope.offered _ _ _).mpr hoffers] at hunion
        cases hunion
        exact ⟨⟨rfl, rfl⟩, rfl⟩
      | @constructor _ constructor _ variant hconstructor =>
        right
        obtain rfl : space = .values := claims_unique hoffers.not_alias hoffers.claims rfl
        have hoffer := (hscope.offered _ _ _).mpr hoffers
        exact ⟨⟨constructor, .constructor variant, .imported⟩,
          ⟨constructor, hconstructor, by simp [constructorEntry, hoffer]⟩, ⟨rfl, rfl⟩, rfl⟩
  | methodsSelection written span =>
    simp only [selectionEntries, List.not_mem_nil, false_and, exists_false, false_iff]
    rintro ⟨hpicks, -⟩
    cases hpicks

end

end

end Blorp.Namespace
