import Blorp.Namespace.Selections

/-!
# One module

A module's scope, built from correct scopes of the modules it imports, is correct, and it
is built without a problem iff the module is accepted.
-/

namespace Blorp.Namespace

open Check (NameId ModuleId Entity TypeHead)
open Load (ModuleImport ParsedModuleRow)

/-- What a module is built from: correct scopes of its targets, the names the prelude
supplies and its own declarations. -/
structure RowContext (parsed : ParsedContents) (row : ParsedModuleRow) (scopes : List ModuleScope)
    (received declared : List Entry) : Prop where
  «sealed» : Sealed parsed
  row_mem : row ∈ parsed.dependencyOrder
  targets : ∀ request ∈ row.imports, ∃ trow ∈ parsed.dependencyOrder,
    trow.module = request.target ∧ trow.module ≠ row.module ∧
      ∃ scope, scopes[request.target]? = some scope ∧ ScopeOk parsed trow scope
  received_supplied : ∀ space name entity, (∃ entry ∈ received, Claims entry space name ∧
      sameEntity entry.entity entity = true) ↔
    row.role = .userModule ∧ Supplied parsed space name entity
  implicit : ∀ entry ∈ received, entry.origin = .implicit
  /-- What the prelude selects is declared in modules before this one. -/
  supplied : row.role = .userModule → ∀ prelude ∈ parsed.dependencyOrder,
    prelude.module = parsed.prelude → ∀ request ∈ prelude.imports, request.target ≠ row.module
  declared_perm : declared.Perm (declaredIn parsed row.module)

def importEntries (scopes : List ModuleScope) (imports : List ModuleImport) : List Entry :=
  imports.flatMap fun request => requestEntries (scopes.getD request.target emptyScope) request

section

variable {parsed : ParsedContents} {row : ParsedModuleRow} {scopes : List ModuleScope}
  {received declared : List Entry}

namespace RowContext

variable (ctx : RowContext parsed row scopes received declared)

include ctx

theorem target_scope {request : ModuleImport} (hrequest : request ∈ row.imports) :
    ∃ trow ∈ parsed.dependencyOrder, trow.module = request.target ∧
      trow.module ≠ row.module ∧
        ScopeOk parsed trow (scopes.getD request.target emptyScope) := by
  obtain ⟨trow, hmem, htarget, hne, scope, hscope, hok⟩ := ctx.targets request hrequest
  refine ⟨trow, hmem, htarget, hne, ?_⟩
  rw [List.getD_eq_getElem?_getD, hscope]
  exact hok

theorem importEntries_iff (hok : ∀ request ∈ row.imports,
    RequestOk (scopes.getD request.target emptyScope) request) (space : Space) (name : NameId)
    (entity : Entity) :
    (∃ entry ∈ importEntries scopes row.imports, Claims entry space name ∧
        sameEntity entry.entity entity = true) ↔
      Aliased row name entity ∨ Selects parsed row space name entity := by
  constructor
  · rintro ⟨entry, hentry, hclaims, hsame⟩
    obtain ⟨request, hrequest, hentry⟩ := List.mem_flatMap.mp hentry
    rcases List.mem_append.mp hentry with halias | hselected
    · left
      obtain ⟨written, hwritten, rfl⟩ : ∃ written, request.moduleAlias = some written ∧
          (⟨written, .alias ⟨request.target, request.path⟩, .imported⟩ : Entry) = entry := by
        simpa [aliasEntry] using halias
      exact ⟨request, hrequest, written, hwritten, hclaims.spelling, hsame⟩
    · right
      obtain ⟨selection, hselection, hentry⟩ := List.mem_flatMap.mp hselected
      obtain ⟨trow, -, htarget, -, hscope⟩ := ctx.target_scope hrequest
      obtain ⟨hpicks, hoffers⟩ := (selectionEntries_iff hscope htarget
        (hok request hrequest selection hselection) space name entry.entity).mp
          ⟨entry, hentry, hclaims, rfl⟩
      obtain rfl := sameEntity_eq hsame hoffers.not_alias
      exact ⟨request, hrequest, selection, hselection, hpicks, hoffers⟩
  · rintro (⟨request, hrequest, written, hwritten, rfl, hsame⟩ |
      ⟨request, hrequest, selection, hselection, hpicks, hoffers⟩)
    · refine ⟨⟨written, .alias ⟨request.target, request.path⟩, .imported⟩, ?_, ⟨rfl, rfl⟩, hsame⟩
      refine List.mem_flatMap.mpr ⟨request, hrequest, List.mem_append_left _ ?_⟩
      simp [aliasEntry, hwritten]
    · obtain ⟨trow, -, htarget, -, hscope⟩ := ctx.target_scope hrequest
      obtain ⟨entry, hentry, hclaims, rfl⟩ := (selectionEntries_iff hscope htarget
        (hok request hrequest selection hselection) space name entity).mpr ⟨hpicks, hoffers⟩
      refine ⟨entry, ?_, hclaims, sameEntity_refl _⟩
      exact List.mem_flatMap.mpr ⟨request, hrequest, List.mem_append_right _
        (List.mem_flatMap.mpr ⟨selection, hselection, hentry⟩)⟩

omit ctx in
theorem importEntries_origin {imports : List ModuleImport} {entry : Entry}
    (h : entry ∈ importEntries scopes imports) : entry.origin = .imported := by
  obtain ⟨request, -, hentry⟩ := List.mem_flatMap.mp h
  rcases List.mem_append.mp hentry with halias | hselected
  · obtain ⟨written, -, rfl⟩ : ∃ written, request.moduleAlias = some written ∧
        (⟨written, .alias ⟨request.target, request.path⟩, .imported⟩ : Entry) = entry := by
      simpa [aliasEntry] using halias
    rfl
  · obtain ⟨selection, -, hentry⟩ := List.mem_flatMap.mp hselected
    cases selection with
    | namedSelection written =>
      simp only [selectionEntries] at hentry
      split at hentry
      · obtain rfl := List.mem_singleton.mp hentry
        rfl
      · cases hentry
    | constructorSelection written listed =>
      simp only [selectionEntries] at hentry
      split at hentry
      · rcases List.mem_cons.mp hentry with rfl | hconstructor
        · rfl
        · obtain ⟨constructor, -, hsome⟩ := List.mem_filterMap.mp hconstructor
          unfold constructorEntry at hsome
          split at hsome
          · cases hsome
            rfl
          · cases hsome
      · cases hentry
    | methodsSelection written span => cases hentry

theorem received_iff (hok : ∀ request ∈ row.imports,
    RequestOk (scopes.getD request.target emptyScope) request) (space : Space) (name : NameId)
    (entity : Entity) :
    (∃ entry ∈ received ++ importEntries scopes row.imports, Claims entry space name ∧
        sameEntity entry.entity entity = true) ↔ Received parsed row space name entity := by
  rw [Received, ← or_assoc, ← ctx.importEntries_iff hok, ← ctx.received_supplied, or_comm]
  simp [or_and_right, exists_or]

theorem foreign {space : Space} {name : NameId} {entity : Entity}
    (h : Received parsed row space name entity) {entry : Entry}
    (hentry : entry ∈ declaredIn parsed row.module)
    (hsame : sameEntity entry.entity entity = true) : IsMethod entry.entity := by
  have hrow := declaredIn_row hentry
  obtain rfl := sameEntity_eq hsame hrow.not_alias
  have hhome := hrow.home ctx.sealed
  have hoffers : ∀ {target : ModuleId}, target ≠ row.module →
      Offers parsed target space name entry.entity → IsMethod entry.entity := by
    rintro target hne ⟨trow, -, rfl, other, hother | himplemented, -, heq, -⟩
    · have hother := (declaredIn_row hother).home ctx.sealed
      rw [heq, hhome] at hother
      exact absurd (Option.some.inj hother).symm hne
    · obtain ⟨implementation, -, -, id, owner, -, -, method, -, hmethod⟩ := himplemented
      exact heq ▸ (implementedEntry_method hmethod).1
  rcases h with ⟨request, -, written, -, -, halias⟩ |
    ⟨request, hrequest, selection, -, -, hoffered⟩ |
    ⟨huser, prelude, hprelude, hmodule, ⟨request, hrequest, selection, -, -, hoffered⟩, -⟩
  · exact absurd (sameEntity_symm halias) (by
      cases hentity : entry.entity with
      | «alias» aliased => exact absurd hentity (hrow.not_alias aliased)
      | _ => simp [sameEntity])
  · obtain ⟨trow, -, htarget, hne, -⟩ := ctx.targets request hrequest
    exact hoffers (htarget ▸ hne) hoffered
  · exact hoffers (ctx.supplied huser prelude hprelude hmodule request hrequest) hoffered

/-! ## The entries of a module -/

def Implementations (parsed : ParsedContents) (row : ParsedModuleRow) : List ImplRow :=
  parsed.declarations.implementations.filter (·.header.module == row.module)

variable (hok : ∀ request ∈ row.imports,
  RequestOk (scopes.getD request.target emptyScope) request) {extra : List Entry}

section

variable (hsound : ∀ entry ∈ extra, ∃ implementation ∈ Implementations parsed row,
  ImplementedBy parsed.declarations (TraitNamed parsed row) implementation entry)

include hsound

theorem declares_of_mem {entry : Entry} (h : entry ∈ declared ++ extra) :
    Declares parsed row entry := by
  rcases List.mem_append.mp h with hdeclared | hextra
  · exact .inl (ctx.declared_perm.mem_iff.mp hdeclared)
  · obtain ⟨implementation, himplementation, himplemented⟩ := hsound entry hextra
    obtain ⟨hmem, hhere⟩ := List.mem_filter.mp himplementation
    exact .inr ⟨implementation, hmem, by simpa using hhere, himplemented⟩

include hok

theorem visible_of_mem {entry : Entry}
    (h : entry ∈ received ++ importEntries scopes row.imports ++ declared ++ extra) {space : Space}
    {name : NameId} (hclaims : Claims entry space name) :
    Visible parsed row space name entry.entity := by
  rw [List.append_assoc, List.mem_append] at h
  rcases h with hforeign | hown
  · exact .inr ((ctx.received_iff hok ..).mp ⟨entry, hforeign, hclaims, sameEntity_refl _⟩)
  · exact .inl ⟨entry, ctx.declares_of_mem hsound hown, hclaims, sameEntity_refl _⟩

theorem pairwise_of (hone : ∀ space name first second, Visible parsed row space name first →
      Visible parsed row space name second → sameEntity first second = true)
    (hapart : (declaredIn parsed row.module).Pairwise DeclaredApart) :
    (received ++ importEntries scopes row.imports ++ declared ++ extra).Pairwise Compatible := by
  rw [← ctx.declared_perm.pairwise_iff DeclaredApart.symm] at hapart
  have hsame : ∀ a ∈ received ++ importEntries scopes row.imports ++ declared ++ extra,
      ∀ b ∈ received ++ importEntries scopes row.imports ++ declared ++ extra,
      ∀ space name, Claims a space name → Claims b space name →
      sameEntity a.entity b.entity = true := by
    intro a ha b hb space name hclaims hclaims'
    exact hone space name _ _ (ctx.visible_of_mem hok hsound ha hclaims)
      (ctx.visible_of_mem hok hsound hb hclaims')
  have hreceived : ∀ a ∈ received ++ importEntries scopes row.imports,
      a ∈ received ++ importEntries scopes row.imports ++ declared ++ extra := fun a ha =>
    List.mem_append_left _ (List.mem_append_left _ ha)
  have hdeclared : ∀ a ∈ declared,
      a ∈ received ++ importEntries scopes row.imports ++ declared ++ extra := fun a ha =>
    List.mem_append_left _ (List.mem_append_right _ ha)
  have himplemented : ∀ a ∈ extra,
      a ∈ received ++ importEntries scopes row.imports ++ declared ++ extra := fun a ha =>
    List.mem_append_right _ ha
  have hforeign : ∀ a ∈ received ++ importEntries scopes row.imports, ¬ a.origin.IsDeclared := by
    rintro a ha ⟨visibility, horigin⟩
    rcases List.mem_append.mp ha with hreceived | himported
    · rw [ctx.implicit a hreceived] at horigin
      cases horigin
    · rw [importEntries_origin himported] at horigin
      cases horigin
  have hmethods : ∀ b ∈ extra, IsMethod b.entity := by
    intro b hb
    obtain ⟨implementation, -, himplemented⟩ := hsound b hb
    exact himplemented.method
  refine List.pairwise_append.mpr ⟨List.pairwise_append.mpr ⟨?_, ?_, ?_⟩, ?_, ?_⟩
  · refine List.pairwise_iff_forall_sublist.mpr ?_
    intro a b hab space name hclaims hclaims'
    have ha := hab.subset (List.mem_cons_self)
    have hb := hab.subset (List.mem_cons_of_mem _ List.mem_cons_self)
    exact ⟨hsame a (hreceived a ha) b (hreceived b hb) space name hclaims hclaims',
      fun hdeclared => absurd hdeclared (hforeign b hb)⟩
  · refine hapart.imp_of_mem fun {a b} ha hb h space name hclaims hclaims' => ?_
    obtain ⟨heq, hmethod⟩ := h space name hclaims hclaims'
    exact ⟨by simp [heq], fun _ => hmethod⟩
  · intro a ha b hb space name hclaims hclaims'
    have hab := hsame a (hreceived a ha) b (hdeclared b hb) space name hclaims hclaims'
    refine ⟨hab, fun _ => ?_⟩
    exact ctx.foreign ((ctx.received_iff hok ..).mp ⟨a, ha, hclaims, sameEntity_refl _⟩)
      (ctx.declared_perm.mem_iff.mp hb) (sameEntity_symm hab)
  · refine List.pairwise_iff_forall_sublist.mpr ?_
    intro a b hab space name hclaims hclaims'
    have ha := hab.subset (List.mem_cons_self)
    have hb := hab.subset (List.mem_cons_of_mem _ List.mem_cons_self)
    exact ⟨hsame a (himplemented a ha) b (himplemented b hb) space name hclaims hclaims',
      fun _ => hmethods b hb⟩
  · intro a ha b hb space name hclaims hclaims'
    exact ⟨hsame a (List.mem_append_left _ ha) b (himplemented b hb) space name hclaims hclaims',
      fun _ => hmethods b hb⟩

end

variable (hextra : ∀ entry, entry ∈ extra ↔
  ∃ implementation ∈ Implementations parsed row,
    ImplementedBy parsed.declarations (TraitNamed parsed row) implementation entry)

include hextra

theorem declares_iff (entry : Entry) : entry ∈ declared ++ extra ↔ Declares parsed row entry := by
  rw [List.mem_append, ctx.declared_perm.mem_iff, hextra, Declares]
  simp [Implementations, and_assoc]

include hok

theorem visible_iff (space : Space) (name : NameId) (entity : Entity) :
    (∃ entry ∈ received ++ importEntries scopes row.imports ++ declared ++ extra,
        Claims entry space name ∧ sameEntity entry.entity entity = true) ↔
      Visible parsed row space name entity := by
  rw [Visible, ← ctx.received_iff hok, List.append_assoc _ declared]
  simp only [List.mem_append (t := declared ++ extra), ctx.declares_iff hextra, or_and_right,
    exists_or]
  rw [or_comm]

theorem of_pairwise
    (hpairs : (received ++ importEntries scopes row.imports ++ declared ++ extra).Pairwise
      Compatible) :
    (∀ space name first second, Visible parsed row space name first →
        Visible parsed row space name second → sameEntity first second = true) ∧
      (declaredIn parsed row.module).Pairwise DeclaredApart := by
  constructor
  · intro space name first second hfirst hsecond
    obtain ⟨entry, hentry, hclaims, hsame⟩ := (ctx.visible_iff hok hextra ..).mpr hfirst
    obtain ⟨other, hother, hclaims', hsame'⟩ := (ctx.visible_iff hok hextra ..).mpr hsecond
    have hall : sameEntity entry.entity other.entity = true := by
      refine List.Pairwise.forall_of_forall_of_flip
        (R := fun a b => Claims a space name → Claims b space name →
          sameEntity a.entity b.entity = true) ?_ ?_ ?_ hentry hother hclaims hclaims'
      · exact fun a _ _ _ => sameEntity_refl _
      · exact hpairs.imp fun {a b} h ha hb => (h space name ha hb).1
      · exact hpairs.imp fun {a b} h hb ha => sameEntity_symm (h space name ha hb).1
    exact sameEntity_trans (sameEntity_symm hsame) (sameEntity_trans hall hsame')
  · rw [← ctx.declared_perm.pairwise_iff DeclaredApart.symm]
    have hdeclared : declared.Pairwise Compatible := by
      obtain ⟨hfront, -, -⟩ := List.pairwise_append.mp hpairs
      exact (List.pairwise_append.mp hfront).2.1
    refine hdeclared.imp_of_mem fun {a b} _ hb h space name hclaims hclaims' => ?_
    obtain ⟨hsame, hmethod⟩ := h space name hclaims hclaims'
    have hmethod := hmethod
      (((ctx.declares_iff hextra b).mp (List.mem_append_left _ hb)).origin)
    exact ⟨sameEntity_method hsame hmethod, hmethod⟩

/-! ## The scope of a module -/

variable {names : Names}
  (h : Summary (received ++ importEntries scopes row.imports ++ declared ++ extra) names)

include h

omit hok in
theorem held_declares {space : Space} {name : NameId} {held : Entry}
    (hheld : holder names space name = some held) (horigin : held.origin.IsDeclared) :
    Declares parsed row held := by
  have hmem := (h.held hheld).mem
  rw [List.append_assoc, List.mem_append] at hmem
  rcases hmem with hforeign | hdeclared
  · obtain ⟨visibility, horigin⟩ := horigin
    rcases List.mem_append.mp hforeign with hreceived | himported
    · rw [ctx.implicit held hreceived] at horigin
      cases horigin
    · rw [importEntries_origin himported] at horigin
      cases horigin
  · exact (ctx.declares_iff hextra held).mp hdeclared

omit hok in
theorem exists_held {entry : Entry} (hentry : Declares parsed row entry) {space : Space}
    {name : NameId} (hclaims : Claims entry space name) :
    ∃ held, holder names space name = some held ∧ held.entity = entry.entity ∧
      held.origin.IsDeclared ∧
        (entry.origin = .declared .publicName → held.origin = .declared .publicName) := by
  have hmem : entry ∈ received ++ importEntries scopes row.imports ++ declared ++ extra := by
    rw [List.append_assoc]
    exact List.mem_append_right _ ((ctx.declares_iff hextra entry).mpr hentry)
  obtain ⟨held, hheld, hall⟩ := h.exists_held hmem hclaims
  refine ⟨held, hheld, ?_, hall.declared entry hmem hclaims hentry.origin,
    hall.published entry hmem hclaims⟩
  exact (sameEntity_eq (sameEntity_symm (hall.same entry hmem hclaims)) hentry.not_alias).symm

theorem scope_visible (space : Space) (name : NameId) (entity : Entity) :
    (∃ held, holder names space name = some held ∧ sameEntity held.entity entity = true) ↔
      Visible parsed row space name entity := by
  rw [← ctx.visible_iff hok hextra]
  constructor
  · rintro ⟨held, hheld, hsame⟩
    exact ⟨held, (h.held hheld).mem, (h.held hheld).claims, hsame⟩
  · rintro ⟨entry, hentry, hclaims, hsame⟩
    obtain ⟨held, hheld, hall⟩ := h.exists_held hentry hclaims
    exact ⟨held, hheld, sameEntity_trans (hall.same entry hentry hclaims) hsame⟩

omit hextra hok h in
theorem row_unique {other : ParsedModuleRow} (hother : other ∈ parsed.dependencyOrder)
    (hmodule : other.module = row.module) : other = row := by
  have hmem := fun r => ctx.sealed.order.mem_iff (a := r)
  have hleft := ctx.sealed.modules.getElem? ((hmem other).mp hother)
  have hright := ctx.sealed.modules.getElem? ((hmem row).mp ctx.row_mem)
  rw [hmodule, hright] at hleft
  exact (Option.some.inj hleft).symm

omit hok in
theorem scope_offered (space : Space) (name : NameId) (entity : Entity) :
    offer (holder names space name) = .ok entity ↔
      Offers parsed row.module space name entity := by
  rw [offer_eq_ok]
  constructor
  · rintro ⟨held, hheld, hpublic, rfl, hnot⟩
    have hdeclares := ctx.held_declares hextra h hheld ⟨_, hpublic⟩
    exact ⟨row, ctx.row_mem, rfl, held, hdeclares, (h.held hheld).claims, rfl, hpublic⟩
  · rintro ⟨other, hother, hmodule, entry, hentry, hclaims, rfl, hpublic⟩
    obtain rfl := ctx.row_unique hother hmodule
    obtain ⟨held, hheld, hentity, -, hpublished⟩ := ctx.exists_held hextra h hentry hclaims
    exact ⟨held, hheld, hpublished hpublic, hentity, hentry.not_alias⟩

theorem scope_holding {scope : ModuleScope} (hscope : scope.names = names) (name : NameId)
    (receiver : TypeHead) :
    holding scope name = .ok (.type receiver) ↔ HoldsType parsed row.module name receiver := by
  have hholding : holding scope name = .ok (.type receiver) ↔
      ∃ held, holder names .types name = some held ∧ held.entity = .type receiver ∧
        (held.origin.IsDeclared → held.origin = .declared .publicName) := by
    rw [holding, hscope]
    cases holder names .types name with
    | none => simp [offer]
    | some held =>
      obtain ⟨written, entity, origin⟩ := held
      cases entity <;> cases origin <;> try simp [offer, Origin.IsDeclared]
      all_goals rename_i visibility
      all_goals cases visibility <;> simp
  rw [hholding]
  constructor
  · rintro ⟨held, hheld, hentity, hpublic⟩
    refine ⟨row, ctx.row_mem, rfl, ?_, ?_⟩
    · exact (ctx.scope_visible hok hextra h ..).mp ⟨held, hheld, by simp [hentity]⟩
    · rintro ⟨entry, hentry, hclaims⟩
      obtain ⟨found, hfound, -, hdeclared, -⟩ := ctx.exists_held hextra h hentry hclaims
      rw [hheld] at hfound
      cases hfound
      rw [← ctx.scope_offered hextra h, offer_eq_ok]
      exact ⟨held, hheld, hpublic hdeclared, hentity, by simp⟩
  · rintro ⟨other, hother, hmodule, hvisible, hpublic⟩
    obtain rfl := ctx.row_unique hother hmodule
    obtain ⟨held, hheld, hsame⟩ := (ctx.scope_visible hok hextra h ..).mpr hvisible
    have hentity : held.entity = .type receiver := by
      cases hentity : held.entity <;> simp_all [sameEntity]
    refine ⟨held, hheld, hentity, fun hdeclared => ?_⟩
    have hoffers := hpublic
      ⟨held, ctx.held_declares hextra h hheld hdeclared, (h.held hheld).claims⟩
    rw [← ctx.scope_offered hextra h, offer_eq_ok] at hoffers
    obtain ⟨found, hfound, hpublished, -⟩ := hoffers
    rw [hheld] at hfound
    cases hfound
    exact hpublished

theorem scopeOk {scope : ModuleScope} (hscope : scope.names = names) :
    ScopeOk parsed row scope where
  offered := by
    rw [hscope]
    exact ctx.scope_offered hextra h
  holding := ctx.scope_holding hok hextra h hscope
  visible := by
    rw [hscope]
    exact ctx.scope_visible hok hextra h

theorem scope_provided (hnone : received = []) {scope : ModuleScope} (hscope : scope.names = names)
    (space : Space) (name : NameId) (entity : Entity) :
    (∃ entry ∈ provided scope, Claims entry space name ∧
        sameEntity entry.entity entity = true) ↔
      Selects parsed row space name entity ∧
        ¬ ∃ entry, Declares parsed row entry ∧ Claims entry space name := by
  have hprovided : ∀ entry, entry ∈ provided scope ↔
      ∃ held ∈ names.map (·.2), held.origin = .imported ∧
        (∀ aliased, held.entity ≠ .alias aliased) ∧ { held with origin := .implicit } = entry := by
    intro entry
    rw [provided, hscope, List.mem_filterMap]
    refine exists_congr fun held => and_congr_right fun _ => ?_
    obtain ⟨written, heldEntity, origin⟩ := held
    cases heldEntity <;> cases origin <;> simp
  constructor
  · rintro ⟨entry, hentry, hclaims, hsame⟩
    obtain ⟨held, hheld, himported, hnot, rfl⟩ := (hprovided entry).mp hentry
    obtain ⟨space', hspace', hheld⟩ := h.keyed.mem_values.mp hheld
    obtain rfl : space' = space := claims_unique hnot hspace' hclaims.space
    obtain rfl : held.name.id = name := hclaims.spelling
    have hall := h.held hheld
    have hdeclared : ¬ ∃ entry, Declares parsed row entry ∧ Claims entry space' held.name.id := by
      rintro ⟨other, hother, hclaims'⟩
      obtain ⟨found, hfound, -, ⟨visibility, hdeclared⟩, -⟩ :=
        ctx.exists_held hextra h hother hclaims'
      rw [hheld] at hfound
      cases hfound
      rw [himported] at hdeclared
      cases hdeclared
    refine ⟨?_, hdeclared⟩
    have hmem : held ∈ importEntries scopes row.imports := by
      have hmem := hall.mem
      rw [List.append_assoc, List.mem_append, hnone, List.nil_append] at hmem
      refine hmem.resolve_right fun hown => hdeclared ⟨held, ?_, hall.claims⟩
      exact (ctx.declares_iff hextra held).mp hown
    rcases (ctx.importEntries_iff hok ..).mp ⟨held, hmem, hall.claims, hsame⟩ with
      ⟨request, -, written, -, -, halias⟩ | hselects
    · refine absurd (sameEntity_trans hsame (sameEntity_symm halias)) ?_
      cases hentity : held.entity with
      | «alias» aliased => exact absurd hentity (hnot aliased)
      | _ => simp [sameEntity]
    · exact hselects
  · rintro ⟨hselects, hdeclared⟩
    obtain ⟨entry, hentry, hclaims, hsame⟩ :=
      (ctx.importEntries_iff hok ..).mpr (.inr hselects)
    have hmem : entry ∈ received ++ importEntries scopes row.imports ++ declared ++ extra := by
      simp [hentry]
    obtain ⟨held, hheld, hall⟩ := h.exists_held hmem hclaims
    have hheldSame := sameEntity_trans (hall.same entry hmem hclaims) hsame
    have hnot : ∀ aliased, held.entity ≠ .alias aliased := by
      intro aliased halias
      obtain ⟨request, hrequest, selection, hselection, hpicks, hoffers⟩ := hselects
      rw [halias] at hheldSame
      cases entity with
      | «alias» other => exact hoffers.not_alias other rfl
      | _ => simp [sameEntity] at hheldSame
    have himported : held.origin = .imported := by
      have hmem := hall.mem
      rw [List.append_assoc, List.mem_append, hnone, List.nil_append] at hmem
      refine importEntries_origin (hmem.resolve_right fun hown => hdeclared ⟨held, ?_, hall.claims⟩)
      exact (ctx.declares_iff hextra held).mp hown
    refine ⟨{ held with origin := .implicit }, ?_, ⟨hall.claims.spelling, hall.claims.space⟩,
      hheldSame⟩
    refine (hprovided _).mpr ⟨held, h.keyed.mem_values.mpr ⟨space, hall.claims.space, ?_⟩,
      himported, hnot, rfl⟩
    rw [hall.claims.spelling]
    exact hheld

end RowContext

end

end Blorp.Namespace
