import Blorp.Namespace.Exactness
import Blorp.Namespace.Renumbered

/-!
# Resolution does not depend on the order of imports

Programs that differ in the order of import rows and of selections have the same meaning
of names, so the exactness of `build_namespace` makes it accept both or neither and give
every name the same entity.
-/

namespace Blorp.Namespace

open Check (NameId ModuleId TraitId Entity TypeHead)
open Load (ModuleKind ModuleImport ParsedModuleRow ImportSelection)

/-! ## The same meaning -/

namespace Alike

variable {ρ : Renumbering} {first second : ParsedContents} {row other : ParsedModuleRow}
  {module : ModuleId} {name : NameId} {id : TraitId} {space : Space} {entity : Entity}

theorem claims {one another : Entry} (hsame : ρ.SameEntry one another)
    (hclaims : Claims one space name) : Claims another space (ρ.names name) := by
  refine ⟨?_, ?_⟩
  · rw [← hsame.name, hclaims.spelling]
  · rw [← hsame.entity, Renumbering.claims_entity]
    exact hclaims.space

theorem claims_back {one another : Entry} (hsame : ρ.symm.SameEntry another one)
    (hclaims : Claims another space (ρ.names name)) : Claims one space name := by
  have hback := claims hsame hclaims
  rwa [Renumbering.names_back] at hback

theorem picks {selection another : ImportSelection} (hsame : ρ.SameSelection selection another)
    (hp : Picks selection name entity) : Picks another (ρ.names name) (ρ.entity entity) := by
  cases hp with
  | named bare =>
    cases hsame with
    | named hname =>
      rw [hname]
      refine .named fun variant heq => ?_
      cases entity with
      | constructor own => exact bare own rfl
      | _ => cases heq
  | union =>
    cases hsame with
    | constructors hname hlisted =>
      rw [hname]
      exact .union
  | constructor listed_mem =>
    cases hsame with
    | constructors hname hlisted =>
      obtain ⟨listed, hmem, hsame⟩ := Reordered.exists_related hlisted listed_mem
      rw [hsame]
      exact .constructor hmem

section

variable (h : Alike ρ first second)

include h

theorem traitOffered (ht : TraitOffered first module name id) :
    TraitOffered second (ρ.modules module) (ρ.names name) (ρ.traits id) := by
  obtain ⟨entry, hentry, rfl, hentity, horigin⟩ := ht
  obtain ⟨another, hanother, hsame⟩ := (h.declaredIn module).forth hentry
  refine ⟨another, hanother, Eq.symm hsame.name, ?_, hsame.origin.mp horigin⟩
  rw [← hsame.entity, hentity]
  rfl

theorem traitSelected (hrow : ρ.RowPermuted row other) (ht : TraitSelected first row name id) :
    TraitSelected second other (ρ.names name) (ρ.traits id) := by
  obtain ⟨request, hrequest, written, hsymbols, rfl, hoffered⟩ := ht
  obtain ⟨request', hrequest', hsame⟩ := hrow.imports.forth hrequest
  obtain ⟨selection, hselection, hselected⟩ := hsame.symbols.forth hsymbols
  cases hselected with
  | named hname =>
    exact ⟨request', hrequest', _, hselection, Eq.symm hname,
      hsame.target ▸ h.traitOffered hoffered⟩

theorem declaresType (hrow : ρ.RowPermuted row other) :
    (∃ entry ∈ Namespace.declaredIn first row.module, Claims entry .types name) ↔
      ∃ entry ∈ Namespace.declaredIn second other.module, Claims entry .types (ρ.names name) := by
  rw [← hrow.module]
  constructor
  · rintro ⟨entry, hentry, hclaims⟩
    obtain ⟨another, hanother, hsame⟩ := (h.declaredIn row.module).forth hentry
    exact ⟨another, hanother, claims hsame hclaims⟩
  · rintro ⟨entry, hentry, hclaims⟩
    obtain ⟨another, hanother, hsame⟩ := (h.symm.declaredIn (ρ.modules row.module)).forth hentry
    refine ⟨another, ?_, claims_back hsame hclaims⟩
    rwa [Renumbering.modules_back] at hanother

theorem traitNamed (hrow : ρ.RowPermuted row other) {written written' : TypeSyntax}
    (hwritten : ρ.SameType written written') (ht : TraitNamed first row written id) :
    TraitNamed second other written' (ρ.traits id) := by
  cases ht with
  | atomic visible =>
    cases hwritten with
    | atomic hname =>
      refine .atomic ?_
      rw [← hname]
      rcases visible with ⟨entry, hentry, hspelling, hentity⟩ | hselected |
        ⟨huser, prelude, hprelude, hmodule, hselected, hnot⟩
      · obtain ⟨another, hanother, hsame⟩ := (h.declaredIn row.module).forth hentry
        refine .inl ⟨another, hrow.module ▸ hanother, ?_, ?_⟩
        · rw [← hsame.name, hspelling]
        · rw [← hsame.entity, hentity]
          rfl
      · exact .inr (.inl (h.traitSelected hrow hselected))
      · obtain ⟨prelude', hprelude', hsame⟩ := h.permuted.rows.forth hprelude
        refine .inr (.inr ⟨hrow.role ▸ huser, prelude', hprelude', ?_,
          h.traitSelected hsame hselected, ?_⟩)
        · rw [← hsame.module, hmodule, h.permuted.prelude]
        · rwa [← h.declaresType hsame]
  | qualified hrequest haliased hspelling hoffered =>
    cases hwritten with
    | qualified hmodule hname hnone =>
      obtain ⟨request', hrequest', hsame⟩ := hrow.imports.forth hrequest
      have haliases := hsame.moduleAlias
      rw [haliased] at haliases
      obtain ⟨written', hwritten', halias⟩ := Reordered.exists_of_rel haliases
      obtain rfl := hnone.mp rfl
      refine .qualified hrequest' hwritten' ?_ ?_
      · rw [← halias, hspelling, hmodule]
      · rw [← hname, ← hsame.target]
        exact h.traitOffered hoffered

theorem declares (hrow : ρ.RowPermuted row other) {entry : Entry} (hd : Declares first row entry) :
    ∃ entry', Declares second other entry' ∧ ρ.SameEntry entry entry' := by
  rcases hd with hentry | ⟨implementation, hmem, hhere, himplemented⟩
  · obtain ⟨another, hanother, hsame⟩ := (h.declaredIn row.module).forth hentry
    exact ⟨another, .inl (hrow.module ▸ hanother), hsame⟩
  · obtain ⟨implementation', hmem', hsame⟩ := h.permuted.implementations.forth hmem
    obtain ⟨entry', hentry', hentries⟩ := h.implementedBy hsame
      (fun _ hnamed => h.traitNamed hrow hsame.traitName hnamed) himplemented
    refine ⟨entry', .inr ⟨implementation', hmem', ?_, hentry'⟩, hentries⟩
    rw [← hsame.module, hhere, hrow.module]

theorem claimed_iff (hrow : ρ.RowPermuted row other) :
    (∃ entry, Declares first row entry ∧ Claims entry space name) ↔
      ∃ entry, Declares second other entry ∧ Claims entry space (ρ.names name) := by
  constructor
  · rintro ⟨entry, hentry, hclaims⟩
    obtain ⟨another, hanother, hsame⟩ := h.declares hrow hentry
    exact ⟨another, hanother, claims hsame hclaims⟩
  · rintro ⟨entry, hentry, hclaims⟩
    obtain ⟨another, hanother, hsame⟩ := h.symm.declares hrow.symm hentry
    exact ⟨another, hanother, claims_back hsame hclaims⟩

theorem offers (ho : Offers first module space name entity) :
    Offers second (ρ.modules module) space (ρ.names name) (ρ.entity entity) := by
  obtain ⟨row, hrow, rfl, entry, hentry, hclaims, rfl, horigin⟩ := ho
  obtain ⟨other, hother, hsame⟩ := h.permuted.rows.forth hrow
  obtain ⟨another, hanother, hentries⟩ := h.declares hsame hentry
  exact ⟨other, hother, hsame.module.symm, another, hanother, claims hentries hclaims,
    hentries.entity.symm, hentries.origin.mp horigin⟩

theorem offers_back (ho : Offers second (ρ.modules module) space (ρ.names name) entity) :
    Offers first module space name (ρ.symm.entity entity) := by
  have hback := h.symm.offers ho
  rwa [Renumbering.modules_back, Renumbering.names_back] at hback

theorem selects (hrow : ρ.RowPermuted row other) (hs : Selects first row space name entity) :
    Selects second other space (ρ.names name) (ρ.entity entity) := by
  obtain ⟨request, hrequest, selection, hselection, hpicks, hoffers⟩ := hs
  obtain ⟨request', hrequest', hsame⟩ := hrow.imports.forth hrequest
  obtain ⟨selection', hselection', hselected⟩ := hsame.symbols.forth hselection
  exact ⟨request', hrequest', selection', hselection', picks hselected hpicks,
    hsame.target ▸ h.offers hoffers⟩

theorem received (hrow : ρ.RowPermuted row other) (hr : Received first row space name entity) :
    Received second other space (ρ.names name) (ρ.entity entity) := by
  rcases hr with ⟨request, hrequest, written, hwritten, hname, hentity⟩ | hselects |
    ⟨huser, prelude, hprelude, hmodule, hselects, hnot⟩
  · obtain ⟨request', hrequest', hsame⟩ := hrow.imports.forth hrequest
    have haliases := hsame.moduleAlias
    rw [hwritten] at haliases
    obtain ⟨written', hwritten', halias⟩ := Reordered.exists_of_rel haliases
    refine .inl ⟨request', hrequest', written', hwritten', ?_, ?_⟩
    · rw [← halias, hname]
    · rw [← Renumbering.sameEntity_entity] at hentity
      -- Aliases are compared by their modules.
      exact sameEntity_trans (by simp [sameEntity, Renumbering.entity, hsame.target]) hentity
  · exact .inr (.inl (h.selects hrow hselects))
  · obtain ⟨prelude', hprelude', hsame⟩ := h.permuted.rows.forth hprelude
    refine .inr (.inr ⟨hrow.role ▸ huser, prelude', hprelude', ?_, h.selects hsame hselects, ?_⟩)
    · rw [← hsame.module, hmodule, h.permuted.prelude]
    · rwa [← h.claimed_iff hsame]

theorem visible (hrow : ρ.RowPermuted row other) (hv : Visible first row space name entity) :
    Visible second other space (ρ.names name) (ρ.entity entity) := by
  rcases hv with ⟨entry, hentry, hclaims, hentity⟩ | hreceived
  · obtain ⟨another, hanother, hsame⟩ := h.declares hrow hentry
    refine .inl ⟨another, hanother, claims hsame hclaims, ?_⟩
    rw [← hsame.entity, Renumbering.sameEntity_entity]
    exact hentity
  · exact .inr (h.received hrow hreceived)

theorem visible_iff (hrow : ρ.RowPermuted row other) : Visible first row space name entity ↔
      Visible second other space (ρ.names name) (ρ.entity entity) := by
  refine ⟨h.visible hrow, fun hv => ?_⟩
  have hback := h.symm.visible hrow.symm hv
  rwa [Renumbering.entity_back, Renumbering.names_back] at hback

theorem holdsType {receiver : TypeHead} (ht : HoldsType first module name receiver) :
    HoldsType second (ρ.modules module) (ρ.names name) (ρ.head receiver) := by
  obtain ⟨row, hrow, rfl, hvisible, hpublic⟩ := ht
  obtain ⟨other, hother, hsame⟩ := h.permuted.rows.forth hrow
  exact ⟨other, hother, hsame.module.symm, h.visible hsame hvisible, fun hclaimed =>
    h.offers (hpublic ((h.claimed_iff hsame).mpr hclaimed))⟩

theorem selectionOffered (hrow : ρ.RowPermuted row other) {target : ModuleId}
    {selection another : ImportSelection} (hsame : ρ.SameSelection selection another)
    (hs : SelectionOffered first row target selection) :
    SelectionOffered second other (ρ.modules target) another := by
  cases hsame with
  | named hname =>
    obtain ⟨⟨space, entity, hpicks, hoffers⟩, hone⟩ := hs
    refine ⟨⟨space, ρ.entity entity, hname ▸ picks (.named hname) hpicks,
      hname ▸ h.offers hoffers⟩, ?_⟩
    rintro ⟨value, type, hvalue, hvalueOffers, htypeOffers⟩
    refine hone ⟨ρ.symm.entity value, ρ.symm.entity type, ?_, ?_, ?_⟩
    · have hback := picks (Renumbering.SameSelection.symm (.named hname)) hvalue
      rwa [show ρ.symm.names _ = _ from hname.symm] at hback
    · exact h.offers_back (hname ▸ hvalueOffers)
    · exact h.offers_back (hname ▸ htypeOffers)
  | constructors hname hlisted =>
    obtain ⟨owner, hunion, hall⟩ := hs
    refine ⟨ρ.unions owner, hname ▸ h.offers hunion, fun listed hmem => ?_⟩
    obtain ⟨own, hown, hsame⟩ := Reordered.exists_related hlisted.flip hmem
    obtain ⟨variant, hvariant, rfl⟩ := hall own hown
    exact ⟨ρ.variant variant, hsame ▸ h.offers hvariant, rfl⟩
  | methods hname =>
    obtain ⟨receiver, hholds, hreceived⟩ := hs
    exact ⟨ρ.head receiver, hname ▸ h.holdsType hholds, hname ▸ h.received hrow hreceived⟩

theorem rowAccepted (hrow : ρ.RowPermuted row other) (ha : RowAccepted first row) :
    RowAccepted second other where
  offered := by
    intro request hrequest selection hselection
    obtain ⟨request', hrequest', hsame⟩ := hrow.imports.back hrequest
    obtain ⟨selection', hselection', hselected⟩ := hsame.symbols.back hselection
    rw [← hsame.target]
    exact h.selectionOffered hrow hselected (ha.offered request' hrequest' selection' hselection')
  unambiguous := by
    intro space name left right hleft hright
    rw [← Renumbering.sameEntity_entity (ρ := ρ.symm)]
    exact ha.unambiguous space _ _ _ (h.symm.visible hrow.symm hleft)
      (h.symm.visible hrow.symm hright)
  declaredOnce := by
    rw [← hrow.module]
    refine (h.declaredIn row.module).pairwise (fun _ _ => DeclaredApart.symm) ?_ ha.declaredOnce
    intro one two one' two' hone htwo hapart space name hclaims hclaims'
    obtain ⟨heq, id, hid⟩ := hapart space _ (claims hone.symm hclaims) (claims htwo.symm hclaims')
    refine ⟨?_, ρ.method id, ?_⟩
    · rw [← hone.entity, ← htwo.entity, heq]
    · rw [← htwo.entity, hid]
      rfl
  implemented := by
    intro implementation hmem hhere
    obtain ⟨own, hown, hsame⟩ := h.permuted.implementations.back hmem
    have hmodule : own.header.module = row.module := by
      rw [← hsame.module, ← hrow.module] at hhere
      exact ρ.modules.injective hhere
    obtain ⟨id, hnamed⟩ := ha.implemented own hown hmodule
    exact ⟨ρ.traits id, h.traitNamed hrow hsame.traitName hnamed⟩

theorem accepted (ha : Accepted first) : Accepted second := by
  intro row hrow
  obtain ⟨other, hother, hsame⟩ := h.permuted.rows.back hrow
  exact h.rowAccepted hsame (ha other hother)

end

end Alike

/-! ## Exactness -/

/-- The entity that a spelling denotes in a module of a built namespace. -/
def Denotes (scopes : List ModuleScope) (module : ModuleId) (space : Space) (name : NameId)
    (entity : Entity) : Prop :=
  ∃ scope held, scopes[module]? = some scope ∧ holder scope.names space name = some held ∧
    sameEntity held.entity entity = true

theorem denotes_iff {parsed : ParsedContents} (hsealed : Sealed parsed) {scopes : List ModuleScope}
    (hbuild : buildNamespace parsed = .ok scopes) {row : ParsedModuleRow}
    (hrow : row ∈ parsed.dependencyOrder) (space : Space) (name : NameId) (entity : Entity) :
    Denotes scopes row.module space name entity ↔ Visible parsed row space name entity := by
  obtain ⟨scope, hscope, hok⟩ := (buildNamespace_spec hsealed).2 scopes hbuild row hrow
  rw [← hok.visible]
  constructor
  · rintro ⟨found, held, hfound, hheld, hsame⟩
    rw [hscope] at hfound
    cases hfound
    exact ⟨held, hheld, hsame⟩
  · rintro ⟨held, hheld, hsame⟩
    exact ⟨scope, held, hscope, hheld, hsame⟩

/-- **Name resolution is exact and order-free.**  A sealed program's namespace is built iff
every module is accepted; every spelling then denotes exactly the visible entity; and with
its imports in another order the program is accepted alike and its names denote the same,
under the numbers they then have. -/
theorem buildNamespace_exact (program : SealedProgram) :
    ((∃ scopes, buildNamespace program.contents = .ok scopes) ↔ Accepted program.contents) ∧
      (∀ scopes, buildNamespace program.contents = .ok scopes →
        ∀ row ∈ program.contents.dependencyOrder, ∀ space name entity,
          Denotes scopes row.module space name entity ↔
            Visible program.contents row space name entity) ∧
      ∀ (ρ : Renumbering) (other : SealedProgram), Permuted ρ program.contents other.contents →
        ((∃ scopes, buildNamespace program.contents = .ok scopes) ↔
          ∃ scopes, buildNamespace other.contents = .ok scopes) ∧
        ∀ scopes scopes', buildNamespace program.contents = .ok scopes →
          buildNamespace other.contents = .ok scopes' →
          ∀ row ∈ program.contents.dependencyOrder, ∀ space name entity,
            Denotes scopes row.module space name entity ↔
              Denotes scopes' (ρ.modules row.module) space (ρ.names name) (ρ.entity entity) := by
  refine ⟨(buildNamespace_spec program.sealed).1, ?_, ?_⟩
  · exact fun scopes hbuild row hrow => denotes_iff program.sealed hbuild hrow
  · intro ρ other hpermuted
    have halike : Alike ρ program.contents other.contents := ⟨hpermuted, program.sealed, other.sealed⟩
    refine ⟨?_, ?_⟩
    · rw [(buildNamespace_spec program.sealed).1, (buildNamespace_spec other.sealed).1]
      exact ⟨halike.accepted, halike.symm.accepted⟩
    · intro scopes scopes' hbuild hbuild' row hrow space name entity
      obtain ⟨row', hrow', hsame⟩ := hpermuted.rows.forth hrow
      rw [denotes_iff program.sealed hbuild hrow, hsame.module,
        denotes_iff other.sealed hbuild' hrow']
      exact halike.visible_iff hsame

/-! ## Two import rows in either order -/

def emptyRow (module : ModuleId) (role : ModuleKind) : ParsedModuleRow :=
  ⟨module, role, [], [], ⟨module + 2, 0, 0⟩⟩

def writtenHere (name : NameId) : Check.WrittenName := ⟨name, ⟨2, 0, 0⟩⟩

def selecting (target : ModuleId) (path : NameId) (selections : List NameId) : ModuleImport :=
  ⟨target, ⟨.libraryImport, [path]⟩, none, selections.map (.namedSelection <| writtenHere ·),
    ⟨2, 0, 0⟩⟩

def publicFunction (id : Check.FunctionId) (module : ModuleId) (name : NameId) : FunctionRow :=
  ⟨id, .freeFunctionBody, module, writtenHere name, .publicName⟩

/-- A root module that imports the two modules queued after the foundation. -/
def importingContents (imports : List ModuleImport) (functions : List FunctionRow) :
    ParsedContents where
  prelude := 2
  builtinTypes := []
  modules := [{ emptyRow 0 .userModule with imports := imports }, emptyRow 1 .foundationTypesModule,
    emptyRow 2 .foundationPreludeModule, emptyRow 3 .userModule, emptyRow 4 .userModule]
  dependencyOrder := [emptyRow 1 .foundationTypesModule, emptyRow 2 .foundationPreludeModule,
    emptyRow 3 .userModule, emptyRow 4 .userModule, { emptyRow 0 .userModule with imports := imports }]
  declarations := ⟨functions, [], [], [], [], [], []⟩

theorem importing_order {imports : List ModuleImport} {functions : List FunctionRow}
    {front back : List ParsedModuleRow} {row : ParsedModuleRow}
    (h : (importingContents imports functions).dependencyOrder = front ++ row :: back) :
    (∀ request ∈ row.imports, request ∈ imports ∧
      ∀ target, target = 3 ∨ target = 4 → ∃ other ∈ front, other.module = target) ∧
      (row.role = .userModule → ∃ target ∈ front, target.module = 2) := by
  rcases front with _ | ⟨_, _ | ⟨_, _ | ⟨_, _ | ⟨_, _ | ⟨_, front⟩⟩⟩⟩⟩
  iterate 5
    · cases h
      simp [emptyRow]
  · have hlength := congrArg List.length h
    simp [importingContents] at hlength

theorem importing_sealed {imports : List ModuleImport} {functions : List FunctionRow}
    (htargets : ∀ request ∈ imports, request.target = 3 ∨ request.target = 4)
    (hnumbered : Numbered FunctionRow.id functions)
    (hgrouped : Grouped FunctionRow.module 0 functions) :
    Sealed (importingContents imports functions) where
  modules := rfl
  order := show ([_, _, _, _] ++ [_]).Perm ([_] ++ [_, _, _, _]) from List.perm_append_comm
  imported := fun front row back hsplit request hrequest =>
    ((importing_order hsplit).1 request hrequest).2 _
      (htargets request ((importing_order hsplit).1 request hrequest).1)
  supplied := fun front row back hsplit => (importing_order hsplit).2
  builtins := by simp [importingContents]
  grouped := ⟨hgrouped, grouped_nil, grouped_nil, grouped_nil, grouped_nil, grouped_nil⟩
  functions := hnumbered
  traits := rfl
  records := rfl
  unions := rfl
  opaques := rfl
  constants := rfl
  variants := by simp [importingContents]
  methods := by simp [importingContents]
  headers := by simp [importingContents, HeadersWritten]

/-- `a: f, k` and `b: g`. -/
def rowsInOrder : SealedProgram where
  contents := importingContents [selecting 3 0 [1, 2], selecting 4 3 [4]]
    [publicFunction 0 3 1, publicFunction 1 3 2, publicFunction 2 4 4]
  «sealed» := importing_sealed (by simp [selecting]) rfl ⟨by decide, by decide⟩

/-- `b: g` and `a: k, f`, so that `b` is loaded first. -/
def rowsSwapped : SealedProgram where
  contents := importingContents [selecting 3 0 [1], selecting 4 2 [3, 4]]
    [publicFunction 0 3 1, publicFunction 1 4 4, publicFunction 2 4 3]
  «sealed» := importing_sealed (by simp [selecting]) rfl ⟨by decide, by decide⟩

/-- From the numbers of the first to those of the second. -/
def swapped : Renumbering where
  modules := Equiv.swap 3 4
  names := Equiv.swap 1 4 * (Equiv.swap 0 2 * Equiv.swap 2 3)
  functions := Equiv.swap 0 1 * Equiv.swap 1 2
  traits := 1
  records := 1
  unions := 1
  opaques := 1
  constants := 1

theorem rows_permuted : Permuted swapped rowsInOrder.contents rowsSwapped.contents := by
  have hname : ∀ name other, swapped.names name = other →
      swapped.SameName (writtenHere name) (writtenHere other) := fun _ _ h => h
  have hrow : ∀ module other role, swapped.modules module = other →
      swapped.RowPermuted (emptyRow module role) (emptyRow other role) :=
    fun _ _ _ h => ⟨h, rfl, .of_forall₂ .nil⟩
  have hfunction : ∀ id id' module other name name', swapped.functions id = id' →
      swapped.modules module = other → swapped.names name = name' →
      swapped.SameFunction (publicFunction id module name) (publicFunction id' other name') :=
    fun _ _ _ _ _ _ hid hmodule hname => ⟨⟨hid, hmodule, hname, Iff.rfl⟩, rfl⟩
  have hnone : ∀ {α : Type} {R : α → α → Prop}, Reordered R [] [] := .of_forall₂ .nil
  have hroot : swapped.RowPermuted { emptyRow 0 .userModule with
        imports := [selecting 3 0 [1, 2], selecting 4 3 [4]] }
      { emptyRow 0 .userModule with imports := [selecting 3 0 [1], selecting 4 2 [3, 4]] } := by
    refine ⟨by decide, rfl, _, .swap _ _ _, .cons ⟨by decide, .none, ?_⟩ (.cons ⟨by decide, .none, ?_⟩
      .nil)⟩
    · exact .of_forall₂ (.cons (.named (hname 4 1 (by decide))) .nil)
    · exact ⟨_, .swap _ _ _, .cons (.named (hname 2 3 (by decide)))
        (.cons (.named (hname 1 4 (by decide))) .nil)⟩
  refine ⟨by decide, ⟨_, .cons _ (.cons _ (.swap _ _ _)), ?_⟩, hnone, ?_, hnone, hnone, hnone, hnone,
    hnone, hnone⟩
  · exact .cons (hrow 1 1 _ (by decide)) (.cons (hrow 2 2 _ (by decide))
      (.cons (hrow 4 3 _ (by decide)) (.cons (hrow 3 4 _ (by decide)) (.cons hroot .nil))))
  · refine ⟨_, @List.perm_append_comm _ [_, _] [_], ?_⟩
    exact .cons (hfunction 2 0 4 3 4 1 (by decide) (by decide) (by decide))
      (.cons (hfunction 0 1 3 4 1 4 (by decide) (by decide) (by decide))
        (.cons (hfunction 1 2 3 4 2 3 (by decide) (by decide) (by decide)) .nil))

/-- Both are accepted, and `f` is one function in both. -/
theorem buildNamespace_exact_rowsSwapped :
    ∃ scopes scopes', buildNamespace rowsInOrder.contents = .ok scopes ∧
      buildNamespace rowsSwapped.contents = .ok scopes' ∧
      Denotes scopes 0 .values 1 (.function 0) ∧ Denotes scopes' 0 .values 4 (.function 1) := by
  have hexact := (buildNamespace_exact rowsInOrder).2.2 swapped rowsSwapped rows_permuted
  obtain ⟨scopes, hscopes⟩ : ∃ scopes, buildNamespace rowsInOrder.contents = .ok scopes := ⟨_, rfl⟩
  obtain ⟨scopes', hscopes'⟩ := hexact.1.mp ⟨scopes, hscopes⟩
  have hdenotes : Denotes scopes 0 .values 1 (.function 0) := by
    cases hscopes
    exact ⟨_, _, rfl, rfl, rfl⟩
  refine ⟨scopes, scopes', hscopes, hscopes', hdenotes, ?_⟩
  exact (hexact.2 scopes scopes' hscopes hscopes' { emptyRow 0 .userModule with
    imports := [selecting 3 0 [1, 2], selecting 4 3 [4]] } (by simp [rowsInOrder, importingContents])
    .values 1 (.function 0)).mp hdenotes

/-! ## A trait that no name denotes -/

/-- A root module whose only declaration is `implements Shape for Int`, beside the two
foundation modules; nothing declares `Shape`. -/
def orphanContents : ParsedContents where
  prelude := 2
  builtinTypes := []
  modules := [emptyRow 0 .userModule, emptyRow 1 .foundationTypesModule,
    emptyRow 2 .foundationPreludeModule]
  dependencyOrder := [emptyRow 1 .foundationTypesModule, emptyRow 2 .foundationPreludeModule,
    emptyRow 0 .userModule]
  declarations := ⟨[], [], [⟨0, ⟨0, .publicName, .atomicType ⟨7, ⟨2, 11, 16⟩⟩, ⟨2, 0, 24⟩⟩, []⟩],
    [], [], [], []⟩

theorem orphan_order {front back : List ParsedModuleRow} {row : ParsedModuleRow}
    (h : orphanContents.dependencyOrder = front ++ row :: back) :
    row.imports = [] ∧ (row.role = .userModule → ∃ target ∈ front, target.module = 2) := by
  match front, h with
  | [], h | [_], h | [_, _], h => cases h; exact ⟨rfl, by simp [emptyRow]⟩
  | _ :: _ :: _ :: rest, h =>
    have hlength := congrArg List.length h
    simp [orphanContents] at hlength

def orphanImplementation : SealedProgram where
  contents := orphanContents
  «sealed» :=
    { modules := rfl
      order := show ([_, _] ++ [_]).Perm ([_] ++ [_, _]) from List.perm_append_comm
      imported := fun front row back hsplit request hrequest => by
        rw [(orphan_order hsplit).1] at hrequest
        cases hrequest
      supplied := fun front row back hsplit => (orphan_order hsplit).2
      builtins := by simp [orphanContents]
      grouped := ⟨grouped_nil, grouped_nil, grouped_nil, grouped_nil, grouped_nil, grouped_nil⟩
      functions := rfl
      traits := rfl
      records := rfl
      unions := rfl
      opaques := rfl
      constants := rfl
      variants := by simp [orphanContents]
      methods := by simp [orphanContents]
      headers := by simp [orphanContents, HeadersWritten] }

/-- Every name is unambiguous, nothing is declared twice and there is no selection; the
program is rejected, for the trait it implements is not there. -/
theorem buildNamespace_rejects_unknown_trait :
    (∀ row ∈ orphanImplementation.contents.dependencyOrder,
      (∀ request ∈ row.imports, ∀ selection ∈ request.symbols,
        SelectionOffered orphanImplementation.contents row request.target selection) ∧
      (∀ space name first second, Visible orphanImplementation.contents row space name first →
        Visible orphanImplementation.contents row space name second →
          sameEntity first second = true) ∧
      (declaredIn orphanImplementation.contents row.module).Pairwise DeclaredApart) ∧
    ¬ ∃ scopes, buildNamespace orphanImplementation.contents = .ok scopes := by
  have himports : ∀ row ∈ orphanImplementation.contents.dependencyOrder, row.imports = [] := by
    intro row hrow
    obtain ⟨front, back, hsplit⟩ := List.append_of_mem hrow
    exact (orphan_order hsplit).1
  have hdeclared : ∀ module, declaredIn orphanImplementation.contents module = [] :=
    fun module => rfl
  have hdeclares : ∀ row ∈ orphanImplementation.contents.dependencyOrder, ∀ entry,
      ¬ Declares orphanImplementation.contents row entry := by
    rintro row hrow entry (hentry | ⟨implementation, hmem, -, id, owner, hnamed, howner, -⟩)
    · rw [hdeclared] at hentry
      cases hentry
    · cases howner
  refine ⟨fun row hrow => ⟨?_, ?_, ?_⟩, ?_⟩
  · intro request hrequest
    rw [himports row hrow] at hrequest
    cases hrequest
  · intro space name first second hfirst
    rcases hfirst with ⟨entry, hentry, -⟩ | ⟨request, hrequest, -⟩ | ⟨request, hrequest, -⟩ |
      ⟨-, prelude, hprelude, -, ⟨request, hrequest, -⟩, -⟩
    · exact absurd hentry (hdeclares row hrow entry)
    iterate 2
      · rw [himports row hrow] at hrequest
        cases hrequest
    · rw [himports prelude hprelude] at hrequest
      cases hrequest
  · rw [hdeclared]
    exact .nil
  · rintro ⟨scopes, hscopes⟩
    cases hscopes

end Blorp.Namespace
