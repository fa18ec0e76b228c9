import Blorp.Namespace.Rows

/-!
# Name resolution is exact

`build_namespace` accepts a sealed program iff every module is accepted, and then every
scope holds exactly what is visible there.
-/

namespace Blorp.Namespace

open Check (Span NameId ModuleId WrittenName TraitId Entity)
open Load (ModuleImport ParsedModuleRow)

section

variable {parsed : ParsedContents} {row : ParsedModuleRow} {scopes : List ModuleScope}
  {received declared : List Entry}

/-! ## Traits -/

variable {name : NameId}

theorem offers_trait {module : ModuleId} {id : TraitId}
    (hmodule : ∃ row ∈ parsed.dependencyOrder, row.module = module) :
    Offers parsed module .types name (.trait id) ↔ TraitOffered parsed module name id := by
  constructor
  · rintro ⟨trow, -, rfl, entry, hentry | himplemented, hclaims, hentity, hpublic⟩
    · exact ⟨entry, hentry, hclaims.spelling, hentity, hpublic⟩
    · obtain ⟨implementation, -, -, _, _, -, -, method, -, hmethod⟩ := himplemented
      obtain ⟨other, hother⟩ := (implementedEntry_method hmethod).1
      rw [hentity] at hother
      cases hother
  · rintro ⟨entry, hentry, hname, hentity, hpublic⟩
    obtain ⟨trow, hmem, rfl⟩ := hmodule
    exact ⟨trow, hmem, rfl, entry, .inl hentry, ⟨hname, by rw [hentity]; rfl⟩, hentity, hpublic⟩

theorem selects_trait {id : TraitId}
    (htargets : ∀ request ∈ row.imports, ∃ trow ∈ parsed.dependencyOrder, trow.module =
      request.target) :
    Selects parsed row .types name (.trait id) ↔ TraitSelected parsed row name id := by
  constructor
  · rintro ⟨request, hrequest, selection, hselection, hpicks, hoffers⟩
    cases hpicks with
    | @named written _ bare =>
      exact ⟨request, hrequest, written, hselection, rfl,
        (offers_trait (htargets request hrequest)).mp hoffers⟩
  · rintro ⟨request, hrequest, written, hselection, rfl, hoffered⟩
    exact ⟨request, hrequest, _, hselection, .named (by simp),
      (offers_trait (htargets request hrequest)).mpr hoffered⟩

theorem declares_types {entry : Entry} : Declares parsed row entry ∧ Claims entry .types name ↔
      entry ∈ declaredIn parsed row.module ∧ Claims entry .types name := by
  refine and_congr_left fun hclaims => ⟨?_, .inl⟩
  rintro (hentry | ⟨implementation, -, -, _, _, -, -, method, -, hmethod⟩)
  · exact hentry
  · obtain ⟨id, hid⟩ := (implementedEntry_method hmethod).1
    have hspace := hclaims.space
    rw [hid] at hspace
    cases hspace

end

variable {id : TraitId} {scopes : List ModuleScope}

theorem exists_trait {parsed : ParsedContents} (hsealed : Sealed parsed) {module : ModuleId}
    {entry : Entry} (hentry : entry ∈ declaredIn parsed module)
    (hentity : entry.entity = .trait id) :
    ∃ owner ∈ parsed.declarations.traits, parsed.declarations.traits[id]? = some owner := by
  cases declaredIn_row hentry with
  | @traitName owner hmem hhere =>
    cases hentity
    exact ⟨owner, hmem, hsealed.traits.getElem? hmem⟩
  | @builtin primitive => cases hentity
  | _ => cases hentity

theorem sameEntity_trait {entity : Entity} :
    sameEntity entity (.trait id) = true ↔ entity = .trait id := by
  cases entity <;> simp [sameEntity]

theorem traitReference_atomic {names : Names} {name : WrittenName} :
    traitReference names scopes (.atomicType name) = some id ↔
      ∃ held, holder names .types name.id = some held ∧
        sameEntity held.entity (.trait id) = true := by
  simp only [traitReference, sameEntity_trait]
  cases holder names .types name.id with
  | none => simp
  | some held =>
    obtain ⟨written, entity, origin⟩ := held
    cases entity <;> simp

theorem traitReference_qualified {names : Names} {qualified : Check.ParsedQualified} {span : Span} :
    traitReference names scopes (.qualifiedType qualified [] span) = some id ↔
      ∃ aliased : Check.AliasedModule, (∃ held, holder names .values qualified.module.id =
          some held ∧ sameEntity held.entity (.alias aliased) = true) ∧
        ∃ scope, scopes[aliased.target]? = some scope ∧
          offer (holder scope.names .types qualified.name.id) = .ok (.trait id) := by
  simp only [traitReference, qualifiedTrait]
  cases holder names .values qualified.module.id with
  | none => simp
  | some held =>
    obtain ⟨written, entity, origin⟩ := held
    cases entity with
    | «alias» aliased =>
      have hsame : ∀ other : Check.AliasedModule,
          sameEntity (.alias aliased) (.alias other) = true ↔ aliased.target = other.target := by
        simp [sameEntity]
      simp only [Option.some.injEq, exists_eq_left', hsame]
      constructor
      · intro hfound
        split at hfound
        · rename_i scope hscope
          split at hfound
          · rename_i found hoffer
            cases hfound
            exact ⟨aliased, rfl, scope, hscope, hoffer⟩
          · cases hfound
        · cases hfound
      · rintro ⟨other, heq, scope, hscope, hoffer⟩
        rw [heq, hscope]
        simp [hoffer]
    | _ => simp [sameEntity]

namespace RowContext

variable {parsed : ParsedContents} {row : ParsedModuleRow} {scopes : List ModuleScope}
  {received declared : List Entry} (ctx : RowContext parsed row scopes received declared)

include ctx

theorem targets_mem : ∀ request ∈ row.imports,
    ∃ trow ∈ parsed.dependencyOrder, trow.module = request.target := by
  intro request hrequest
  obtain ⟨trow, hmem, htarget, -⟩ := ctx.targets request hrequest
  exact ⟨trow, hmem, htarget⟩

theorem prelude_targets : ∀ prelude ∈ parsed.dependencyOrder, ∀ request ∈ prelude.imports,
    ∃ trow ∈ parsed.dependencyOrder, trow.module = request.target := by
  intro prelude hprelude request hrequest
  obtain ⟨front, back, hsplit⟩ := List.append_of_mem hprelude
  obtain ⟨trow, hmem, htarget⟩ := ctx.sealed.imported front prelude back hsplit request hrequest
  exact ⟨trow, by rw [hsplit]; exact List.mem_append_left _ hmem, htarget⟩

theorem received_trait {name : NameId} {id : TraitId} :
    Received parsed row .types name (.trait id) ↔ TraitSelected parsed row name id ∨
      row.role = .userModule ∧ ∃ prelude ∈ parsed.dependencyOrder,
        prelude.module = parsed.prelude ∧ TraitSelected parsed prelude name id ∧
          ¬ ∃ entry ∈ declaredIn parsed prelude.module, Claims entry .types name := by
  have halias : ¬ Aliased row name (.trait id) := by
    rintro ⟨request, -, written, -, -, hsame⟩
    cases hsame
  simp only [Received, halias, false_or, selects_trait ctx.targets_mem, Supplied, declares_types]
  refine or_congr_right (and_congr_right fun _ => exists_congr fun prelude => ?_)
  refine and_congr_right fun hmem => and_congr_right fun _ => ?_
  rw [selects_trait (ctx.prelude_targets prelude hmem)]

omit ctx in
theorem received_alias {space : Space} {name : NameId} {aliased : Check.AliasedModule}
    (h : (∃ entry ∈ declaredIn parsed row.module, Claims entry space name ∧
        sameEntity entry.entity (.alias aliased) = true) ∨
      Received parsed row space name (.alias aliased)) : Aliased row name (.alias aliased) := by
  rcases h with ⟨entry, hentry, -, hsame⟩ | halias | ⟨request, -, selection, -, -, hoffers⟩ |
    ⟨-, prelude, -, -, ⟨request, -, selection, -, -, hoffers⟩, -⟩
  · cases hentity : entry.entity with
    | «alias» other => exact absurd hentity ((declaredIn_row hentry).not_alias other)
    | _ => simp [hentity, sameEntity] at hsame
  · exact halias
  all_goals exact absurd rfl (hoffers.not_alias aliased)

theorem resolves (hok : ∀ request ∈ row.imports,
    RequestOk (scopes.getD request.target emptyScope) request) :
    Resolves scopes (received ++ importEntries scopes row.imports ++ declared)
      (TraitNamed parsed row) := by
  intro extra names hmethods h
  -- Whatever is neither a method nor declared here is received.
  have hfound : ∀ space name entity, (∃ held, holder names space name = some held ∧
      sameEntity held.entity entity = true) → ¬ IsMethod entity →
      (∃ entry ∈ declaredIn parsed row.module, Claims entry space name ∧
        sameEntity entry.entity entity = true) ∨ Received parsed row space name entity := by
    rintro space name entity ⟨held, hheld, hsame⟩ hnot
    have hall := h.held hheld
    rcases List.mem_append.mp hall.mem with hbase | hextra
    · rcases List.mem_append.mp hbase with hforeign | hown
      · exact .inr ((ctx.received_iff hok ..).mp ⟨held, hforeign, hall.claims, hsame⟩)
      · exact .inl ⟨held, ctx.declared_perm.mem_iff.mp hown, hall.claims, hsame⟩
    · obtain ⟨id, hid⟩ := hmethods held hextra
      rw [hid] at hsame
      refine absurd ⟨id, ?_⟩ hnot
      exact (sameEntity_eq hsame (by simp)).symm
  have hholds : ∀ space name entity, ((∃ entry ∈ declaredIn parsed row.module,
      Claims entry space name ∧ sameEntity entry.entity entity = true) ∨
      Received parsed row space name entity) → ∃ held, holder names space name = some held ∧
        sameEntity held.entity entity = true := by
    intro space name entity hvisible
    obtain ⟨entry, hentry, hclaims, hsame⟩ : ∃ entry ∈ received ++
        importEntries scopes row.imports ++ declared ++ extra, Claims entry space name ∧
        sameEntity entry.entity entity = true := by
      rcases hvisible with ⟨entry, hentry, hclaims⟩ | hreceived
      · exact ⟨entry, List.mem_append_left _ (List.mem_append_right _
          (ctx.declared_perm.mem_iff.mpr hentry)), hclaims⟩
      · obtain ⟨entry, hentry, hclaims⟩ := (ctx.received_iff hok ..).mpr hreceived
        exact ⟨entry, List.mem_append_left _ (List.mem_append_left _ hentry), hclaims⟩
    obtain ⟨held, hheld, hall⟩ := h.exists_held hentry hclaims
    exact ⟨held, hheld, sameEntity_trans (hall.same entry hentry hclaims) hsame⟩
  have hvisible : ∀ space name entity, ¬ IsMethod entity →
      ((∃ held, holder names space name = some held ∧ sameEntity held.entity entity = true) ↔
        (∃ entry ∈ declaredIn parsed row.module, Claims entry space name ∧
          sameEntity entry.entity entity = true) ∨ Received parsed row space name entity) :=
    fun space name entity hnot =>
      ⟨fun hheld => hfound space name entity hheld hnot, hholds space name entity⟩
  intro written id
  cases written with
  | atomicType name =>
    rw [traitReference_atomic, hvisible _ _ _ (by rintro ⟨id, ⟨⟩⟩), ctx.received_trait]
    have hdeclared : (∃ entry ∈ declaredIn parsed row.module, Claims entry .types name.id ∧
        sameEntity entry.entity (.trait id) = true) ↔
        ∃ entry ∈ declaredIn parsed row.module, entry.name.id = name.id ∧
          entry.entity = .trait id := by
      refine exists_congr fun entry => and_congr_right fun _ => ?_
      rw [sameEntity_trait]
      exact ⟨fun hboth => ⟨hboth.1.spelling, hboth.2⟩,
        fun hboth => ⟨⟨hboth.1, by rw [hboth.2]; rfl⟩, hboth.2⟩⟩
    rw [hdeclared]
    constructor
    · exact fun hthis => .atomic hthis
    · rintro ⟨hthis⟩
      exact hthis
  | qualifiedType qualified arguments span => cases arguments with
    | nil =>
      rw [traitReference_qualified]
      constructor
      · rintro ⟨aliased, hheld, scope, hscope, hoffer⟩
        have hreceived := (hvisible _ _ _ (by rintro ⟨id, ⟨⟩⟩)).mp hheld
        obtain ⟨request, hrequest, written, hwritten, hname, hsame⟩ :=
          RowContext.received_alias hreceived
        obtain ⟨trow, hmem, htarget, -, found, hfound, hok⟩ := ctx.targets request hrequest
        have hmodule : request.target = aliased.target := by simpa [sameEntity] using hsame
        rw [hmodule, hscope] at hfound
        cases hfound
        have hoffers := (hok.offered _ _ _).mp hoffer
        rw [htarget, offers_trait ⟨trow, hmem, htarget⟩] at hoffers
        exact .qualified hrequest hwritten hname hoffers
      · rintro ⟨⟩
        rename_i request written hrequest hwritten hname hoffered
        obtain ⟨trow, hmem, htarget, -, scope, hscope, hok⟩ := ctx.targets request hrequest
        refine ⟨⟨request.target, request.path⟩, ?_, scope, hscope, ?_⟩
        · refine (hvisible _ _ _ (by rintro ⟨id, ⟨⟩⟩)).mpr (.inr (.inl ?_))
          exact ⟨request, hrequest, written, hwritten, hname, sameEntity_refl _⟩
        · rw [hok.offered, htarget, offers_trait ⟨trow, hmem, htarget⟩]
          exact hoffered
    | cons first rest =>
      simp only [traitReference, reduceCtorEq, false_iff]
      rintro ⟨⟩
  | appliedType name arguments span | callableTypeSyntax purity parameters result span
  | tupleTypeSyntax elements span =>
    simp only [traitReference, reduceCtorEq, false_iff]
    rintro ⟨⟩

/-! ## The selections of a module -/

theorem requests_ok (h : ∀ request ∈ row.imports, ∀ selection ∈ request.symbols,
    SelectionOffered parsed row request.target selection) :
    ∀ request ∈ row.imports, RequestOk (scopes.getD request.target emptyScope) request := by
  intro request hrequest selection hselection
  obtain ⟨trow, -, htarget, -, hscope⟩ := ctx.target_scope hrequest
  have hoffered := h request hrequest selection hselection
  cases selection with
  | namedSelection written => exact (selectionOk_named hscope htarget written).mpr hoffered
  | constructorSelection written listed =>
    exact (selectionOk_constructor hscope htarget written listed).mpr hoffered
  | methodsSelection written span => trivial

section

variable (hok : ∀ request ∈ row.imports,
  RequestOk (scopes.getD request.target emptyScope) request)

include hok

section

variable {names : Names} (h : Summary (received ++ importEntries scopes row.imports) names)

include h

theorem methodsOk_iff {request : ModuleImport} (hrequest : request ∈ row.imports)
    (written : WrittenName) (span : Span) :
    MethodsOk (scopes.getD request.target emptyScope) names (.methodsSelection written span) ↔
      SelectionOffered parsed row request.target (.methodsSelection written span) := by
  obtain ⟨trow, -, htarget, -, hscope⟩ := ctx.target_scope hrequest
  simp only [MethodsOk, SelectionOffered, hscope.holding, htarget]
  refine exists_congr fun receiver => and_congr_right fun _ => ?_
  rw [← ctx.received_iff hok, seesType]
  constructor
  · intro hsees
    cases hheld : holder names .types written.id with
    | none => simp [hheld] at hsees
    | some held =>
      exact ⟨held, (h.held hheld).mem, (h.held hheld).claims, by simpa [hheld] using hsees⟩
  · rintro ⟨entry, hentry, hclaims, hsame⟩
    obtain ⟨held, hheld, hall⟩ := h.exists_held hentry hclaims
    simp only [hheld]
    exact sameEntity_trans (hall.same entry hentry hclaims) hsame

/-- Every selection is offered iff the import rows are answered and each `methods` selection
is of a type in sight. -/
theorem selections_iff : (∀ request ∈ row.imports,
        RequestMethodsOk (scopes.getD request.target emptyScope) names request) ↔
      ∀ request ∈ row.imports, ∀ selection ∈ request.symbols,
        SelectionOffered parsed row request.target selection := by
  refine forall_congr' fun request => forall_congr' fun hrequest =>
    forall_congr' fun selection => forall_congr' fun hselection => ?_
  obtain ⟨trow, -, htarget, -, hscope⟩ := ctx.target_scope hrequest
  have hanswered := hok request hrequest selection hselection
  cases selection with
  | namedSelection written =>
    exact iff_of_true trivial ((selectionOk_named hscope htarget written).mp hanswered)
  | constructorSelection written listed =>
    exact iff_of_true trivial
      ((selectionOk_constructor hscope htarget written listed).mp hanswered)
  | methodsSelection written span => exact ctx.methodsOk_iff hok h hrequest written span

end

end

theorem implementationOk_iff (implementation : ImplRow) :
    ImplementationOk parsed.declarations (TraitNamed parsed row) implementation ↔
      ∃ id, TraitNamed parsed row implementation.header.traitName id := by
  constructor
  · rintro ⟨id, owner, hnamed, -⟩
    exact ⟨id, hnamed⟩
  · rintro ⟨id, hnamed⟩
    have hexists : ∃ module, ∃ entry ∈ declaredIn parsed module, entry.entity = .trait id := by
      generalize implementation.header.traitName = written at hnamed
      cases hnamed with
      | atomic visible =>
        rcases visible with ⟨entry, hentry, -, hentity⟩ | ⟨request, -, written, -, -, entry,
          hentry, -, hentity, -⟩ | ⟨-, prelude, -, -, ⟨request, -, written, -, -, entry, hentry, -,
          hentity, -⟩, -⟩
        all_goals exact ⟨_, entry, hentry, hentity⟩
      | qualified hrequest haliased hspelling hoffered =>
        obtain ⟨entry, hentry, -, hentity, -⟩ := hoffered
        exact ⟨_, entry, hentry, hentity⟩
    obtain ⟨module, entry, hentry, hentity⟩ := hexists
    obtain ⟨owner, hmem, howner⟩ := exists_trait ctx.sealed hentry hentity
    exact ⟨id, owner, hnamed, howner, ctx.sealed.headers owner hmem⟩

/-! ## A module is built iff it is accepted -/

omit ctx in
theorem buildModule_reflects (row : ParsedModuleRow) (scopes : List ModuleScope)
    (received declared : List Entry) (methods : List MethodImport) :
    ∃ names,
      ((∀ request ∈ row.imports, RequestOk (scopes.getD request.target emptyScope) request) →
        (received ++ importEntries scopes row.imports).Pairwise Compatible →
        Summary (received ++ importEntries scopes row.imports) names) ∧
      Reflects (received ++ importEntries scopes row.imports ++ declared)
        ((∀ request ∈ row.imports, RequestOk (scopes.getD request.target emptyScope) request) ∧
          ∀ request ∈ row.imports,
            RequestMethodsOk (scopes.getD request.target emptyScope) names request)
        (buildModule scopes row declared received methods) := by
  have hstart : Reflects [] True ⟨[], methods, [], none⟩ :=
    ⟨by simp, fun _ => Summary.nil⟩
  have hreceived : Reflects received True (received.foldl enter ⟨[], methods, [], none⟩) :=
    foldl_enter_reflects hstart
  have himported := importRows_reflects hreceived scopes row.imports
  obtain ⟨-, hselected⟩ := selectMethods_reflects himported scopes row.imports
  refine ⟨_, fun hok hpairs => himported.names (himported.problem.mpr ⟨⟨trivial, hok⟩, hpairs⟩), ?_⟩
  exact (foldl_enter_reflects hselected).congr (by rw [true_and])

/-- A module's build has no problem iff the module is accepted; its scope is then correct. -/
theorem built_spec (methods : List MethodImport) {built : BuiltScope}
    (hbuilt : publishImplementations (buildModule scopes row declared received methods) scopes
      row.module parsed.declarations = built) :
    (built.problem = none ↔ RowAccepted parsed row) ∧
      (built.problem = none → ∀ scope : ModuleScope, scope.names = built.names →
        ScopeOk parsed row scope ∧ (received = [] → ∀ space name entity,
          (∃ entry ∈ provided scope, Claims entry space name ∧
              sameEntity entry.entity entity = true) ↔
            Selects parsed row space name entity ∧
              ¬ ∃ entry, Declares parsed row entry ∧ Claims entry space name)) := by
  obtain ⟨names, hnames, hmodule⟩ :=
    buildModule_reflects row scopes received declared methods
  by_cases hok : ∀ request ∈ row.imports,
      RequestOk (scopes.getD request.target emptyScope) request
  swap
  · -- An unanswered selection is a problem, which stays.
    have hbroken : built.problem ≠ none := by
      rw [← hbuilt]
      refine publishImplementations_broken ?_
      exact fun hnone => hok (hmodule.ok_of hnone).1
    refine ⟨iff_of_false hbroken fun haccepted => hok (ctx.requests_ok haccepted.offered),
      fun hnone => absurd hnone hbroken⟩
  have hstart : Published parsed.declarations (TraitNamed parsed row)
      (received ++ importEntries scopes row.imports ++ declared) _ [] []
      (buildModule scopes row declared received methods) :=
    ⟨by simp, by simpa using hmodule, by simp⟩
  obtain ⟨extra, hpublished⟩ := publishImplementations_published (ctx.resolves hok)
    (Implementations parsed row) hstart
  rw [List.nil_append] at hpublished
  change Published _ _ _ _ _ _ (publishImplementations _ _ row.module parsed.declarations)
    at hpublished
  rw [hbuilt] at hpublished
  have himplementations : (∀ implementation ∈ Implementations parsed row,
      ImplementationOk parsed.declarations (TraitNamed parsed row) implementation) ↔
      ∀ implementation ∈ parsed.declarations.implementations,
        implementation.header.module = row.module →
          ∃ id, TraitNamed parsed row implementation.header.traitName id := by
    simp [Implementations, ctx.implementationOk_iff]
  have hextra : built.problem = none → ∀ entry, entry ∈ extra ↔
      ∃ implementation ∈ Implementations parsed row,
        ImplementedBy parsed.declarations (TraitNamed parsed row) implementation entry :=
    fun hnone entry => ⟨hpublished.sound entry, fun himplemented => by
      obtain ⟨implementation, hmem, himplemented⟩ := himplemented
      exact hpublished.complete hnone implementation hmem entry himplemented⟩
  constructor
  · constructor
    · intro hnone
      obtain ⟨⟨⟨-, hmethods⟩, himplemented⟩, hpairs⟩ := hpublished.reflects.problem.mp hnone
      obtain ⟨hone, hapart⟩ := ctx.of_pairwise hok (hextra hnone) hpairs
      have hforeign : (received ++ importEntries scopes row.imports).Pairwise Compatible :=
        (List.pairwise_append.mp (List.pairwise_append.mp hpairs).1).1
      exact ⟨(ctx.selections_iff hok (hnames hok hforeign)).mp hmethods, hone, hapart,
        himplementations.mp himplemented⟩
    · intro haccepted
      have hpairs := ctx.pairwise_of hok hpublished.sound haccepted.unambiguous
        haccepted.declaredOnce
      have hforeign : (received ++ importEntries scopes row.imports).Pairwise Compatible :=
        (List.pairwise_append.mp (List.pairwise_append.mp hpairs).1).1
      refine hpublished.reflects.problem.mpr ⟨⟨⟨hok, ?_⟩, ?_⟩, hpairs⟩
      · exact (ctx.selections_iff hok (hnames hok hforeign)).mpr haccepted.offered
      · exact himplementations.mpr haccepted.implemented
  · intro hnone scope hscope
    have hsummary := hpublished.reflects.names hnone
    exact ⟨ctx.scopeOk hok (hextra hnone) hsummary hscope,
      fun hreceived => ctx.scope_provided hok (hextra hnone) hsummary hreceived hscope⟩

end RowContext

/-! ## The program -/

namespace Sealed

variable {parsed : ParsedContents} (hsealed : Sealed parsed)

include hsealed

theorem nodup : (parsed.dependencyOrder.map (·.module)).Nodup := by
  rw [(hsealed.order.map _).nodup_iff, hsealed.modules]
  exact List.nodup_range

theorem module_lt {row : ParsedModuleRow} (hrow : row ∈ parsed.dependencyOrder) :
    row.module < parsed.modules.length := by
  have hfound := hsealed.modules.getElem? (hsealed.order.mem_iff.mp hrow)
  exact (List.getElem?_eq_some_iff.mp hfound).1

variable {front back : List ParsedModuleRow} {row : ParsedModuleRow}
  (hsplit : parsed.dependencyOrder = front ++ row :: back)

include hsplit

theorem before_ne : ∀ other ∈ front, other.module ≠ row.module := by
  have hnodup := hsealed.nodup
  rw [hsplit, List.map_append, List.map_cons] at hnodup
  intro other hother heq
  exact (List.disjoint_of_nodup_append hnodup) (List.mem_map_of_mem hother)
    (heq ▸ List.mem_cons_self)

omit hsealed in
theorem row_mem : row ∈ parsed.dependencyOrder := by
  rw [hsplit]
  simp

theorem prelude_before (huser : row.role = .userModule) {prelude : ParsedModuleRow}
    (hprelude : prelude ∈ parsed.dependencyOrder) (hmodule : prelude.module = parsed.prelude) :
    prelude ∈ front ∧ ∀ request ∈ prelude.imports, request.target ≠ row.module := by
  obtain ⟨found, hfound, hsame⟩ := hsealed.supplied front row back hsplit huser
  have hunique : found = prelude := by
    have hmem := fun r => hsealed.order.mem_iff (a := r)
    have hleft := hsealed.modules.getElem? ((hmem found).mp (by
      rw [hsplit]
      exact List.mem_append_left _ hfound))
    have hright := hsealed.modules.getElem? ((hmem prelude).mp hprelude)
    rw [hsame, ← hmodule, hright] at hleft
    exact (Option.some.inj hleft).symm
  subst hunique
  refine ⟨hfound, fun request hrequest => ?_⟩
  obtain ⟨first, second, rfl⟩ := List.append_of_mem hfound
  have hearlier : parsed.dependencyOrder = first ++ found :: (second ++ row :: back) := by
    rw [hsplit, List.append_assoc, List.cons_append]
  obtain ⟨target, htarget, heq⟩ := hsealed.imported first found _ hearlier request hrequest
  rw [← heq]
  exact hsealed.before_ne hsplit target (List.mem_append_left _ htarget)

end Sealed

/-- The scopes of the modules built so far are correct, and so is what the prelude supplies. -/
structure StateOk (parsed : ParsedContents) (front : List ParsedModuleRow)
    (state : NamespaceState) : Prop where
  length : state.scopes.length = parsed.modules.length
  scopes : ∀ row ∈ front, ∃ scope, state.scopes[row.module]? = some scope ∧
    ScopeOk parsed row scope
  supplied : ∀ prelude ∈ front, prelude.module = parsed.prelude → ∀ space name entity,
    (∃ entry ∈ state.preludeEntries, Claims entry space name ∧
        sameEntity entry.entity entity = true) ↔ Supplied parsed space name entity
  implicit : ∀ entry ∈ state.preludeEntries, entry.origin = .implicit

theorem provided_implicit {scope : ModuleScope} {entry : Entry} (h : entry ∈ provided scope) :
    entry.origin = .implicit := by
  obtain ⟨held, -, hentry⟩ := List.mem_filterMap.mp h
  split at hentry
  · cases hentry
  · split at hentry
    · cases hentry
      rfl
    · cases hentry
    · cases hentry

section

variable {parsed : ParsedContents} (hsealed : Sealed parsed) {declared : List (List Entry)}
  (hdeclared : List.Forall₂ (fun module entries => entries.Perm (declaredIn parsed module))
    (List.range parsed.modules.length) declared)
  {front back : List ParsedModuleRow} {row : ParsedModuleRow}
  (hsplit : parsed.dependencyOrder = front ++ row :: back) {state : NamespaceState}
  (h : StateOk parsed front state)

def receivedBy (state : NamespaceState) (row : ParsedModuleRow) : List Entry :=
  match row.role with
  | .userModule => state.preludeEntries
  | _ => []

def methodsBy (state : NamespaceState) (row : ParsedModuleRow) : List MethodImport :=
  match row.role with
  | .userModule => state.preludeMethods
  | _ => []

/-- A module's build, with what its role makes it receive. -/
def builtRow (parsed : ParsedContents) (declared : List (List Entry)) (state : NamespaceState)
    (row : ParsedModuleRow) : BuiltScope :=
  publishImplementations (buildModule state.scopes row (declared.getD row.module [])
    (receivedBy state row) (methodsBy state row)) state.scopes row.module parsed.declarations

omit hsealed hdeclared hsplit h in
theorem buildRow_eq (parsed : ParsedContents) (declared : List (List Entry))
    (state : NamespaceState) (row : ParsedModuleRow) :
    buildRow parsed declared state row =
      match (builtRow parsed declared state row).problem with
      | some problem => .error problem
      | none =>
          let scope := (builtRow parsed declared state row).scope
          let scopes := state.scopes.set row.module scope
          if row.module = parsed.prelude then .ok ⟨scopes, provided scope, scope.methods⟩
          else .ok { state with scopes := scopes } := by
  unfold buildRow builtRow receivedBy methodsBy
  cases row.role <;> rfl

include hsealed hdeclared hsplit h

theorem rowContext : RowContext parsed row state.scopes (receivedBy state row)
    (declared.getD row.module []) where
  «sealed» := hsealed
  row_mem := Sealed.row_mem hsplit
  targets := by
    intro request hrequest
    obtain ⟨trow, hmem, htarget⟩ := hsealed.imported front row back hsplit request hrequest
    obtain ⟨scope, hscope, hok⟩ := h.scopes trow hmem
    refine ⟨trow, ?_, htarget, hsealed.before_ne hsplit trow hmem, scope, htarget ▸ hscope, hok⟩
    rw [hsplit]
    exact List.mem_append_left _ hmem
  received_supplied := by
    intro space name entity
    unfold receivedBy
    split
    · rename_i huser
      obtain ⟨prelude, hprelude, hmodule⟩ := hsealed.supplied front row back hsplit huser
      rw [h.supplied prelude hprelude hmodule]
      exact (and_iff_right huser).symm
    · rename_i huser
      refine iff_of_false (by simp) fun hboth => huser hboth.1
  implicit := by
    intro entry hentry
    unfold receivedBy at hentry
    split at hentry
    · exact h.implicit entry hentry
    · cases hentry
  supplied := fun huser prelude hprelude hmodule =>
    (hsealed.prelude_before hsplit huser hprelude hmodule).2
  declared_perm := by
    have hlt := hsealed.module_lt (Sealed.row_mem hsplit)
    have hlength : row.module < declared.length := by
      rw [← hdeclared.length_eq, List.length_range]
      exact hlt
    have hperm := hdeclared.get (by simpa using hlt) hlength
    rw [List.getD_eq_getElem?_getD, List.getElem?_eq_getElem hlength]
    simpa using hperm

theorem buildRow_spec :
    ((∃ next, buildRow parsed declared state row = .ok next) ↔ RowAccepted parsed row) ∧
      ∀ next, buildRow parsed declared state row = .ok next →
        StateOk parsed (front ++ [row]) next := by
  have ctx := rowContext hsealed hdeclared hsplit h
  obtain ⟨hiff, hscope⟩ := ctx.built_spec (methodsBy state row) rfl
  change ((builtRow parsed declared state row).problem = none ↔ _) at hiff
  change ((builtRow parsed declared state row).problem = none → ∀ scope : ModuleScope,
    scope.names = (builtRow parsed declared state row).names → _) at hscope
  rw [buildRow_eq]
  generalize builtRow parsed declared state row = built at hiff hscope ⊢
  cases hproblem : built.problem with
  | some problem =>
    rw [hproblem] at hiff
    refine ⟨iff_of_false (by simp) fun haccepted => by simpa using hiff.mpr haccepted, ?_⟩
    simp
  | none =>
    obtain ⟨hok, hprovided⟩ := hscope hproblem built.scope rfl
    refine ⟨iff_of_true ?_ (hiff.mp hproblem), ?_⟩
    · dsimp only
      split
      · exact ⟨_, rfl⟩
      · exact ⟨_, rfl⟩
    · generalize built.scope = scope at hok hprovided ⊢
      have hlt : row.module < state.scopes.length := by
        rw [h.length]
        exact hsealed.module_lt (Sealed.row_mem hsplit)
      have hscopes : ∀ other ∈ front ++ [row], ∃ found,
          (state.scopes.set row.module scope)[other.module]? = some found ∧
            ScopeOk parsed other found := by
        intro other hother
        rcases List.mem_append.mp hother with hbefore | hlast
        · obtain ⟨found, hfound, hok⟩ := h.scopes other hbefore
          refine ⟨found, ?_, hok⟩
          rw [List.getElem?_set_ne (hsealed.before_ne hsplit other hbefore).symm]
          exact hfound
        · obtain rfl := List.mem_singleton.mp hlast
          exact ⟨scope, List.getElem?_set_self hlt, hok⟩
      intro next hnext
      dsimp only at hnext
      split at hnext
      · rename_i hprelude
        cases hnext
        refine ⟨by simpa using h.length, hscopes, ?_, fun entry => provided_implicit⟩
        intro prelude hmem hmodule space name entity
        -- The prelude is this module: it receives nothing, and supplies what it selects.
        have hnone : receivedBy state row = [] := by
          unfold receivedBy
          split
          · rename_i huser
            obtain ⟨other, hother, hsame⟩ := hsealed.supplied front row back hsplit huser
            exact absurd (hsame.trans hprelude.symm) (hsealed.before_ne hsplit other hother)
          · rfl
        rw [hprovided hnone]
        constructor
        · exact fun hboth => ⟨row, Sealed.row_mem hsplit, hprelude, hboth⟩
        · rintro ⟨other, hother, hsame, hboth⟩
          obtain rfl := ctx.row_unique hother (hsame.trans hprelude.symm)
          exact hboth
      · rename_i hprelude
        cases hnext
        refine ⟨by simpa using h.length, hscopes, ?_, h.implicit⟩
        intro prelude hmem hmodule
        rcases List.mem_append.mp hmem with hbefore | hlast
        · exact h.supplied prelude hbefore hmodule
        · obtain rfl := List.mem_singleton.mp hlast
          exact absurd hmodule hprelude

end

variable {parsed : ParsedContents}

theorem buildRows_spec (hsealed : Sealed parsed) {declared : List (List Entry)}
    (hdeclared : List.Forall₂ (fun module entries => entries.Perm (declaredIn parsed module))
      (List.range parsed.modules.length) declared) :
    ∀ {back front : List ParsedModuleRow} {state : NamespaceState},
      parsed.dependencyOrder = front ++ back → StateOk parsed front state →
      ((∃ last, back.foldlM (buildRow parsed declared) state = .ok last) ↔
        ∀ row ∈ back, RowAccepted parsed row) ∧
      ∀ last, back.foldlM (buildRow parsed declared) state = .ok last →
        StateOk parsed parsed.dependencyOrder last := by
  intro back
  induction back with intro front state hsplit h
  | nil =>
    rw [List.append_nil] at hsplit
    refine ⟨iff_of_true ⟨state, rfl⟩ (by simp), ?_⟩
    intro last hlast
    cases hlast
    exact hsplit ▸ h
  | cons row back ih =>
    obtain ⟨hiff, hstate⟩ := buildRow_spec hsealed hdeclared hsplit h
    rw [List.foldlM_cons]
    cases hrow : buildRow parsed declared state row with
    | error problem =>
      have hrejected : ¬ RowAccepted parsed row := fun haccepted => by
        obtain ⟨next, hnext⟩ := hiff.mpr haccepted
        rw [hrow] at hnext
        cases hnext
      refine ⟨iff_of_false ?_ fun hall => hrejected (hall row List.mem_cons_self), ?_⟩
      · rintro ⟨last, hlast⟩
        cases hlast
      · intro last hlast
        cases hlast
    | ok next =>
      have haccepted := hiff.mp ⟨next, hrow⟩
      rw [List.append_cons] at hsplit
      obtain ⟨hrest, hlast⟩ := ih hsplit (hstate next hrow)
      refine ⟨?_, hlast⟩
      rw [List.forall_mem_cons]
      exact hrest.trans (and_iff_right haccepted).symm

/-- A sealed program's namespace is built iff the program is accepted, and then holds what is
visible in each module. -/
theorem buildNamespace_spec (hsealed : Sealed parsed) :
    ((∃ scopes, buildNamespace parsed = .ok scopes) ↔ Accepted parsed) ∧
      ∀ scopes, buildNamespace parsed = .ok scopes → ∀ row ∈ parsed.dependencyOrder,
        ∃ scope, scopes[row.module]? = some scope ∧ ScopeOk parsed row scope := by
  obtain ⟨declared, hdeclared, hperm⟩ := declaredEntries_spec hsealed
  have hstart : StateOk parsed []
      ⟨List.replicate parsed.modules.length emptyScope, [], []⟩ :=
    ⟨by simp, by simp, by simp, by simp⟩
  obtain ⟨hiff, hstate⟩ := buildRows_spec hsealed hperm (List.nil_append _).symm hstart
  have hbuild : ∀ scopes, buildNamespace parsed = .ok scopes ↔
      ∃ last, parsed.dependencyOrder.foldlM (buildRow parsed declared)
        ⟨List.replicate parsed.modules.length emptyScope, [], []⟩ = .ok last ∧
          last.scopes = scopes := by
    intro scopes
    rw [buildNamespace, hdeclared]
    change (do let state ← parsed.dependencyOrder.foldlM (buildRow parsed declared)
                ⟨List.replicate parsed.modules.length emptyScope, [], []⟩
               pure state.scopes) = _ ↔ _
    rw [Except.bind_eq_ok]
    refine exists_congr fun last => and_congr_right fun _ => ?_
    exact ⟨Except.ok.inj, fun heq => congrArg _ heq⟩
  constructor
  · rw [Accepted, ← hiff]
    constructor
    · rintro ⟨scopes, hscopes⟩
      obtain ⟨last, hlast, -⟩ := (hbuild scopes).mp hscopes
      exact ⟨last, hlast⟩
    · rintro ⟨last, hlast⟩
      exact ⟨last.scopes, (hbuild _).mpr ⟨last, hlast, rfl⟩⟩
  · intro scopes hscopes
    obtain ⟨last, hlast, rfl⟩ := (hbuild scopes).mp hscopes
    exact (hstate last hlast).scopes

end Blorp.Namespace
