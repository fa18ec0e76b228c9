import Blorp.Namespace.Scope

/-!
# The stages of a module

What each stage of `build_module` enters into a scope and when it fails, as a list of
entries and a condition on the scopes it reads.
-/

namespace Blorp.Namespace

open Check (ModuleId WrittenName TraitId Entity)
open Load (ModuleImport ImportSelection)

namespace Reflects

variable {entered : List Entry} {ok ok' : Prop} {built : BuiltScope}

theorem broken (h : built.problem ≠ none) (hnot : ¬ ok) : Reflects entered ok built :=
  ⟨iff_of_false h fun hboth => hnot hboth.1, fun hnone => absurd hnone h⟩

section

variable (h : Reflects entered ok built)

include h

theorem congr (hiff : ok ↔ ok') : Reflects entered ok' built :=
  ⟨h.problem.trans (and_congr_left fun _ => hiff), h.names⟩

theorem methods (edges : List MethodImport) : Reflects entered ok { built with methods := edges } :=
  ⟨h.problem, h.names⟩

theorem implementations (rows : List ResolvedImplementation) :
    Reflects entered ok { built with implementations := rows } :=
  ⟨h.problem, h.names⟩

theorem ok_of (hnone : built.problem = none) : ok :=
  (h.problem.mp hnone).1

theorem and_true (htrue : ok') : Reflects entered (ok ∧ ok') built :=
  h.congr ⟨fun hok => ⟨hok, htrue⟩, And.left⟩

end

end Reflects

section

variable {entered : List Entry} {ok : Prop} {built : BuiltScope}

theorem fail_broken (built : BuiltScope) (request : ModuleImport) (selection : ImportSelection)
    (problem : SelectionProblem) : (fail built request selection problem).problem ≠ none :=
  firstProblem_ne_none _ _

theorem bind_reflects (h : Reflects entered ok built) (request : ModuleImport) (name : WrittenName)
    (entity : Entity) :
    Reflects (entered ++ [⟨name, entity, .imported⟩]) ok (bind built request name entity) := by
  have henter := enter_reflects h ⟨name, entity, .imported⟩
  unfold bind
  dsimp only
  split
  · exact henter.methods _
  · exact henter

/-! ## Selections -/

def constructorEntry (target : ModuleScope) (listed : WrittenName) : Option Entry :=
  match offer (holder target.names .values listed.id) with
  | .ok (.constructor variant) => some ⟨listed, .constructor variant, .imported⟩
  | _ => none

/-- A listed constructor that the target offers with its union. -/
def ConstructorOk (target : ModuleScope) (owner : Check.UnionId) (listed : WrittenName) : Prop :=
  ∃ variant, offer (holder target.names .values listed.id) = .ok (.constructor variant) ∧
    variant.owner = owner

variable {target : ModuleScope} {request : ModuleImport} {selection : ImportSelection}
variable {name : WrittenName}

theorem selectConstructor_broken {owner : Check.UnionId} (h : ¬ ConstructorOk target owner name) :
    (selectConstructor target request selection owner built name).problem ≠ none := by
  unfold selectConstructor
  split
  · rename_i variant hoffer
    split
    · rename_i howner
      exact absurd ⟨variant, hoffer, howner⟩ h
    · exact fail_broken _ _ _ _
  · exact fail_broken _ _ _ _

theorem selectConstructors_reflects (target : ModuleScope) (request : ModuleImport)
    (selection : ImportSelection) (owner : Check.UnionId) :
    ∀ (listed : List WrittenName) {entered : List Entry} {ok : Prop} {built : BuiltScope},
      Reflects entered ok built →
      Reflects (entered ++ listed.filterMap (constructorEntry target))
        (ok ∧ ∀ name ∈ listed, ConstructorOk target owner name)
        (listed.foldl (selectConstructor target request selection owner) built) := by
  intro listed
  induction listed with intro entered ok built h
  | nil =>
    rw [List.filterMap_nil, List.append_nil]
    exact h.and_true (by simp)
  | cons name rest ih =>
    have hstep : Reflects (entered ++ (constructorEntry target name).toList)
        (ok ∧ ConstructorOk target owner name)
        (selectConstructor target request selection owner built name) := by
      by_cases hname : ConstructorOk target owner name
      · obtain ⟨variant, hoffer, howner⟩ := hname
        have hentry : constructorEntry target name =
            some ⟨name, .constructor variant, .imported⟩ := by
          simp [constructorEntry, hoffer]
        have hselect : selectConstructor target request selection owner built name =
            enter built ⟨name, .constructor variant, .imported⟩ := by
          simp [selectConstructor, hoffer, howner]
        rw [hentry, hselect]
        exact (enter_reflects h _).and_true ⟨variant, hoffer, howner⟩
      · exact .broken (selectConstructor_broken hname) fun hboth => hname hboth.2
    have hrest := ih hstep
    have hlist : entered ++ (name :: rest).filterMap (constructorEntry target) =
        entered ++ (constructorEntry target name).toList ++
          rest.filterMap (constructorEntry target) := by
      rw [List.filterMap_cons]
      cases constructorEntry target name <;> simp
    rw [hlist, List.foldl_cons]
    exact hrest.congr (by rw [List.forall_mem_cons, and_assoc])

def selectionEntries (target : ModuleScope) : ImportSelection → List Entry
  | .namedSelection name =>
      match bareSelection target name.id with
      | .ok entity => [⟨name, entity, .imported⟩]
      | .error _ => []
  | .constructorSelection name listed =>
      match offer (holder target.names .types name.id) with
      | .ok (.type (.unionHead owner)) =>
          ⟨name, .type (.unionHead owner), .imported⟩ ::
            listed.filterMap (constructorEntry target)
      | _ => []
  | .methodsSelection _ _ => []

def SelectionOk (target : ModuleScope) : ImportSelection → Prop
  | .namedSelection name => ∃ entity, bareSelection target name.id = .ok entity
  | .constructorSelection name listed =>
      ∃ owner, offer (holder target.names .types name.id) = .ok (.type (.unionHead owner)) ∧
        ∀ constructor ∈ listed, ConstructorOk target owner constructor
  | .methodsSelection _ _ => True

theorem offer_eq_ok {found : Option Entry} {entity : Entity} : offer found = .ok entity ↔
    ∃ held, found = some held ∧ held.origin = .declared .publicName ∧ held.entity = entity ∧
      ∀ aliased, entity ≠ .alias aliased := by
  cases found with
  | none => simp [offer]
  | some held =>
    obtain ⟨name, heldEntity, origin⟩ := held
    cases heldEntity <;> cases origin <;> try simp [offer]
    all_goals rename_i visibility
    all_goals cases visibility <;> simp
    all_goals rintro rfl
    all_goals simp

theorem selectUnion_eq {listed : List WrittenName} {owner : Check.UnionId}
    (h : offer (holder target.names .types name.id) = .ok (.type (.unionHead owner))) :
    selectUnion built target request selection name listed =
      listed.foldl (selectConstructor target request selection owner)
        (bind built request name (.type (.unionHead owner))) := by
  obtain ⟨held, hheld, -, hentity, -⟩ := offer_eq_ok.mp h
  rw [hheld] at h
  simp [selectUnion, hheld, hentity, h]

theorem selectUnion_broken {listed : List WrittenName}
    (h : ∀ owner, offer (holder target.names .types name.id) ≠ .ok (.type (.unionHead owner))) :
    (selectUnion built target request selection name listed).problem ≠ none := by
  unfold selectUnion
  split
  · rename_i entry hholder
    split
    · rename_i owner hentity
      split
      · exact fail_broken _ _ _ _
      · rename_i unionType hoffer
        obtain ⟨held, hheld, -, hsame, -⟩ := offer_eq_ok.mp hoffer
        cases hheld
        rw [← hsame, hentity, ← hholder] at hoffer
        exact absurd hoffer (h owner)
    · exact fail_broken _ _ _ _
  · exact fail_broken _ _ _ _

theorem importSelection_reflects (h : Reflects entered ok built) (target : ModuleScope)
    (request : ModuleImport) (selection : ImportSelection) :
    Reflects (entered ++ selectionEntries target selection) (ok ∧ SelectionOk target selection)
      (importSelection target request built selection) := by
  cases selection with
  | namedSelection name =>
    cases hbare : bareSelection target name.id with
    | ok entity =>
      simp only [importSelection, selectionEntries, SelectionOk, hbare]
      exact (bind_reflects h request name entity).and_true ⟨entity, rfl⟩
    | error problem =>
      simp only [importSelection, selectionEntries, SelectionOk, hbare]
      exact .broken (fail_broken _ _ _ _) (by simp)
  | constructorSelection name listed =>
    by_cases hunion : ∃ owner,
        offer (holder target.names .types name.id) = .ok (.type (.unionHead owner))
    · obtain ⟨owner, howner⟩ := hunion
      simp only [importSelection, selectUnion_eq howner, selectionEntries, SelectionOk, howner]
      have hall := selectConstructors_reflects target request (.constructorSelection name listed)
        owner listed (bind_reflects h request name (.type (.unionHead owner)))
      rw [List.append_assoc, List.singleton_append] at hall
      refine hall.congr (and_congr_right fun _ => ?_)
      constructor
      · exact fun hlisted => ⟨owner, rfl, hlisted⟩
      · rintro ⟨other, hother, hlisted⟩
        cases hother
        exact hlisted
    · refine .broken (selectUnion_broken (not_exists.mp hunion)) ?_
      rintro ⟨-, owner, howner, -⟩
      exact hunion ⟨owner, howner⟩
  | methodsSelection name span =>
    simp only [importSelection, selectionEntries, SelectionOk, List.append_nil]
    exact h.and_true trivial

/-! ## Import rows -/

def aliasEntry (request : ModuleImport) : Option Entry :=
  request.moduleAlias.map fun written =>
    ⟨written, .alias ⟨request.target, request.path⟩, .imported⟩

def requestEntries (target : ModuleScope) (request : ModuleImport) : List Entry :=
  (aliasEntry request).toList ++ request.symbols.flatMap (selectionEntries target)

theorem enterAlias_reflects (h : Reflects entered ok built) (request : ModuleImport) :
    Reflects (entered ++ (aliasEntry request).toList) ok (enterAlias built request) := by
  unfold enterAlias aliasEntry
  cases request.moduleAlias with
  | none => simpa using h
  | some written => exact enter_reflects h _

theorem foldl_reflects {α : Type} {step : BuiltScope → α → BuiltScope} {entries : α → List Entry}
    {good : α → Prop}
    (hstep : ∀ {entered : List Entry} {ok : Prop} {built : BuiltScope}, Reflects entered ok built →
      ∀ item, Reflects (entered ++ entries item) (ok ∧ good item) (step built item)) :
    ∀ {items : List α} {entered : List Entry} {ok : Prop} {built : BuiltScope},
      Reflects entered ok built →
      Reflects (entered ++ items.flatMap entries) (ok ∧ ∀ item ∈ items, good item)
        (items.foldl step built) := by
  intro items
  induction items with intro entered ok built h
  | nil =>
    rw [List.flatMap_nil, List.append_nil]
    exact h.and_true (by simp)
  | cons item rest ih =>
    have hrest := ih (hstep h item)
    rw [List.append_assoc, ← List.flatMap_cons] at hrest
    exact hrest.congr (by rw [List.forall_mem_cons, and_assoc])

def RequestOk (target : ModuleScope) (request : ModuleImport) : Prop :=
  ∀ selection ∈ request.symbols, SelectionOk target selection

theorem importRow_reflects (h : Reflects entered ok built) (target : ModuleScope)
    (request : ModuleImport) :
    Reflects (entered ++ requestEntries target request) (ok ∧ RequestOk target request)
      (importRow built target request) := by
  rw [requestEntries, ← List.append_assoc]
  exact foldl_reflects
    (fun {_ _ _} h selection => importSelection_reflects h target request selection)
    (enterAlias_reflects h request)

theorem importRows_reflects (h : Reflects entered ok built) (scopes : List ModuleScope)
    (imports : List ModuleImport) :
    Reflects
      (entered ++ imports.flatMap fun request =>
        requestEntries (scopes.getD request.target emptyScope) request)
      (ok ∧ ∀ request ∈ imports, RequestOk (scopes.getD request.target emptyScope) request)
      (imports.foldl (fun built request =>
        importRow built (scopes.getD request.target emptyScope) request) built) :=
  foldl_reflects (fun {_ _ _} h request => importRow_reflects h _ request) h

/-! ## Methods selections -/

/-- A `methods` selection of a type that the target holds and this module sees. -/
def MethodsOk (target : ModuleScope) (names : Names) : ImportSelection → Prop
  | .methodsSelection name _ => ∃ receiver, holding target name.id = .ok (.type receiver) ∧
      seesType names name.id receiver = true
  | _ => True

theorem selectMethod_names (target : ModuleScope) (request : ModuleImport) (built : BuiltScope)
    (selection : ImportSelection) :
    (selectMethod target request built selection).names = built.names := by
  unfold selectMethod
  split
  · split
    · split <;> rfl
    · rfl
    · rfl
  · rfl
  · rfl

theorem selectMethod_reflects (h : Reflects entered ok built) (target : ModuleScope)
    (request : ModuleImport) (selection : ImportSelection) :
    Reflects entered (ok ∧ MethodsOk target built.names selection)
      (selectMethod target request built selection) := by
  cases selection with
  | methodsSelection name span =>
    by_cases hgood : MethodsOk target built.names (.methodsSelection name span)
    · have hselect : selectMethod target request built (.methodsSelection name span) =
          { built with methods := (selectMethod target request built
            (.methodsSelection name span)).methods } := by
        obtain ⟨receiver, hholding, hsees⟩ := hgood
        simp [selectMethod, hholding, hsees]
      rw [hselect]
      exact (h.methods _).and_true hgood
    · refine .broken ?_ fun hboth => hgood hboth.2
      unfold selectMethod
      dsimp only
      split
      · rename_i receiver hholding
        split
        · rename_i hsees
          exact absurd ⟨receiver, hholding, hsees⟩ hgood
        · exact fail_broken _ _ _ _
      all_goals exact fail_broken _ _ _ _
  | namedSelection name => exact h.and_true trivial
  | constructorSelection name listed => exact h.and_true trivial

/-- Every `methods` selection of an import row is of a type in sight. -/
def RequestMethodsOk (target : ModuleScope) (names : Names) (request : ModuleImport) : Prop :=
  ∀ selection ∈ request.symbols, MethodsOk target names selection

theorem foldl_keeps {α : Type} {step : BuiltScope → α → BuiltScope} (good : Names → α → Prop)
    (hnames : ∀ built item, (step built item).names = built.names)
    (hstep : ∀ {entered : List Entry} {ok : Prop} {built : BuiltScope}, Reflects entered ok built →
      ∀ item, Reflects entered (ok ∧ good built.names item) (step built item)) :
    ∀ {items : List α} {entered : List Entry} {ok : Prop} {built : BuiltScope},
      Reflects entered ok built →
      (items.foldl step built).names = built.names ∧
        Reflects entered (ok ∧ ∀ item ∈ items, good built.names item)
          (items.foldl step built) := by
  intro items
  induction items with
  | nil => exact fun h => ⟨rfl, h.and_true (by simp)⟩
  | cons item rest ih =>
    intro entered ok built h
    obtain ⟨hkept, hrest⟩ := ih (hstep h item)
    rw [hnames] at hkept hrest
    exact ⟨hkept, hrest.congr (by rw [List.forall_mem_cons, and_assoc])⟩

theorem selectMethods_names (built : BuiltScope) (target : ModuleScope) (request : ModuleImport) :
    (selectMethods built target request).names = built.names := by
  unfold selectMethods
  generalize request.symbols = symbols
  induction symbols generalizing built with
  | nil => rfl
  | cons selection rest ih => rw [List.foldl_cons, ih, selectMethod_names]

theorem selectMethods_reflects (h : Reflects entered ok built) (scopes : List ModuleScope)
    (imports : List ModuleImport) :
    (imports.foldl (fun built request =>
        selectMethods built (scopes.getD request.target emptyScope) request) built).names =
        built.names ∧
      Reflects entered
        (ok ∧ ∀ request ∈ imports,
          RequestMethodsOk (scopes.getD request.target emptyScope) built.names request)
        (imports.foldl (fun built request =>
          selectMethods built (scopes.getD request.target emptyScope) request) built) := by
  refine foldl_keeps (fun names request =>
    RequestMethodsOk (scopes.getD request.target emptyScope) names request)
    (fun built request => selectMethods_names built _ request) ?_ h
  intro entered ok built h request
  exact (foldl_keeps (MethodsOk _) (selectMethod_names _ request)
    (fun {_ _ _} h selection => selectMethod_reflects h _ request selection) h).2

end

/-! ## Implementations -/

section

variable (inventory : DeclarationInventory) (named : TypeSyntax → TraitId → Prop)

/-- The entry that an implementation makes of a method of its trait. -/
def implementedEntry (implementation : ImplRow) (method : TraitMethodRow) : Option Entry :=
  (method.traitMethodHeader inventory).map fun header =>
    ⟨implementedName inventory.functions header implementation.header.span implementation.methods,
      .method method.id, .declared implementation.header.visibility⟩

/-- An implementation of a trait that is in the inventory, with its methods' headers. -/
def ImplementationOk (implementation : ImplRow) : Prop :=
  ∃ id owner, named implementation.header.traitName id ∧ inventory.traits[id]? = some owner ∧
    ∀ method ∈ owner.methods, (method.traitMethodHeader inventory).isSome = true

/-- What an implementation declares: the methods of the trait it names. -/
def ImplementedBy (implementation : ImplRow) (entry : Entry) : Prop :=
  ∃ id owner, named implementation.header.traitName id ∧ inventory.traits[id]? = some owner ∧
    ∃ method ∈ owner.methods, implementedEntry inventory implementation method = some entry

variable {inventory named}

theorem implementedEntry_method {implementation : ImplRow} {method : TraitMethodRow} {entry : Entry}
    (h : implementedEntry inventory implementation method = some entry) :
    IsMethod entry.entity ∧ entry.origin = .declared implementation.header.visibility := by
  obtain ⟨header, -, rfl⟩ := Option.map_eq_some_iff.mp h
  exact ⟨⟨method.id, rfl⟩, rfl⟩

theorem publishMethods_reflects {entered : List Entry} {ok : Prop} {built : BuiltScope}
    (h : Reflects entered ok built) (implementation : ImplRow) (methods : List TraitMethodRow) :
    Reflects
      (entered ++ methods.flatMap fun method =>
        (implementedEntry inventory implementation method).toList)
      (ok ∧ ∀ method ∈ methods, (method.traitMethodHeader inventory).isSome = true)
      (methods.foldl (publishMethod inventory implementation) built) := by
  refine foldl_reflects ?_ h
  intro entered ok built h method
  unfold publishMethod implementedEntry
  cases hheader : method.traitMethodHeader inventory with
  | none => exact .broken (firstProblem_ne_none _ _) (by simp)
  | some header => exact (enter_reflects h _).and_true rfl

/-- The trait references of a scope are the ones named, whatever methods have entered. -/
def Resolves (scopes : List ModuleScope) (base : List Entry) (named : TypeSyntax → TraitId → Prop) :
    Prop :=
  ∀ {extra : List Entry} {names : Names}, (∀ entry ∈ extra, IsMethod entry.entity) →
    Summary (base ++ extra) names → ∀ written id,
      traitReference names scopes written = some id ↔ named written id

variable (inventory named) in
/-- Implementations enter methods: those of the traits they name, when each names one. -/
structure Published (base : List Entry) (ok : Prop) (implementations : List ImplRow)
    (extra : List Entry) (built : BuiltScope) : Prop where
  sound : ∀ entry ∈ extra,
    ∃ implementation ∈ implementations, ImplementedBy inventory named implementation entry
  reflects : Reflects (base ++ extra)
    (ok ∧ ∀ implementation ∈ implementations, ImplementationOk inventory named implementation) built
  complete : built.problem = none → ∀ implementation ∈ implementations, ∀ entry,
    ImplementedBy inventory named implementation entry → entry ∈ extra

section

variable {scopes : List ModuleScope} {base extra : List Entry} {ok : Prop} {before : List ImplRow}
  {built : BuiltScope}

theorem ImplementedBy.method {implementation : ImplRow} {entry : Entry}
    (h : ImplementedBy inventory named implementation entry) : IsMethod entry.entity := by
  obtain ⟨id, owner, -, -, method, -, hentry⟩ := h
  exact (implementedEntry_method hentry).1

theorem Published.methods (h : Published inventory named base ok before extra built) :
    ∀ entry ∈ extra, IsMethod entry.entity := by
  intro entry hentry
  obtain ⟨implementation, -, himplemented⟩ := h.sound entry hentry
  exact himplemented.method

theorem Published.broken (h : Published inventory named base ok before extra built)
    {implementation : ImplRow} {next : BuiltScope} (hproblem : next.problem ≠ none)
    (hwhy : built.problem = none → ¬ ImplementationOk inventory named implementation) :
    Published inventory named base ok (before ++ [implementation]) extra next := by
  refine ⟨fun entry hentry => ?_,
    ⟨iff_of_false hproblem ?_, fun hnone => absurd hnone hproblem⟩,
    fun hnone => absurd hnone hproblem⟩
  · obtain ⟨other, hother, himplemented⟩ := h.sound entry hentry
    exact ⟨other, List.mem_append_left _ hother, himplemented⟩
  rintro ⟨⟨hok, hall⟩, hpairs⟩
  rw [List.forall_mem_append] at hall
  have hbuilt : built.problem = none := h.reflects.problem.mpr ⟨⟨hok, hall.1⟩, hpairs⟩
  exact hwhy hbuilt (hall.2 implementation (by simp))

theorem publishImplementation_broken (hproblem : built.problem ≠ none) (implementation : ImplRow) :
    (publishImplementation scopes inventory built implementation).problem ≠ none := by
  unfold publishImplementation
  split
  · exact firstProblem_ne_none _ _
  · dsimp only
    split
    · rename_i owner howner
      generalize hstart : { built with
        implementations := built.implementations ++ [_] } = start
      have hbroken : start.problem ≠ none := by
        rw [← hstart]
        exact hproblem
      clear hstart
      generalize owner.methods = methods
      induction methods generalizing start with
      | nil => exact hbroken
      | cons method rest ih =>
        refine ih _ ?_
        unfold publishMethod
        split
        · exact firstProblem_ne_none _ _
        · exact enter_broken hbroken _
    · exact firstProblem_ne_none _ _

theorem publishImplementations_broken {module : ModuleId} (hproblem : built.problem ≠ none) :
    (publishImplementations built scopes module inventory).problem ≠ none := by
  unfold publishImplementations
  generalize inventory.implementations.filter (·.header.module == module) = implementations
  induction implementations generalizing built with
  | nil => exact hproblem
  | cons implementation rest ih => exact ih (publishImplementation_broken hproblem implementation)

theorem publishImplementation_published (hresolves : Resolves scopes base named)
    (h : Published inventory named base ok before extra built) (implementation : ImplRow) :
    ∃ more, Published inventory named base ok (before ++ [implementation]) (extra ++ more)
      (publishImplementation scopes inventory built implementation) := by
  by_cases hproblem : built.problem = none
  swap
  · refine ⟨[], ?_⟩
    rw [List.append_nil]
    exact h.broken (publishImplementation_broken hproblem implementation)
      fun hnone => absurd hnone hproblem
  have hnamed := hresolves h.methods (h.reflects.names hproblem) implementation.header.traitName
  cases hreference : traitReference built.names scopes implementation.header.traitName with
  | none =>
    refine ⟨[], ?_⟩
    rw [List.append_nil]
    refine h.broken ?_ ?_
    · rw [publishImplementation, hreference]
      exact firstProblem_ne_none _ _
    · rintro - ⟨id, owner, hid, -⟩
      rw [(hnamed id).mpr hid] at hreference
      cases hreference
  | some id =>
    have hid := (hnamed id).mp hreference
    have hunique : ∀ other, named implementation.header.traitName other → other = id := by
      intro other hother
      have := (hnamed other).mpr hother
      rw [hreference] at this
      exact (Option.some.inj this).symm
    cases howner : inventory.traits[id]? with
    | none =>
      refine ⟨[], ?_⟩
      rw [List.append_nil]
      refine h.broken ?_ ?_
      · simp only [publishImplementation, hreference, howner]
        exact firstProblem_ne_none _ _
      · rintro - ⟨other, owner, hother, hfound, -⟩
        rw [hunique other hother, howner] at hfound
        cases hfound
    | some owner =>
      have hpublished : Reflects (base ++ extra ++ owner.methods.flatMap fun method =>
          (implementedEntry inventory implementation method).toList)
          ((ok ∧ ∀ implementation ∈ before, ImplementationOk inventory named implementation) ∧
            ∀ method ∈ owner.methods, (method.traitMethodHeader inventory).isSome = true)
          (publishImplementation scopes inventory built implementation) := by
        simp only [publishImplementation, hreference, howner]
        exact publishMethods_reflects (h.reflects.implementations _) implementation owner.methods
      have hgood : ImplementationOk inventory named implementation ↔
          ∀ method ∈ owner.methods, (method.traitMethodHeader inventory).isSome = true := by
        constructor
        · rintro ⟨other, found, hother, hfound, hheaders⟩
          rw [hunique other hother, howner] at hfound
          cases hfound
          exact hheaders
        · exact fun hheaders => ⟨id, owner, hid, howner, hheaders⟩
      have hthis : ∀ entry, entry ∈ (owner.methods.flatMap fun method =>
          (implementedEntry inventory implementation method).toList) ↔
          ImplementedBy inventory named implementation entry := by
        intro entry
        rw [List.mem_flatMap]
        constructor
        · rintro ⟨method, hmethod, hentry⟩
          exact ⟨id, owner, hid, howner, method, hmethod, by simpa using hentry⟩
        · rintro ⟨other, found, hother, hfound, method, hmethod, hentry⟩
          rw [hunique other hother, howner] at hfound
          cases hfound
          exact ⟨method, hmethod, by simpa using hentry⟩
      refine ⟨_, ?_, hpublished.congr ?_ |> (List.append_assoc base extra _ ▸ ·), ?_⟩
      · intro entry hentry
        rcases List.mem_append.mp hentry with hold | hnew
        · obtain ⟨other, hother, himplemented⟩ := h.sound entry hold
          exact ⟨other, List.mem_append_left _ hother, himplemented⟩
        · exact ⟨implementation, by simp, (hthis entry).mp hnew⟩
      · rw [List.forall_mem_append, and_assoc, ← hgood]
        simp
      · intro hnone other hother entry himplemented
        rcases List.mem_append.mp hother with hbefore | hlast
        · exact List.mem_append_left _ (h.complete hproblem other hbefore entry himplemented)
        · obtain rfl := List.mem_singleton.mp hlast
          exact List.mem_append_right _ ((hthis entry).mpr himplemented)

theorem publishImplementations_published (hresolves : Resolves scopes base named)
    (implementations : List ImplRow) : ∀ {before : List ImplRow} {extra : List Entry}
    {built : BuiltScope}, Published inventory named base ok before extra built →
      ∃ more, Published inventory named base ok (before ++ implementations) more
        (implementations.foldl (publishImplementation scopes inventory) built) := by
  induction implementations with intro before extra built h
  | nil =>
    refine ⟨extra, ?_⟩
    rw [List.append_nil]
    exact h
  | cons implementation rest ih =>
    obtain ⟨more, hmore⟩ := publishImplementation_published hresolves h implementation
    rw [List.append_cons]
    exact ih hmore

end

end

end Blorp.Namespace
