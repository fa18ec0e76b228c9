import Blorp.Namespace.Sealed

/-!
# Issued identities

`issue_inventory` of `utils/ids.brp`: every declaration gets the next ordinal of its kind and
its row at that position.  Functions and traits are two lists in module order, and their cursors
merge so that a module's authored functions precede its defaults.  A cursor is kept as the
declarations it has not read; payloads pass through as in the rows.
-/

namespace Blorp.Namespace

open Check (Span ModuleId WrittenName FunctionId TraitId)
open Fuel

/-! ## Parsed declarations -/

structure ParsedFunction where
  module : ModuleId
  functionName : WrittenName
  visibility : Visibility

inductive ParsedFunctionGroup where
  | freeFunction (declaration : ParsedFunction)
  | implementationGroup (header : ImplementationHeader) (methods : List ParsedFunction)

def ParsedFunctionGroup.functionGroupModule : ParsedFunctionGroup → ModuleId
  | .freeFunction declaration => declaration.module
  | .implementationGroup header _ => header.module

inductive ParsedTraitMethod where
  | abstractTraitMethod (functionName : WrittenName) (span : Span)
  | defaultTraitMethod (function : ParsedFunction) (span : Span)

def ParsedTraitMethod.traitMethodSpan : ParsedTraitMethod → Span
  | .abstractTraitMethod _ span => span
  | .defaultTraitMethod _ span => span

structure ParsedTrait where
  module : ModuleId
  visibility : Visibility
  typeName : WrittenName
  methods : List ParsedTraitMethod

structure ParsedRecord where
  module : ModuleId
  typeName : WrittenName
  visibility : Visibility

structure ParsedUnion where
  module : ModuleId
  visibility : Visibility
  typeName : WrittenName
  variants : List WrittenName

structure ParsedOpaque where
  module : ModuleId
  typeName : WrittenName
  visibility : Visibility

structure ParsedConstant where
  module : ModuleId
  name : WrittenName
  visibility : Visibility

/-! ## Issuing -/

structure IssuedRows where
  functions : List FunctionRow
  traits : List TraitRow
  implementations : List ImplRow

def functionRow (id : FunctionId) (role : FunctionRole) (declaration : ParsedFunction) :
    FunctionRow :=
  ⟨id, role, declaration.module, declaration.functionName, declaration.visibility⟩

def issueFunction (functions : List FunctionRow) (role : FunctionRole)
    (declaration : ParsedFunction) : List FunctionRow × FunctionId :=
  (functions ++ [functionRow functions.length role declaration], functions.length)

def issueBody (state : List FunctionRow × List FunctionId) (declaration : ParsedFunction) :
    List FunctionRow × List FunctionId :=
  let (functions, id) := issueFunction state.1 .implementationBody declaration
  (functions, state.2 ++ [id])

def issueGroup (rows : IssuedRows) : ParsedFunctionGroup → IssuedRows
  | .freeFunction declaration =>
      { rows with functions := (issueFunction rows.functions .freeFunctionBody declaration).1 }
  | .implementationGroup header methods =>
      let (functions, methodIds) := methods.foldl issueBody (rows.functions, [])
      { rows with
        functions := functions
        implementations :=
          rows.implementations ++ [⟨rows.implementations.length, header, methodIds⟩] }

def issueMethod (owner : TraitId) (state : List FunctionRow × List TraitMethodRow)
    (method : ParsedTraitMethod) : List FunctionRow × List TraitMethodRow :=
  let position := state.2.length
  match method with
  | .abstractTraitMethod functionName span =>
      (state.1, state.2 ++ [⟨⟨owner, position⟩, .requiredMethod functionName, span⟩])
  | .defaultTraitMethod function span =>
      let (functions, body) := issueFunction state.1 .traitDefaultBody function
      (functions, state.2 ++ [⟨⟨owner, position⟩, .defaultMethod body, span⟩])

def issueTrait (rows : IssuedRows) (declaration : ParsedTrait) : IssuedRows :=
  let owner := rows.traits.length
  let (functions, methods) := declaration.methods.foldl (issueMethod owner) (rows.functions, [])
  { rows with
    functions := functions
    traits := rows.traits ++
      [⟨owner, declaration.module, declaration.visibility, declaration.typeName, methods⟩] }

/-- The declarations not read, and the rows so far. -/
structure Issuing where
  functions : List ParsedFunctionGroup
  traits : List ParsedTrait
  rows : IssuedRows

def nextModule (state : Issuing) : Option ModuleId :=
  match state.functions.head? with
  | none => state.traits.head?.map ParsedTrait.module
  | some group =>
      match state.traits.head? with
      | none => some group.functionGroupModule
      | some declaration =>
          if group.functionGroupModule ≤ declaration.module then some group.functionGroupModule
          else some declaration.module

def issueOf {δ : Type} (moduleOf : δ → ModuleId) (issue : IssuedRows → δ → IssuedRows)
    (module : ModuleId) : IssuedRows → List δ → IssuedRows × List δ
  | rows, [] => (rows, [])
  | rows, declaration :: rest =>
      if moduleOf declaration ≠ module then (rows, declaration :: rest)
      else issueOf moduleOf issue module (issue rows declaration) rest

def issueModule (state : Issuing) (module : ModuleId) : Issuing :=
  let (rows, functions) := issueOf ParsedFunctionGroup.functionGroupModule issueGroup module
    state.rows state.functions
  let (rows, traits) := issueOf ParsedTrait.module issueTrait module rows state.traits
  ⟨functions, traits, rows⟩

def issueTurn (state : Issuing) : Issuing :=
  match nextModule state with
  | none => state
  | some module => issueModule state module

def issueEach {δ ρ : Type} (row : Nat → δ → ρ) (declarations : List δ) : List ρ :=
  declarations.foldl (fun rows declaration => rows ++ [row rows.length declaration]) []

def recordRow (id : Nat) (declaration : ParsedRecord) : RecordRow :=
  ⟨id, declaration.module, declaration.typeName, declaration.visibility⟩

def unionRow (owner : Nat) (declaration : ParsedUnion) : UnionRow :=
  ⟨owner, declaration.module, declaration.visibility, declaration.typeName,
    issueEach (fun position variant => ⟨⟨owner, position⟩, variant⟩) declaration.variants⟩

def opaqueRow (id : Nat) (declaration : ParsedOpaque) : OpaqueRow :=
  ⟨id, declaration.module, declaration.typeName, declaration.visibility⟩

def constantRow (id : Nat) (declaration : ParsedConstant) : ConstantRow :=
  ⟨id, declaration.module, declaration.name, declaration.visibility⟩

structure ParsedDeclarations where
  functions : List ParsedFunctionGroup
  records : List ParsedRecord
  unions : List ParsedUnion
  opaques : List ParsedOpaque
  constants : List ParsedConstant
  traits : List ParsedTrait

def issueInventory (fuel : Nat) (declarations : ParsedDeclarations) :
    Outcome Empty DeclarationInventory := do
  let last ← repeatWhile (fun state => (nextModule state).isSome)
    (fun state => .ok (issueTurn state)) fuel
    ⟨declarations.functions, declarations.traits, ⟨[], [], []⟩⟩
  pure {
    functions := last.rows.functions
    traits := last.rows.traits
    implementations := last.rows.implementations
    records := issueEach recordRow declarations.records
    unions := issueEach unionRow declarations.unions
    opaques := issueEach opaqueRow declarations.opaques
    constants := issueEach constantRow declarations.constants }

/-! ## Bodies -/

structure Body where
  role : FunctionRole
  declaration : ParsedFunction

def authoredBodies : ParsedFunctionGroup → List Body
  | .freeFunction declaration => [⟨.freeFunctionBody, declaration⟩]
  | .implementationGroup _ methods => methods.map (Body.mk .implementationBody)

def defaultBody : ParsedTraitMethod → Option Body
  | .abstractTraitMethod _ _ => none
  | .defaultTraitMethod function _ => some ⟨.traitDefaultBody, function⟩

def defaultBodies (declaration : ParsedTrait) : List Body :=
  declaration.methods.filterMap defaultBody

def bodyRows (bodies : List Body) : List FunctionRow :=
  bodies.mapIdx fun id body => functionRow id body.role body.declaration

theorem bodyRows_concat (bodies : List Body) (body : Body) : bodyRows (bodies ++ [body])
      = bodyRows bodies ++ [functionRow bodies.length body.role body.declaration] := by
  simp [bodyRows]

theorem length_bodyRows (bodies : List Body) : (bodyRows bodies).length = bodies.length := by
  simp [bodyRows]

theorem issueFunction_bodyRows (bodies : List Body) (role : FunctionRole)
    (declaration : ParsedFunction) :
    issueFunction (bodyRows bodies) role declaration
      = (bodyRows (bodies ++ [⟨role, declaration⟩]), bodies.length) := by
  rw [issueFunction, length_bodyRows, bodyRows_concat]

theorem bodyRows_leads (bodies more : List Body) :
    bodyRows bodies <+: bodyRows (bodies ++ more) := by
  unfold bodyRows
  rw [List.mapIdx_append]
  exact List.prefix_append _ _

/-! ## What is issued -/

section

variable (functions : List FunctionRow)

def HasRow (role : FunctionRole) (declaration : ParsedFunction) (id : FunctionId) : Prop :=
  functions[id]? = some (functionRow id role declaration)

structure ImplIssued (implementation : (ImplementationHeader × List ParsedFunction) × Nat)
    (row : ImplRow) : Prop where
  id : row.id = implementation.2
  header : row.header = implementation.1.1
  methods : List.Forall₂ (HasRow functions .implementationBody) implementation.1.2 row.methods

def DeclaredAs : ParsedTraitMethod → TraitMethodDeclaration → Prop
  | .abstractTraitMethod functionName _, declaration => declaration = .requiredMethod functionName
  | .defaultTraitMethod function _, declaration =>
      ∃ body, declaration = .defaultMethod body ∧ HasRow functions .traitDefaultBody function body

structure MethodIssued (owner : TraitId) (method : ParsedTraitMethod × Nat) (row : TraitMethodRow) :
    Prop where
  id : row.id = ⟨owner, method.2⟩
  span : row.span = method.1.traitMethodSpan
  declaration : DeclaredAs functions method.1 row.declaration

structure TraitIssued (declaration : ParsedTrait × Nat) (row : TraitRow) : Prop where
  id : row.id = declaration.2
  module : row.module = declaration.1.module
  visibility : row.visibility = declaration.1.visibility
  typeName : row.typeName = declaration.1.typeName
  methods : List.Forall₂ (MethodIssued functions declaration.2) declaration.1.methods.zipIdx
    row.methods

end

def implementationOf : ParsedFunctionGroup → Option (ImplementationHeader × List ParsedFunction)
  | .freeFunction _ => none
  | .implementationGroup header methods => some (header, methods)

/-- The rows of the groups and traits so far, with the bodies in the order of their IDs. -/
structure Issued (groups : List ParsedFunctionGroup) (traits : List ParsedTrait)
    (bodies : List Body) (rows : IssuedRows) : Prop where
  functions : rows.functions = bodyRows bodies
  implementations : List.Forall₂ (ImplIssued rows.functions)
    (groups.filterMap implementationOf).zipIdx rows.implementations
  traits : List.Forall₂ (TraitIssued rows.functions) traits.zipIdx rows.traits

section

variable {functions later : List FunctionRow} (h : functions <+: later)

include h

theorem HasRow.mono {role : FunctionRole} {declaration : ParsedFunction} {id : FunctionId}
    (hrow : HasRow functions role declaration id) : HasRow later role declaration id := by
  obtain ⟨more, rfl⟩ := h
  have hlt := (List.getElem?_eq_some_iff.mp hrow).1
  unfold HasRow
  rw [List.getElem?_append_left hlt]
  exact hrow

theorem ImplIssued.mono {implementation : (ImplementationHeader × List ParsedFunction) × Nat}
    {row : ImplRow} (hrow : ImplIssued functions implementation row) :
    ImplIssued later implementation row :=
  { hrow with methods := hrow.methods.imp fun _ _ => HasRow.mono h }

theorem MethodIssued.mono {owner : TraitId} {method : ParsedTraitMethod × Nat}
    {row : TraitMethodRow} (hrow : MethodIssued functions owner method row) :
    MethodIssued later owner method row := by
  refine { hrow with declaration := ?_ }
  have hdeclaration := hrow.declaration
  generalize method.1 = written at hdeclaration ⊢
  cases written with
  | abstractTraitMethod functionName span => exact hdeclaration
  | defaultTraitMethod function span =>
    obtain ⟨body, hbody, hrow⟩ := hdeclaration
    exact ⟨body, hbody, hrow.mono h⟩

theorem TraitIssued.mono {declaration : ParsedTrait × Nat} {row : TraitRow}
    (hrow : TraitIssued functions declaration row) : TraitIssued later declaration row :=
  { hrow with methods := hrow.methods.imp fun _ _ => MethodIssued.mono h }

end

theorem hasRow_concat (bodies : List Body) (role : FunctionRole) (declaration : ParsedFunction) :
    HasRow (bodyRows (bodies ++ [⟨role, declaration⟩])) role declaration bodies.length := by
  have hlast : (bodyRows bodies ++ [functionRow bodies.length role declaration])[
      (bodyRows bodies).length]? = some (functionRow bodies.length role declaration) :=
    List.getElem?_concat_length
  rw [length_bodyRows] at hlast
  unfold HasRow
  rw [bodyRows_concat]
  exact hlast

theorem foldl_issueBody (methods : List ParsedFunction) :
    ∀ (bodies : List Body) (ids : List FunctionId),
      ∃ more, methods.foldl issueBody (bodyRows bodies, ids)
          = (bodyRows (bodies ++ methods.map (Body.mk .implementationBody)), ids ++ more) ∧
        List.Forall₂
          (HasRow (bodyRows (bodies ++ methods.map (Body.mk .implementationBody)))
            .implementationBody) methods more := by
  induction methods with
  | nil =>
    intro bodies ids
    exact ⟨[], by simp, .nil⟩
  | cons declaration methods ih =>
    intro bodies ids
    have hstep : issueBody (bodyRows bodies, ids) declaration
        = (bodyRows (bodies ++ [⟨.implementationBody, declaration⟩]), ids ++ [bodies.length]) := by
      simp [issueBody, issueFunction_bodyRows]
    obtain ⟨more, hrun, hrows⟩ := ih (bodies ++ [⟨.implementationBody, declaration⟩])
      (ids ++ [bodies.length])
    rw [List.append_assoc, List.singleton_append] at hrun hrows
    refine ⟨bodies.length :: more, ?_, .cons ?_ hrows⟩
    · rw [List.foldl_cons, hstep, hrun, List.map_cons, List.append_assoc, List.singleton_append]
    · have hfirst := hasRow_concat bodies .implementationBody declaration
      have hprefix := bodyRows_leads (bodies ++ [⟨.implementationBody, declaration⟩])
        (methods.map (Body.mk .implementationBody))
      rw [List.append_assoc, List.singleton_append] at hprefix
      exact hfirst.mono hprefix

theorem foldl_issueMethod (owner : TraitId) (methods : List ParsedTraitMethod) :
    ∀ (bodies : List Body) (written : List TraitMethodRow),
      ∃ more, methods.foldl (issueMethod owner) (bodyRows bodies, written)
          = (bodyRows (bodies ++ methods.filterMap defaultBody), written ++ more) ∧
        List.Forall₂ (MethodIssued (bodyRows (bodies ++ methods.filterMap defaultBody)) owner)
          (methods.zipIdx written.length) more := by
  induction methods with intro bodies written
  | nil => exact ⟨[], by simp, .nil⟩
  | cons method methods ih =>
    cases method with
    | abstractTraitMethod functionName span =>
      obtain ⟨more, hrun, hrows⟩ := ih bodies
        (written ++ [⟨⟨owner, written.length⟩, .requiredMethod functionName, span⟩])
      rw [List.length_append, List.length_singleton] at hrows
      refine ⟨⟨⟨owner, written.length⟩, .requiredMethod functionName, span⟩ :: more, ?_, ?_⟩
      · rw [List.foldl_cons, issueMethod, hrun, List.append_assoc]
        rfl
      · rw [List.zipIdx_cons]
        exact .cons ⟨rfl, rfl, rfl⟩ hrows
    | defaultTraitMethod function span =>
      have hstep : issueMethod owner (bodyRows bodies, written) (.defaultTraitMethod function span)
          = (bodyRows (bodies ++ [⟨.traitDefaultBody, function⟩]),
            written ++ [⟨⟨owner, written.length⟩, .defaultMethod bodies.length, span⟩]) := by
        simp [issueMethod, issueFunction_bodyRows]
      obtain ⟨more, hrun, hrows⟩ := ih (bodies ++ [⟨.traitDefaultBody, function⟩])
        (written ++ [⟨⟨owner, written.length⟩, .defaultMethod bodies.length, span⟩])
      have hbodies : bodies ++ (ParsedTraitMethod.defaultTraitMethod function span ::
            methods).filterMap defaultBody
          = bodies ++ [⟨.traitDefaultBody, function⟩] ++ methods.filterMap defaultBody := by
        rw [List.append_assoc]
        rfl
      rw [List.length_append, List.length_singleton] at hrows
      refine ⟨⟨⟨owner, written.length⟩, .defaultMethod bodies.length, span⟩ :: more, ?_, ?_⟩
      · rw [List.foldl_cons, hstep, hrun, hbodies, List.append_assoc written]
        rfl
      · rw [hbodies, List.zipIdx_cons]
        refine .cons ⟨rfl, rfl, bodies.length, rfl, ?_⟩ hrows
        exact (hasRow_concat bodies .traitDefaultBody function).mono (bodyRows_leads _ _)

variable {groups : List ParsedFunctionGroup} {traits : List ParsedTrait} {bodies : List Body}
variable {rows : IssuedRows}

theorem Issued.later (h : Issued groups traits bodies rows) (more : List Body) :
    List.Forall₂ (ImplIssued (bodyRows (bodies ++ more)))
        (groups.filterMap implementationOf).zipIdx rows.implementations ∧
      List.Forall₂ (TraitIssued (bodyRows (bodies ++ more))) traits.zipIdx rows.traits := by
  have hprefix : rows.functions <+: bodyRows (bodies ++ more) := by
    rw [h.functions]
    exact bodyRows_leads bodies more
  exact ⟨h.implementations.imp fun _ _ => ImplIssued.mono hprefix,
    h.traits.imp fun _ _ => TraitIssued.mono hprefix⟩

theorem Issued.group (h : Issued groups traits bodies rows) (group : ParsedFunctionGroup) :
    Issued (groups ++ [group]) traits (bodies ++ authoredBodies group) (issueGroup rows group) := by
  obtain ⟨himplementations, htraits⟩ := h.later (authoredBodies group)
  cases group with
  | freeFunction declaration =>
    have hgroup : issueGroup rows (.freeFunction declaration)
        = ⟨bodyRows (bodies ++ [⟨.freeFunctionBody, declaration⟩]), rows.traits,
          rows.implementations⟩ := by
      simp [issueGroup, h.functions, issueFunction_bodyRows]
    rw [hgroup]
    refine ⟨rfl, ?_, htraits⟩
    rw [List.filterMap_append]
    exact (List.append_nil _).symm ▸ himplementations
  | implementationGroup header methods =>
    obtain ⟨ids, hrun, hmethods⟩ := foldl_issueBody methods bodies []
    have hgroup : issueGroup rows (.implementationGroup header methods)
        = ⟨bodyRows (bodies ++ methods.map (Body.mk .implementationBody)), rows.traits,
          rows.implementations ++ [⟨rows.implementations.length, header, ids⟩]⟩ := by
      simp [issueGroup, h.functions, hrun]
    rw [hgroup]
    refine ⟨rfl, ?_, htraits⟩
    rw [List.filterMap_append, List.zipIdx_append]
    refine List.rel_append himplementations (.cons ⟨?_, rfl, hmethods⟩ .nil)
    have hlength := h.implementations.length_eq
    rw [List.length_zipIdx] at hlength
    rw [hlength]
    exact (Nat.zero_add _).symm

theorem Issued.trait (h : Issued groups traits bodies rows) (declaration : ParsedTrait) :
    Issued groups (traits ++ [declaration]) (bodies ++ defaultBodies declaration)
      (issueTrait rows declaration) := by
  obtain ⟨himplementations, htraits⟩ := h.later (defaultBodies declaration)
  obtain ⟨methods, hrun, hmethods⟩ :=
    foldl_issueMethod rows.traits.length declaration.methods bodies []
  have htrait : issueTrait rows declaration
      = ⟨bodyRows (bodies ++ defaultBodies declaration), rows.traits ++
          [⟨rows.traits.length, declaration.module, declaration.visibility, declaration.typeName,
            methods⟩], rows.implementations⟩ := by
    simp only [issueTrait, h.functions, hrun, List.nil_append]
    rfl
  have hlength : rows.traits.length = traits.length := by
    have hlength := h.traits.length_eq
    rw [List.length_zipIdx] at hlength
    exact hlength.symm
  rw [htrait]
  refine ⟨rfl, himplementations, ?_⟩
  rw [List.zipIdx_append]
  have hid : rows.traits.length = 0 + traits.length := by rw [hlength, Nat.zero_add]
  exact List.rel_append htraits (.cons ⟨hid, rfl, rfl, rfl, hid ▸ hmethods⟩ .nil)

/-! ## One module after another -/

/-- The bodies of a module: the authored ones, then the defaults, each in source order. -/
def bodiesOf (functions : List ParsedFunctionGroup) (traits : List ParsedTrait)
    (module : ModuleId) : List Body :=
  (functions.filter (·.functionGroupModule == module)).flatMap authoredBodies ++
    (traits.filter (·.module == module)).flatMap defaultBodies

section

variable {δ : Type} {moduleOf : δ → ModuleId} {issue : IssuedRows → δ → IssuedRows}
  {module : ModuleId}

/-- Reading a module takes exactly its declarations off a cursor that stands at or before it. -/
theorem issueOf_spec {declarations : List δ} (h : Grouped moduleOf module declarations) :
    ∀ rows, ∃ rest,
      issueOf moduleOf issue module rows declarations
        = ((declarations.filter (moduleOf · == module)).foldl issue rows, rest) ∧
      declarations = declarations.filter (moduleOf · == module) ++ rest ∧
      Grouped moduleOf (module + 1) rest := by
  induction declarations with
  | nil =>
    intro rows
    exact ⟨[], rfl, rfl, h.past fun _ hhead => by cases hhead⟩
  | cons declaration declarations ih =>
    intro rows
    by_cases hmodule : moduleOf declaration = module
    · obtain ⟨rest, hrun, hsplit, hrest⟩ := ih h.tail (issue rows declaration)
      have hfilter : (declaration :: declarations).filter (moduleOf · == module)
          = declaration :: declarations.filter (moduleOf · == module) :=
        List.filter_cons_of_pos (by simpa using hmodule)
      refine ⟨rest, ?_, ?_, hrest⟩
      · rw [issueOf, if_neg (not_not.mpr hmodule), hrun, hfilter, List.foldl_cons]
      · rw [hfilter, List.cons_append, ← hsplit]
    · have hpast : Grouped moduleOf (module + 1) (declaration :: declarations) :=
        h.past fun row hhead => by
          rw [List.head?_cons, Option.some_inj] at hhead
          rwa [← hhead]
      have hnone : (declaration :: declarations).filter (moduleOf · == module) = [] := by
        rw [List.filter_eq_nil_iff]
        intro other hother
        have hne := hpast.not_mem other hother
        simpa using hne
      exact ⟨declaration :: declarations, by rw [issueOf, if_pos hmodule, hnone, List.foldl_nil],
        by rw [hnone, List.nil_append], hpast⟩

theorem filter_eq_nil_of_past {declarations : List δ}
    (h : ∀ declaration ∈ declarations, moduleOf declaration < module) :
    declarations.filter (moduleOf · == module) = [] := by
  rw [List.filter_eq_nil_iff]
  intro declaration hdeclaration
  have hlt := h declaration hdeclaration
  simpa using Nat.ne_of_lt hlt

end

/-- The modules below `module` are issued, and the cursors stand before the others. -/
structure IssuedTo (functions : List ParsedFunctionGroup) (traits : List ParsedTrait)
    (module : ModuleId) (state : Issuing) : Prop where
  groups : Grouped ParsedFunctionGroup.functionGroupModule module state.functions
  declared : Grouped ParsedTrait.module module state.traits
  issued : ∃ before beforeTraits, functions = before ++ state.functions ∧
    traits = beforeTraits ++ state.traits ∧
    (∀ group ∈ before, group.functionGroupModule < module) ∧
    (∀ declaration ∈ beforeTraits, declaration.module < module) ∧
    Issued before beforeTraits ((List.range module).flatMap (bodiesOf functions traits)) state.rows

theorem Issued.foldl_group (more : List ParsedFunctionGroup) :
    ∀ {groups : List ParsedFunctionGroup} {bodies : List Body} {rows : IssuedRows},
      Issued groups traits bodies rows →
      Issued (groups ++ more) traits (bodies ++ more.flatMap authoredBodies)
        (more.foldl issueGroup rows) := by
  induction more with intro groups bodies rows h
  | nil => simpa using h
  | cons group more ih =>
    rw [List.append_cons, List.flatMap_cons, ← List.append_assoc, List.foldl_cons]
    exact ih (h.group group)

theorem Issued.foldl_trait (more : List ParsedTrait) :
    ∀ {traits : List ParsedTrait} {bodies : List Body} {rows : IssuedRows},
      Issued groups traits bodies rows →
      Issued groups (traits ++ more) (bodies ++ more.flatMap defaultBodies)
        (more.foldl issueTrait rows) := by
  induction more with intro traits bodies rows h
  | nil => simpa using h
  | cons declaration more ih =>
    rw [List.append_cons, List.flatMap_cons, ← List.append_assoc, List.foldl_cons]
    exact ih (h.trait declaration)

theorem IssuedTo.module {functions : List ParsedFunctionGroup} {module : ModuleId} {state : Issuing}
    (h : IssuedTo functions traits module state) :
    IssuedTo functions traits (module + 1) (issueModule state module) := by
  obtain ⟨hgroups, htraits, before, beforeTraits, hsplit, hsplitTraits, hbefore, hbeforeTraits,
    hissued⟩ := h
  obtain ⟨rest, hrun, htaken, hrest⟩ := @issueOf_spec _ _ issueGroup _ _ hgroups state.rows
  obtain ⟨restTraits, hrunTraits, htakenTraits, hrestTraits⟩ :=
    @issueOf_spec _ _ issueTrait _ _ htraits
      ((state.functions.filter (·.functionGroupModule == module)).foldl issueGroup state.rows)
  have hown : functions.filter (·.functionGroupModule == module)
      = state.functions.filter (·.functionGroupModule == module) := by
    rw [hsplit, List.filter_append, filter_eq_nil_of_past hbefore, List.nil_append]
  have hownTraits : traits.filter (·.module == module)
      = state.traits.filter (·.module == module) := by
    rw [hsplitTraits, List.filter_append, filter_eq_nil_of_past hbeforeTraits, List.nil_append]
  have hmodule : issueModule state module = ⟨rest, restTraits,
      (state.traits.filter (·.module == module)).foldl issueTrait
        ((state.functions.filter (·.functionGroupModule == module)).foldl issueGroup
          state.rows)⟩ := by
    simp [issueModule, hrun, hrunTraits]
  rw [hmodule]
  refine ⟨hrest, hrestTraits, before ++ state.functions.filter (·.functionGroupModule == module),
    beforeTraits ++ state.traits.filter (·.module == module), ?_, ?_, ?_, ?_, ?_⟩
  · rw [List.append_assoc, ← htaken]
    exact hsplit
  · rw [List.append_assoc, ← htakenTraits]
    exact hsplitTraits
  · intro group hgroup
    rcases List.mem_append.mp hgroup with hmem | hmem
    · exact Nat.lt_succ_of_lt (hbefore group hmem)
    · have heq := (List.mem_filter.mp hmem).2
      rw [beq_iff_eq] at heq
      exact heq ▸ Nat.lt_succ_self _
  · intro declaration hdeclaration
    rcases List.mem_append.mp hdeclaration with hmem | hmem
    · exact Nat.lt_succ_of_lt (hbeforeTraits declaration hmem)
    · have heq := (List.mem_filter.mp hmem).2
      rw [beq_iff_eq] at heq
      exact heq ▸ Nat.lt_succ_self _
  · rw [List.range_succ, List.flatMap_append, List.flatMap_singleton, bodiesOf, hown, hownTraits,
      ← List.append_assoc]
    exact (hissued.foldl_group _).foldl_trait _

section

variable {δ : Type} {moduleOf : δ → ModuleId} {issue : IssuedRows → δ → IssuedRows}
  {module : ModuleId}

theorem issueOf_le (declarations : List δ) :
    ∀ rows, (issueOf moduleOf issue module rows declarations).2.length ≤ declarations.length := by
  induction declarations with
  | nil => exact fun _ => Nat.le_refl _
  | cons declaration declarations ih =>
    intro rows
    rw [issueOf]
    split_ifs
    · exact Nat.le_refl _
    · exact Nat.le_succ_of_le (ih _)

theorem issueOf_lt {declarations : List δ} {declaration : δ}
    (hhead : declarations.head? = some declaration) (hmodule : moduleOf declaration = module)
    (rows : IssuedRows) :
    (issueOf moduleOf issue module rows declarations).2.length < declarations.length := by
  obtain ⟨rest, rfl⟩ := List.head?_eq_some_iff.mp hhead
  rw [issueOf, if_neg (not_not.mpr hmodule)]
  exact Nat.lt_succ_of_le (issueOf_le rest _)

theorem issueOf_past {declarations : List δ} (h : Grouped moduleOf (module + 1) declarations)
    (rows : IssuedRows) :
    issueOf moduleOf issue module rows declarations = (rows, declarations) := by
  cases declarations with
  | nil => rfl
  | cons declaration declarations => rw [issueOf, if_pos (h.not_mem declaration List.mem_cons_self)]

theorem Grouped.from_head {least later : ModuleId} {rows : List δ} (h : Grouped moduleOf least rows)
    (hhead : ∀ row, rows.head? = some row → later ≤ moduleOf row) : Grouped moduleOf later rows := by
  refine ⟨h.ordered, fun row hrow => ?_⟩
  cases rows with
  | nil => cases hrow
  | cons first rest =>
    have hfirst := hhead first rfl
    rcases List.mem_cons.mp hrow with rfl | hrest
    · exact hfirst
    · exact Nat.le_trans hfirst ((List.pairwise_cons.mp h.ordered).1 row hrest)

end

/-! ## Every module -/

variable {state : Issuing} {module : ModuleId} {functions : List ParsedFunctionGroup}
variable {traits : List ParsedTrait} {δ : Type}

theorem nextModule_eq_some (h : nextModule state = some module) :
    ((∃ group, state.functions.head? = some group ∧ group.functionGroupModule = module) ∨
      ∃ declaration, state.traits.head? = some declaration ∧ declaration.module = module) ∧
    (∀ group, state.functions.head? = some group → module ≤ group.functionGroupModule) ∧
    ∀ declaration, state.traits.head? = some declaration → module ≤ declaration.module := by
  unfold nextModule at h
  cases hfunctions : state.functions.head? with
  | none => cases htraits : state.traits.head? with
    | none => simp [hfunctions, htraits] at h
    | some declaration =>
      obtain rfl : declaration.module = module := by simpa [hfunctions, htraits] using h
      simp
  | some group => cases htraits : state.traits.head? with
    | none =>
      obtain rfl : group.functionGroupModule = module := by simpa [hfunctions, htraits] using h
      simp
    | some declaration =>
      simp only [hfunctions, htraits] at h
      split_ifs at h with hle
      · cases h
        simpa using hle
      · cases h
        simpa using Nat.le_of_not_le hle

theorem nextModule_eq_none (h : nextModule state = none) :
    state.functions = [] ∧ state.traits = [] := by
  unfold nextModule at h
  cases hfunctions : state.functions.head? with
  | none => cases htraits : state.traits.head? with
    | none => exact ⟨List.head?_eq_none_iff.mp hfunctions, List.head?_eq_none_iff.mp htraits⟩
    | some declaration => simp [hfunctions, htraits] at h
  | some group => cases htraits : state.traits.head? with
    | none => simp [hfunctions, htraits] at h
    | some declaration =>
      simp only [hfunctions, htraits] at h
      split_ifs at h

theorem IssuedTo.advance (h : IssuedTo functions traits module state) (skipped : Nat)
    (hgroups : Grouped ParsedFunctionGroup.functionGroupModule (module + skipped) state.functions)
    (htraits : Grouped ParsedTrait.module (module + skipped) state.traits) :
    IssuedTo functions traits (module + skipped) state := by
  induction skipped with
  | zero => exact h
  | succ skipped ih =>
    have hfewer := ih
      (hgroups.from_head fun row hrow =>
        Nat.le_of_succ_le (hgroups.from_least row (List.mem_of_mem_head? hrow)))
      (htraits.from_head fun row hrow =>
        Nat.le_of_succ_le (htraits.from_least row (List.mem_of_mem_head? hrow)))
    rw [← Nat.add_assoc] at hgroups htraits ⊢
    have hsame : issueModule state (module + skipped) = state := by
      simp [issueModule, issueOf_past hgroups, issueOf_past htraits]
    have hnext := hfewer.module
    rwa [hsame] at hnext

theorem IssuedTo.turn {next : ModuleId} (h : IssuedTo functions traits module state)
    (hnext : nextModule state = some next) :
    IssuedTo functions traits (next + 1) (issueTurn state) := by
  obtain ⟨hhead, hgroups, htraits⟩ := nextModule_eq_some hnext
  have hle : module ≤ next := by
    rcases hhead with ⟨group, hgroup, rfl⟩ | ⟨declaration, hdeclaration, rfl⟩
    · exact h.groups.from_least group (List.mem_of_mem_head? hgroup)
    · exact h.declared.from_least declaration (List.mem_of_mem_head? hdeclaration)
  obtain ⟨skipped, rfl⟩ := Nat.exists_eq_add_of_le hle
  have hturn : issueTurn state = issueModule state (module + skipped) := by simp [issueTurn, hnext]
  rw [hturn]
  exact (h.advance skipped (h.groups.from_head hgroups) (h.declared.from_head htraits)).module

theorem issueTurn_lt (h : nextModule state = some module) :
    (issueTurn state).functions.length + (issueTurn state).traits.length
      < state.functions.length + state.traits.length := by
  have hturn : issueTurn state = issueModule state module := by simp only [issueTurn, h]
  rw [hturn]
  obtain ⟨⟨group, hgroup, hmodule⟩ | ⟨declaration, hdeclaration, hmodule⟩, -, -⟩ :=
    nextModule_eq_some h
  · exact Nat.add_lt_add_of_lt_of_le (issueOf_lt hgroup hmodule _) (issueOf_le _ _)
  · exact Nat.add_lt_add_of_le_of_lt (issueOf_le _ _) (issueOf_lt hdeclaration hmodule _)

theorem issueEach_eq {ρ : Type} (row : Nat → δ → ρ) (declarations : List δ) :
    issueEach row declarations = declarations.mapIdx row := by
  unfold issueEach
  induction declarations using List.reverseRecOn with
  | nil => rfl
  | append_singleton declarations declaration ih =>
    rw [List.foldl_append, List.foldl_cons, List.foldl_nil, ih, List.length_mapIdx,
      List.mapIdx_concat]

theorem filter_lt_succ {moduleOf : δ → ModuleId} (module : ModuleId) {rows : List δ}
    (h : rows.Pairwise fun first second => moduleOf first ≤ moduleOf second) :
    rows.filter (moduleOf · < module) ++ rows.filter (moduleOf · == module)
      = rows.filter (moduleOf · < module + 1) := by
  induction rows with
  | nil => rfl
  | cons row rows ih =>
    obtain ⟨hrow, hrows⟩ := List.pairwise_cons.mp h
    have hrest := ih hrows
    rcases Nat.lt_trichotomy (moduleOf row) module with hlt | heq | hgt
    · have hne : ¬ moduleOf row = module := Nat.ne_of_lt hlt
      simp only [List.filter_cons, hlt, hne, Nat.lt_succ_of_lt hlt, decide_true, beq_iff_eq,
        ↓reduceIte, List.cons_append, hrest]
    · have hnone : rows.filter (moduleOf · < module) = [] := by
        rw [List.filter_eq_nil_iff]
        intro other hother
        have hle := hrow other hother
        rw [heq] at hle
        simpa using hle
      rw [hnone, List.nil_append] at hrest
      simp [heq, hnone, hrest]
    · have hnot : ¬ moduleOf row < module := Nat.not_lt_of_gt hgt
      have hne : ¬ moduleOf row = module := Nat.ne_of_gt hgt
      have hnot' : ¬ moduleOf row < module + 1 := Nat.not_lt_of_ge hgt
      simp only [List.filter_cons, hnot, hne, hnot', decide_false, beq_iff_eq, Bool.false_eq_true,
        ↓reduceIte, hrest]

theorem flatMap_filter_range {moduleOf : δ → ModuleId} {rows : List δ}
    (h : rows.Pairwise fun first second => moduleOf first ≤ moduleOf second) (bound : Nat) :
    (List.range bound).flatMap (fun module => rows.filter (moduleOf · == module))
      = rows.filter (moduleOf · < bound) := by
  induction bound with
  | zero => simp
  | succ bound ih =>
    rw [List.range_succ, List.flatMap_append, ih, List.flatMap_singleton, filter_lt_succ bound h]

theorem bodies_perm (hfunctions : functions.Pairwise fun first second => first.functionGroupModule ≤
      second.functionGroupModule)
    (htraits : traits.Pairwise fun first second => first.module ≤ second.module) {bound : Nat}
    (hgroup : ∀ group ∈ functions, group.functionGroupModule < bound)
    (hdeclaration : ∀ declaration ∈ traits, declaration.module < bound) :
    ((List.range bound).flatMap (bodiesOf functions traits)).Perm
      (functions.flatMap authoredBodies ++ traits.flatMap defaultBodies) := by
  have hgroups : functions.filter (·.functionGroupModule < bound) = functions :=
    List.filter_eq_self.mpr fun group h => decide_eq_true (hgroup group h)
  have hall : traits.filter (·.module < bound) = traits :=
    List.filter_eq_self.mpr fun declaration h => decide_eq_true (hdeclaration declaration h)
  have hauthored : (List.range bound).flatMap (fun module =>
      (functions.filter (·.functionGroupModule == module)).flatMap authoredBodies)
      = functions.flatMap authoredBodies := by
    rw [← List.flatMap_assoc, flatMap_filter_range hfunctions, hgroups]
  have hdefaults : (List.range bound).flatMap (fun module =>
      (traits.filter (·.module == module)).flatMap defaultBodies)
      = traits.flatMap defaultBodies := by
    rw [← List.flatMap_assoc, flatMap_filter_range htraits, hall]
  rw [← hauthored, ← hdefaults]
  exact (List.flatMap_append_perm _ _ _).symm

/-! ## The inventory -/

/-- Every declaration has one row, whose position is its ID.  A module's authored bodies come
before its defaults, each in source order, and the modules are in order. -/
structure Identified (declarations : ParsedDeclarations) (inventory : DeclarationInventory) :
    Prop where
  functions : ∃ bound, (∀ group ∈ declarations.functions, group.functionGroupModule < bound) ∧
    (∀ declaration ∈ declarations.traits, declaration.module < bound) ∧
    inventory.functions = bodyRows
      ((List.range bound).flatMap (bodiesOf declarations.functions declarations.traits)) ∧
    ((List.range bound).flatMap (bodiesOf declarations.functions declarations.traits)).Perm
      (declarations.functions.flatMap authoredBodies ++ declarations.traits.flatMap defaultBodies)
  implementations : List.Forall₂ (ImplIssued inventory.functions)
    (declarations.functions.filterMap implementationOf).zipIdx inventory.implementations
  traits : List.Forall₂ (TraitIssued inventory.functions) declarations.traits.zipIdx
    inventory.traits
  records : inventory.records = declarations.records.mapIdx recordRow
  unions : inventory.unions = declarations.unions.mapIdx fun owner declaration =>
    ⟨owner, declaration.module, declaration.visibility, declaration.typeName,
      declaration.variants.mapIdx fun position variant => ⟨⟨owner, position⟩, variant⟩⟩
  opaques : inventory.opaques = declarations.opaques.mapIdx opaqueRow
  constants : inventory.constants = declarations.constants.mapIdx constantRow

/-- Declarations as assembly collects them: module after module, and the nominal ones of a
module as written. -/
structure ModuleSorted (declarations : ParsedDeclarations) : Prop where
  functions : declarations.functions.Pairwise fun first second =>
    first.functionGroupModule ≤ second.functionGroupModule
  traits : declarations.traits.Pairwise fun first second => first.module ≤ second.module
  records : declarations.records.Pairwise fun first second => first.module < second.module ∨
    (first.module = second.module ∧ first.typeName.span.start ≤ second.typeName.span.start)
  unions : declarations.unions.Pairwise fun first second => first.module < second.module ∨
    (first.module = second.module ∧ first.typeName.span.start ≤ second.typeName.span.start)
  opaques : declarations.opaques.Pairwise fun first second => first.module < second.module ∨
    (first.module = second.module ∧ first.typeName.span.start ≤ second.typeName.span.start)

theorem pairwise_mapIdx {ρ : Type} {row : Nat → δ → ρ} {before : δ → δ → Prop}
    {beforeRow : ρ → ρ → Prop}
    (hrow : ∀ i j first second, before first second → beforeRow (row i first) (row j second))
    {declarations : List δ} (h : declarations.Pairwise before) :
    (declarations.mapIdx row).Pairwise beforeRow := by
  rw [List.pairwise_iff_getElem] at h ⊢
  intro i j hi hj hlt
  rw [List.getElem_mapIdx, List.getElem_mapIdx]
  exact hrow _ _ _ _ (h i j _ _ hlt)

variable {declarations : ParsedDeclarations}

theorem Identified.ordered {inventory : DeclarationInventory} (hsorted : ModuleSorted declarations)
    (h : Identified declarations inventory) : NominalsOrdered inventory.cursors := by
  constructor
  · show (inventory.records.map NominalRow.recordDeclarationRow).Pairwise InOrder
    rw [h.records, List.pairwise_map]
    refine pairwise_mapIdx (fun _ _ _ _ hbefore => ?_) hsorted.records
    exact hbefore
  · show (inventory.unions.map NominalRow.unionDeclarationRow).Pairwise InOrder
    rw [h.unions, List.pairwise_map]
    refine pairwise_mapIdx (fun _ _ _ _ hbefore => ?_) hsorted.unions
    exact hbefore
  · show (inventory.opaques.map NominalRow.opaqueDeclarationRow).Pairwise InOrder
    rw [h.opaques, List.pairwise_map]
    refine pairwise_mapIdx (fun _ _ _ _ hbefore => ?_) hsorted.opaques
    exact hbefore

theorem issueInventory_identified (hsorted : ModuleSorted declarations) :
    ∃ inventory, Outcome.Settles (fun fuel => issueInventory fuel declarations) (.ok inventory) ∧
      Identified declarations inventory := by
  have hfirst : IssuedTo declarations.functions declarations.traits 0
      ⟨declarations.functions, declarations.traits, ⟨[], [], []⟩⟩ :=
    ⟨⟨hsorted.functions, fun _ _ => Nat.zero_le _⟩, ⟨hsorted.traits, fun _ _ => Nat.zero_le _⟩,
      [], [], rfl, rfl, by simp, by simp, ⟨rfl, .nil, .nil⟩⟩
  obtain ⟨last, hlast, ⟨bound, hissued⟩, hend⟩ := repeatWhile_settles (ε := Empty)
    (fun state => (nextModule state).isSome) (fun _ state => .ok (issueTurn state))
    (fun state => ∃ module, IssuedTo declarations.functions declarations.traits module state)
    (fun state => state.functions.length + state.traits.length)
    (fun state ⟨module, hstate⟩ htest => by
      obtain ⟨next, hnext⟩ := Option.isSome_iff_exists.mp htest
      exact ⟨issueTurn state, Outcome.Settles.ok, ⟨next + 1, hstate.turn hnext⟩,
        issueTurn_lt hnext⟩)
    ⟨declarations.functions, declarations.traits, ⟨[], [], []⟩⟩ ⟨0, hfirst⟩
  obtain ⟨hnoFunctions, hnoTraits⟩ := nextModule_eq_none (Option.not_isSome_iff_eq_none.mp
    (by rw [hend]; decide))
  obtain ⟨before, beforeTraits, hsplit, hsplitTraits, hbefore, hbeforeTraits, hrows⟩ :=
    hissued.issued
  rw [hnoFunctions, List.append_nil] at hsplit
  rw [hnoTraits, List.append_nil] at hsplitTraits
  rw [← hsplit] at hbefore hrows
  rw [← hsplitTraits] at hbeforeTraits hrows
  refine ⟨_, Outcome.Settles.bind_ok hlast Outcome.Settles.ok, ?_⟩
  refine ⟨⟨bound, hbefore, hbeforeTraits, hrows.functions,
    bodies_perm hsorted.functions hsorted.traits hbefore hbeforeTraits⟩, hrows.implementations,
    hrows.traits, issueEach_eq _ _, ?_, issueEach_eq _ _, issueEach_eq _ _⟩
  show issueEach unionRow declarations.unions = _
  rw [issueEach_eq]
  refine congrArg (fun row => declarations.unions.mapIdx row) ?_
  funext owner declaration
  rw [unionRow, issueEach_eq]

/-- **Identities.**  Issuing the inventory of sorted declarations ends, with each declaration at
the position that is its ID, and repeated `nextNominal` gives each of its nominal rows once, in
order of module and place. -/
theorem issueInventory_spec {declarations : ParsedDeclarations}
    (hsorted : ModuleSorted declarations) :
    ∃ inventory, Outcome.Settles (fun fuel => issueInventory fuel declarations) (.ok inventory) ∧
      Identified declarations inventory ∧
      ∃ rows, Outcome.Settles (fun fuel => nominalRows inventory fuel ⟨0, 0, 0⟩) (.ok rows) ∧
        rows.Perm inventory.cursors.nominals ∧ rows.Pairwise InOrder := by
  obtain ⟨inventory, hissue, hidentified⟩ := issueInventory_identified hsorted
  obtain ⟨rows, hrows, hperm, hordered⟩ := nominalRows_settles inventory
  exact ⟨inventory, hissue, hidentified, rows, hrows, hperm,
    hordered (hidentified.ordered hsorted)⟩

/-- A function of module 0, a trait with a default in module 1, a record and a union. -/
theorem issueInventory_spec_two : let name : WrittenName := ⟨0, ⟨0, 4, 8⟩⟩
    let function : ParsedFunction := ⟨0, name, .publicName⟩
    let declarations : ParsedDeclarations :=
      ⟨[.freeFunction function], [⟨1, name, .publicName⟩], [⟨0, .publicName, name, [name]⟩], [], [],
        [⟨1, .publicName, name, [.defaultTraitMethod function name.span]⟩]⟩
    ∃ inventory, Outcome.Settles (fun fuel => issueInventory fuel declarations) (.ok inventory) ∧
      Identified declarations inventory ∧
      ∃ rows, Outcome.Settles (fun fuel => nominalRows inventory fuel ⟨0, 0, 0⟩) (.ok rows) ∧
        rows.Perm inventory.cursors.nominals ∧ rows.Pairwise InOrder := by
  intro name function declarations
  exact issueInventory_spec ⟨List.pairwise_singleton _ _, List.pairwise_singleton _ _,
    List.pairwise_singleton _ _, List.pairwise_singleton _ _, List.Pairwise.nil⟩

end Blorp.Namespace
