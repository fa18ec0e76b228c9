import Blorp.Namespace.Declared

/-!
# Building the namespace

`build_namespace`: one scope per module, built in dependency order.  A module's scope is
entered in five stages: the names it receives from the prelude, its import rows, its
`methods` selections, its declarations, and the methods of the traits it implements.
-/

namespace Blorp.Namespace

open Check (Span NameId ModuleId WrittenName TraitId Entity TypeHead Unoffered)
open Load (ModuleImport ParsedModuleRow ImportSelection)

/-! ## The rule and the offer -/

def emptyScope : ModuleScope := ⟨[], [], []⟩

def spaceKey (space : Space) (name : NameId) : Nat :=
  match space with
  | .values => name * 2
  | .types => name * 2 + 1

def holder (names : Names) (space : Space) (name : NameId) : Option Entry :=
  Entries.lookup (· == ·) names (spaceKey space name)

def firstProblem (found : Option NamespaceProblem) (later : NamespaceProblem) :
    Option NamespaceProblem :=
  match found with
  | some earlier =>
      if later.namespaceProblemSpan.start < earlier.namespaceProblemSpan.start then some later
      else found
  | none => some later

/-- What `names` already holds in a space that `entity` named `name` claims. -/
def claimant (names : Names) (name : NameId) : Entity → Option Entry
  | .method _ | .function _ | .constant _ | .constructor _ => holder names .values name
  | .type _ | .trait _ => holder names .types name
  | .alias _ =>
      match holder names .values name with
      | some held => some held
      | none => holder names .types name

def setName (names : Names) (space : Space) (incoming : Entry) : Names :=
  Entries.put (· == ·) names (spaceKey space incoming.name.id) incoming

/-- `names` with `incoming` in each space it claims. -/
def claimed (names : Names) (incoming : Entry) : Names :=
  match incoming.entity with
  | .method _ | .function _ | .constant _ | .constructor _ => setName names .values incoming
  | .type _ | .trait _ => setName names .types incoming
  | .alias _ => setName (setName names .values incoming) .types incoming

def stagedConflict (incoming previous : Entry) : Conflict :=
  match incoming.entity, incoming.origin, previous.origin with
  | .method _, .declared _, .declared _ =>
      if incoming.name.span.source = previous.name.span.source ∧
          incoming.name.span.start < previous.name.span.start then ⟨previous, incoming⟩
      else ⟨incoming, previous⟩
  | _, _, _ => ⟨incoming, previous⟩

def familyAgain (held incoming : Entry) : Bool :=
  match held.entity, incoming.entity with
  | .method first, .method second => first == second
  | _, _ => false

def arrivesAgain (held incoming : Entry) : Bool :=
  match incoming.origin with
  | .declared _ => false
  | .imported | .implicit => sameEntity held.entity incoming.entity

def enter (built : BuiltScope) (incoming : Entry) : BuiltScope :=
  match claimant built.names incoming.name.id incoming.entity with
  | none => { built with names := claimed built.names incoming }
  | some held =>
      if familyAgain held incoming then
        match held.origin with
        | .declared .publicName => built
        | _ =>
            match incoming.origin with
            | .imported | .implicit => built
            | .declared _ => { built with names := claimed built.names incoming }
      else if arrivesAgain held incoming then built
      else { built with
        problem := firstProblem built.problem (.nameConflict (stagedConflict incoming held)) }

/-- A module offers importers only its own public declarations, and never an alias. -/
def offer (found : Option Entry) : Except Unoffered Entity :=
  match found with
  | some entry =>
      match entry.entity with
      | .alias _ => .error .unknownName
      | _ =>
          match entry.origin with
          | .declared .publicName => .ok entry.entity
          | .declared (.privateName _) => .error .privateName
          | .imported => .error (.importedThere entry.entity)
          | .implicit => .error (.providedThere entry.entity)
  | none => .error .unknownName

def provided (prelude : ModuleScope) : List Entry :=
  (prelude.names.map (·.2)).filterMap fun entry =>
    match entry.entity with
    | .alias _ => none
    | _ =>
        match entry.origin with
        | .imported => some { entry with origin := .implicit }
        | .declared _ | .implicit => none

/-! ## Selection -/

/-- A name the target only imports may already be in this module's scope. -/
def seenHere (built : BuiltScope) (name : NameId) (problem : SelectionProblem) : SelectionProblem :=
  match problem with
  | .notOffered (.importedThere entity) =>
      match claimant built.names name entity with
      | some entry =>
          if sameEntity entry.entity entity then
            match entry.origin with
            | .implicit => .alreadyFromPrelude entity
            | .imported => .alreadyImported entity
            | .declared _ => problem
          else problem
      | none => problem
  | _ => problem

def fail (built : BuiltScope) (request : ModuleImport) (selection : ImportSelection)
    (problem : SelectionProblem) : BuiltScope :=
  { built with problem := firstProblem built.problem (.selectionFailure request.path selection
      (seenHere built (selectionName selection).id problem)) }

/-- With nothing selected, the more specific reason is reported. -/
def moreSpecific (valueReason typeReason : SelectionProblem) : SelectionProblem :=
  match valueReason with
  | .notOffered .privateName => valueReason
  | _ =>
      match typeReason with
      | .notOffered .unknownName => valueReason
      | _ => typeReason

def bareValue (target : ModuleScope) (name : NameId) : Except SelectionProblem Entity :=
  match offer (holder target.names .values name) with
  | .ok (.constructor variant) => .error (.bareConstructor variant)
  | .ok selected => .ok selected
  | .error reason => .error (.notOffered reason)

def bareType (target : ModuleScope) (name : NameId) : Except SelectionProblem Entity :=
  match offer (holder target.names .types name) with
  | .ok selected => .ok selected
  | .error reason => .error (.notOffered reason)

def bareSelection (target : ModuleScope) (name : NameId) : Except SelectionProblem Entity :=
  match bareValue target name with
  | .ok selected =>
      match bareType target name with
      | .ok _ =>
          match selected with
          | .function _ | .method _ => .error .ambiguousFunction
          | .constant _ => .error .ambiguousConstant
          | .constructor variant => .error (.bareConstructor variant)
          | .type _ | .trait _ | .alias _ => .error (.notOffered .unknownName)
      | .error _ => .ok selected
  | .error valueReason =>
      match bareType target name with
      | .ok selected => .ok selected
      | .error typeReason => .error (moreSpecific valueReason typeReason)

/-- A selected name enters this module; a selected type also imports the target's receiver
functions of that type. -/
def bind (built : BuiltScope) (request : ModuleImport) (name : WrittenName) (entity : Entity) :
    BuiltScope :=
  let entered := enter built ⟨name, entity, .imported⟩
  match entity with
  | .type receiver =>
      { entered with methods := entered.methods ++ [⟨request.target, receiver, name⟩] }
  | _ => entered

def selectConstructor (target : ModuleScope) (request : ModuleImport) (selection : ImportSelection)
    (owner : Check.UnionId) (next : BuiltScope) (constructor : WrittenName) : BuiltScope :=
  match offer (holder target.names .values constructor.id) with
  | .ok (.constructor variant) =>
      if variant.owner = owner then enter next ⟨constructor, .constructor variant, .imported⟩
      else fail next request selection (.notAConstructor constructor)
  | _ => fail next request selection (.notAConstructor constructor)

/-- `Union(First, ...)` selects a public union of the target and the listed constructors. -/
def selectUnion (built : BuiltScope) (target : ModuleScope) (request : ModuleImport)
    (selection : ImportSelection) (name : WrittenName) (listed : List WrittenName) : BuiltScope :=
  match holder target.names .types name.id with
  | some entry =>
      match entry.entity with
      | .type (.unionHead owner) =>
          match offer (some entry) with
          | .error reason => fail built request selection (.notOffered reason)
          | .ok unionType =>
              listed.foldl (selectConstructor target request selection owner)
                (bind built request name unionType)
      | _ => fail built request selection (.notOffered .unknownName)
  | none => fail built request selection (.notOffered .unknownName)

def importSelection (target : ModuleScope) (request : ModuleImport) (next : BuiltScope)
    (selection : ImportSelection) : BuiltScope :=
  match selection with
  | .namedSelection name =>
      match bareSelection target name.id with
      | .ok entity => bind next request name entity
      | .error problem => fail next request selection problem
  | .constructorSelection name listed => selectUnion next target request selection name listed
  | .methodsSelection _ _ => next

def enterAlias (built : BuiltScope) (request : ModuleImport) : BuiltScope :=
  match request.moduleAlias with
  | some written => enter built ⟨written, .alias ⟨request.target, request.path⟩, .imported⟩
  | none => built

/-- One `path [as Alias]: selections` row; its target was built first. -/
def importRow (built : BuiltScope) (target : ModuleScope) (request : ModuleImport) : BuiltScope :=
  request.symbols.foldl (importSelection target request) (enterAlias built request)

/-- The target must hold the type, publicly or by import. -/
def holding (target : ModuleScope) (name : NameId) : Except Unoffered Entity :=
  match offer (holder target.names .types name) with
  | .error (.importedThere entity) => .ok entity
  | .error (.providedThere entity) => .ok entity
  | offered => offered

def seesType (names : Names) (name : NameId) (receiver : TypeHead) : Bool :=
  match holder names .types name with
  | some entry => sameEntity entry.entity (.type receiver)
  | none => false

def selectMethod (target : ModuleScope) (request : ModuleImport) (next : BuiltScope)
    (selection : ImportSelection) : BuiltScope :=
  match selection with
  | .methodsSelection name _ =>
      match holding target name.id with
      | .ok (.type receiver) =>
          if seesType next.names name.id receiver then
            { next with methods := next.methods ++ [⟨request.target, receiver, name⟩] }
          else fail next request selection .receiverNotVisible
      | .ok _ => fail next request selection (.notOffered .unknownName)
      | .error reason => fail next request selection (.notOffered reason)
  | .namedSelection _ | .constructorSelection _ _ => next

/-- `T methods` enters no name; this module must already see that same type. -/
def selectMethods (built : BuiltScope) (target : ModuleScope) (request : ModuleImport) :
    BuiltScope :=
  request.symbols.foldl (selectMethod target request) built

/-! ## Modules -/

/-- The names a module receives, then its import rows, its `methods` selections, and its
declarations. -/
def buildModule (scopes : List ModuleScope) (row : ParsedModuleRow) (declared received : List Entry)
    (methods : List MethodImport) : BuiltScope :=
  let entered := received.foldl enter ⟨[], methods, [], none⟩
  let imported := row.imports.foldl
    (fun built request => importRow built (scopes.getD request.target emptyScope) request) entered
  let selected := row.imports.foldl
    (fun built request => selectMethods built (scopes.getD request.target emptyScope) request)
    imported
  declared.foldl enter selected

def qualifiedTrait (names : Names) (scopes : List ModuleScope) (module name : WrittenName) :
    Option TraitId :=
  match holder names .values module.id with
  | some ⟨_, .alias aliased, _⟩ =>
      match scopes[aliased.target]? with
      | some scope =>
          match offer (holder scope.names .types name.id) with
          | .ok (.trait id) => some id
          | _ => none
      | none => none
  | _ => none

def traitReference (names : Names) (scopes : List ModuleScope) : TypeSyntax → Option TraitId
  | .atomicType name =>
      match holder names .types name.id with
      | some ⟨_, .trait id, _⟩ => some id
      | _ => none
  | .qualifiedType qualified [] _ => qualifiedTrait names scopes qualified.module qualified.name
  | _ => none

def implementedName (functions : List FunctionRow) (header : WrittenName) (span : Span)
    (bodies : List Check.FunctionId) : WrittenName :=
  bodies.foldl
    (fun name body => match functions[body]? with
      | some function => if function.functionName.id = name.id then function.functionName else name
      | none => name)
    { header with span := span }

def publishMethod (inventory : DeclarationInventory) (implementation : ImplRow) (next : BuiltScope)
    (method : TraitMethodRow) : BuiltScope :=
  match method.traitMethodHeader inventory with
  | none => { next with
      problem := firstProblem next.problem (.invalidTraitInventory method.span) }
  | some header =>
      enter next ⟨implementedName inventory.functions header implementation.header.span
        implementation.methods, .method method.id, .declared implementation.header.visibility⟩

def publishImplementation (scopes : List ModuleScope) (inventory : DeclarationInventory)
    (next : BuiltScope) (implementation : ImplRow) : BuiltScope :=
  match traitReference next.names scopes implementation.header.traitName with
  | none => { next with
      problem := firstProblem next.problem
        (.invalidImplementationTrait implementation.header.traitName) }
  | some id =>
      let resolved := { next with
        implementations := next.implementations ++ [⟨implementation.id, id⟩] }
      match inventory.traits[id]? with
      | some owner => owner.methods.foldl (publishMethod inventory implementation) resolved
      | none => { resolved with
          problem := firstProblem resolved.problem
            (.invalidImplementationTrait implementation.header.traitName) }

/-- Name resolution only: a resolved implementation declares its trait's methods here. -/
def publishImplementations (built : BuiltScope) (scopes : List ModuleScope) (module : ModuleId)
    (inventory : DeclarationInventory) : BuiltScope :=
  (inventory.implementations.filter (·.header.module == module)).foldl
    (publishImplementation scopes inventory) built

/-- The scopes built so far, and what the prelude supplies once it is built. -/
structure NamespaceState where
  scopes : List ModuleScope
  preludeEntries : List Entry
  preludeMethods : List MethodImport

def BuiltScope.scope (built : BuiltScope) : ModuleScope :=
  ⟨built.names, built.methods, built.implementations⟩

def buildRow (parsed : ParsedContents) (declared : List (List Entry)) (state : NamespaceState)
    (row : ParsedModuleRow) : Except NamespaceProblem NamespaceState :=
  let own := declared.getD row.module []
  let entered := match row.role with
    | .userModule => buildModule state.scopes row own state.preludeEntries state.preludeMethods
    | _ => buildModule state.scopes row own [] []
  let built := publishImplementations entered state.scopes row.module parsed.declarations
  match built.problem with
  | some problem => .error problem
  | none =>
      let scopes := state.scopes.set row.module built.scope
      if row.module = parsed.prelude then .ok ⟨scopes, provided built.scope, built.scope.methods⟩
      else .ok { state with scopes := scopes }

def buildNamespace (parsed : ParsedContents) : Except NamespaceProblem (List ModuleScope) := do
  let declared ← declaredEntries parsed
  let state ← parsed.dependencyOrder.foldlM (buildRow parsed declared)
    ⟨List.replicate parsed.modules.length emptyScope, [], []⟩
  return state.scopes

end Blorp.Namespace
