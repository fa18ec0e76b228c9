import Blorp.Specialize.Model
import Blorp.Utils.Names
import Blorp.Lib.While

/-!
# Program assembly

The loader appends each parsed module in inventory order, and sealing validates the
complete bundle once for checking: `parse/assemble.brp`, with the identities of
`utils/source.brp`.

Of a module's declarations only the functions and constants are kept, and of these the
names that suite discovery reads; the others pass through assembly unread.
-/

namespace Blorp.Load

open Check (Span compilerSpan NameId ModuleId WrittenName ModulePath)
open Library (Text)
open Fuel

/-! ## Identities and roles -/

inductive ModuleKind where
  | foundationTypesModule
  | foundationPreludeModule
  | libraryModule
  | userModule
  deriving DecidableEq

def intMax : Nat := 9223372036854775807

def firstModuleSourceNumber : Nat := 2

def moduleId (ordinal : Nat) : Option ModuleId :=
  if ordinal ≤ intMax - firstModuleSourceNumber then some ordinal else none

def rootModuleId : ModuleId := 0

def foundationTypesModuleId : ModuleId := 1

def foundationPreludeModuleId : ModuleId := 2

/-- One position of a path: where its file name starts and where its extension does. -/
def stemAt (path : Text) (state : Nat × Option Nat) (position : Nat) : Nat × Option Nat :=
  match path[position]? with
  | some char =>
      if char = '/' then (position + 1, none)
      else if char = '.' ∧ position > state.1 then (state.1, some position)
      else state
  | none => state

/-- The name after the last `/`, up to the last `.`. -/
def moduleStem (path : Text) : Option Text :=
  let (start, extension) := (List.range path.length).foldl (stemAt path) (0, none)
  match Library.Path.slice path start (extension.getD path.length) with
  | some name => if name.length > 0 then some name else none
  | none => none

/-! ## Parsed modules -/

inductive ImportSelection where
  | namedSelection (name : WrittenName)
  | constructorSelection (name : WrittenName) (constructors : List WrittenName)
  | methodsSelection (name : WrittenName) (span : Span)

structure ParsedImport where
  path : ModulePath
  moduleAlias : Option WrittenName
  symbols : List ImportSelection
  span : Span

inductive ParsedFunctionGroup where
  | freeFunction (module : ModuleId) (functionName : WrittenName)
  | implementationGroup (module : ModuleId)

def ParsedFunctionGroup.functionGroupModule : ParsedFunctionGroup → ModuleId
  | .freeFunction module _ => module
  | .implementationGroup module => module

structure ParsedConstant where
  module : ModuleId
  name : WrittenName

/-- `baseNames` is the table lexing extended; `names` adds the module's spellings. -/
structure ParsedModuleContents where
  baseNames : NameTable
  names : NameTable
  module : ModuleId
  imports : List ParsedImport
  functions : List ParsedFunctionGroup
  constants : List ParsedConstant
  stop : Span

/-- `path` is the written path, kept for diagnostics that name the module. -/
structure ModuleImport where
  target : ModuleId
  path : ModulePath
  moduleAlias : Option WrittenName
  symbols : List ImportSelection
  span : Span

structure ParsedModuleRow where
  module : ModuleId
  role : ModuleKind
  stem : Text
  imports : List ModuleImport
  stop : Span

structure FoundationModules where
  types : ModuleId
  prelude : ModuleId

structure ParsedProgram where
  names : NameTable
  entrypoint : NameId
  foundation : FoundationModules
  modules : List ParsedModuleRow
  dependencyOrder : List ParsedModuleRow
  stop : Span

structure ParsedAssembly where
  names : NameTable
  entrypoint : NameId
  modules : List ParsedModuleRow
  functions : List ParsedFunctionGroup
  constants : List ParsedConstant

def sourceBundleError (message : String) : Diagnostic :=
  diagnostic compilerSpan message
    "load each module once in inventory order and supply every import target"

def beginProgram : ParsedAssembly := ⟨programNames.1, programNames.2, [], [], []⟩

/-! ## Appending a module -/

def repeatedImportHelp : String :=
  "combine the alias and the selected names into one import, such as path as Alias: name"

/-- Pairs each import request with its target, in order.  A module imports each module
once: an alias and selections share a row. -/
def linkedImports : List ParsedImport → List ModuleId → List ModuleImport →
    Except Diagnostic (List ModuleImport)
  | [], [], linked => .ok linked
  | [], _ :: _, _ | _ :: _, [], _ =>
      .error (sourceBundleError "source bundle does not supply exactly one target per import")
  | request :: requests, target :: targets, linked =>
      match linked.find? fun previous => previous.target == target with
      | some first =>
          .error { diagnostic request.span "module imported more than once" repeatedImportHelp with
            note := some (.previousDeclaration first.span) }
      | none =>
          linkedImports requests targets
            (linked ++ [⟨target, request.path, request.moduleAlias, request.symbols, request.span⟩])

def appendModule (assembly : ParsedAssembly) (contents : ParsedModuleContents)
    (targets : List ModuleId) (role : ModuleKind) (path : Text) :
    Except Diagnostic ParsedAssembly := do
  if !sameNameTable assembly.names contents.baseNames then
    .error (sourceBundleError "parsed module does not extend this source bundle's name authority")
  else if contents.module != assembly.modules.length then
    .error (sourceBundleError "parsed module does not have the next source bundle identity")
  else
    match moduleStem path with
    | none => .error (sourceBundleError "module path has no file name")
    | some stem => do
        let imports ← linkedImports contents.imports targets []
        .ok { names := contents.names
              entrypoint := assembly.entrypoint
              modules := assembly.modules ++ [⟨contents.module, role, stem, imports, contents.stop⟩]
              functions := assembly.functions ++ contents.functions
              constants := assembly.constants ++ contents.constants }

/-! ## The test entry -/

def suiteDeclaration : String := "tests: TestSuite = \x7b description = ..., tests = [...] \x7d"

def suiteProblem (row : ParsedModuleRow) (suite : NameId) (problem : Diagnostic) :
    ParsedFunctionGroup → Diagnostic
  | .freeFunction module functionName =>
      if module == row.module && functionName.id == suite then
        diagnostic functionName.span "test suite must be a constant, not a function"
          ("declare " ++ suiteDeclaration ++ " instead")
      else problem
  | .implementationGroup _ => problem

/-- Discovery accepts only a `tests` constant the root itself declares. -/
def suiteDiscoveryFailure (constants : List ParsedConstant) (functions : List ParsedFunctionGroup)
    (row : ParsedModuleRow) (suite : NameId) : Option Diagnostic :=
  if constants.any fun constant => constant.module == row.module && constant.name.id == suite then
    none
  else
    some (functions.foldl (suiteProblem row suite)
      (diagnostic row.stop "test suite file declares no tests constant"
        ("declare " ++ suiteDeclaration ++ " in this file")))

/-- The root's alias for a module it already imports; otherwise the entry's own alias. -/
def entryAlias (imports : List ModuleImport) (target : ModuleId) (unwritable : WrittenName) :
    WrittenName :=
  match imports.find? fun request => request.target == target with
  | some request => request.moduleAlias.getD unwritable
  | none => unwritable

/-- What the later suite roots have added: their imports, the number of suites to run and
the first failure. -/
structure EntrySuites where
  names : NameTable
  named : List ModuleImport
  runs : Nat
  failure : Option Diagnostic

def addSuite (assembly : ParsedAssembly) (root : ParsedModuleRow) (suite : NameId)
    (suites : EntrySuites) (module : ModuleId) : EntrySuites :=
  let (names, ids) := internNames suites.names [("<suite " ++ toString suites.runs ++ ">").toList]
  match assembly.modules[module]?, ids with
  | some row, [aliasId] =>
      let suiteAlias := entryAlias root.imports module ⟨aliasId, compilerSpan⟩
      { names := names
        named := suites.named ++
          [⟨module, ⟨.libraryImport, [aliasId]⟩, some suiteAlias, [], compilerSpan⟩]
        runs := suites.runs + 1
        failure := suites.failure.orElse fun _ =>
          suiteDiscoveryFailure assembly.constants assembly.functions row suite }
  | _, _ =>
      { suites with
        names := names
        failure := suites.failure.orElse fun _ =>
          some (sourceBundleError "test entry requires each test suite root module") }

def mergedImport (named : List ModuleImport) (request : ModuleImport) : ModuleImport :=
  named.foldl (fun merged wanted =>
    if wanted.target == request.target then { request with moduleAlias := wanted.moduleAlias }
    else merged) request

/-- Root imports of named modules take the entry's alias; others are added. -/
def entryImports (imports named : List ModuleImport) : List ModuleImport :=
  imports.map (mergedImport named) ++
    named.filter fun wanted => !imports.any fun request => request.target == wanted.target

def entryFunctions (functions : List ParsedFunctionGroup) (entry : ParsedFunctionGroup) :
    List ParsedFunctionGroup :=
  functions.filter (fun function => function.functionGroupModule == rootModuleId) ++ [entry] ++
    functions.filter fun function => function.functionGroupModule != rootModuleId

/-- Test entry is ordinary syntax before the one declaration-ID publication.  The root owns
the entry; `grouped` are the later roots in command-line order. -/
def prepareTestEntry (assembly : ParsedAssembly) (grouped : List ModuleId)
    (library types : ModuleId) : Except Diagnostic ParsedAssembly :=
  match assembly.modules[0]? with
  | none => .error (sourceBundleError "test entry requires a root module")
  | some root =>
    if !(assembly.modules[library]?.any fun row => row.role == .libraryModule) then
      .error (sourceBundleError "test entry requires the configured test library module")
    else if !(assembly.modules[types]?.any fun row => row.role == .foundationTypesModule) then
      .error (sourceBundleError "test entry requires the foundation types module")
    else
      let words := internNames assembly.names (["<test entry>", "<test library>", "tests", "test",
        "run_suite_result", "suites_exit_status", "Int", "<test types>", "_base"].map String.toList)
      match words.2 with
      | [entryId, aliasId, suiteId, libraryName, _, _, _, typesAliasId, typesName] =>
          let libraryAlias := entryAlias root.imports library ⟨aliasId, compilerSpan⟩
          let typesAlias := entryAlias root.imports types ⟨typesAliasId, compilerSpan⟩
          let suites := grouped.foldl (addSuite assembly root suiteId)
            { names := words.1
              named := [⟨library, ⟨.libraryImport, [libraryName]⟩, some libraryAlias, [],
                  compilerSpan⟩,
                ⟨types, ⟨.libraryImport, [typesName]⟩, some typesAlias, [], compilerSpan⟩]
              runs := 1
              failure := suiteDiscoveryFailure assembly.constants assembly.functions root suiteId }
          match suites.failure with
          | some error => .error error
          | none =>
              .ok { assembly with
                names := suites.names
                entrypoint := entryId
                modules := assembly.modules.set 0
                  { root with imports := entryImports root.imports suites.named }
                functions := entryFunctions assembly.functions
                  (.freeFunction rootModuleId ⟨entryId, root.stop⟩) }
      | _ => .error (sourceBundleError "test entry names were not issued together")

/-! ## Sealing -/

/-- Why a bundle cannot be sealed. -/
inductive SealFailure where
  | malformedBundle (error : Diagnostic)
  | importCycle (cycle : List ModuleId) (closing : Span)

def foundationModule (rows : List ParsedModuleRow) (missing repeated : String)
    (root : ParsedModuleRow) : Except SealFailure ModuleId :=
  match rows with
  | [] => .error (.malformedBundle { sourceBundleError missing with span := root.stop })
  | [row] => .ok row.module
  | _ :: duplicate :: _ =>
      .error (.malformedBundle { sourceBundleError repeated with span := duplicate.stop })

/-- Seal-only edges distinguish the implicit prelude from written imports. -/
inductive ModuleEdge where
  | preludeEdge (module : ModuleId)
  | importEdge (request : ModuleImport)

def ModuleEdge.target : ModuleEdge → ModuleId
  | .preludeEdge module => module
  | .importEdge request => request.target

structure WalkFrame where
  module : ModuleId
  nextEdge : Nat

inductive VisitState where
  | unvisited
  | active
  | complete
  deriving DecidableEq

structure ModuleWalk where
  frames : List WalkFrame
  visits : List VisitState
  explored : List ParsedModuleRow
  failure : Option SealFailure

def cycleTo (frames : List WalkFrame) (target : ModuleId) : List ModuleId :=
  frames.foldl (fun cycle frame =>
    if !cycle.isEmpty || frame.module == target then cycle ++ [frame.module] else cycle) [] ++
    [target]

def walkStep (walk : ModuleWalk) (top : WalkFrame) (edges : List ModuleEdge)
    (row : ParsedModuleRow) : ModuleWalk :=
  let depth := walk.frames.length - 1
  match edges[top.nextEdge]? with
  | none =>
      { walk with
        frames := walk.frames.take depth
        visits := walk.visits.set top.module .complete
        explored := walk.explored ++ [row] }
  | some edge =>
      let target := edge.target
      let advanced := walk.frames.set depth { top with nextEdge := top.nextEdge + 1 }
      match walk.visits.getD target .unvisited with
      | .active =>
          let closing := match edge with
            | .preludeEdge _ => row.stop
            | .importEdge request => request.span
          { walk with
            frames := advanced
            failure := some (.importCycle (cycleTo advanced target) closing) }
      | .complete => { walk with frames := advanced }
      | .unvisited =>
          { walk with
            frames := advanced ++ [⟨target, 0⟩]
            visits := walk.visits.set target .active }

def moduleEdges (prelude : ModuleId) (row : ParsedModuleRow) : List ModuleEdge :=
  (match row.role with
    | .userModule => [.preludeEdge prelude]
    | _ => []) ++ row.imports.map .importEdge

def walkTop (rows : List ParsedModuleRow) (edgesByModule : List (List ModuleEdge))
    (walk : ModuleWalk) : ModuleWalk :=
  match walk.frames.getLast? with
  | none => walk
  | some top =>
      match rows[top.module]? with
      | some row => walkStep walk top (edgesByModule.getD top.module []) row
      | none =>
          { walk with
            failure := some (.malformedBundle
              (sourceBundleError "source bundle is missing an imported module")) }

def walkContinues (walk : ModuleWalk) : Bool := walk.failure.isNone && !walk.frames.isEmpty

def walkFrom (fuel : Nat) (rows : List ParsedModuleRow) (edgesByModule : List (List ModuleEdge))
    (walk : ModuleWalk) (start : ParsedModuleRow) : Outcome SealFailure ModuleWalk :=
  if walk.failure.isSome then .ok walk
  else
    let walk :=
      match walk.visits.getD start.module .unvisited with
      | .unvisited =>
          { walk with
            frames := [⟨start.module, 0⟩]
            visits := walk.visits.set start.module .active }
      | _ => walk
    repeatWhile walkContinues (fun walk => .ok (walkTop rows edgesByModule walk)) fuel walk

/-- Depth-first in load and written-import order, publishing each row after its
dependencies. -/
def orderedRows (fuel : Nat) (rows : List ParsedModuleRow) (prelude : ModuleId) :
    Outcome SealFailure (List ParsedModuleRow) := do
  let edgesByModule := rows.map (moduleEdges prelude)
  let walk ← rows.foldlM (walkFrom fuel rows edgesByModule)
    ⟨[], List.replicate rows.length .unvisited, [], none⟩
  match walk.failure with
  | some stop => .err stop
  | none => .ok walk.explored

def sealProgram (fuel : Nat) (assembly : ParsedAssembly) : Outcome SealFailure ParsedProgram :=
  match assembly.modules[0]? with
  | none => .err (.malformedBundle (sourceBundleError "source bundle has no root module"))
  | some root => do
      let typesRows := assembly.modules.filter fun row => row.role == .foundationTypesModule
      let preludeRows := assembly.modules.filter fun row => row.role == .foundationPreludeModule
      let types ← foundationModule typesRows "source bundle has no foundation types module"
        "source bundle has more than one foundation types module" root
      let prelude ← foundationModule preludeRows "source bundle has no foundation prelude module"
        "source bundle has more than one foundation prelude module" root
      if root.role != .userModule then
        .err (.malformedBundle
          { sourceBundleError "source bundle root must be a user module" with span := root.stop })
      else do
        let ordered ← orderedRows fuel assembly.modules prelude
        .ok { names := assembly.names
              entrypoint := assembly.entrypoint
              foundation := ⟨types, prelude⟩
              modules := assembly.modules
              dependencyOrder := ordered
              stop := root.stop }

end Blorp.Load
