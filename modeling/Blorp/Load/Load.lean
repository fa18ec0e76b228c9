import Blorp.Load.Assemble

/-!
# Loading a program

`load/load.brp`: modules are queued by path, each queued path is read, parsed and linked
once, and the imports of a module queue the paths they name.

What loading asks of its surroundings is an `Environment`: the bytes of a readable path,
or the words that describe why it is not, the working directory, and the module that
lexing and parsing make of some bytes.
-/

namespace Blorp.Load

open Check (Span compilerSpan NameId ModuleId)
open Library (Text)
open Library.Path (join dirname normalize)
open Fuel

structure Environment where
  readText : Text → Except String String
  currentDirectory : Except String Text
  parse : ModuleId → String → NameTable → Except Diagnostic ParsedModuleContents

structure SourceFile where
  path : Text
  contents : String

/-- Module source rows use the same order as the parser's module inventory. -/
structure SourceInputs where
  modules : List SourceFile

structure LoadedProgram where
  sources : SourceInputs
  program : ParsedProgram

structure LoadFailure where
  sources : SourceInputs
  diagnostic : Diagnostic

def failure (modules : List SourceFile) (error : Diagnostic) : LoadFailure := ⟨⟨modules⟩, error⟩

/-! ## The library -/

/-- The configured library root is the only authority for module roles. -/
structure LibraryLayout where
  root : Text
  prefixPath : Text
  typesPath : Text
  preludePath : Text

def foundationTypesPath : Text := "_base.brp".toList

def foundationPreludePath : Text := "prelude.brp".toList

def libraryLayout (root : Text) : LibraryLayout :=
  let normalized := normalize root
  { root := normalized
    prefixPath := join normalized []
    typesPath := join normalized foundationTypesPath
    preludePath := join normalized foundationPreludePath }

def moduleRole (layout : LibraryLayout) (path : Text) : ModuleKind :=
  if path = layout.typesPath then .foundationTypesModule
  else if path = layout.preludePath then .foundationPreludeModule
  else if layout.prefixPath.isPrefixOf path then .libraryModule
  else .userModule

/-! ## Import paths -/

def joinParts (names : NameTable) : Text → List NameId → Except Diagnostic Text
  | directory, [] => .ok directory
  | directory, part :: parts => do
      let spelling ← orInternalError (nameSpelling names part) compilerSpan
        "import path references an invalid spelling identity"
      joinParts names (join directory spelling) parts

/-- The directory `parents` levels up. -/
def ancestor (directory : Text) (parents : Int) : Text := dirname^[parents.toNat] directory

def importPath (importer : Text) (request : ParsedImport) (names : NameTable)
    (layout : LibraryLayout) : Except Diagnostic Text := do
  let base := match request.path.origin with
    | .libraryImport => layout.root
    | .relativeImport parents => ancestor (dirname importer) parents
  let directory ← joinParts names base request.path.parts
  .ok (directory ++ ".brp".toList)

/-! ## The queue -/

/-- The site is the import that discovered the file; designated inputs have none. -/
structure RequestedModule where
  id : ModuleId
  path : Text
  role : ModuleKind
  site : Option Span

def designated (id : ModuleId) (path : Text) (role : ModuleKind) : RequestedModule :=
  ⟨id, path, role, none⟩

def knownModule (requests : List RequestedModule) (path : Text) : Option RequestedModule :=
  requests.find? fun request => request.path == path

def readModule (environment : Environment) (path : Text) (site : Option Span) :
    Except Diagnostic String :=
  match environment.readText path with
  | .ok contents => .ok contents
  | .error described =>
      .error (diagnostic (site.getD compilerSpan) ("could not read module " ++ described)
        "check the import path and provide a readable .brp file under its source root")

/-- Everything loading threads through the queue.  Each queued file yields exactly one
row, so the row count is the next file's queue position. -/
structure LoadState where
  layout : LibraryLayout
  rootPath : Text
  requests : List RequestedModule
  assembly : ParsedAssembly
  modules : List SourceFile

/-- The imports of one module resolved so far: the queue and one target an import. -/
structure ImportCursor where
  requests : List RequestedModule
  targets : List ModuleId

/-- User modules receive the prelude implicitly, so it is reserved, and a module under the
library root importing a user module would close a cycle through it. -/
def importDiagnostic (importer target : ModuleKind) (span : Span) : Option Diagnostic :=
  match target with
  | .foundationPreludeModule =>
      some (diagnostic span "the prelude cannot be imported explicitly"
        "remove this import; user modules receive the prelude automatically")
  | .foundationTypesModule | .libraryModule => none
  | .userModule =>
      match importer with
      | .userModule => none
      | .foundationTypesModule | .foundationPreludeModule | .libraryModule =>
          some (diagnostic span "a library module cannot import a user module"
            "library modules may import only other library modules and _base")

section

variable (layout : LibraryLayout) (importer : RequestedModule)

/-- A permitted import yields its request: the queued one, or a new request with its
layout role. -/
def importAllowed (requests : List RequestedModule) (known : Option RequestedModule) (path : Text)
    (span : Span) : Except Diagnostic RequestedModule :=
  let role := match known with
    | some queued => queued.role
    | none => moduleRole layout path
  match importDiagnostic importer.role role span with
  | some error => .error error
  | none =>
      match known with
      | some queued => .ok queued
      | none =>
          match moduleId requests.length with
          | some id => .ok ⟨id, path, role, some span⟩
          | none => .error (internalError compilerSpan "module inventory is too large")

def resolveImport (names : NameTable) (cursor : ImportCursor) (request : ParsedImport) :
    Except Diagnostic ImportCursor := do
  let path ← importPath importer.path request names layout
  let known := knownModule cursor.requests path
  let target ← importAllowed layout importer cursor.requests known path request.span
  let requests := match known with
    | some _ => cursor.requests
    | none => cursor.requests ++ [target]
  .ok ⟨requests, cursor.targets ++ [target.id]⟩

def resolveImports (names : NameTable) (imports : List ParsedImport)
    (requests : List RequestedModule) : Except Diagnostic ImportCursor :=
  imports.foldlM (resolveImport layout importer names) ⟨requests, []⟩

end

def linkModule (environment : Environment) (state : LoadState) (current : RequestedModule)
    (contents : String) : Except Diagnostic LoadState := do
  let parsed ← environment.parse current.id contents state.assembly.names
  let resolved ← resolveImports state.layout current parsed.names parsed.imports state.requests
  let assembly ← appendModule state.assembly parsed resolved.targets current.role current.path
  .ok { state with requests := resolved.requests, assembly := assembly }

def loadModule (environment : Environment) (state : LoadState) (current : RequestedModule) :
    Except LoadFailure LoadState :=
  match readModule environment current.path current.site with
  | .error error => .error (failure state.modules error)
  | .ok contents =>
      let displayPath := if current.id = rootModuleId then state.rootPath else current.path
      let withSource := { state with modules := state.modules ++ [⟨displayPath, contents⟩] }
      match linkModule environment withSource current contents with
      | .error error => .error (failure withSource.modules error)
      | .ok linked => .ok linked

def loadQueue (environment : Environment) : Nat → LoadState → Outcome LoadFailure LoadState
  | 0, _ => .timeout
  | fuel + 1, state =>
      match state.requests[state.modules.length]? with
      | none => .ok state
      | some current =>
          match loadModule environment state current with
          | .ok next => loadQueue environment fuel next
          | .error error => .err error

/-! ## Roots -/

inductive LoadMode where
  | applicationInput
  | testSuiteInput (paths : List Text)

/-- Queues the exact configured-library path after ordinary loading, so existing source
IDs never move. -/
def loadTestEntry (environment : Environment) (fuel : Nat) (state : LoadState)
    (grouped : List RequestedModule) : Outcome LoadFailure LoadState := do
  let path := join state.layout.root "test.brp".toList
  let known := knownModule state.requests path
  let id ← (match known with
    | some request => .ok request.id
    | none =>
        match moduleId state.requests.length with
        | some present => .ok present
        | none => .error (failure state.modules (internalError compilerSpan
            "test library module identity exceeds the source inventory")) :
    Except LoadFailure ModuleId)
  let pending := match known with
    | some _ => state
    | none => { state with requests := state.requests ++ [designated id path .libraryModule] }
  let loaded ← loadQueue environment fuel pending
  match prepareTestEntry loaded.assembly (grouped.map (·.id)) id foundationTypesModuleId with
  | .error error => .err (failure loaded.modules error)
  | .ok assembly => .ok { loaded with assembly := assembly }

def importCycleHelp : String :=
  "move the declarations both modules need into a third module that both import"

/-- Source rows follow module ordinals, so each module in a cycle has a display path. -/
def displayPaths (sources : SourceInputs) (cycle : List ModuleId) : Except Diagnostic (List Text) :=
  cycle.mapM fun module => do
    let file ← orInternalError sources.modules[module]? compilerSpan
      "import cycle names a module without a source"
    .ok file.path

def workingDirectoryResult (result : Except String Text) : Except LoadFailure Text :=
  match result with
  | .ok directory => .ok directory
  | .error error =>
      .error (failure [] (diagnostic compilerSpan ("could not determine current directory: " ++ error)
        "run the compiler from an accessible working directory"))

def queueRoots (workingDirectory : Text) (queued : List RequestedModule) :
    List RequestedModule → List Text → Except LoadFailure (List RequestedModule)
  | later, [] => .ok later
  | later, written :: paths =>
      let path := normalize (join workingDirectory written)
      let requests := queued ++ later
      match knownModule requests path, moduleId requests.length with
      | some _, _ =>
          .error (failure [] (diagnostic compilerSpan
            ("test suite input " ++ String.ofList written ++ " is already part of this compilation")
            "list each test suite file once; foundation inputs are supplied by --library-root"))
      | none, some id =>
          queueRoots workingDirectory queued (later ++ [designated id path .userModule]) paths
      | none, none =>
          .error (failure [] (internalError compilerSpan "module inventory is too large"))

def designatedInputs (layout : LibraryLayout) (rootFile : Text) : List RequestedModule :=
  [designated rootModuleId rootFile .userModule,
    designated foundationTypesModuleId layout.typesPath .foundationTypesModule,
    designated foundationPreludeModuleId layout.preludePath .foundationPreludeModule]

/-- The sealed program, or why the loaded modules are none. -/
def reportSealed (loaded : LoadState) : Outcome SealFailure ParsedProgram →
    Outcome LoadFailure LoadedProgram
  | .ok program => .ok ⟨⟨loaded.modules⟩, program⟩
  | .err (.malformedBundle error) => .err (failure loaded.modules error)
  | .err (.importCycle cycle closing) =>
      match displayPaths ⟨loaded.modules⟩ cycle with
      | .error error => .err (failure loaded.modules error)
      | .ok paths =>
          .err (failure loaded.modules (diagnostic closing
            ("import cycle: " ++ String.ofList (List.intercalate " -> ".toList paths))
            importCycleHelp))
  | .timeout => .timeout

def loadRoots (environment : Environment) (fuel : Nat) (layout : LibraryLayout)
    (workingDirectory rootPath rootFile : Text) (mode : LoadMode) :
    Outcome LoadFailure LoadedProgram := do
  let later ← (match mode with
    | .applicationInput => .ok []
    | .testSuiteInput paths =>
        queueRoots workingDirectory (designatedInputs layout rootFile) [] paths :
    Except LoadFailure (List RequestedModule))
  let initial ← loadQueue environment fuel
    { layout := layout
      rootPath := rootPath
      requests := designatedInputs layout rootFile ++ later
      assembly := beginProgram
      modules := [] }
  let loaded ← match mode with
    | .applicationInput => .ok initial
    | .testSuiteInput _ => loadTestEntry environment fuel initial later
  reportSealed loaded (sealProgram fuel loaded.assembly)

def loadInput (environment : Environment) (fuel : Nat) (rootPath libraryRoot : Text)
    (mode : LoadMode) : Outcome LoadFailure LoadedProgram := do
  let workingDirectory ← workingDirectoryResult environment.currentDirectory
  let layout := libraryLayout (join workingDirectory libraryRoot)
  let rootFile := normalize (join workingDirectory rootPath)
  match moduleRole layout rootFile with
  | .foundationTypesModule | .foundationPreludeModule =>
      .err (failure [⟨rootPath, ""⟩]
        (diagnostic ⟨firstModuleSourceNumber + rootModuleId, 0, 0⟩
          "foundation modules cannot be application roots"
          "choose an application module; foundation inputs are supplied by --library-root"))
  | .libraryModule | .userModule =>
      loadRoots environment fuel layout workingDirectory rootPath rootFile mode

end Blorp.Load
