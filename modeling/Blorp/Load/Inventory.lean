import Blorp.Lib.Following
import Blorp.Load.ImportPaths
import Blorp.Load.ModuleWalk

/-!
# Each file is one module

The queue holds each path once, in normal form, and a path's position is its module's
identity.  Reading, parsing and linking a queued module queues what its imports denote,
so the loaded queue is exactly the reachable files.
-/

namespace Blorp.Load

open Check (Span compilerSpan ModuleId)
open Library (Text)
open Library.Path
open Fuel

/-! ## Reachable files -/

/-- The parser reads the imports that are written in a file, and admits only names. -/
structure ParserReads (environment : Environment) (written : String → List WrittenImport) :
    Prop where
  imports : ∀ {id : ModuleId} {contents : String} {names : NameTable}
    {parsed : ParsedModuleContents}, environment.parse id contents names = .ok parsed →
    List.Forall₂ (Spells parsed.names) parsed.imports (written contents)
  admitted : ∀ {id : ModuleId} {contents : String} {names : NameTable}
    {parsed : ParsedModuleContents}, environment.parse id contents names = .ok parsed →
    ∀ request ∈ written contents, request.Admitted

/-- The files that imports lead to from some files. -/
inductive Reachable (environment : Environment) (written : String → List WrittenImport)
    (libraryRoot : Text) (starts : List Text) : Text → Prop
  | start {path : Text} : path ∈ starts → Reachable environment written libraryRoot starts path
  | step {importer : Text} {contents : String} {request : WrittenImport} :
      Reachable environment written libraryRoot starts importer →
      environment.readText importer = .ok contents → request ∈ written contents →
      Reachable environment written libraryRoot starts (denoted libraryRoot importer request)

/-- A file is queued once, where it is first met. -/
def enqueue (paths : List Text) (path : Text) : List Text :=
  if path ∈ paths then paths else paths ++ [path]

def importedPaths (environment : Environment) (written : String → List WrittenImport)
    (libraryRoot importer : Text) : List Text :=
  match environment.readText importer with
  | .ok contents => (written contents).map (denoted libraryRoot importer)
  | .error _ => []

/-- Loading the paths from position `loaded` on, each of which queues its imports, ends with
`queued`. -/
inductive Queues (environment : Environment) (written : String → List WrittenImport)
    (libraryRoot : Text) : List Text → Nat → List Text → Prop
  | done {paths : List Text} : Queues environment written libraryRoot paths paths.length paths
  | load {paths queued : List Text} {loaded : Nat} {path : Text} : paths[loaded]? = some path →
      Queues environment written libraryRoot
        ((importedPaths environment written libraryRoot path).foldl enqueue paths) (loaded + 1)
        queued →
      Queues environment written libraryRoot paths loaded queued

section

variable {environment : Environment} {written : String → List WrittenImport} {starts : List Text}
  {layout : LibraryLayout}

/-! ## The queue -/

/-- A queue of reachable files in normal form, each once, at its own identity. -/
structure QueueOk (environment : Environment) (written : String → List WrittenImport)
    (layout : LibraryLayout) (starts : List Text) (requests : List RequestedModule) : Prop where
  ids : ∀ (i : Nat) (request : RequestedModule), requests[i]? = some request → request.id = i
  nodup : (requests.map (·.path)).Nodup
  normal : ∀ request ∈ requests, NormalAbsolute request.path
  reachable : ∀ request ∈ requests, Reachable environment written layout.root starts request.path

variable {requests : List RequestedModule} {path : Text} {importer : RequestedModule}

variable {request current : RequestedModule} {more : List RequestedModule}
variable {assembly next : ParsedAssembly}

theorem QueueOk.snoc (h : QueueOk environment written layout starts requests)
    (hid : request.id = requests.length) (hnew : request.path ∉ requests.map (·.path))
    (hnormal : NormalAbsolute request.path)
    (hreachable : Reachable environment written layout.root starts request.path) :
    QueueOk environment written layout starts (requests ++ [request]) := by
  refine ⟨?_, ?_, ?_, ?_⟩
  · intro i other hget
    rcases Nat.lt_or_ge i requests.length with hlt | hge
    · rw [List.getElem?_append_left hlt] at hget
      exact h.ids i other hget
    · rw [List.getElem?_append_right hge, List.getElem?_singleton] at hget
      split at hget
      · rename_i hzero
        obtain rfl : request = other := by simpa using hget
        rw [hid]
        exact Nat.le_antisymm hge (Nat.le_of_sub_eq_zero hzero)
      · cases hget
  · rw [List.map_append, List.nodup_append]
    refine ⟨h.nodup, by simp, ?_⟩
    rintro path hpath other hother rfl
    have : path = request.path := by simpa using hother
    exact hnew (this ▸ hpath)
  · intro other hother
    rcases List.mem_append.mp hother with hold | hlast
    · exact h.normal other hold
    · obtain rfl := List.mem_singleton.mp hlast
      exact hnormal
  · intro other hother
    rcases List.mem_append.mp hother with hold | hlast
    · exact h.reachable other hold
    · obtain rfl := List.mem_singleton.mp hlast
      exact hreachable

theorem knownModule_some (h : QueueOk environment written layout starts requests)
    (hknown : knownModule requests path = some request) :
    requests[request.id]? = some request ∧ request.path = path := by
  have hmem := List.mem_of_find?_eq_some hknown
  have hpath := List.find?_some hknown
  obtain ⟨i, hi⟩ := List.getElem?_of_mem hmem
  rw [h.ids i request hi]
  exact ⟨hi, by simpa using hpath⟩

theorem knownModule_none (hknown : knownModule requests path = none) :
    path ∉ requests.map (·.path) := by
  intro hmem
  obtain ⟨request, hrequest, rfl⟩ := List.mem_map.mp hmem
  have := List.find?_eq_none.mp hknown request hrequest
  simp at this

theorem moduleId_eq_some {ordinal id : Nat} (h : moduleId ordinal = some id) : id = ordinal := by
  unfold moduleId at h
  split at h
  · exact (Option.some.inj h).symm
  · cases h

theorem importAllowed_ok {target : RequestedModule} {known : Option RequestedModule} {span : Span}
    (h : importAllowed layout importer requests known path span = .ok target) :
    (known = some target) ∨ (known = none ∧ target.id = requests.length ∧ target.path = path) := by
  unfold importAllowed at h
  simp only at h
  split at h
  · cases h
  · cases known with
    | some queued =>
      cases h
      exact .inl rfl
    | none =>
      simp only at h
      split at h
      · rename_i id hid
        cases h
        exact .inr ⟨rfl, moduleId_eq_some hid, rfl⟩
      · cases h

/-- A target stands for a path in a queue. -/
def TargetIs (requests : List RequestedModule) (path : Text) (target : ModuleId) : Prop :=
  ∃ request, requests[target]? = some request ∧ request.path = path

theorem TargetIs.mono (hgrows : requests <+: more) {target : ModuleId}
    (h : TargetIs requests path target) : TargetIs more path target := by
  obtain ⟨request, hget, hpath⟩ := h
  obtain ⟨rest, rfl⟩ := hgrows
  exact ⟨request, by rw [List.getElem?_append_left (List.getElem?_eq_some_iff.mp hget).1, hget],
    hpath⟩

theorem resolveImport_ok {names : NameTable} {cursor next : ImportCursor} {request : ParsedImport}
    {meaning : WrittenImport} {contents : String}
    (hqueue : QueueOk environment written layout starts cursor.requests)
    (hlibrary : NormalAbsolute layout.root) (himporter : NormalAbsolute importer.path)
    (hreachable : Reachable environment written layout.root starts importer.path)
    (hread : environment.readText importer.path = .ok contents)
    (hwritten : meaning ∈ written contents) (hspells : Spells names request meaning)
    (hadmitted : meaning.Admitted)
    (h : resolveImport layout importer names cursor request = .ok next) :
    QueueOk environment written layout starts next.requests ∧ cursor.requests <+: next.requests ∧
      next.requests.map (·.path) =
        enqueue (cursor.requests.map (·.path)) (denoted layout.root importer.path meaning) ∧
      ∃ target, next.targets = cursor.targets ++ [target] ∧
        TargetIs next.requests (denoted layout.root importer.path meaning) target := by
  unfold resolveImport at h
  obtain ⟨path, hbuilt, h⟩ := Except.peel h
  rw [importPath_eq himporter hlibrary hspells hadmitted] at hbuilt
  cases hbuilt
  obtain ⟨target, hallowed, h⟩ := Except.peel h
  cases h
  rcases importAllowed_ok hallowed with hknown | ⟨hknown, hid, hpath⟩
  · obtain ⟨hget, hpath⟩ := knownModule_some hqueue hknown
    rw [hknown]
    have hmem : denoted layout.root importer.path meaning ∈ cursor.requests.map (·.path) :=
      List.mem_map.mpr ⟨target, List.mem_of_getElem? hget, hpath⟩
    exact ⟨hqueue, List.prefix_rfl, (if_pos hmem).symm, target.id, rfl, target, hget, hpath⟩
  · rw [hknown]
    refine ⟨?_, List.prefix_append _ _, ?_, target.id, rfl, target, ?_, hpath⟩
    · refine hqueue.snoc hid ?_ ?_ ?_
      · rw [hpath]
        exact knownModule_none hknown
      · rw [hpath]
        exact normalAbsolute_denoted himporter hlibrary hadmitted
      · rw [hpath]
        exact .step hreachable hread hwritten
    · unfold enqueue
      rw [if_neg (knownModule_none hknown), List.map_append, List.map_singleton, hpath]
    · rw [hid, List.getElem?_append_right (Nat.le_refl _), Nat.sub_self]
      rfl

theorem resolveImports_ok {names : NameTable} {contents : String}
    (hlibrary : NormalAbsolute layout.root) (himporter : NormalAbsolute importer.path)
    (hreachable : Reachable environment written layout.root starts importer.path)
    (hread : environment.readText importer.path = .ok contents) :
    ∀ {imports : List ParsedImport} {meanings : List WrittenImport} {cursor last : ImportCursor},
      QueueOk environment written layout starts cursor.requests →
      List.Forall₂ (Spells names) imports meanings →
      (∀ meaning ∈ meanings, meaning ∈ written contents ∧ meaning.Admitted) →
      imports.foldlM (resolveImport layout importer names) cursor = .ok last →
      QueueOk environment written layout starts last.requests ∧ cursor.requests <+: last.requests ∧
        last.requests.map (·.path) = (meanings.map (denoted layout.root importer.path)).foldl enqueue
          (cursor.requests.map (·.path)) ∧
        ∃ targets, last.targets = cursor.targets ++ targets ∧
          List.Forall₂ (fun meaning target => TargetIs last.requests
            (denoted layout.root importer.path meaning) target) meanings targets := by
  intro imports
  induction imports with
  | nil =>
    intro meanings cursor last hqueue hspells _ h
    cases hspells
    cases h
    exact ⟨hqueue, List.prefix_rfl, rfl, [], by simp, .nil⟩
  | cons request imports ih =>
    intro meanings cursor last hqueue hspells hall h
    obtain ⟨meaning, rest, hfirst, hrest, rfl⟩ := List.forall₂_cons_left_iff.mp hspells
    rw [List.foldlM_cons] at h
    obtain ⟨next, hnext, h⟩ := Except.peel h
    obtain ⟨hwritten, hadmitted⟩ := hall meaning List.mem_cons_self
    obtain ⟨hqueue', hgrows, hpaths, target, htargets, htarget⟩ := resolveImport_ok hqueue hlibrary
      himporter hreachable hread hwritten hfirst hadmitted hnext
    obtain ⟨hqueue'', hgrows', hpaths', targets, htargets', hrows⟩ := ih hqueue' hrest
      (fun other hother => hall other (List.mem_cons_of_mem _ hother)) h
    refine ⟨hqueue'', hgrows.trans hgrows', ?_, target :: targets, ?_, ?_⟩
    · rw [hpaths', hpaths]
      rfl
    · rw [htargets', htargets]
      simp
    · exact .cons (htarget.mono hgrows') hrows

/-! ## Linking -/

theorem linkedImports_ok {requests : List ParsedImport} :
    ∀ {targets : List ModuleId} {linked result : List ModuleImport},
      linkedImports requests targets linked = .ok result →
      result.map (·.target) = linked.map (·.target) ++ targets := by
  induction requests with intro targets linked result h
  | nil =>
    cases targets with
    | nil =>
      cases h
      simp
    | cons target targets => cases h
  | cons request requests ih =>
    cases targets with
    | nil => cases h
    | cons target targets =>
      unfold linkedImports at h
      split at h
      · cases h
      · rw [ih h]
        simp

theorem appendModule_ok {contents : ParsedModuleContents} {targets : List ModuleId}
    {role : ModuleKind} (h : appendModule assembly contents targets role path = .ok next) :
    ∃ row, next.modules = assembly.modules ++ [row] ∧ row.module = assembly.modules.length ∧
      row.imports.map (·.target) = targets := by
  unfold appendModule at h
  split at h
  · cases h
  · split at h
    · cases h
    · rename_i hnumber
      have hnumber : contents.module = assembly.modules.length := by simpa using hnumber
      split at h
      · cases h
      · obtain ⟨imports, himports, h⟩ := Except.peel h
        cases h
        exact ⟨_, rfl, hnumber, by simpa using linkedImports_ok himports⟩

/-- A row and a source that belong to a queued module. -/
structure Linked (environment : Environment) (written : String → List WrittenImport)
    (layout : LibraryLayout) (requests : List RequestedModule) (current : RequestedModule)
    (row : ParsedModuleRow) (source : SourceFile) : Prop where
  read : environment.readText current.path = .ok source.contents
  module : row.module = current.id
  imports : ∀ (k : Nat) (meaning : WrittenImport),
    (written source.contents)[k]? = some meaning →
    ∃ link, row.imports[k]? = some link ∧
      TargetIs requests (denoted layout.root current.path meaning) link.target

theorem Linked.mono {row : ParsedModuleRow} {source : SourceFile} (hgrows : requests <+: more)
    (h : Linked environment written layout requests current row source) :
    Linked environment written layout more current row source := by
  refine ⟨h.read, h.module, fun k meaning hget => ?_⟩
  obtain ⟨link, hlink, htarget⟩ := h.imports k meaning hget
  exact ⟨link, hlink, htarget.mono hgrows⟩

/-- The queue, and the rows and sources of the modules loaded so far, position by
position. -/
structure LoadOk (environment : Environment) (written : String → List WrittenImport)
    (starts : List Text) (state : LoadState) : Prop where
  library : NormalAbsolute state.layout.root
  queue : QueueOk environment written state.layout starts state.requests
  lockstep : state.assembly.modules.length = state.modules.length
  loaded : state.modules.length ≤ state.requests.length
  linked : ∀ (i : Nat) (current : RequestedModule) (row : ParsedModuleRow) (source : SourceFile),
    state.requests[i]? = some current → state.assembly.modules[i]? = some row →
    state.modules[i]? = some source →
    Linked environment written state.layout state.requests current row source

theorem exists_paired {α β : Type} {R : α → β → Prop} {as : List α} {bs : List β}
    (h : List.Forall₂ R as bs) {k : Nat} {a : α} (ha : as[k]? = some a) :
    ∃ b, bs[k]? = some b ∧ R a b := by
  induction h generalizing k with
  | nil => simp at ha
  | cons hab _ ih =>
    cases k with
    | zero =>
      rw [List.getElem?_cons_zero] at ha
      obtain rfl := Option.some.inj ha
      exact ⟨_, rfl, hab⟩
    | succ k =>
      rw [List.getElem?_cons_succ] at ha
      exact ih ha

theorem loadModule_ok (hparser : ParserReads environment written) {state next : LoadState}
    (hstate : LoadOk environment written starts state)
    (hcurrent : state.requests[state.modules.length]? = some current)
    (h : loadModule environment state current = .ok next) :
    LoadOk environment written starts next ∧ next.modules.length = state.modules.length + 1 ∧
      state.requests <+: next.requests ∧ next.layout = state.layout ∧
      next.requests.map (·.path) =
        (importedPaths environment written state.layout.root current.path).foldl enqueue
          (state.requests.map (·.path)) := by
  have hmem := List.mem_of_getElem? hcurrent
  have hcurrentId : current.id = state.modules.length := hstate.queue.ids _ current hcurrent
  unfold loadModule at h
  split at h
  · cases h
  · rename_i contents hread
    have hread : environment.readText current.path = .ok contents := by
      unfold readModule at hread
      split at hread
      · rename_i bytes hbytes
        cases hread
        exact hbytes
      · cases hread
    simp only at h
    split at h
    · cases h
    · rename_i linked hlinked
      cases h
      unfold linkModule at hlinked
      obtain ⟨parsed, hparsed, hlinked⟩ := Except.peel hlinked
      obtain ⟨resolved, hresolved, hlinked⟩ := Except.peel hlinked
      obtain ⟨assembly, hassembly, hlinked⟩ := Except.peel hlinked
      cases hlinked
      obtain ⟨hqueue, hgrows, hpaths, targets, htargets, hrows⟩ := resolveImports_ok hstate.library
        (hstate.queue.normal current hmem) (hstate.queue.reachable current hmem) hread hstate.queue
        (hparser.imports hparsed) (fun request hrequest => ⟨hrequest,
          hparser.admitted hparsed request hrequest⟩) hresolved
      obtain ⟨row, hmodules, hmodule, himports⟩ := appendModule_ok hassembly
      have hlt : state.modules.length < state.requests.length :=
        (List.getElem?_eq_some_iff.mp hcurrent).1
      rw [List.nil_append] at htargets
      refine ⟨⟨hstate.library, hqueue, ?_, ?_, ?_⟩, by simp, hgrows, rfl, ?_⟩
      · simp [hmodules, hstate.lockstep]
      · have hle : state.requests.length ≤ resolved.requests.length := hgrows.length_le
        simp only [List.length_append, List.length_singleton]
        omega
      · intro i other row' source hother hrow hsource
        simp only [hmodules] at hrow
        rcases Nat.lt_or_ge i state.modules.length with hearlier | hlast
        · -- An earlier module keeps its row and source; its targets are in the longer queue.
          rw [List.getElem?_append_left (by rw [hstate.lockstep]; exact hearlier)] at hrow
          rw [List.getElem?_append_left hearlier] at hsource
          obtain ⟨rest, hrest⟩ := hgrows
          have hold : state.requests[i]? = some other := by
            rw [← hother]
            simp only [← hrest]
            rw [List.getElem?_append_left (by omega)]
          exact (hstate.linked i other row' source hold hrow hsource).mono ⟨rest, hrest⟩
        · rw [List.getElem?_append_right hlast, List.getElem?_singleton] at hsource
          split at hsource
          · rename_i hzero
            obtain rfl : i = state.modules.length :=
              Nat.le_antisymm (Nat.le_of_sub_eq_zero hzero) hlast
            obtain rfl := Option.some.inj hsource
            rw [← hstate.lockstep, List.getElem?_append_right (Nat.le_refl _), Nat.sub_self,
              List.getElem?_cons_zero] at hrow
            obtain rfl := Option.some.inj hrow
            obtain ⟨rest, hrest⟩ := hgrows
            have hsame : current = other := by
              have : resolved.requests[state.modules.length]? = some current := by
                rw [← hrest, List.getElem?_append_left hlt, hcurrent]
              rw [this] at hother
              exact Option.some.inj hother
            subst hsame
            refine ⟨hread, ?_, fun k meaning hget => ?_⟩
            · rw [hmodule, hcurrentId, hstate.lockstep]
            · obtain ⟨target, htarget, his⟩ := exists_paired hrows hget
              have hlink : (row.imports.map (·.target))[k]? = some target := by
                rw [himports, htargets, htarget]
              rw [List.getElem?_map] at hlink
              obtain ⟨link, hat, rfl⟩ := Option.map_eq_some_iff.mp hlink
              exact ⟨link, hat, his⟩
          · cases hsource
      · unfold importedPaths
        rw [hread]
        exact hpaths

/-! ## The whole queue -/

theorem QueueOk.length_le
    (hfinite : {path | Reachable environment written layout.root starts path}.Finite)
    (h : QueueOk environment written layout starts requests) :
    requests.length ≤ hfinite.toFinset.card := by
  classical
  rw [← List.length_map (f := fun request : RequestedModule => request.path),
    ← List.toFinset_card_of_nodup h.nodup]
  refine Finset.card_le_card fun path hpath => ?_
  obtain ⟨request, hrequest, rfl⟩ := List.mem_map.mp (List.mem_toFinset.mp hpath)
  exact hfinite.mem_toFinset.mpr (h.reachable request hrequest)

/-- What loading the queue of a state comes to. -/
structure QueueLoaded (environment : Environment) (written : String → List WrittenImport)
    (starts : List Text) (state last : LoadState) : Prop where
  ok : LoadOk environment written starts last
  layout : last.layout = state.layout
  grows : state.requests <+: last.requests
  all : last.modules.length = last.requests.length
  queues : Queues environment written state.layout.root (state.requests.map (·.path))
    state.modules.length (last.requests.map (·.path))

theorem QueueLoaded.done {state : LoadState} (hstate : LoadOk environment written starts state)
    (hdone : state.requests[state.modules.length]? = none) :
    QueueLoaded environment written starts state state := by
  have hall : state.modules.length = state.requests.length :=
    Nat.le_antisymm hstate.loaded (List.getElem?_eq_none_iff.mp hdone)
  refine ⟨hstate, rfl, List.prefix_rfl, hall, ?_⟩
  rw [hall, ← List.length_map (f := fun request : RequestedModule => request.path)]
  exact .done

theorem loadQueue_ends (hparser : ParserReads environment written) {state : LoadState}
    (hfinite : {path | Reachable environment written state.layout.root starts path}.Finite)
    (hstate : LoadOk environment written starts state) :
    Outcome.Ends (fun n => loadQueue environment n state)
      (QueueLoaded environment written starts state) := by
  obtain ⟨layout, hlayout⟩ : ∃ layout, layout = state.layout := ⟨_, rfl⟩
  rw [← hlayout] at hfinite
  obtain ⟨left, hleft⟩ : ∃ left, hfinite.toFinset.card ≤ state.modules.length + left :=
    ⟨_, Nat.le_add_left _ _⟩
  induction left generalizing state with
  | zero =>
    have hlength := (hlayout ▸ hstate.queue).length_le hfinite
    have hdone : state.requests[state.modules.length]? = none :=
      List.getElem?_eq_none (by omega)
    exact Outcome.Ends.succ (fun n => by simp [loadQueue, hdone])
      (Outcome.Ends.ok (QueueLoaded.done hstate hdone))
  | succ left ih =>
    cases hnext : state.requests[state.modules.length]? with
    | none =>
      exact Outcome.Ends.succ (fun n => by simp [loadQueue, hnext])
        (Outcome.Ends.ok (QueueLoaded.done hstate hnext))
    | some current =>
      cases hload : loadModule environment state current with
      | error error =>
        exact Outcome.Ends.succ (fun n => by simp [loadQueue, hnext, hload]) (Outcome.Ends.err error)
      | ok next =>
        obtain ⟨hok, hcount, hgrows, hsame, hpaths⟩ := loadModule_ok hparser hstate hnext hload
        obtain ⟨outcome, hrun, hlast⟩ := ih hok (hlayout.trans hsame.symm) (by omega)
        refine ⟨outcome, Outcome.Settles.succ (fun n => ?_) hrun, fun last heq => ?_⟩
        · simp [loadQueue, hnext, hload]
        · obtain ⟨hdone, hlayout', hgrows', hlength, hqueues⟩ := hlast last heq
          refine ⟨hdone, hlayout'.trans hsame, hgrows.trans hgrows', hlength,
            .load (?_ : _ = some current.path) ?_⟩
          · rw [List.getElem?_map, hnext]
            rfl
          · rwa [← hpaths, ← hcount, ← hsame]

/-! ## The test entry -/

theorem mergedImport_target (named : List ModuleImport) (request : ModuleImport) :
    (mergedImport named request).target = request.target := by
  unfold mergedImport
  suffices hall : ∀ merged : ModuleImport, merged.target = request.target →
      (named.foldl (fun merged wanted =>
        if wanted.target == request.target then { request with moduleAlias := wanted.moduleAlias }
        else merged) merged).target = request.target from hall request rfl
  induction named with
  | nil => exact fun _ h => h
  | cons wanted named ih =>
    intro merged hmerged
    rw [List.foldl_cons]
    refine ih _ ?_
    split
    · rfl
    · exact hmerged

theorem entryImports_target {imports : List ModuleImport} {k : Nat} {link : ModuleImport}
    (h : imports[k]? = some link) (named : List ModuleImport) :
    ∃ merged, (entryImports imports named)[k]? = some merged ∧ merged.target = link.target := by
  refine ⟨mergedImport named link, ?_, mergedImport_target named link⟩
  unfold entryImports
  rw [List.getElem?_append_left (by simp [(List.getElem?_eq_some_iff.mp h).1]), List.getElem?_map, h]
  rfl

theorem prepareTestEntry_ok {grouped : List ModuleId} {library types : ModuleId}
    (h : prepareTestEntry assembly grouped library types = .ok next) :
    ∃ root named, assembly.modules[0]? = some root ∧
      next.modules = assembly.modules.set 0 { root with imports := entryImports root.imports named } := by
  unfold prepareTestEntry at h
  split at h
  · cases h
  · rename_i root hroot
    split at h
    · cases h
    · split at h
      · cases h
      · simp only at h
        split at h
        · split at h
          · cases h
          · cases h
            exact ⟨root, _, hroot, rfl⟩
        · cases h

theorem LoadOk.prepare {state : LoadState} (hstate : LoadOk environment written starts state)
    {assembly : ParsedAssembly} {root : ParsedModuleRow} {named : List ModuleImport}
    (hroot : state.assembly.modules[0]? = some root)
    (hmodules : assembly.modules =
      state.assembly.modules.set 0 { root with imports := entryImports root.imports named }) :
    LoadOk environment written starts { state with assembly := assembly } := by
  refine ⟨hstate.library, hstate.queue, by simp [hmodules, hstate.lockstep], hstate.loaded, ?_⟩
  intro i current row source hcurrent hrow hsource
  simp only [hmodules] at hrow
  by_cases hfirst : i = 0
  · subst hfirst
    have hlt := (List.getElem?_eq_some_iff.mp hroot).1
    rw [List.getElem?_set_self hlt] at hrow
    obtain rfl := Option.some.inj hrow
    obtain ⟨hread, hmodule, himports⟩ := hstate.linked 0 current root source hcurrent hroot hsource
    refine ⟨hread, hmodule, fun k meaning hget => ?_⟩
    obtain ⟨link, hlink, htarget⟩ := himports k meaning hget
    obtain ⟨merged, hmerged, hsame⟩ := entryImports_target hlink named
    exact ⟨merged, hmerged, hsame ▸ htarget⟩
  · rw [List.getElem?_set_ne (Ne.symm hfirst)] at hrow
    exact hstate.linked i current row source hcurrent hrow hsource

theorem QueueLoaded.prepare {state last : LoadState}
    (h : QueueLoaded environment written starts state last) {assembly : ParsedAssembly}
    {grouped : List ModuleId} {library types : ModuleId}
    (hentry : prepareTestEntry last.assembly grouped library types = .ok assembly) :
    QueueLoaded environment written starts state { last with assembly := assembly } := by
  obtain ⟨root, named, hroot, hmodules⟩ := prepareTestEntry_ok hentry
  exact ⟨h.ok.prepare hroot hmodules, h.layout, h.grows, h.all, h.queues⟩

/-! ## Roots -/

theorem normalAbsolute_join {root : Text} (hroot : NormalAbsolute root) {child : Text}
    (hchild : Ordinary child) : NormalAbsolute (join root child) := by
  obtain ⟨components, hcomponents, rfl⟩ := hroot
  refine ⟨components ++ [child], fun component hcomponent => ?_,
    join_render hcomponents hchild.unseparated⟩
  rcases List.mem_append.mp hcomponent with hold | hlast
  · exact hcomponents component hold
  · obtain rfl := List.mem_singleton.mp hlast
    exact hchild

theorem join_injective {root : Text} (hroot : NormalAbsolute root) {first second : Text}
    (hfirst : Ordinary first) (hsecond : Ordinary second) (h : join root first = join root second) :
    first = second := by
  obtain ⟨components, hcomponents, rfl⟩ := hroot
  have hall : ∀ {child : Text}, Ordinary child → ∀ component ∈ components ++ [child],
      Ordinary component := by
    intro child hchild component hcomponent
    rcases List.mem_append.mp hcomponent with hold | hlast
    · exact hcomponents component hold
    · obtain rfl := List.mem_singleton.mp hlast
      exact hchild
  rw [join_render hcomponents hfirst.unseparated, join_render hcomponents hsecond.unseparated] at h
  have hpieces := congrArg pieces h
  rw [pieces_render (hall hfirst), pieces_render (hall hsecond)] at hpieces
  simpa using hpieces

theorem isSeparator_join {base child : Text} (hbase : isSeparator base 0 = true) :
    isSeparator (join base child) 0 = true := by
  have hpos : 0 < base.length := by
    cases base with
    | nil => simp [isSeparator] at hbase
    | cons char rest => simp
  unfold join
  split
  · assumption
  · rw [if_neg (by omega)]
    split
    · rwa [isSeparator_left hpos]
    · rwa [List.append_assoc, isSeparator_left hpos]

theorem ordinary_typesPath : Ordinary foundationTypesPath :=
  ⟨by decide, by decide, by decide, by decide⟩

theorem ordinary_preludePath : Ordinary foundationPreludePath :=
  ⟨by decide, by decide, by decide, by decide⟩

theorem ordinary_testPath : Ordinary "test.brp".toList :=
  ⟨by decide, by decide, by decide, by decide⟩

theorem queueRoots_ok {directory : Text} (hdirectory : isSeparator directory 0 = true)
    {queued : List RequestedModule} {paths : List Text} :
    ∀ {later roots : List RequestedModule},
      QueueOk environment written layout starts (queued ++ later) →
      (∀ path ∈ paths, normalize (join directory path) ∈ starts) →
      queueRoots directory queued later paths = .ok roots →
      QueueOk environment written layout starts (queued ++ roots) ∧
        roots.map (·.path) = later.map (·.path) ++ paths.map (normalize <| join directory ·) := by
  induction paths with
  | nil =>
    intro later roots hqueue _ h
    cases h
    exact ⟨hqueue, (List.append_nil _).symm⟩
  | cons path paths ih =>
    intro later roots hqueue hstarts h
    unfold queueRoots at h
    simp only at h
    split at h
    · cases h
    · rename_i id hknown hid
      have hid : id = (queued ++ later).length := moduleId_eq_some hid
      have hqueue' : QueueOk environment written layout starts
          (queued ++ (later ++ [designated id (normalize (join directory path)) .userModule])) := by
        rw [← List.append_assoc]
        exact hqueue.snoc hid (knownModule_none hknown)
          (normalAbsolute_normalize (isSeparator_join hdirectory))
          (.start (hstarts path List.mem_cons_self))
      obtain ⟨hok, hpaths⟩ :=
        ih hqueue' (fun other hother => hstarts other (List.mem_cons_of_mem _ hother)) h
      refine ⟨hok, ?_⟩
      rw [hpaths]
      simp [designated]
    · cases h

end

/-! ## Loading a program -/

/-- The working directory that paths are joined to. -/
def workingDirectory (environment : Environment) : Text :=
  match environment.currentDirectory with
  | .ok directory => directory
  | .error _ => []

def inputLayout (environment : Environment) (libraryRoot : Text) : LibraryLayout :=
  libraryLayout (join (workingDirectory environment) libraryRoot)

def rootPaths (environment : Environment) (rootPath libraryRoot : Text) (mode : LoadMode) :
    List Text :=
  let layout := inputLayout environment libraryRoot
  [normalize (join (workingDirectory environment) rootPath), layout.typesPath,
    layout.preludePath] ++
  match mode with
  | .applicationInput => []
  | .testSuiteInput paths => paths.map (normalize <| join (workingDirectory environment) ·)

def testLibraryPath (environment : Environment) (libraryRoot : Text) : Text :=
  join (inputLayout environment libraryRoot).root "test.brp".toList

/-- The files loading starts from: those and, for tests, the test library. -/
def startPaths (environment : Environment) (rootPath libraryRoot : Text) (mode : LoadMode) :
    List Text :=
  rootPaths environment rootPath libraryRoot mode ++
  match mode with
  | .applicationInput => []
  | .testSuiteInput _ => [testLibraryPath environment libraryRoot]

/-- The order of the queue: the test library is queued when all the rest is loaded. -/
def LoadOrder (environment : Environment) (written : String → List WrittenImport)
    (rootPath libraryRoot : Text) (mode : LoadMode) (paths : List Text) : Prop :=
  let queues := Queues environment written (inputLayout environment libraryRoot).root
  match mode with
  | .applicationInput => queues (rootPaths environment rootPath libraryRoot mode) 0 paths
  | .testSuiteInput _ =>
      ∃ first, queues (rootPaths environment rootPath libraryRoot mode) 0 first ∧
        queues (enqueue first (testLibraryPath environment libraryRoot)) first.length paths

/-- A program whose modules are the files of `paths`, in order. -/
structure Inventory (environment : Environment) (written : String → List WrittenImport)
    (libraryRoot : Text) (paths : List Text) (loaded : LoadedProgram) : Prop where
  /-- No file is queued twice. -/
  distinct : paths.Nodup
  rows : loaded.program.modules.length = paths.length
  sources : loaded.sources.modules.length = paths.length
  /-- Module `i` is the `i`-th path, and each import's target is the file it denotes. -/
  module : ∀ (i : Nat) (path : Text), paths[i]? = some path →
    ∃ row source, loaded.program.modules[i]? = some row ∧ row.module = i ∧
      loaded.sources.modules[i]? = some source ∧
      environment.readText path = .ok source.contents ∧
      ∀ (k : Nat) (request : WrittenImport), (written source.contents)[k]? = some request →
        ∃ link, row.imports[k]? = some link ∧
          ∀ target, link.target = target ↔
            paths[target]? = some (denoted libraryRoot path request)

section

variable {environment : Environment} {written : String → List WrittenImport}

theorem designated_queueOk {layout : LibraryLayout} {starts : List Text} {rootFile root : Text}
    (hlayout : layout = libraryLayout root) (hroot : isSeparator root 0 = true)
    (hrootFile : NormalAbsolute rootFile)
    (hrole : moduleRole layout rootFile ≠ .foundationTypesModule ∧
      moduleRole layout rootFile ≠ .foundationPreludeModule)
    (hstarts : ∀ path ∈ [rootFile, layout.typesPath, layout.preludePath], path ∈ starts) :
    QueueOk environment written layout starts (designatedInputs layout rootFile) ∧
      NormalAbsolute layout.root := by
  subst hlayout
  have hlibrary : NormalAbsolute (libraryLayout root).root := normalAbsolute_normalize hroot
  have htypes : rootFile ≠ (libraryLayout root).typesPath := by
    intro heq
    exact hrole.1 (by unfold moduleRole; rw [if_pos heq])
  have hprelude : rootFile ≠ (libraryLayout root).preludePath := by
    intro heq
    refine hrole.2 ?_
    unfold moduleRole
    rw [if_neg htypes, if_pos heq]
  have hapart : (libraryLayout root).typesPath ≠ (libraryLayout root).preludePath := by
    intro heq
    exact absurd (join_injective hlibrary ordinary_typesPath ordinary_preludePath heq) (by decide)
  have hall : ∀ request ∈ designatedInputs (libraryLayout root) rootFile,
      NormalAbsolute request.path ∧ request.path ∈ starts := by
    intro request hrequest
    simp only [designatedInputs, List.mem_cons, List.not_mem_nil, or_false] at hrequest
    rcases hrequest with rfl | rfl | rfl
    · exact ⟨hrootFile, hstarts _ (by simp [designated])⟩
    · exact ⟨normalAbsolute_join hlibrary ordinary_typesPath, hstarts _ (by simp [designated])⟩
    · exact ⟨normalAbsolute_join hlibrary ordinary_preludePath, hstarts _ (by simp [designated])⟩
  refine ⟨⟨?_, ?_, fun request hrequest => (hall request hrequest).1,
    fun request hrequest => .start (hall request hrequest).2⟩, hlibrary⟩
  · intro i request hget
    match i with
    | 0 | 1 | 2 =>
      obtain rfl := Option.some.inj hget
      rfl
    | i + 3 => simp [designatedInputs] at hget
  · simp only [designatedInputs, designated, List.map_cons, List.map_nil]
    simp [htypes, hprelude, hapart]

theorem LoadOk.inventory {starts : List Text} {state : LoadState}
    (hstate : LoadOk environment written starts state)
    (hall : state.modules.length = state.requests.length)
    (hstarts : ∀ path ∈ starts, path ∈ state.requests.map (·.path)) {program : ParsedProgram}
    (hmodules : program.modules = state.assembly.modules) :
    (∀ path, path ∈ state.requests.map (·.path) ↔
      Reachable environment written state.layout.root starts path) ∧
    Inventory environment written state.layout.root (state.requests.map (·.path))
      ⟨⟨state.modules⟩, program⟩ := by
  have hrow : ∀ (i : Nat) (current : RequestedModule), state.requests[i]? = some current →
      ∃ row source, state.assembly.modules[i]? = some row ∧ state.modules[i]? = some source ∧
        Linked environment written state.layout state.requests current row source := by
    intro i current hcurrent
    have hlt := (List.getElem?_eq_some_iff.mp hcurrent).1
    have hin : i < state.modules.length := by omega
    have hin' : i < state.assembly.modules.length := by rw [hstate.lockstep]; exact hin
    exact ⟨_, _, List.getElem?_eq_getElem hin', List.getElem?_eq_getElem hin,
      hstate.linked i current _ _ hcurrent (List.getElem?_eq_getElem hin')
        (List.getElem?_eq_getElem hin)⟩
  have htarget : ∀ {path : Text} {target : ModuleId}, TargetIs state.requests path target →
      (state.requests.map (·.path))[target]? = some path := by
    rintro path target ⟨request, hget, rfl⟩
    rw [List.getElem?_map, hget]
    rfl
  constructor
  · intro path
    constructor
    · intro hmem
      obtain ⟨request, hrequest, rfl⟩ := List.mem_map.mp hmem
      exact hstate.queue.reachable request hrequest
    · intro hreachable
      induction hreachable with
      | start hstart => exact hstarts _ hstart
      | step _ hread hrequest ih =>
        obtain ⟨current, hcurrent, rfl⟩ := List.mem_map.mp ih
        obtain ⟨i, hi⟩ := List.getElem?_of_mem hcurrent
        obtain ⟨row, source, -, -, hlinked⟩ := hrow i current hi
        rw [hlinked.read] at hread
        obtain rfl := Except.ok.inj hread
        obtain ⟨k, hk⟩ := List.getElem?_of_mem hrequest
        obtain ⟨link, -, his⟩ := hlinked.imports k _ hk
        exact List.mem_of_getElem? (htarget his)
  · refine ⟨hstate.queue.nodup, ?_, ?_, ?_⟩
    · simp [hmodules, hstate.lockstep, hall]
    · simp [hall]
    · intro i path hpath
      rw [List.getElem?_map] at hpath
      obtain ⟨current, hcurrent, rfl⟩ := Option.map_eq_some_iff.mp hpath
      obtain ⟨row, source, hrow, hsource, hlinked⟩ := hrow i current hcurrent
      refine ⟨row, source, by rw [hmodules, hrow], ?_, hsource, hlinked.read, ?_⟩
      · rw [hlinked.module, hstate.queue.ids i current hcurrent]
      · intro k request hrequest
        obtain ⟨link, hlink, his⟩ := hlinked.imports k request hrequest
        refine ⟨link, hlink, fun target => ⟨?_, fun hget => ?_⟩⟩
        · rintro rfl
          exact htarget his
        · have hlt := (List.getElem?_eq_some_iff.mp (htarget his)).1
          exact (hstate.queue.nodup.getElem_inj_iff).mp (Option.some.inj (by
            rw [← List.getElem?_eq_getElem hlt,
              ← List.getElem?_eq_getElem (List.getElem?_eq_some_iff.mp hget).1,
              htarget his, hget]))

end

/-! ## Sealing -/

theorem sealProgram_ends (assembly : ParsedAssembly) :
    Outcome.Ends (fun n => sealProgram n assembly) fun program =>
      program.modules = assembly.modules := by
  unfold sealProgram
  cases assembly.modules[0]? with
  | none => exact Outcome.Ends.err _
  | some root =>
    simp only
    refine Outcome.Ends.bind (Q := fun _ => True) (Outcome.Ends.liftM fun _ _ => trivial) ?_
    intro types _
    refine Outcome.Ends.bind (Q := fun _ => True) (Outcome.Ends.liftM fun _ _ => trivial) ?_
    intro prelude _
    split
    · exact Outcome.Ends.err _
    · obtain ⟨outcome, hordered⟩ := orderedRows_settles assembly.modules prelude
      refine Outcome.Ends.bind (Q := fun _ => True) ⟨outcome, hordered, fun _ _ => trivial⟩ ?_
      intro ordered _
      exact Outcome.Ends.ok rfl

theorem reportSealed_ends (loaded : LoadState) :
    Outcome.Ends (fun n => reportSealed loaded (sealProgram n loaded.assembly)) fun result =>
      result.sources = ⟨loaded.modules⟩ ∧ result.program.modules = loaded.assembly.modules := by
  obtain ⟨outcome, ⟨hne, least, hleast⟩, hmodules⟩ := sealProgram_ends loaded.assembly
  refine ⟨reportSealed loaded outcome, ⟨?_, least, fun n hn => congrArg _ (hleast n hn)⟩, ?_⟩
  · unfold reportSealed
    split
    · simp
    · simp
    · split <;> simp
    · exact absurd rfl hne
  · intro result hresult
    unfold reportSealed at hresult
    split at hresult
    · rename_i program
      cases hresult
      exact ⟨rfl, hmodules program rfl⟩
    · cases hresult
    · split at hresult <;> cases hresult
    · cases hresult

/-! ## Each file is one module -/

section

variable {environment : Environment} {written : String → List WrittenImport}

theorem QueueOk.unloaded {starts : List Text} {layout : LibraryLayout}
    {requests : List RequestedModule} (hlibrary : NormalAbsolute layout.root)
    (h : QueueOk environment written layout starts requests) (rootPath : Text) :
    LoadOk environment written starts ⟨layout, rootPath, requests, beginProgram, []⟩ :=
  ⟨hlibrary, h, rfl, Nat.zero_le _, fun i _ _ _ _ _ hsource => by simp at hsource⟩

theorem LoadOk.snoc {starts : List Text} {state : LoadState} {request : RequestedModule}
    (h : LoadOk environment written starts state)
    (hqueue : QueueOk environment written state.layout starts (state.requests ++ [request])) :
    LoadOk environment written starts
      { state with requests := state.requests ++ [request] } := by
  refine ⟨h.library, hqueue, h.lockstep, ?_, ?_⟩
  · have := h.loaded
    simp only [List.length_append, List.length_singleton]
    omega
  · intro i current row source hcurrent hrow hsource
    have hlt := (List.getElem?_eq_some_iff.mp hsource).1
    have hloaded := h.loaded
    simp only at hcurrent hlt
    rw [List.getElem?_append_left (by omega)] at hcurrent
    exact (h.linked i current row source hcurrent hrow hsource).mono (List.prefix_append _ _)

/-- The test library is queued and loaded after the rest, and the entry only adds to the
root's imports. -/
theorem loadTestEntry_ends (hparser : ParserReads environment written) {starts : List Text}
    {state : LoadState}
    (hfinite : {path | Reachable environment written state.layout.root starts path}.Finite)
    (hstate : LoadOk environment written starts state)
    (htest : join state.layout.root "test.brp".toList ∈ starts)
    (grouped : List RequestedModule) :
    Outcome.Ends (fun n => loadTestEntry environment n state grouped) fun last =>
      ∃ pending, QueueLoaded environment written starts pending last ∧
        pending.layout = state.layout ∧ pending.modules = state.modules ∧
        state.requests <+: pending.requests ∧ pending.requests.map (·.path) =
          enqueue (state.requests.map (·.path)) (join state.layout.root "test.brp".toList) := by
  unfold loadTestEntry
  cases hknown : knownModule state.requests (join state.layout.root "test.brp".toList) with
  | some request =>
    simp only [hknown]
    obtain ⟨hget, hpath⟩ := knownModule_some hstate.queue hknown
    refine Outcome.Ends.bind (Q := fun _ => True) (Outcome.Ends.liftM fun _ _ => trivial)
      fun id _ => ?_
    refine Outcome.Ends.bind (loadQueue_ends hparser hfinite hstate) ?_
    intro loaded hloaded
    cases hentry : prepareTestEntry loaded.assembly (grouped.map (·.id)) id
        foundationTypesModuleId with
    | error error => exact Outcome.Ends.err _
    | ok assembly =>
      refine Outcome.Ends.ok ⟨state, hloaded.prepare hentry, rfl, rfl, List.prefix_rfl, ?_⟩
      unfold enqueue
      rw [if_pos (List.mem_map.mpr ⟨request, List.mem_of_getElem? hget, hpath⟩)]
  | none =>
    simp only [hknown]
    refine Outcome.Ends.bind (Q := fun id => id = state.requests.length)
      (Outcome.Ends.liftM fun id hid => ?_) ?_
    · split at hid
      · rename_i present hpresent
        obtain rfl := Except.ok.inj hid
        exact moduleId_eq_some hpresent
      · cases hid
    · rintro id rfl
      have hqueue : QueueOk environment written state.layout starts (state.requests ++
          [designated state.requests.length (join state.layout.root "test.brp".toList)
            .libraryModule]) :=
        hstate.queue.snoc rfl (knownModule_none hknown)
          (normalAbsolute_join hstate.library ordinary_testPath) (.start htest)
      refine Outcome.Ends.bind (loadQueue_ends hparser hfinite (hstate.snoc hqueue)) ?_
      intro loaded hloaded
      cases hentry : prepareTestEntry loaded.assembly (grouped.map (·.id)) state.requests.length
          foundationTypesModuleId with
      | error error => exact Outcome.Ends.err _
      | ok assembly =>
        refine Outcome.Ends.ok
          ⟨_, hloaded.prepare hentry, rfl, rfl, List.prefix_append _ _, ?_⟩
        unfold enqueue
        rw [if_neg (knownModule_none hknown)]
        simp [designated]

theorem reportSealed_inventory {rootPath libraryRoot : Text} {mode : LoadMode} {last : LoadState}
    (hlast : LoadOk environment written (startPaths environment rootPath libraryRoot mode) last)
    (hlayout : last.layout = inputLayout environment libraryRoot)
    (hall : last.modules.length = last.requests.length)
    (hstarts : startPaths environment rootPath libraryRoot mode ⊆ last.requests.map (·.path))
    (horder : LoadOrder environment written rootPath libraryRoot mode
      (last.requests.map (·.path))) :
    Outcome.Ends (fun n => reportSealed last (sealProgram n last.assembly)) fun loaded =>
      ∃ paths, (∀ path, path ∈ paths ↔ Reachable environment written
          (inputLayout environment libraryRoot).root
          (startPaths environment rootPath libraryRoot mode) path) ∧
        LoadOrder environment written rootPath libraryRoot mode paths ∧
        Inventory environment written (inputLayout environment libraryRoot).root paths loaded := by
  refine (reportSealed_ends last).imp fun loaded hloaded => ?_
  obtain ⟨sources, program⟩ := loaded
  obtain ⟨rfl, hmodules⟩ := hloaded
  rw [← hlayout]
  obtain ⟨hreachable, hinventory⟩ := hlast.inventory hall hstarts hmodules
  exact ⟨_, hreachable, horder, hinventory⟩

theorem loadRoots_ends (hparser : ParserReads environment written) {directory : Text}
    (hdirectory : environment.currentDirectory = .ok directory)
    (hslash : isSeparator directory 0 = true) {rootPath libraryRoot : Text} {mode : LoadMode}
    (hfinite : {path | Reachable environment written (inputLayout environment libraryRoot).root
      (startPaths environment rootPath libraryRoot mode) path}.Finite)
    (hrole : moduleRole (inputLayout environment libraryRoot) (normalize (join directory rootPath))
        ≠ .foundationTypesModule ∧
      moduleRole (inputLayout environment libraryRoot) (normalize (join directory rootPath))
        ≠ .foundationPreludeModule) :
    Outcome.Ends (fun n => loadRoots environment n (inputLayout environment libraryRoot) directory
        rootPath (normalize (join directory rootPath)) mode) fun loaded =>
      ∃ paths, (∀ path, path ∈ paths ↔ Reachable environment written
          (inputLayout environment libraryRoot).root
          (startPaths environment rootPath libraryRoot mode) path) ∧
        LoadOrder environment written rootPath libraryRoot mode paths ∧
        Inventory environment written (inputLayout environment libraryRoot).root paths loaded := by
  obtain rfl : workingDirectory environment = directory := by
    unfold workingDirectory
    rw [hdirectory]
  have hdesignated : QueueOk environment written (inputLayout environment libraryRoot)
        (startPaths environment rootPath libraryRoot mode)
        (designatedInputs (inputLayout environment libraryRoot)
          (normalize (join (workingDirectory environment) rootPath))) ∧
      NormalAbsolute (inputLayout environment libraryRoot).root :=
    designated_queueOk rfl (isSeparator_join hslash)
      (normalAbsolute_normalize (isSeparator_join hslash)) hrole
      fun path hpath => List.mem_append_left _ (List.mem_append_left _ hpath)
  obtain ⟨hqueue, hlibrary⟩ := hdesignated
  unfold loadRoots
  cases mode with
  | applicationInput =>
    refine Outcome.Ends.bind (Q := fun later => later = [])
      (Outcome.Ends.liftM fun later hlater => (Except.ok.inj hlater).symm) ?_
    rintro later rfl
    refine Outcome.Ends.bind (loadQueue_ends hparser hfinite
      (QueueOk.unloaded hlibrary (by simpa using hqueue) rootPath)) ?_
    intro last hlast
    have hroots : (designatedInputs (inputLayout environment libraryRoot)
        (normalize (join (workingDirectory environment) rootPath)) ++ []).map RequestedModule.path =
        rootPaths environment rootPath libraryRoot .applicationInput := rfl
    refine Outcome.Ends.bind (Q := fun loaded => loaded = last) (Outcome.Ends.ok rfl) ?_
    rintro loaded rfl
    refine reportSealed_inventory hlast.ok hlast.layout hlast.all (fun path hpath => ?_) hlast.queues
    refine (hlast.grows.map (·.path)).subset ?_
    rw [hroots]
    simpa [startPaths] using hpath
  | testSuiteInput paths =>
    refine Outcome.Ends.bind (Outcome.Ends.liftM fun later hlater => queueRoots_ok hslash
      (by simpa using hqueue) (fun path hpath => ?_) hlater) ?_
    · exact List.mem_append_left _ (List.mem_append_right _ (List.mem_map_of_mem hpath))
    rintro later ⟨hlater, hpaths⟩
    have hroots : (designatedInputs (inputLayout environment libraryRoot)
        (normalize (join (workingDirectory environment) rootPath)) ++ later).map (·.path) =
        rootPaths environment rootPath libraryRoot (.testSuiteInput paths) := by
      rw [List.map_append, hpaths]
      rfl
    refine Outcome.Ends.bind
      (loadQueue_ends hparser hfinite (QueueOk.unloaded hlibrary hlater rootPath)) ?_
    intro initial hinitial
    have hqueues := hinitial.queues
    simp only [hroots] at hqueues
    refine Outcome.Ends.bind (loadTestEntry_ends hparser (hinitial.layout ▸ hfinite) hinitial.ok
      ?_ later) ?_
    · rw [hinitial.layout]
      exact List.mem_append_right _ (List.mem_singleton.mpr rfl)
    · rintro last ⟨pending, hlast, hlayout, hmodules, hgrows, hpending⟩
      rw [hinitial.layout] at hpending hlayout
      have hlater := hlast.queues
      rw [hpending, hmodules, hinitial.all, hlayout,
        ← List.length_map (f := fun request : RequestedModule => request.path)] at hlater
      refine reportSealed_inventory hlast.ok (hlast.layout.trans hlayout) hlast.all
        (fun path hpath => ?_) ⟨_, hqueues, hlater⟩
      refine (hlast.grows.map (·.path)).subset ?_
      rcases List.mem_append.mp hpath with hroot | htest
      · refine ((hinitial.grows.trans hgrows).map (·.path)).subset ?_
        rwa [hroots]
      · obtain rfl := List.mem_singleton.mp htest
        rw [hpending]
        unfold enqueue
        split
        · assumption
        · exact List.mem_append_right _ (List.mem_singleton.mpr rfl)

/-- **Each file is one module.**  When finitely many files are reachable, loading ends;
a loaded program has one module for each reachable file, and every import's target is the
module of the file its path denotes.  For a normal importer and library root the path of
an import is the normal form of the path it writes. -/
theorem load_inventory (environment : Environment) (written : String → List WrittenImport)
    (hparser : ParserReads environment written)
    (habsolute : ∀ directory, environment.currentDirectory = .ok directory →
      isSeparator directory 0 = true) (rootPath libraryRoot : Text) (mode : LoadMode)
    (hfinite : {path | Reachable environment written (inputLayout environment libraryRoot).root
      (startPaths environment rootPath libraryRoot mode) path}.Finite) :
    (Outcome.Ends (fun n => loadInput environment n rootPath libraryRoot mode) fun loaded =>
      ∃ paths, (∀ path, path ∈ paths ↔ Reachable environment written
          (inputLayout environment libraryRoot).root
          (startPaths environment rootPath libraryRoot mode) path) ∧
        LoadOrder environment written rootPath libraryRoot mode paths ∧
        Inventory environment written (inputLayout environment libraryRoot).root paths loaded) ∧
    ∀ (importer : Text) (layout : LibraryLayout) (names : NameTable) (request : ParsedImport)
      (meaning : WrittenImport), isSeparator importer 0 = true → normalize importer = importer →
      isSeparator layout.root 0 = true → normalize layout.root = layout.root →
      Spells names request meaning → meaning.Admitted →
      importPath importer request names layout = .ok (denoted layout.root importer meaning) := by
  constructor
  · unfold loadInput
    cases hdirectory : environment.currentDirectory with
    | error described => exact Outcome.Ends.err _
    | ok directory =>
      have hslash := habsolute directory hdirectory
      have hlayout : libraryLayout (join directory libraryRoot)
          = inputLayout environment libraryRoot := by
        unfold inputLayout workingDirectory
        rw [hdirectory]
      simp only [workingDirectoryResult, Outcome.liftM_ok, Outcome.ok_bind, hlayout]
      have hroots := loadRoots_ends hparser hdirectory hslash hfinite
      cases hrole : moduleRole (inputLayout environment libraryRoot)
          (normalize (join directory rootPath)) with
      | foundationTypesModule => exact Outcome.Ends.err _
      | foundationPreludeModule => exact Outcome.Ends.err _
      | libraryModule => exact hroots (by rw [hrole]; simp)
      | userModule => exact hroots (by rw [hrole]; simp)
  · intro importer layout names request meaning himporter himporter' hroot hroot' hspells
      hadmitted
    exact importPath_eq (himporter' ▸ normalAbsolute_normalize himporter)
      (hroot' ▸ normalAbsolute_normalize hroot) hspells hadmitted

theorem loadQueue_follows (environment : Environment) : ∀ (bound : Nat) (state : LoadState),
    Outcome.Follows True (loadQueue environment bound state)
      (fun n => loadQueue environment n state) := by
  intro bound
  induction bound with
  | zero => exact fun _ => Outcome.Follows.timeout _
  | succ bound ih =>
    intro state
    refine Outcome.Follows.succ (fun n => rfl) ?_
    simp only [loadQueue]
    cases hnext : state.requests[state.modules.length]? with
    | none => exact Outcome.Follows.refl _
    | some current =>
      cases hload : loadModule environment state current with
      | ok next =>
        simp only [hload]
        exact ih next
      | error error =>
        simp only [hload]
        exact Outcome.Follows.refl _

theorem sealProgram_follows (bound : Nat) (assembly : ParsedAssembly) :
    Outcome.Follows True (sealProgram bound assembly) (fun n => sealProgram n assembly) := by
  unfold sealProgram
  cases assembly.modules[0]? with
  | none => exact Outcome.Follows.refl _
  | some root =>
    refine (Outcome.Follows.refl _).bind fun types => (Outcome.Follows.refl _).bind fun prelude => ?_
    by_cases hrole : (root.role != .userModule) = true
    · simp only [hrole, ↓reduceIte]
      exact Outcome.Follows.refl _
    · simp only [hrole, Bool.false_eq_true, ↓reduceIte]
      refine Outcome.Follows.bind (Outcome.Follows.bind ?_ fun walk => Outcome.Follows.refl _)
        fun ordered => Outcome.Follows.refl _
      refine Outcome.Follows.foldlM _ _ fun start _ walk => ?_
      unfold walkFrom
      split
      · exact Outcome.Follows.refl _
      · exact Outcome.Follows.repeatWhile _ _ bound _

theorem loadInput_follows (environment : Environment) (bound : Nat) (rootPath libraryRoot : Text)
    (mode : LoadMode) :
    Outcome.Follows True (loadInput environment bound rootPath libraryRoot mode)
      (fun n => loadInput environment n rootPath libraryRoot mode) := by
  unfold loadInput
  refine (Outcome.Follows.refl _).bind fun directory => ?_
  have hroots : ∀ layout rootFile, Outcome.Follows True
      (loadRoots environment bound layout directory rootPath rootFile mode)
      (fun n => loadRoots environment n layout directory rootPath rootFile mode) := by
    intro layout rootFile
    unfold loadRoots
    refine (Outcome.Follows.refl _).bind fun later => ?_
    refine (loadQueue_follows environment bound _).bind fun initial => ?_
    have hreport : ∀ loaded, Outcome.Follows True
        (reportSealed loaded (sealProgram bound loaded.assembly))
        (fun n => reportSealed loaded (sealProgram n loaded.assembly)) :=
      fun loaded => Outcome.Follows.map (sealProgram_follows bound _) (reportSealed loaded) rfl
    cases mode with
    | applicationInput => exact hreport initial
    | testSuiteInput paths =>
      refine Outcome.Follows.bind ?_ hreport
      unfold loadTestEntry
      refine (Outcome.Follows.refl _).bind fun id => ?_
      exact (loadQueue_follows environment bound _).bind fun loaded => Outcome.Follows.refl _
  simp only
  split
  · exact Outcome.Follows.refl _
  · exact Outcome.Follows.refl _
  · exact hroots _ _
  · exact hroots _ _

/-! ## Two spellings of one file -/

/-- The imports of the files below, as words that every name table starts with. -/
def spelledImports (contents : String) : List (Check.ImportOrigin × List (Check.NameId × String)) :=
  if contents = "main" then [(.relativeImport 0, [(28, "add")]), (.relativeImport 0, [(42, "set")])]
  else if contents = "set" then [(.relativeImport 5, [(41, "dict"), (28, "add")])]
  else []

/-- `main` imports `./add` and `./set`; `set` imports `../../../../../dict/add`. -/
def twoSpellings : Environment where
  readText path :=
    if path = "/dict/main.brp".toList then .ok "main"
    else if path = "/dict/set.brp".toList then .ok "set"
    else if path ∈ ["/dict/add.brp".toList, "/lib/_base.brp".toList, "/lib/prelude.brp".toList] then
      .ok ""
    else .error "no such file"
  currentDirectory := .ok ['/']
  parse id contents names :=
    if sameNameTable names programNames.1 then
      .ok ⟨names, names, id, (spelledImports contents).map fun spelled =>
        ⟨⟨spelled.1, spelled.2.map (·.1)⟩, none, [], compilerSpan⟩, [], [],
        ⟨firstModuleSourceNumber + id, 0, 0⟩⟩
    else .error (internalError compilerSpan "the file is not lexed in the program's names")

def writtenImports (contents : String) : List WrittenImport :=
  (spelledImports contents).map fun spelled => ⟨spelled.1, spelled.2.map (·.2.toList)⟩

/-- The targets that the imports of each module have. -/
def linkedTargets : Outcome LoadFailure LoadedProgram → Option (List (List ModuleId))
  | .ok loaded => some (loaded.program.modules.map fun row => row.imports.map (·.target))
  | _ => none

theorem twoSpellings_targets :
    linkedTargets (loadInput twoSpellings 12 "dict/main.brp".toList "lib".toList .applicationInput)
      = some [[3, 4], [], [], [], [3]] := by
  decide +kernel

theorem twoSpellings_reads : ParserReads twoSpellings writtenImports where
  imports {id contents names parsed} h := by
    simp only [twoSpellings] at h
    split at h
    · rename_i hsame
      cases h
      have hspelling : nameSpelling names = nameSpelling programNames.1 := by
        have hkeys : names.keys = programNames.1.keys := by simpa [sameNameTable] using hsame
        funext id
        rw [nameSpelling, hkeys, nameSpelling]
      simp only [writtenImports, spelledImports]
      split
      · refine .cons ⟨rfl, ?_⟩ (.cons ⟨rfl, ?_⟩ .nil) <;> rw [hspelling] <;> decide +kernel
      · split
        · refine .cons ⟨rfl, ?_⟩ .nil
          rw [hspelling]
          decide +kernel
        · exact .nil
    · cases h
  admitted {id contents names parsed} _ request hrequest := by
    have hword : ∀ word ∈ ["add", "set", "dict"], IsIdentifier word.toList := by simp [IsIdentifier]
    obtain ⟨spelled, hspelled, rfl⟩ := List.mem_map.mp hrequest
    have hwords : spelled.2 ≠ [] ∧ ∀ word ∈ spelled.2, word.2 ∈ ["add", "set", "dict"] := by
      clear hrequest
      unfold spelledImports at hspelled
      split at hspelled
      · revert spelled
        decide +kernel
      · split at hspelled
        · revert spelled
          decide +kernel
        · cases hspelled
    refine ⟨by simpa using hwords.1, fun part hpart => ?_⟩
    obtain ⟨word, hmem, rfl⟩ := List.mem_map.mp hpart
    exact hword _ (hwords.2 word hmem)

def reachedFiles : List Text :=
  ["/dict/main.brp", "/lib/_base.brp", "/lib/prelude.brp", "/dict/add.brp", "/dict/set.brp"].map
    String.toList

theorem twoSpellings_reached {path : Text} (h : Reachable twoSpellings writtenImports
    (inputLayout twoSpellings "lib".toList).root
    (startPaths twoSpellings "dict/main.brp".toList "lib".toList .applicationInput) path) :
    path ∈ reachedFiles := by
  induction h with
  | start hstart =>
    have hall : ∀ path ∈ startPaths twoSpellings "dict/main.brp".toList "lib".toList
        .applicationInput, path ∈ reachedFiles := by
      decide +kernel
    exact hall _ hstart
  | @step importer contents request _ hread hrequest ih =>
    have hall : ∀ importer ∈ reachedFiles, ∀ path ∈ importedPaths twoSpellings writtenImports
        (inputLayout twoSpellings "lib".toList).root importer, path ∈ reachedFiles := by
      decide +kernel
    refine hall importer ih _ ?_
    unfold importedPaths
    rw [hread]
    exact List.mem_map_of_mem hrequest

/-- `./add` and `../../../../../dict/add` name one file, module 3. -/
theorem load_inventory_twoSpellings : ∃ loaded paths,
    Outcome.Settles (fun n => loadInput twoSpellings n "dict/main.brp".toList "lib".toList
      .applicationInput) (.ok loaded) ∧
    linkedTargets (.ok loaded) = some [[3, 4], [], [], [], [3]] ∧
    LoadOrder twoSpellings writtenImports "dict/main.brp".toList "lib".toList .applicationInput
      paths ∧
    Inventory twoSpellings writtenImports (inputLayout twoSpellings "lib".toList).root paths
      loaded := by
  have hends := (load_inventory twoSpellings writtenImports twoSpellings_reads
    (fun directory hdirectory => by cases hdirectory; rfl) "dict/main.brp".toList "lib".toList
    .applicationInput (reachedFiles.finite_toSet.subset fun path => twoSpellings_reached)).1
  have htargets := twoSpellings_targets
  have hfollows := loadInput_follows twoSpellings 12 "dict/main.brp".toList "lib".toList
    .applicationInput
  cases hloaded : loadInput twoSpellings 12 "dict/main.brp".toList "lib".toList
    .applicationInput with
  | ok loaded =>
    rw [hloaded] at htargets
    have hsettles := hfollows.value loaded hloaded
    obtain ⟨outcome, hsettles', hinventory⟩ := hends
    obtain ⟨paths, -, horder, hall⟩ := hinventory loaded (Outcome.Settles.unique hsettles' hsettles)
    exact ⟨loaded, paths, hsettles, htargets, horder, hall⟩
  | err failure =>
    rw [hloaded] at htargets
    cases htargets
  | timeout =>
    rw [hloaded] at htargets
    cases htargets

end

end Blorp.Load
