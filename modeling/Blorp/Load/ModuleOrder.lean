import Blorp.Load.Inventory

/-!
# The order of the modules

Sealing orders the modules by a depth-first walk whose stack holds the modules entered
and not yet published.  A frame's edges before its next one lead to published modules or
further up the stack (Walking.followed), so a module is published after all it imports,
and an edge back to the stack closes a way around it (cycleTo_eq).
-/

namespace Blorp.Load

open Check (ModuleId compilerSpan)
open Fuel

/-! ## The graph of imports -/

section

variable (rows : List ParsedModuleRow)

/-- Each row stands at its own module's number. -/
def Dense : Prop :=
  ∀ (i : Nat) (row : ParsedModuleRow), rows[i]? = some row → row.module = i

/-- A written import, or the prelude's of a user module. -/
def Imports (prelude : ModuleId) (importer target : ModuleId) : Prop :=
  ∃ row, rows[importer]? = some row ∧ ∃ edge ∈ moduleEdges prelude row, edge.target = target

/-- Every import leads to a module of the bundle. -/
def Supplied (prelude : ModuleId) : Prop :=
  ∀ importer target, Imports rows prelude importer target → target < rows.length

def Acyclic (prelude : ModuleId) : Prop :=
  ∀ module, ¬ Relation.TransGen (Imports rows prelude) module module

/-- Each module imports the next, and the last is the first again; no other repeats. -/
structure ImportCycle (prelude : ModuleId) (cycle : List ModuleId) : Prop where
  closed : ∃ module between, cycle = module :: between ++ [module]
  imports : List.IsChain (Imports rows prelude) cycle
  simple : cycle.dropLast.Nodup

end

/-- Each row comes after the modules that it imports. -/
def ImportsFirst (prelude : ModuleId) (ordered : List ParsedModuleRow) : Prop :=
  ∀ before row after, ordered = before ++ row :: after →
    ∀ edge ∈ moduleEdges prelude row, edge.target ∈ before.map (·.module)

/-- What a failure says about the bundle. -/
def Reported (rows : List ParsedModuleRow) (prelude : ModuleId) : SealFailure → Prop
  | .importCycle cycle _ => ImportCycle rows prelude cycle
  | .malformedBundle _ => ∃ importer target, Imports rows prelude importer target ∧
      rows.length ≤ target

section Graph

variable {rows : List ParsedModuleRow} {prelude : ModuleId}

theorem Dense.mem (hdense : Dense rows) {row : ParsedModuleRow} (h : row ∈ rows) :
    rows[row.module]? = some row := by
  obtain ⟨i, hi⟩ := List.mem_iff_getElem?.mp h
  rw [hdense i row hi]
  exact hi

theorem Dense.nodup (hdense : Dense rows) : rows.Nodup := by
  refine List.nodup_iff_getElem?_ne_getElem?.mpr fun i j hij hj heq => ?_
  have hi := List.getElem?_eq_getElem (Nat.lt_trans hij hj)
  have hsame : i = j := (hdense i _ hi).symm.trans (hdense j _ (heq.symm.trans hi))
  omega

theorem transGen_of_chain {edge : ModuleId → ModuleId → Prop} {last : ModuleId} :
    ∀ (between : List ModuleId) (first : ModuleId),
      List.IsChain edge (first :: between ++ [last]) → Relation.TransGen edge first last
  | [], first, h => by
      have hedge : edge first last := by simpa using h
      exact .single hedge
  | second :: between, first, h => by
      have hedge : edge first second ∧ List.IsChain edge (second :: between ++ [last]) := by
        simpa using h
      exact .head hedge.1 (transGen_of_chain between second hedge.2)

theorem ImportCycle.not_acyclic {cycle : List ModuleId} (h : ImportCycle rows prelude cycle) :
    ¬ Acyclic rows prelude := by
  obtain ⟨module, between, rfl⟩ := h.closed
  intro hacyclic
  exact hacyclic module (transGen_of_chain between module h.imports)

theorem ImportsFirst.snoc {ordered : List ParsedModuleRow} (h : ImportsFirst prelude ordered)
    {last : ParsedModuleRow}
    (hlast : ∀ edge ∈ moduleEdges prelude last, edge.target ∈ ordered.map (·.module)) :
    ImportsFirst prelude (ordered ++ [last]) := by
  intro before row after hsplit
  obtain rfl | ⟨rest, final, rfl⟩ := List.eq_nil_or_concat after
  · obtain ⟨rfl, hrow⟩ := List.append_inj' hsplit rfl
    obtain rfl : last = row := by simpa using hrow
    exact hlast
  · have hsplit' : ordered ++ [last] = (before ++ row :: rest) ++ [final] := by
      rw [hsplit]
      simp
    exact h before row rest (List.append_inj' hsplit' rfl).1

theorem ImportsFirst.acyclic (hdense : Dense rows) {ordered : List ParsedModuleRow}
    (hperm : ordered.Perm rows) (h : ImportsFirst prelude ordered) : Acyclic rows prelude := by
  let place (module : ModuleId) : Nat := (ordered.map (·.module)).idxOf module
  have hstep : ∀ importer target, Imports rows prelude importer target →
      place target < place importer := by
    rintro importer _ ⟨row, hrow, edge, hedge, rfl⟩
    obtain ⟨before, after, hsplit⟩ := List.append_of_mem
      (hperm.mem_iff.mpr (List.mem_of_getElem? hrow))
    have htarget := h before row after hsplit edge hedge
    have hmodule : row.module = importer := hdense importer row hrow
    have hnot : importer ∉ before.map (·.module) := by
      intro hmem
      obtain ⟨twin, htwin, heq⟩ := List.mem_map.mp hmem
      have hrow' : twin = row := by
        have hin : twin ∈ rows := hperm.mem_iff.mp (by rw [hsplit]; simp [htwin])
        have htwin' := hdense.mem hin
        rw [heq, hrow] at htwin'
        exact (Option.some_inj.mp htwin').symm
      have hnodup : ordered.Nodup := hperm.nodup_iff.mpr hdense.nodup
      rw [hsplit, List.nodup_append] at hnodup
      exact hnodup.2.2 twin htwin row (by simp) hrow'
    have hlt : (before.map (·.module)).idxOf edge.target < (before.map (·.module)).length :=
      List.idxOf_lt_length_of_mem htarget
    simp only [place, hsplit, List.map_append, List.map_cons]
    rw [List.idxOf_append_of_mem htarget, List.idxOf_append_of_notMem hnot]
    omega
  intro module hcycle
  have hlower : ∀ target, Relation.TransGen (Imports rows prelude) module target →
      place target < place module := by
    intro target hpath
    induction hpath with
    | single hedge => exact hstep _ _ hedge
    | tail _ hedge ih => exact Nat.lt_trans (hstep _ _ hedge) ih
  exact Nat.lt_irrefl _ (hlower module hcycle)

end Graph

/-! ## The stack -/

def ModuleWalk.path (walk : ModuleWalk) : List ModuleId := walk.frames.map (·.module)

def ModuleWalk.published (walk : ModuleWalk) : List ModuleId := walk.explored.map (·.module)

/-- What a walk that has not failed has done so far. -/
structure Walking (rows : List ParsedModuleRow) (prelude : ModuleId) (walk : ModuleWalk) :
    Prop where
  visits : walk.visits.length = rows.length
  active : ∀ module, walk.visits.getD module .unvisited = .active ↔
    module < rows.length ∧ module ∈ walk.path
  complete : ∀ module, walk.visits.getD module .unvisited = .complete ↔ module ∈ walk.published
  distinct : walk.path.Nodup
  chain : List.IsChain (Imports rows prelude) walk.path
  /-- A module that the bundle lacks stands at the top only, as a target. -/
  inside : ∀ module ∈ walk.path.dropLast, module < rows.length
  entered : ∀ module ∈ walk.path,
    module < rows.length ∨ ∃ importer, Imports rows prelude importer module
  followed : ∀ i frame row, walk.frames[i]? = some frame → rows[frame.module]? = some row →
    ∀ k < frame.nextEdge, ∀ edge, (moduleEdges prelude row)[k]? = some edge →
      edge.target ∈ walk.published ∨ edge.target ∈ walk.path.drop (i + 1)
  member : ∀ row ∈ walk.explored, row ∈ rows
  once : walk.published.Nodup
  order : ImportsFirst prelude walk.explored

section Stack

variable {rows : List ParsedModuleRow} {prelude : ModuleId}

theorem cycleTo_eq {above : List WalkFrame} {frame : WalkFrame}
    (hbelow : frame.module ∉ below.map (·.module)) :
    cycleTo (below ++ frame :: above) frame.module
      = frame.module :: above.map (·.module) ++ [frame.module] := by
  have hskip : ∀ frames : List WalkFrame, frame.module ∉ frames.map (·.module) →
      frames.foldl (fun cycle entered =>
        if !cycle.isEmpty || entered.module == frame.module then cycle ++ [entered.module]
        else cycle) ([] : List ModuleId) = [] := by
    intro frames
    induction frames with
    | nil => intro _; rfl
    | cons first frames ih =>
      intro hnot
      have hfirst : first.module ≠ frame.module := fun heq => hnot (by simp [heq])
      have hrest : frame.module ∉ frames.map (·.module) := fun hmem => hnot (by simp [hmem])
      rw [List.foldl_cons]
      simpa [hfirst] using ih hrest
  have htake : ∀ (frames : List WalkFrame) (cycle : List ModuleId), cycle ≠ [] →
      frames.foldl (fun cycle entered =>
        if !cycle.isEmpty || entered.module == frame.module then cycle ++ [entered.module]
        else cycle) cycle = cycle ++ frames.map (·.module) := by
    intro frames
    induction frames with
    | nil => intro cycle _; simp
    | cons first frames ih =>
      intro cycle hne
      have hnonempty : cycle.isEmpty = false := by simpa using hne
      rw [List.foldl_cons, hnonempty]
      simpa using ih (cycle ++ [first.module]) (by simp)
  have hfirst : (if !([] : List ModuleId).isEmpty || frame.module == frame.module then
      [] ++ [frame.module] else []) = [frame.module] := by simp
  unfold cycleTo
  rw [List.foldl_append, hskip below hbelow, List.foldl_cons, hfirst, htake above _ (by simp)]
  rfl

theorem getD_set (visits : List VisitState) {entered : ModuleId} (hlt : entered < visits.length)
    (visit : VisitState) (module : ModuleId) :
    (visits.set entered visit).getD module .unvisited
      = if module = entered then visit else visits.getD module .unvisited := by
  rw [List.getD_eq_getElem?_getD, List.getD_eq_getElem?_getD]
  by_cases heq : module = entered
  · subst heq
    rw [List.getElem?_set_self hlt, if_pos rfl]
    rfl
  · rw [List.getElem?_set_ne (fun h => heq h.symm), if_neg heq]

variable {walk : ModuleWalk} {below : List WalkFrame} {top : WalkFrame} {row : ParsedModuleRow}

def ModuleWalk.past (walk : ModuleWalk) (below : List WalkFrame) (top : WalkFrame) : ModuleWalk :=
  { walk with frames := below ++ [{ top with nextEdge := top.nextEdge + 1 }] }

theorem Walking.past_path (hsplit : walk.frames = below ++ [top]) :
    (walk.past below top).path = walk.path := by
  simp [ModuleWalk.path, ModuleWalk.past, hsplit]

variable {edge : ModuleEdge}

section

variable (h : Walking rows prelude walk) (hsplit : walk.frames = below ++ [top])
    (hrow : rows[top.module]? = some row)

include h hsplit hrow

theorem Walking.past_followed (hedge : (moduleEdges prelude row)[top.nextEdge]? = some edge)
    {i : Nat} {frame : WalkFrame} {frameRow : ParsedModuleRow}
    (hframe : (below ++ [{ top with nextEdge := top.nextEdge + 1 }])[i]? = some frame)
    (hframeRow : rows[frame.module]? = some frameRow) {k : Nat} (hk : k < frame.nextEdge)
    {followed : ModuleEdge} (hfollowed : (moduleEdges prelude frameRow)[k]? = some followed) :
    followed.target ∈ walk.published ∨ followed.target ∈ walk.path.drop (i + 1) ∨
      i = below.length ∧ followed.target = edge.target := by
  by_cases hi : i < below.length
  · have hold : walk.frames[i]? = some frame := by
      rw [hsplit, List.getElem?_append_left hi]
      rwa [List.getElem?_append_left hi] at hframe
    obtain hpublished | hpath := h.followed i frame frameRow hold hframeRow k hk followed hfollowed
    · exact .inl hpublished
    · exact .inr (.inl hpath)
  · obtain rfl : i = below.length := by
      have := (List.getElem?_eq_some_iff.mp hframe).1
      simp only [List.length_append, List.length_singleton] at this
      omega
    obtain rfl : { top with nextEdge := top.nextEdge + 1 } = frame := by simpa using hframe
    obtain rfl : row = frameRow := by
      rw [hrow] at hframeRow
      exact Option.some_inj.mp hframeRow
    by_cases hlast : k = top.nextEdge
    · subst hlast
      rw [hedge] at hfollowed
      obtain rfl := Option.some_inj.mp hfollowed
      exact .inr (.inr ⟨rfl, rfl⟩)
    · have hold : walk.frames[below.length]? = some top := by
        rw [hsplit]
        simp
      have hbefore : k < top.nextEdge := by
        have hk : k < top.nextEdge + 1 := hk
        omega
      obtain hpublished | hpath := h.followed _ top row hold hrow k hbefore followed hfollowed
      · exact .inl hpublished
      · exact .inr (.inl hpath)

theorem Walking.top_active : walk.visits.getD top.module .unvisited = .active :=
  (h.active top.module).mpr ⟨(List.getElem?_eq_some_iff.mp hrow).1, by
    simp [ModuleWalk.path, hsplit]⟩

end

theorem Walking.publish (hdense : Dense rows) (h : Walking rows prelude walk)
    (hsplit : walk.frames = below ++ [top]) (hrow : rows[top.module]? = some row)
    (hend : (moduleEdges prelude row)[top.nextEdge]? = none) :
    Walking rows prelude { walk with
      frames := below
      visits := walk.visits.set top.module .complete
      explored := walk.explored ++ [row] } := by
  have hin : top.module < rows.length := (List.getElem?_eq_some_iff.mp hrow).1
  have hset := getD_set walk.visits (h.visits ▸ hin) .complete
  have hmodule : row.module = top.module := hdense _ row hrow
  have hpath : walk.path = below.map (·.module) ++ [top.module] := by simp [ModuleWalk.path, hsplit]
  have hnot : top.module ∉ below.map (·.module) := by
    have hdistinct := h.distinct
    rw [hpath, List.nodup_append] at hdistinct
    exact fun hmem => hdistinct.2.2 _ hmem _ (by simp) rfl
  have hunpublished : top.module ∉ walk.published := by
    intro hmem
    have hactive := h.top_active hsplit hrow
    rw [(h.complete _).mpr hmem] at hactive
    cases hactive
  have hpublished : (walk.explored ++ [row]).map (·.module) = walk.published ++ [row.module] := by
    simp [ModuleWalk.published]
  have htargets : ∀ edge ∈ moduleEdges prelude row, edge.target ∈ walk.published := by
    intro edge hedge
    obtain ⟨k, hk⟩ := List.mem_iff_getElem?.mp hedge
    have hbefore : k < top.nextEdge := by
      have := List.getElem?_eq_none_iff.mp hend
      have := (List.getElem?_eq_some_iff.mp hk).1
      omega
    have htop : walk.frames[below.length]? = some top := by
      rw [hsplit]
      simp
    obtain hbefore | habove := h.followed _ top row htop hrow k hbefore edge hk
    · exact hbefore
    · rw [hpath, List.drop_of_length_le (by simp)] at habove
      exact absurd habove (List.not_mem_nil)
  exact
    { visits := by simpa using h.visits
      active := by
        intro module
        rw [hset]
        by_cases heq : module = top.module
        · subst heq
          simpa [ModuleWalk.path] using fun _ => hnot
        · rw [if_neg heq, h.active, hpath]
          simp [ModuleWalk.path, heq]
      complete := by
        intro module
        rw [hset]
        by_cases heq : module = top.module
        · simp [ModuleWalk.published, heq, hmodule]
        · rw [if_neg heq, h.complete]
          simp [ModuleWalk.published, hmodule, heq]
      distinct := by
        have hdistinct := h.distinct
        rw [hpath] at hdistinct
        exact (List.nodup_append.mp hdistinct).1
      chain := by
        have hchain := h.chain
        rw [hpath] at hchain
        exact hchain.left_of_append
      inside := by
        intro module hmem
        refine h.inside module ?_
        rw [hpath, List.dropLast_concat]
        exact List.dropLast_subset _ hmem
      entered := by
        intro module hmem
        refine h.entered module ?_
        rw [hpath]
        exact List.mem_append_left _ hmem
      followed := by
        intro i frame frameRow hframe hframeRow k hk edge hedge
        have hi : i < below.length := (List.getElem?_eq_some_iff.mp hframe).1
        have hold : walk.frames[i]? = some frame := by
          rw [hsplit, List.getElem?_append_left hi]
          exact hframe
        show edge.target ∈ (walk.explored ++ [row]).map (·.module) ∨ _
        rw [hpublished]
        obtain hbefore | habove := h.followed i frame frameRow hold hframeRow k hk edge hedge
        · exact .inl (List.mem_append_left _ hbefore)
        · rw [hpath, List.drop_append_of_le_length (by simp; omega), List.mem_append] at habove
          obtain habove | htop := habove
          · exact .inr habove
          · rw [← hmodule] at htop
            exact .inl (List.mem_append_right _ htop)
      member := by
        intro explored hmem
        obtain hmem | hlast := List.mem_append.mp hmem
        · exact h.member explored hmem
        · rw [List.mem_singleton.mp hlast]
          exact List.mem_of_getElem? hrow
      once := by
        have honce : (walk.published ++ [top.module]).Nodup := by
          rw [← List.concat_eq_append]
          exact h.once.concat hunpublished
        simpa [ModuleWalk.published, hmodule] using honce
      order := h.order.snoc htargets }

/-- An edge to a published module is passed over. -/
theorem Walking.pass (h : Walking rows prelude walk) (hsplit : walk.frames = below ++ [top])
    (hrow : rows[top.module]? = some row)
    (hedge : (moduleEdges prelude row)[top.nextEdge]? = some edge)
    (hvisit : walk.visits.getD edge.target .unvisited = .complete) :
    Walking rows prelude (walk.past below top) := by
  have hpath := Walking.past_path hsplit
  exact
    { visits := h.visits
      active := by rw [hpath]; exact h.active
      complete := h.complete
      distinct := by rw [hpath]; exact h.distinct
      chain := by rw [hpath]; exact h.chain
      inside := by rw [hpath]; exact h.inside
      entered := by rw [hpath]; exact h.entered
      followed := by
        rw [hpath]
        intro i frame frameRow hframe hframeRow k hk followed hfollowed
        obtain hbefore | habove | ⟨-, heq⟩ :=
          h.past_followed hsplit hrow hedge hframe hframeRow hk hfollowed
        · exact .inl hbefore
        · exact .inr habove
        · exact .inl (heq ▸ (h.complete _).mp hvisit)
      member := h.member
      once := h.once
      order := h.order }

theorem Walking.enter (h : Walking rows prelude walk) (hsplit : walk.frames = below ++ [top])
    (hrow : rows[top.module]? = some row) {edge : ModuleEdge}
    (hedge : (moduleEdges prelude row)[top.nextEdge]? = some edge)
    (hvisit : walk.visits.getD edge.target .unvisited = .unvisited) :
    Walking rows prelude { walk.past below top with
      frames := (walk.past below top).frames ++ [⟨edge.target, 0⟩]
      visits := walk.visits.set edge.target .active } := by
  have hedges : Imports rows prelude top.module edge.target :=
    ⟨row, hrow, edge, List.mem_of_getElem? hedge, rfl⟩
  have hin : top.module < rows.length := (List.getElem?_eq_some_iff.mp hrow).1
  have hpath : ((walk.past below top).frames ++ [WalkFrame.mk edge.target 0]).map (·.module)
      = walk.path ++ [edge.target] := by
    rw [List.map_append]
    exact congrArg (· ++ [edge.target]) (Walking.past_path hsplit)
  have hstack : walk.path = below.map (·.module) ++ [top.module] := by
    simp [ModuleWalk.path, hsplit]
  have hinside : ∀ module ∈ walk.path, module < rows.length := by
    intro module hmem
    rw [hstack] at hmem
    obtain hmem | hlast := List.mem_append.mp hmem
    · exact h.inside module (by rw [hstack, List.dropLast_concat]; exact hmem)
    · rw [List.mem_singleton.mp hlast]
      exact hin
  have hnew : edge.target ∉ walk.path := by
    intro hmem
    rw [(h.active _).mpr ⟨hinside _ hmem, hmem⟩] at hvisit
    cases hvisit
  have hunpublished : edge.target ∉ walk.published := by
    intro hmem
    rw [(h.complete _).mpr hmem] at hvisit
    cases hvisit
  have hset : ∀ module, (walk.visits.set edge.target .active).getD module .unvisited
      = if module = edge.target ∧ module < rows.length then .active
        else walk.visits.getD module .unvisited := by
    intro module
    by_cases hlt : edge.target < walk.visits.length
    · rw [getD_set _ hlt]
      by_cases heq : module = edge.target
      · subst heq
        simp [← h.visits, hlt]
      · simp [heq]
    · rw [List.set_eq_of_length_le (Nat.le_of_not_lt hlt), if_neg]
      rintro ⟨rfl, hmodule⟩
      rw [h.visits] at hlt
      exact hlt hmodule
  exact
    { visits := by simpa using h.visits
      active := by
        intro module
        show _ ↔ module < rows.length ∧ module ∈ List.map _ _
        rw [hset, hpath]
        by_cases heq : module = edge.target
        · subst heq
          by_cases hlt : edge.target < rows.length
          · simp [hlt]
          · rw [if_neg (fun hand => hlt hand.2), hvisit]
            simp [hlt]
        · rw [if_neg (fun hand => heq hand.1), h.active]
          simp [heq]
      complete := by
        intro module
        show _ ↔ module ∈ walk.published
        rw [hset]
        by_cases heq : module = edge.target ∧ module < rows.length
        · rw [if_pos heq, heq.1]
          simpa using hunpublished
        · rw [if_neg heq, h.complete]
      distinct := by
        show (List.map _ _).Nodup
        rw [hpath, ← List.concat_eq_append]
        exact h.distinct.concat hnew
      chain := by
        show List.IsChain _ (List.map _ _)
        rw [hpath]
        refine h.chain.append (List.isChain_singleton _) ?_
        intro last hlast first hfirst
        rw [hstack, List.getLast?_concat] at hlast
        obtain rfl : top.module = last := by simpa using hlast
        obtain rfl : edge.target = first := by simpa using hfirst
        exact hedges
      inside := by
        show ∀ module ∈ (List.map _ _).dropLast, _
        rw [hpath, List.dropLast_concat]
        exact hinside
      entered := by
        show ∀ module ∈ List.map _ _, _
        rw [hpath]
        intro module hmem
        obtain hmem | hlast := List.mem_append.mp hmem
        · exact h.entered module hmem
        · exact .inr ⟨top.module, List.mem_singleton.mp hlast ▸ hedges⟩
      followed := by
        intro i frame frameRow hframe hframeRow k hk followed hfollowed
        show followed.target ∈ walk.published ∨ followed.target ∈ (List.map _ _).drop (i + 1)
        rw [hpath]
        by_cases hi : i < (walk.past below top).frames.length
        · rw [List.getElem?_append_left hi] at hframe
          have hdrop : i + 1 ≤ walk.path.length := by
            rw [← Walking.past_path hsplit, ModuleWalk.path, List.length_map]
            exact hi
          rw [List.drop_append_of_le_length hdrop, List.mem_append, List.mem_singleton]
          obtain hbefore | habove | ⟨-, heq⟩ :=
            h.past_followed hsplit hrow hedge hframe hframeRow hk hfollowed
          · exact .inl hbefore
          · exact .inr (.inl habove)
          · exact .inr (.inr heq)
        · rw [List.getElem?_append_right (Nat.le_of_not_lt hi), List.getElem?_singleton] at hframe
          split at hframe
          · obtain rfl := Option.some_inj.mp hframe
            exact absurd hk (Nat.not_lt_zero k)
          · cases hframe
      member := h.member
      once := h.once
      order := h.order }

theorem Walking.close (h : Walking rows prelude walk) (hsplit : walk.frames = below ++ [top])
    (hrow : rows[top.module]? = some row)
    (hedge : (moduleEdges prelude row)[top.nextEdge]? = some edge)
    (hvisit : walk.visits.getD edge.target .unvisited = .active) :
    ImportCycle rows prelude (cycleTo (walk.past below top).frames edge.target) := by
  have hpath : (walk.past below top).path = walk.path := Walking.past_path hsplit
  have hmem : edge.target ∈ (walk.past below top).path := by
    rw [hpath]
    exact ((h.active _).mp hvisit).2
  obtain ⟨frame, hframe, hmodule⟩ := List.mem_map.mp hmem
  obtain ⟨lower, upper, hframes⟩ := List.append_of_mem hframe
  have hdistinct : (lower.map (·.module) ++ frame.module :: upper.map (·.module)).Nodup := by
    have := h.distinct
    rw [← hpath, ModuleWalk.path, hframes] at this
    simpa using this
  have hlower : frame.module ∉ lower.map (·.module) := by
    rw [List.nodup_append] at hdistinct
    exact fun hmem => hdistinct.2.2 _ hmem _ (by simp) rfl
  rw [hframes, ← hmodule, cycleTo_eq hlower]
  have hpath' : walk.path = lower.map (·.module) ++ frame.module :: upper.map (·.module) := by
    rw [← hpath, ModuleWalk.path, hframes]
    simp
  refine ⟨⟨_, _, rfl⟩, ?_, ?_⟩
  · have hchain : List.IsChain (Imports rows prelude) (frame.module :: upper.map (·.module)) := by
      have := h.chain
      rw [hpath'] at this
      exact this.right_of_append
    refine List.IsChain.append hchain (List.isChain_singleton _) ?_
    intro last hlast first hfirst
    have htop : (frame.module :: upper.map (·.module)).getLast? = some top.module := by
      have hlastPath : walk.path.getLast? = some top.module := by simp [ModuleWalk.path, hsplit]
      rw [hpath', List.getLast?_append] at hlastPath
      simpa using hlastPath
    obtain rfl : top.module = last := by
      rw [htop] at hlast
      exact Option.some_inj.mp hlast
    obtain rfl : frame.module = first := by simpa using hfirst
    exact ⟨row, hrow, edge, List.mem_of_getElem? hedge, hmodule.symm⟩
  · rw [List.dropLast_concat]
    exact (List.nodup_append.mp hdistinct).2.1

/-- What is known of a walk: how far it is, or that its failure is a true report. -/
structure WalkOk (rows : List ParsedModuleRow) (prelude : ModuleId) (walk : ModuleWalk) : Prop where
  visits : walk.visits.length = rows.length
  walking : walk.failure = none → Walking rows prelude walk
  reported : ∀ failure, walk.failure = some failure → Reported rows prelude failure

theorem WalkOk.of_walking (h : Walking rows prelude walk) (hfailure : walk.failure = none) :
    WalkOk rows prelude walk := by
  refine ⟨h.visits, fun _ => h, fun failure hsome => ?_⟩
  rw [hfailure] at hsome
  cases hsome

theorem WalkOk.of_failure {failure : SealFailure} (hvisits : walk.visits.length = rows.length)
    (hfailure : walk.failure = some failure) (hreported : Reported rows prelude failure) :
    WalkOk rows prelude walk := by
  refine ⟨hvisits, fun hnone => ?_, fun other hother => ?_⟩
  · rw [hfailure] at hnone
    cases hnone
  · obtain rfl : failure = other := Option.some_inj.mp (hfailure.symm.trans hother)
    exact hreported

theorem walkTop_walking (hdense : Dense rows) (h : Walking rows prelude walk)
    (hcontinues : walkContinues walk = true) :
    WalkOk rows prelude (walkTop rows (rows.map (moduleEdges prelude)) walk) := by
  obtain ⟨hfailure, hframes⟩ : walk.failure = none ∧ walk.frames ≠ [] := by
    simpa [walkContinues] using hcontinues
  obtain ⟨below, top, hsplit⟩ : ∃ below top, walk.frames = below ++ [top] :=
    ⟨_, _, (List.dropLast_append_getLast hframes).symm⟩
  have hlast : walk.frames.getLast? = some top := by rw [hsplit, List.getLast?_concat]
  unfold walkTop
  rw [hlast]
  simp only
  cases hrow : rows[top.module]? with
  | none =>
    refine .of_failure h.visits rfl ?_
    have htop : top.module ∈ walk.path := by simp [ModuleWalk.path, hsplit]
    have hout : rows.length ≤ top.module := List.getElem?_eq_none_iff.mp hrow
    obtain hin | ⟨importer, himports⟩ := h.entered _ htop
    · exact absurd hin (Nat.not_lt_of_le hout)
    · exact ⟨importer, top.module, himports, hout⟩
  | some row =>
    have hedges : (rows.map (moduleEdges prelude)).getD top.module [] = moduleEdges prelude row := by
      rw [List.getD_eq_getElem?_getD, List.getElem?_map, hrow]
      rfl
    have hdepth : walk.frames.length - 1 = below.length := by simp [hsplit]
    have htake : walk.frames.take (walk.frames.length - 1) = below := by
      rw [hdepth, hsplit, List.take_left]
    have hadvanced : walk.frames.set (walk.frames.length - 1)
        { top with nextEdge := top.nextEdge + 1 } = (walk.past below top).frames := by
      rw [hdepth, hsplit, List.set_append_right _ _ (Nat.le_refl _), Nat.sub_self,
        List.set_cons_zero]
      rfl
    simp only [walkStep, hedges, htake, hadvanced]
    cases hedge : (moduleEdges prelude row)[top.nextEdge]? with
    | none => exact .of_walking (h.publish hdense hsplit hrow hedge) hfailure
    | some edge =>
      cases hvisit : walk.visits.getD edge.target .unvisited with simp only [hvisit]
      | active => exact .of_failure h.visits rfl (h.close hsplit hrow hedge hvisit)
      | complete => exact .of_walking (h.pass hsplit hrow hedge hvisit) hfailure
      | unvisited => exact .of_walking (h.enter hsplit hrow hedge hvisit) hfailure

theorem getD_set_visited {visits : List VisitState} {module : ModuleId} (entered : ModuleId)
    {visit : VisitState} (hvisit : visit ≠ .unvisited)
    (h : visits.getD module .unvisited ≠ .unvisited) :
    (visits.set entered visit).getD module .unvisited ≠ .unvisited := by
  by_cases hlt : entered < visits.length
  · rw [getD_set _ hlt]
    by_cases heq : module = entered
    · rw [if_pos heq]
      exact hvisit
    · rw [if_neg heq]
      exact h
  · rw [List.set_eq_of_length_le (Nat.le_of_not_lt hlt)]
    exact h

theorem walkTop_visited (edgesByModule : List (List ModuleEdge)) {module : ModuleId}
    (h : walk.visits.getD module .unvisited ≠ .unvisited) :
    (walkTop rows edgesByModule walk).visits.getD module .unvisited ≠ .unvisited := by
  unfold walkTop
  split
  · exact h
  · split
    · unfold walkStep
      simp only
      split
      · exact getD_set_visited _ (by decide) h
      · split
        · exact h
        · exact h
        · exact getD_set_visited _ (by decide) h
    · exact h

end Stack

/-! ## A whole run -/

section Run

variable {rows : List ParsedModuleRow} {prelude : ModuleId}

/-- A walk between two starts: nothing is on the stack, and the modules it started from
are visited. -/
structure Rested (rows : List ParsedModuleRow) (prelude : ModuleId)
    (starts : List ParsedModuleRow) (walk : ModuleWalk) : Prop where
  ok : WalkOk rows prelude walk
  empty : walk.failure = none → walk.frames = []
  visited : ∀ start ∈ starts, walk.failure = none →
    walk.visits.getD start.module .unvisited ≠ .unvisited

theorem rested_start (rows : List ParsedModuleRow) (prelude : ModuleId) :
    Rested rows prelude [] ⟨[], List.replicate rows.length .unvisited, [], none⟩ := by
  have hunvisited : ∀ module : ModuleId,
      (List.replicate rows.length VisitState.unvisited).getD module .unvisited = .unvisited := by
    intro module
    rw [List.getD_eq_getElem?_getD, List.getElem?_replicate]
    split <;> rfl
  refine ⟨.of_walking ?_ rfl, fun _ => rfl, by simp⟩
  exact
    { visits := by simp
      active := by
        intro module
        rw [hunvisited]
        simp [ModuleWalk.path]
      complete := by
        intro module
        rw [hunvisited]
        simp [ModuleWalk.published]
      distinct := by simp [ModuleWalk.path]
      chain := by simp [ModuleWalk.path]
      inside := by simp [ModuleWalk.path]
      entered := by simp [ModuleWalk.path]
      followed := by simp
      member := by simp
      once := by simp [ModuleWalk.published]
      order := by
        intro before row after hsplit
        simp at hsplit }

theorem Rested.enter {starts : List ParsedModuleRow} {walk : ModuleWalk}
    (h : Rested rows prelude starts walk) (hfailure : walk.failure = none)
    {start : ParsedModuleRow} (hin : start.module < rows.length)
    (hvisit : walk.visits.getD start.module .unvisited = .unvisited) :
    Walking rows prelude { walk with
      frames := [⟨start.module, 0⟩]
      visits := walk.visits.set start.module .active } := by
  have hwalking := h.ok.walking hfailure
  have hset := getD_set walk.visits (hwalking.visits ▸ hin) .active
  have hpath : walk.path = [] := by simp [ModuleWalk.path, h.empty hfailure]
  have hunpublished : start.module ∉ walk.published := by
    intro hmem
    rw [(hwalking.complete _).mpr hmem] at hvisit
    cases hvisit
  exact
    { visits := by simpa using hwalking.visits
      active := by
        intro module
        rw [hset]
        by_cases heq : module = start.module
        · simp [ModuleWalk.path, heq, hin]
        · rw [if_neg heq, hwalking.active, hpath]
          simp [ModuleWalk.path, heq]
      complete := by
        intro module
        rw [hset]
        show _ ↔ module ∈ walk.published
        by_cases heq : module = start.module
        · simpa [heq] using hunpublished
        · rw [if_neg heq, hwalking.complete]
      distinct := by simp [ModuleWalk.path]
      chain := by simp [ModuleWalk.path]
      inside := by simp [ModuleWalk.path]
      entered := by simpa [ModuleWalk.path] using .inl hin
      followed := by
        intro i frame row hframe _ k hk
        obtain ⟨rfl, rfl⟩ : i = 0 ∧ ⟨start.module, 0⟩ = frame := by
          simpa [List.getElem?_singleton] using hframe
        exact absurd hk (Nat.not_lt_zero k)
      member := hwalking.member
      once := hwalking.once
      order := hwalking.order }

theorem Rested.begin {starts : List ParsedModuleRow} {walk : ModuleWalk}
    (h : Rested rows prelude starts walk) (hfailure : walk.failure = none)
    {start : ParsedModuleRow} (hin : start.module < rows.length) {first : ModuleWalk}
    (hfirst : first = match walk.visits.getD start.module .unvisited with
      | .unvisited =>
          { walk with
            frames := [⟨start.module, 0⟩]
            visits := walk.visits.set start.module .active }
      | _ => walk) :
    WalkOk rows prelude first ∧
      ∀ passed ∈ starts ++ [start], first.visits.getD passed.module .unvisited ≠ .unvisited := by
  by_cases hvisit : walk.visits.getD start.module .unvisited = .unvisited
  · rw [hvisit] at hfirst
    subst hfirst
    refine ⟨.of_walking (h.enter hfailure hin hvisit) hfailure, fun passed hpassed => ?_⟩
    obtain hpassed | hlast := List.mem_append.mp hpassed
    · exact getD_set_visited _ (by decide) (h.visited passed hpassed hfailure)
    · rw [List.mem_singleton.mp hlast]
      show (walk.visits.set start.module .active).getD start.module .unvisited ≠ .unvisited
      rw [getD_set _ (h.ok.visits ▸ hin), if_pos rfl]
      decide
  · have hsame : first = walk := by
      rw [hfirst]
      split
      · exact absurd ‹_› hvisit
      · rfl
    subst hsame
    refine ⟨h.ok, fun passed hpassed => ?_⟩
    obtain hpassed | hlast := List.mem_append.mp hpassed
    · exact h.visited passed hpassed hfailure
    · rw [List.mem_singleton.mp hlast]
      exact hvisit

theorem walkFrom_rested (hdense : Dense rows) {starts : List ParsedModuleRow} {walk : ModuleWalk}
    (h : Rested rows prelude starts walk) {start : ParsedModuleRow} (hstart : start ∈ rows) :
    ∃ next, Outcome.Settles
        (fun n => walkFrom n rows (rows.map (moduleEdges prelude)) walk start) (.ok next) ∧
      Rested rows prelude (starts ++ [start]) next := by
  unfold walkFrom
  by_cases hfailed : walk.failure.isSome = true
  · simp only [hfailed, ↓reduceIte]
    refine ⟨walk, Outcome.Settles.ok, h.ok, fun hnone => ?_, fun _ _ hnone => ?_⟩
    all_goals simp [hnone] at hfailed
  · simp only [hfailed, Bool.false_eq_true, ↓reduceIte]
    have hfailure : walk.failure = none := by simpa using hfailed
    have hin : start.module < rows.length := (List.getElem?_eq_some_iff.mp (hdense.mem hstart)).1
    obtain ⟨bound, hbound⟩ : ∃ bound, ∀ edges ∈ rows.map (moduleEdges prelude),
        edges.length ≤ bound :=
      ⟨((rows.map (moduleEdges prelude)).map List.length).sum, fun edges hedges =>
        List.le_sum_of_mem (List.mem_map_of_mem hedges)⟩
    obtain ⟨last, hrun, ⟨hok, hvisited⟩, hend⟩ := repeatWhile_settles (ε := SealFailure)
      walkContinues (fun _ walk => .ok (walkTop rows (rows.map (moduleEdges prelude)) walk))
      (fun walk => WalkOk rows prelude walk ∧
        ∀ passed ∈ starts ++ [start], walk.visits.getD passed.module .unvisited ≠ .unvisited)
      (walkWeight rows (rows.map (moduleEdges prelude)) bound)
      (by
        rintro walk ⟨hok, hvisited⟩ hcontinues
        have hnone : walk.failure = none := by
          have hboth : walk.failure = none ∧ walk.frames ≠ [] := by
            simpa [walkContinues] using hcontinues
          exact hboth.1
        exact ⟨_, Outcome.Settles.ok,
          ⟨walkTop_walking hdense (hok.walking hnone) hcontinues,
            fun passed hpassed => walkTop_visited _ (hvisited passed hpassed)⟩,
          walkTop_lt hbound hok.visits hcontinues⟩)
      _ (h.begin hfailure hin rfl)
    refine ⟨last, hrun, hok, fun hnone => ?_, fun passed hpassed _ => hvisited passed hpassed⟩
    simpa [walkContinues, hnone] using hend

theorem Rested.sorted (hdense : Dense rows) {walk : ModuleWalk} (h : Rested rows prelude rows walk)
    (hfailure : walk.failure = none) :
    walk.explored.Perm rows ∧ ImportsFirst prelude walk.explored := by
  have hwalking := h.ok.walking hfailure
  have hpublished : ∀ row ∈ rows, row.module ∈ walk.published := by
    intro row hrow
    refine (hwalking.complete _).mp ?_
    cases hvisit : walk.visits.getD row.module .unvisited with
    | unvisited => exact absurd hvisit (h.visited row hrow hfailure)
    | active =>
      have hmem := ((hwalking.active _).mp hvisit).2
      rw [ModuleWalk.path, h.empty hfailure] at hmem
      exact absurd hmem List.not_mem_nil
    | complete => rfl
  have hmem : ∀ row, row ∈ walk.explored ↔ row ∈ rows := by
    intro row
    refine ⟨hwalking.member row, fun hrow => ?_⟩
    obtain ⟨twin, htwin, heq⟩ := List.mem_map.mp (hpublished row hrow)
    have hsame := hdense.mem (hwalking.member twin htwin)
    rw [heq, hdense.mem hrow] at hsame
    exact Option.some_inj.mp hsame ▸ htwin
  exact ⟨(List.perm_ext_iff_of_nodup hwalking.once.of_map hdense.nodup).mpr hmem, hwalking.order⟩

theorem ImportsFirst.supplied {ordered : List ParsedModuleRow} (hdense : Dense rows)
    (hperm : ordered.Perm rows) (h : ImportsFirst prelude ordered) : Supplied rows prelude := by
  rintro importer _ ⟨row, hrow, edge, hedge, rfl⟩
  obtain ⟨before, after, hsplit⟩ := List.append_of_mem
    (hperm.mem_iff.mpr (List.mem_of_getElem? hrow))
  obtain ⟨target, htarget, heq⟩ := List.mem_map.mp (h before row after hsplit edge hedge)
  have hin : target ∈ rows := hperm.mem_iff.mp (by rw [hsplit]; simp [htarget])
  rw [← heq]
  exact (List.getElem?_eq_some_iff.mp (hdense.mem hin)).1

theorem Reported.not_sorted {failure : SealFailure} (h : Reported rows prelude failure) :
    ¬ (Supplied rows prelude ∧ Acyclic rows prelude) := by
  rintro ⟨hsupplied, hacyclic⟩
  cases failure with
  | malformedBundle error =>
    obtain ⟨importer, target, himports, hout⟩ := h
    exact absurd (hsupplied importer target himports) (Nat.not_lt_of_le hout)
  | importCycle cycle closing => exact ImportCycle.not_acyclic h hacyclic

end Run

/-- **The modules are sorted.**  Ordering ends; it succeeds exactly when every import is
supplied and none goes around, and then each module is there once, after all that it
imports; otherwise the failure names a cycle of imports, or an import is not supplied. -/
theorem orderedRows_sorts (rows : List ParsedModuleRow) (prelude : ModuleId) (hdense : Dense rows) :
    ∃ outcome, Outcome.Settles (fun n => orderedRows n rows prelude) outcome ∧
      ((∃ ordered, outcome = .ok ordered) ↔ Supplied rows prelude ∧ Acyclic rows prelude) ∧
      (∀ ordered, outcome = .ok ordered →
        ordered.Perm rows ∧ ImportsFirst prelude ordered) ∧
      (∀ failure, outcome = .err failure → Reported rows prelude failure) := by
  obtain ⟨walk, hrun, hrested⟩ := Outcome.Settles.foldlM (ε := SealFailure)
    (f := fun n => walkFrom n rows (rows.map (moduleEdges prelude))) rows
    (I := fun passed walk => Rested rows prelude passed walk)
    (fun passed start rest hsplit walk hrested =>
      walkFrom_rested hdense hrested (by rw [hsplit]; simp))
    (rested_start rows prelude)
  unfold orderedRows
  cases hfailure : walk.failure with
  | some failure =>
    have hreported := hrested.ok.reported failure hfailure
    refine ⟨.err failure, Outcome.Settles.bind_ok hrun ?_, ?_, ?_, ?_⟩
    · simp only [hfailure]
      exact Outcome.Settles.err
    · refine ⟨?_, fun hsorted => absurd hsorted hreported.not_sorted⟩
      rintro ⟨ordered, hok⟩
      cases hok
    · intro ordered hok
      cases hok
    · intro other hother
      cases hother
      exact hreported
  | none =>
    obtain ⟨hperm, horder⟩ := hrested.sorted hdense hfailure
    refine ⟨.ok walk.explored, Outcome.Settles.bind_ok hrun ?_, ?_, ?_, ?_⟩
    · simp only [hfailure]
      exact Outcome.Settles.ok
    · exact ⟨fun _ => ⟨horder.supplied hdense hperm, horder.acyclic hdense hperm⟩,
        fun _ => ⟨_, rfl⟩⟩
    · intro ordered hok
      cases hok
      exact ⟨hperm, horder⟩
    · intro failure herr
      cases herr

/-- A user module that imports another, over the prelude that neither writes. -/
def userRows : List ParsedModuleRow :=
  [⟨0, .userModule, ['a'], [⟨2, ⟨.relativeImport 0, [2]⟩, none, [], compilerSpan⟩], compilerSpan⟩,
    ⟨1, .foundationPreludeModule, ['b'], [], compilerSpan⟩,
    ⟨2, .userModule, ['c'], [], compilerSpan⟩]

theorem userRows_dense : Dense userRows := by
  intro i row hrow
  match i, hrow with
  | 0, hrow | 1, hrow | 2, hrow => exact congrArg (·.module) (Option.some_inj.mp hrow).symm
  | i + 3, hrow => simp [userRows] at hrow

theorem orderedRows_sorts_user :
    ∃ ordered, ordered = [1, 2, 0].filterMap (userRows[·]?) ∧
      Outcome.Settles (fun n => orderedRows n userRows 1) (.ok ordered) ∧
      ordered.Perm userRows ∧ ImportsFirst 1 ordered ∧
      Supplied userRows 1 ∧ Acyclic userRows 1 := by
  have hrun : Outcome.Settles (fun n => orderedRows n userRows 1)
      (.ok ([1, 2, 0].filterMap (userRows[·]?))) :=
    .closed 20 (by simp) fun _ => rfl
  obtain ⟨outcome, hsettles, hsorted, hok, -⟩ := orderedRows_sorts userRows 1 userRows_dense
  obtain rfl := hsettles.unique hrun
  obtain ⟨hperm, hfirst⟩ := hok _ rfl
  obtain ⟨hsupplied, hacyclic⟩ := hsorted.mp ⟨_, rfl⟩
  exact ⟨_, rfl, hrun, hperm, hfirst, hsupplied, hacyclic⟩

end Blorp.Load
