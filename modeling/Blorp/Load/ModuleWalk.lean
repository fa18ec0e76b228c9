import Blorp.Load.Assemble

/-!
# Sealing ends

The walk that orders the modules ends on every bundle, cyclic and malformed ones
included (orderedRows_settles): a step follows one edge of the frame on top, publishes
its row or fails, and a module is entered only while it is unvisited.
-/

namespace Blorp.Load

open Check (ModuleId)
open Fuel

section

variable {rows : List ParsedModuleRow} {edgesByModule : List (List ModuleEdge)} {bound : Nat}

/-- What is left of a frame: its edges and its publication.  A module that the bundle
does not have fails at once. -/
def frameWeight (rows : List ParsedModuleRow) (edgesByModule : List (List ModuleEdge))
    (frame : WalkFrame) : Nat :=
  if frame.module < rows.length then
    (edgesByModule.getD frame.module []).length - frame.nextEdge + 1
  else 0

/-- What is left of a walk, when no module has more than `bound` edges. -/
def walkWeight (rows : List ParsedModuleRow) (edgesByModule : List (List ModuleEdge))
    (bound : Nat) (walk : ModuleWalk) : Nat :=
  walk.visits.count .unvisited * (bound + 2) +
    (walk.frames.map (frameWeight rows edgesByModule)).sum +
    if walk.failure.isNone then 1 else 0

theorem count_set_visited (visits : List VisitState) (position : Nat) {visit : VisitState}
    (h : visit ≠ .unvisited) :
    (visits.set position visit).count .unvisited ≤ visits.count .unvisited := by
  by_cases hlt : position < visits.length
  · rw [List.count_set hlt]
    simp [h]
  · exact Nat.le_of_eq (by rw [List.set_eq_of_length_le (by omega)])

theorem count_set_entered {visits : List VisitState} {position : Nat}
    (hlt : position < visits.length) (h : visits.getD position .unvisited = .unvisited) :
    (visits.set position .active).count .unvisited + 1 = visits.count .unvisited := by
  rw [List.getD_eq_getElem?_getD, List.getElem?_eq_getElem hlt, Option.getD_some] at h
  have hpos : 0 < visits.count .unvisited := by
    refine List.count_pos_iff.mpr ?_
    rw [← h]
    exact List.getElem_mem hlt
  rw [List.count_set hlt, h]
  simp
  omega

theorem walkStep_visits (walk : ModuleWalk) (top : WalkFrame) (edges : List ModuleEdge)
    (row : ParsedModuleRow) : (walkStep walk top edges row).visits.length = walk.visits.length := by
  unfold walkStep
  simp only
  cases edges[top.nextEdge]? with
  | none => simp
  | some edge =>
    simp only
    cases walk.visits.getD edge.target .unvisited with
    | active => rfl
    | complete => rfl
    | unvisited => simp

theorem walkTop_visits (walk : ModuleWalk) :
    (walkTop rows edgesByModule walk).visits.length = walk.visits.length := by
  unfold walkTop
  split
  · rfl
  · split
    · exact walkStep_visits walk _ _ _
    · rfl

theorem walkTop_lt (hbound : ∀ edges ∈ edgesByModule, edges.length ≤ bound) {walk : ModuleWalk}
    (hvisits : walk.visits.length = rows.length) (hcontinues : walkContinues walk = true) :
    walkWeight rows edgesByModule bound (walkTop rows edgesByModule walk)
      < walkWeight rows edgesByModule bound walk := by
  obtain ⟨hfailure, hframes⟩ : walk.failure.isNone = true ∧ walk.frames ≠ [] := by
    simpa [walkContinues] using hcontinues
  obtain ⟨below, top, hsplit⟩ : ∃ below top, walk.frames = below ++ [top] :=
    ⟨_, _, (List.dropLast_append_getLast hframes).symm⟩
  have hlast : walk.frames.getLast? = some top := by rw [hsplit, List.getLast?_concat]
  have hdepth : walk.frames.length - 1 = below.length := by simp [hsplit]
  unfold walkTop
  rw [hlast]
  simp only
  cases hrow : rows[top.module]? with
  | none =>
    simp only [walkWeight, hfailure, ↓reduceIte, Option.isNone_some, Bool.false_eq_true]
    omega
  | some row =>
    have hin : top.module < rows.length := (List.getElem?_eq_some_iff.mp hrow).1
    have htop : frameWeight rows edgesByModule top
        = (edgesByModule.getD top.module []).length - top.nextEdge + 1 := by
      unfold frameWeight
      rw [if_pos hin]
    have hsum : (walk.frames.map (frameWeight rows edgesByModule)).sum
        = (below.map (frameWeight rows edgesByModule)).sum
          + frameWeight rows edgesByModule top := by
      rw [hsplit]
      simp
    unfold walkStep
    simp only
    cases hedge : (edgesByModule.getD top.module [])[top.nextEdge]? with
    | none =>
      have hcount := Nat.mul_le_mul_right (bound + 2)
        (count_set_visited walk.visits top.module (show VisitState.complete ≠ .unvisited by decide))
      have htake : walk.frames.take (walk.frames.length - 1) = below := by
        rw [hdepth, hsplit, List.take_left]
      simp only [walkWeight, htake, hfailure, ↓reduceIte, hsum, htop]
      omega
    | some edge =>
      have hnext : top.nextEdge < (edgesByModule.getD top.module []).length :=
        (List.getElem?_eq_some_iff.mp hedge).1
      have hadvanced : walk.frames.set (walk.frames.length - 1)
          { top with nextEdge := top.nextEdge + 1 }
          = below ++ [{ top with nextEdge := top.nextEdge + 1 }] := by
        rw [hdepth, hsplit, List.set_append_right _ _ (Nat.le_refl _), Nat.sub_self,
          List.set_cons_zero]
      have htop' : frameWeight rows edgesByModule { top with nextEdge := top.nextEdge + 1 } + 1
          = frameWeight rows edgesByModule top := by
        unfold frameWeight
        simp only [hin, ↓reduceIte]
        omega
      simp only [hadvanced]
      cases hvisit : walk.visits.getD edge.target .unvisited with
      | active =>
        simp only [walkWeight, hfailure, ↓reduceIte, hsum, Option.isNone_some,
          Bool.false_eq_true, List.map_append, List.map_cons, List.map_nil, List.sum_append,
          List.sum_cons, List.sum_nil]
        omega
      | complete =>
        simp only [walkWeight, hfailure, ↓reduceIte, hsum, List.map_append, List.map_cons,
          List.map_nil, List.sum_append, List.sum_cons, List.sum_nil]
        omega
      | unvisited =>
        simp only [walkWeight, hfailure, ↓reduceIte, hsum, List.map_append, List.map_cons,
          List.map_nil, List.sum_append, List.sum_cons, List.sum_nil]
        by_cases htarget : edge.target < rows.length
        · have hcount := count_set_entered (by rw [hvisits]; exact htarget) hvisit
          have hmul : (walk.visits.set edge.target .active).count .unvisited * (bound + 2)
              + (bound + 2) = walk.visits.count .unvisited * (bound + 2) := by
            rw [← hcount, Nat.succ_mul]
          have hnew : frameWeight rows edgesByModule ⟨edge.target, 0⟩ ≤ bound + 1 := by
            unfold frameWeight
            rw [if_pos htarget]
            cases hedges : edgesByModule[edge.target]? with
            | none => simp [hedges]
            | some edges =>
              have := hbound edges (List.mem_of_getElem? hedges)
              simp [hedges]
              omega
          omega
        · have hnew : frameWeight rows edgesByModule ⟨edge.target, 0⟩ = 0 := by
            unfold frameWeight
            rw [if_neg htarget]
          have hcount := Nat.mul_le_mul_right (bound + 2)
            (count_set_visited walk.visits edge.target (show VisitState.active ≠ .unvisited by decide))
          omega

theorem walkFrom_settles (hbound : ∀ edges ∈ edgesByModule, edges.length ≤ bound)
    {walk : ModuleWalk} (hvisits : walk.visits.length = rows.length) (start : ParsedModuleRow) :
    ∃ next, Outcome.Settles (fun n => walkFrom n rows edgesByModule walk start) (.ok next) ∧
      next.visits.length = rows.length := by
  unfold walkFrom
  by_cases hfailure : walk.failure.isSome = true
  · simp only [hfailure, ↓reduceIte]
    exact ⟨walk, Outcome.Settles.ok, hvisits⟩
  · simp only [hfailure, Bool.false_eq_true, ↓reduceIte]
    have hruns := repeatWhile_settles (ε := SealFailure) walkContinues
      (fun _ walk => .ok (walkTop rows edgesByModule walk))
      (fun walk => walk.visits.length = rows.length) (walkWeight rows edgesByModule bound)
      (fun walk hvisits hcontinues => ⟨_, Outcome.Settles.ok,
        by rw [walkTop_visits, hvisits], walkTop_lt hbound hvisits hcontinues⟩)
    refine (hruns _ ?_).imp fun last hlast => ⟨hlast.1, hlast.2.1⟩
    split <;> simp [hvisits]

end

/-- **Ordering the modules ends** on every list of rows. -/
theorem orderedRows_settles (rows : List ParsedModuleRow) (prelude : ModuleId) :
    ∃ outcome, Outcome.Settles (fun n => orderedRows n rows prelude) outcome := by
  obtain ⟨bound, hbound⟩ : ∃ bound, ∀ edges ∈ rows.map (moduleEdges prelude),
      edges.length ≤ bound := by
    refine ⟨((rows.map (moduleEdges prelude)).map List.length).sum, fun edges hedges => ?_⟩
    exact List.le_sum_of_mem (List.mem_map_of_mem hedges)
  obtain ⟨walk, hrun, -⟩ := Outcome.Settles.foldlM (ε := SealFailure)
    (f := fun n => walkFrom n rows (rows.map (moduleEdges prelude))) rows
    (I := fun _ walk => walk.visits.length = rows.length)
    (fun _ start _ _ walk hvisits => walkFrom_settles hbound hvisits start)
    (s := ⟨[], List.replicate rows.length .unvisited, [], none⟩) (by simp)
  unfold orderedRows
  cases hfailure : walk.failure with
  | some stop =>
    refine ⟨.err stop, Outcome.Settles.bind_ok hrun ?_⟩
    simp only [hfailure]
    exact Outcome.Settles.err
  | none =>
    refine ⟨.ok walk.explored, Outcome.Settles.bind_ok hrun ?_⟩
    simp only [hfailure]
    exact Outcome.Settles.ok

end Blorp.Load
