import Blorp.Check.PathPumps

/-!
# Boundedness of instantiation paths

The two closures are the balanced runs and the runs by balanced runs and pushes, and the
anchors are the pumps, so that

    boundInstantiationPaths answers boundedPaths
      iff every control and stack reaches finitely many configurations
                                                    (boundInstantiationPaths_exact)
-/

namespace Blorp.Check

open Fuel Pushdown

/-! ## The decision -/

theorem boundInstantiationPaths_settles {count : Int} {transitions : List InstantiationPath}
    (hvalid : validEntry count transitions = true) :
    (PumpFree transitions ∧ Outcome.Settles
      (fun n => boundInstantiationPaths n count transitions) (.ok (some .boundedPaths))) ∨
    (¬ PumpFree transitions ∧ ∃ positions, Outcome.Settles
      (fun n => boundInstantiationPaths n count transitions)
      (.ok (some (.unboundedPaths positions))) ∧ ∀ position, position ∈ positions ↔
        ∃ index : Nat, position = index ∧ Pumping (transitionSystem transitions) index) := by
  obtain ⟨hdense, hwithin⟩ := validEntry_dense hvalid
  obtain ⟨balanced, hbalanced, hgood, hall⟩ := balanced_settles hdense hwithin
  obtain ⟨reachable, hreachable, hgood', hall'⟩ := reachable_settles hdense hwithin hgood hall
  have hclosures : PathClosures count transitions balanced reachable :=
    ⟨hdense, hwithin, hgood, hall, hgood', hall'⟩
  have hpumps := pumpAnchors_eq_nil hclosures
  unfold boundInstantiationPaths
  simp only [hvalid, Bool.not_true, Bool.false_eq_true, ↓reduceIte]
  by_cases hfree : PumpFree transitions
  · refine .inl ⟨hfree, Outcome.Settles.bind_ok hbalanced (Outcome.Settles.bind_ok hreachable ?_)⟩
    rw [hpumps.mpr hfree]
    exact Outcome.Settles.ok
  · obtain ⟨positions, hpositions, hmarked⟩ := pumpTransitions_marks hclosures
    refine .inr ⟨hfree, positions,
      Outcome.Settles.bind_ok hbalanced (Outcome.Settles.bind_ok hreachable ?_), hmarked⟩
    have hsome : (pumpAnchors reachable count transitions).isEmpty = false := by
      rw [List.isEmpty_eq_false_iff]
      exact fun hnone => hfree (hpumps.mp hnone)
    simp only [hsome, Bool.false_eq_true, ↓reduceIte]
    exact Outcome.Settles.bind_ok hpositions Outcome.Settles.ok

theorem finite_of_pumpFree {transitions : List InstantiationPath} (h : PumpFree transitions)
    (control : Int) (stack : List Int) :
    (reached (pathSystem transitions) (control, stack)).Finite := by
  refine finite_of_no_pump h ?_ ?_ ?_ control stack
  · refine (List.finite_toSet (transitions.map (·.source))).subset ?_
    rintro source ⟨symbol, target, hpush⟩
    exact List.mem_map.mpr ⟨_, hpush, rfl⟩
  · have hpushes : Function.Injective PathOperation.pushPath := fun _ _ h => by cases h; rfl
    refine ((List.finite_toSet (transitions.map (·.operation))).preimage
      hpushes.injOn).subset ?_
    rintro symbol ⟨source, target, hpush⟩
    exact List.mem_map.mpr ⟨_, hpush, rfl⟩
  · refine (List.finite_toSet (transitions.map (·.target))).subset ?_
    rintro target ⟨source, hkeep | ⟨symbol, hpush | hpop⟩⟩
    · exact List.mem_map.mpr ⟨_, hkeep, rfl⟩
    · exact List.mem_map.mpr ⟨_, hpush, rfl⟩
    · exact List.mem_map.mpr ⟨_, hpop, rfl⟩

/-- **Boundedness is decided exactly**: transitions that pass the entry validation are
bounded paths if and only if every control and stack reaches finitely many
configurations, and unbounded paths otherwise. -/
theorem boundInstantiationPaths_exact (count : Int) (transitions : List InstantiationPath)
    (hvalid : validEntry count transitions = true) :
    (Outcome.Settles (fun n => boundInstantiationPaths n count transitions)
        (.ok (some .boundedPaths)) ↔
      ∀ control, 0 ≤ control → control < count → ∀ stack : List Int,
        (reached (pathSystem transitions) (control, stack)).Finite) ∧
    ((¬ ∀ control, 0 ≤ control → control < count → ∀ stack : List Int,
        (reached (pathSystem transitions) (control, stack)).Finite) →
      ∃ positions, Outcome.Settles (fun n => boundInstantiationPaths n count transitions)
        (.ok (some (.unboundedPaths positions)))) := by
  obtain ⟨-, hwithin⟩ := validEntry_dense hvalid
  rcases boundInstantiationPaths_settles hvalid with ⟨hfree, hrun⟩ | ⟨hpump, positions, hrun, -⟩
  · have hfinite : ∀ control, 0 ≤ control → control < count → ∀ stack : List Int,
        (reached (pathSystem transitions) (control, stack)).Finite :=
      fun control _ _ => finite_of_pumpFree hfree control
    exact ⟨⟨fun _ => hfinite, fun _ => hrun⟩, fun hnot => absurd hfinite hnot⟩
  · have hinfinite : ¬ ∀ control, 0 ≤ control → control < count → ∀ stack : List Int,
        (reached (pathSystem transitions) (control, stack)).Finite := by
      intro hfinite
      refine hpump fun source symbol target hpush hback => ?_
      obtain ⟨hnonneg, hlt, -, -⟩ := hwithin _ hpush
      exact infinite_of_pump hpush hback [] (hfinite source hnonneg hlt [])
    refine ⟨⟨fun hbounded => ?_, fun hfinite => absurd hfinite hinfinite⟩,
      fun _ => ⟨positions, hrun⟩⟩
    have := hbounded.unique hrun
    simp at this

/-- A push from a control to itself. -/
theorem boundInstantiationPaths_exact_push : validEntry 1 [⟨0, 0, .pushPath 0⟩] = true ∧
      ∃ positions, Outcome.Settles
        (fun n => boundInstantiationPaths n 1 [⟨0, 0, .pushPath 0⟩])
        (.ok (some (.unboundedPaths positions))) := by
  refine ⟨by decide, (boundInstantiationPaths_exact 1 _ (by decide)).2 fun hfinite => ?_⟩
  have hpush : (pathSystem [⟨0, 0, .pushPath 0⟩]).push 0 0 0 := List.mem_singleton.mpr rfl
  exact infinite_of_pump hpush (.balanced (.refl 0)) []
    (hfinite 0 (by decide) (by decide) [])

/-- **The growing transitions are the pumping ones.**  Where the answer is unbounded paths, it
lists the position of exactly those transitions that some run takes which starts at a control
under an empty stack and comes back to it under a longer one. -/
theorem unboundedPaths_pumps (count : Int) (transitions : List InstantiationPath)
    (positions : List Int) (hanswer : Outcome.Settles
      (fun n => boundInstantiationPaths n count transitions)
      (.ok (some (.unboundedPaths positions)))) (position : Int) :
    position ∈ positions ↔ ∃ index : Nat, position = index ∧
      ∃ control labels above, above ≠ [] ∧ index ∈ labels ∧
        LabelledRun (transitionSystem transitions) (control, []) labels (control, above) := by
  have hvalid : validEntry count transitions = true := by
    by_contra hinvalid
    have hnone : ∀ n, boundInstantiationPaths n count transitions = .ok none := by
      intro n
      unfold boundInstantiationPaths
      rw [if_pos (by simpa using hinvalid)]
    have := hanswer.unique (show Outcome.Settles _ (.ok none) from .closed 0 (by simp) hnone)
    simp at this
  rcases boundInstantiationPaths_settles hvalid with ⟨-, hbounded⟩ | ⟨-, marked, hrun, hmarked⟩
  · have := hanswer.unique hbounded
    simp at this
  · have hsame := hanswer.unique hrun
    obtain rfl : positions = marked := by simpa using hsame
    rw [hmarked]
    refine exists_congr fun index => and_congr_right fun _ => ?_
    exact exists_congr fun control => exists_congr fun labels => exists_congr fun above =>
      and_congr_right fun _ => and_comm

/-- A push from a control to itself pumps. -/
theorem unboundedPaths_pumps_push : ∃ positions, Outcome.Settles
      (fun n => boundInstantiationPaths n 1 [⟨0, 0, .pushPath 0⟩])
      (.ok (some (.unboundedPaths positions))) ∧ (0 : Int) ∈ positions := by
  have hpush : (transitionSystem [⟨0, 0, .pushPath 0⟩] 0).push 0 0 0 := rfl
  have hvalid : validEntry 1 [⟨0, 0, .pushPath 0⟩] = true := by decide
  rcases boundInstantiationPaths_settles hvalid with ⟨hfree, -⟩ | ⟨-, positions, hrun, -⟩
  · exact absurd (.balanced (.refl 0)) (hfree 0 0 0 (List.mem_singleton.mpr rfl))
  · refine ⟨positions, hrun, (unboundedPaths_pumps 1 _ positions hrun 0).mpr ?_⟩
    exact ⟨0, rfl, 0, [0], [0], by simp, by simp, .single (.push hpush)⟩

end Blorp.Check
