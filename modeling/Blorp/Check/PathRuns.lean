import Blorp.Check.PathClosure
import Blorp.Lib.Pushdown

/-!
# Runs of instantiation paths

The transitions are a pushdown system.  The first closure is its balanced runs
(balanced_settles), the second its runs by balanced runs and pushes (reachable_settles).
-/

namespace Blorp.Check

open Fuel Pushdown

def pathSystem (transitions : List InstantiationPath) : System Int Int where
  keep source target := ⟨source, target, .keepPath⟩ ∈ transitions
  push source symbol target := ⟨source, target, .pushPath symbol⟩ ∈ transitions
  pop source symbol target := ⟨source, target, .popPath symbol⟩ ∈ transitions

/-! ## Entry validation -/

theorem validTransitions_eq_true {count : Int} :
    ∀ {transitions : List InstantiationPath} {valid : Bool},
      validTransitions count valid transitions = true →
      valid = true ∧ ∀ transition ∈ transitions, validTransition count transition = true := by
  intro transitions
  induction transitions with
  | nil =>
    intro valid h
    exact ⟨h, by simp⟩
  | cons transition rest ih =>
    intro valid h
    unfold validTransitions at h
    simp only [Bool.not_eq_eq_eq_not, Bool.not_true] at h
    split at h
    · rename_i hinvalid
      rw [hinvalid] at h
      cases h
    · obtain ⟨hvalid, hrest⟩ := ih h
      rw [Bool.and_eq_true] at hvalid
      refine ⟨hvalid.1, fun other hother => ?_⟩
      rcases List.mem_cons.mp hother with rfl | hmem
      · exact hvalid.2
      · exact hrest other hmem

theorem validEntry_dense {count : Int} {transitions : List InstantiationPath}
    (h : validEntry count transitions = true) :
    Dense count ∧ TransitionsWithin count transitions := by
  unfold validEntry at h
  obtain ⟨hcount, htransitions⟩ := validTransitions_eq_true h
  constructor
  · split at hcount
    · rename_i hpos
      have hle : count ≤ intMax.tdiv count := by simpa using hcount
      rw [Int.tdiv_eq_ediv_of_nonneg (by decide)] at hle
      exact ⟨Int.le_of_lt hpos, (Int.le_ediv_iff_mul_le hpos).mp hle⟩
    · have hzero : count = 0 := by
        have : count ≥ 0 := by simpa using hcount
        omega
      subst hzero
      exact ⟨by decide, by decide⟩
  · intro transition htransition
    have hvalid := htransitions transition htransition
    unfold validTransition at hvalid
    simp only [Bool.and_eq_true, decide_eq_true_eq] at hvalid
    exact ⟨hvalid.1.1.1, hvalid.1.1.2, hvalid.1.2.1, hvalid.1.2.2⟩

section

variable {count : Int} {transitions : List InstantiationPath}
  (hdense : Dense count) (hwithin : TransitionsWithin count transitions)

include hdense hwithin

/-! ## Balanced pairs -/

theorem initialPaths_good :
    Good count (Balanced (pathSystem transitions)) (initialPaths count transitions) ∧
      (∀ control ∈ controls count, ⟨control, control⟩ ∈ (initialPaths count transitions).values) ∧
      ∀ transition ∈ transitions, transition.operation = .keepPath →
        ⟨transition.source, transition.target⟩ ∈ (initialPaths count transitions).values := by
  have hloops : ∀ control ∈ controls count, ∀ paths,
      Extends count (Balanced (pathSystem transitions)) paths (insert paths count control control) := by
    intro control hcontrol paths hgood
    obtain ⟨hnonneg, hlt⟩ := mem_controls.mp hcontrol
    obtain ⟨hnext, hgrown, -⟩ :=
      hgood.insert hdense ⟨hnonneg, hlt, hnonneg, hlt⟩ (.refl control)
    exact ⟨hnext, hgrown⟩
  have hkeeps : ∀ transition ∈ transitions, ∀ paths,
      Extends count (Balanced (pathSystem transitions)) paths (addKeep count paths transition) := by
    intro transition htransition paths
    unfold addKeep
    split
    · rename_i hkeep
      intro hgood
      obtain ⟨source, target, operation⟩ := transition
      simp only at hkeep
      subst hkeep
      obtain ⟨hnext, hgrown, -⟩ :=
        hgood.insert hdense (hwithin _ htransition) (.keep htransition)
      exact ⟨hnext, hgrown⟩
    · exact Extends.refl paths
  have hnil : Good count (Balanced (pathSystem transitions)) [] :=
    ⟨Table.nil, by simp [PathPairs.values]⟩
  obtain ⟨hcontrols, -⟩ := Extends.foldl hloops hnil
  have hall := Extends.foldl hkeeps hcontrols
  refine ⟨hall.1, ?_, ?_⟩
  · intro control hcontrol
    refine hall.2.subset (Extends.foldl_mem hloops hcontrol hnil fun between hbetween _ => ?_)
    obtain ⟨hnonneg, hlt⟩ := mem_controls.mp hcontrol
    exact (hbetween.insert hdense ⟨hnonneg, hlt, hnonneg, hlt⟩ (.refl control)).2.2
  · intro transition htransition hkeep
    refine Extends.foldl_mem hkeeps htransition hcontrols fun between hbetween _ => ?_
    obtain ⟨source, target, operation⟩ := transition
    simp only at hkeep
    subst hkeep
    exact (hbetween.insert hdense (hwithin _ htransition) (.keep htransition)).2.2

theorem balanced_settles : ∃ balanced, Outcome.Settles
        (fun n => closePaths n (initialPaths count transitions) count transitions) (.ok balanced) ∧
      Good count (Balanced (pathSystem transitions)) balanced ∧
      ∀ {source target : Int}, source ∈ controls count →
        Balanced (pathSystem transitions) source target →
        ⟨source, target⟩ ∈ balanced.values := by
  obtain ⟨hgood, hloops, hkeeps⟩ := initialPaths_good hdense hwithin
  have hbalanced : ClosedUnder transitions (Balanced (pathSystem transitions)) := by
    refine ⟨.trans, ?_⟩
    rintro ⟨s, t, _⟩ ⟨s', t', _⟩ symbol hopening hclosing rfl rfl hinner
    exact .nest hopening hinner hclosing
  obtain ⟨balanced, hrun, hgood', hinitial, hclosed⟩ :=
    closePaths_settles hdense hbalanced hwithin hgood
  refine ⟨balanced, hrun, hgood', fun {source target} hsource h => ?_⟩
  induction h with
  | refl c => exact hinitial _ (hloops c hsource)
  | keep hkeep => exact hinitial _ (hkeeps _ hkeep rfl)
  | trans _ _ ih₁ ih₂ =>
    have hfirst := ih₁ hsource
    obtain ⟨-, -, hnonneg, hlt⟩ := hgood'.table.within _ hfirst
    exact hclosed.trans hfirst (ih₂ (mem_controls.mpr ⟨hnonneg, hlt⟩))
  | nest hpush _ hpop ih =>
    obtain ⟨-, -, hnonneg, hlt⟩ := hwithin _ hpush
    exact hclosed.nest hpush hpop rfl rfl (ih (mem_controls.mpr ⟨hnonneg, hlt⟩))

/-! ## Runs by balanced runs and pushes -/

theorem addPush_extends {transition : InstantiationPath} (htransition : transition ∈ transitions)
    (paths : PathPairs) :
    Extends count (Ahead (pathSystem transitions)) paths (addPush count paths transition) := by
  unfold addPush
  split
  · rename_i symbol hpush
    intro hgood
    obtain ⟨source, target, operation⟩ := transition
    simp only at hpush
    subst hpush
    obtain ⟨hnext, hgrown, -⟩ :=
      hgood.insert hdense (hwithin _ htransition) (.push htransition)
    exact ⟨hnext, hgrown⟩
  · exact Extends.refl paths

theorem reachable_settles {balanced : PathPairs}
    (hgood : Good count (Balanced (pathSystem transitions)) balanced)
    (hall : ∀ {source target : Int}, source ∈ controls count →
      Balanced (pathSystem transitions) source target → ⟨source, target⟩ ∈ balanced.values) :
    ∃ reachable, Outcome.Settles
        (fun n => closePaths n (transitions.foldl (addPush count) balanced) count [])
        (.ok reachable) ∧
      Good count (Ahead (pathSystem transitions)) reachable ∧
      ∀ {source target : Int}, source ∈ controls count →
        Ahead (pathSystem transitions) source target → ⟨source, target⟩ ∈ reachable.values := by
  have hstart : Good count (Ahead (pathSystem transitions)) balanced :=
    ⟨hgood.table, fun pair hpair => .balanced (hgood.justified pair hpair)⟩
  have hpushes : ∀ transition ∈ transitions, ∀ paths, Extends count
      (Ahead (pathSystem transitions)) paths (addPush count paths transition) :=
    fun _ htransition => addPush_extends hdense hwithin htransition
  obtain ⟨hforward, hgrown⟩ := Extends.foldl hpushes hstart
  have hahead : ClosedUnder [] (Ahead (pathSystem transitions)) := by
    refine ⟨.trans, ?_⟩
    intro _ _ _ hopening
    cases hopening
  obtain ⟨reachable, hrun, hgood', hinitial, hclosed⟩ :=
    closePaths_settles hdense hahead (fun _ h => by cases h) hforward
  refine ⟨reachable, hrun, hgood', fun {source target} hsource h => ?_⟩
  induction h with
  | balanced hbalanced => exact hinitial _ (hgrown.subset (hall hsource hbalanced))
  | push hpush =>
    refine hinitial _ (Extends.foldl_mem hpushes hpush hstart fun between hbetween _ => ?_)
    exact (hbetween.insert hdense (hwithin _ hpush) (.push hpush)).2.2
  | trans _ _ ih₁ ih₂ =>
    have hfirst := ih₁ hsource
    obtain ⟨-, -, hnonneg, hlt⟩ := hgood'.table.within _ hfirst
    exact hclosed.trans hfirst (ih₂ (mem_controls.mpr ⟨hnonneg, hlt⟩))

end

end Blorp.Check
