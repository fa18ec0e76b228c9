import Blorp.Check.Dependencies

/-!
# The growth check of ordinary calls

`parameterReaches` searches the parameters round by round.  It ends, each round but the
last reaching a new target, with the answer of reachability through the dependencies that
no trait issued (parameterReaches_settles); so the growth check finds a dependency exactly
when some dependency wraps a parameter that its own target reaches
(growingDependency_settles).
-/

namespace Blorp.Check

open Fuel

section

variable (dependencies : List ParameterDependency)

/-- An ordinary dependency leads from the first parameter to the second. -/
def Leads (source target : TypeParameterId) : Prop :=
  ∃ dependency ∈ dependencies, dependency.traitDerived = false ∧ dependency.source = source ∧
    dependency.target = target

abbrev ReachesByCalls : TypeParameterId → TypeParameterId → Prop :=
  Relation.ReflTransGen (Leads dependencies)

/-- The dependency wraps a parameter that its own target reaches. -/
def Grows (dependency : ParameterDependency) : Prop :=
  dependency.traitDerived = false ∧ dependency.operations ≠ [] ∧
    ReachesByCalls dependencies dependency.target dependency.source

end

theorem mem_containsParameterId {parameters : List TypeParameterId} {requested : TypeParameterId} :
    containsParameterId parameters requested = true ↔ requested ∈ parameters := by
  simp [containsParameterId]

section

variable {dependencies : List ParameterDependency}

/-- The second search adds to the first new parameters that the frontier leads to. -/
def Finds (dependencies : List ParameterDependency) (frontier : List TypeParameterId)
    (first second : ParameterSearch) : Prop :=
  ∃ added, second = ⟨first.reached ++ added, first.frontier ++ added⟩ ∧
    ∀ parameter ∈ added, parameter ∉ first.reached ∧
      ∃ current ∈ frontier, Leads dependencies current parameter

variable {frontier : List TypeParameterId} {first second : ParameterSearch}
variable {parameter : TypeParameterId} {dependency : ParameterDependency}

theorem Finds.refl (search : ParameterSearch) : Finds dependencies frontier search search :=
  ⟨[], by simp, by simp⟩

theorem Finds.trans {third : ParameterSearch} (h : Finds dependencies frontier first second)
    (h' : Finds dependencies frontier second third) : Finds dependencies frontier first third := by
  obtain ⟨added, rfl, hadded⟩ := h
  obtain ⟨later, rfl, hlater⟩ := h'
  refine ⟨added ++ later, by simp, fun parameter hparameter => ?_⟩
  rcases List.mem_append.mp hparameter with hold | hnew
  · exact hadded parameter hold
  · obtain ⟨hfresh, hled⟩ := hlater parameter hnew
    exact ⟨fun hmem => hfresh (List.mem_append_left _ hmem), hled⟩

theorem Finds.reached (h : Finds dependencies frontier first second)
    (hmem : parameter ∈ first.reached) : parameter ∈ second.reached := by
  obtain ⟨added, rfl, -⟩ := h
  exact List.mem_append_left _ hmem

theorem reachTarget_finds {current : TypeParameterId} (hcurrent : current ∈ frontier)
    (hdependency : dependency ∈ dependencies) (search : ParameterSearch) :
    Finds dependencies frontier search (reachTarget current search dependency) := by
  unfold reachTarget
  split
  · next hguard =>
    simp only [Bool.and_eq_true, Bool.not_eq_true', decide_eq_true_eq] at hguard
    obtain ⟨⟨hordinary, hsource⟩, hfresh⟩ := hguard
    refine ⟨[dependency.target], rfl, fun parameter hparameter => ?_⟩
    obtain rfl := List.mem_singleton.mp hparameter
    refine ⟨fun hmem => ?_, current, hcurrent, dependency, hdependency, hordinary, hsource, rfl⟩
    rw [mem_containsParameterId.mpr hmem] at hfresh
    cases hfresh
  · exact Finds.refl search

theorem reachTarget_reached (hordinary : dependency.traitDerived = false)
    (search : ParameterSearch) :
    dependency.target ∈ (reachTarget dependency.source search dependency).reached := by
  unfold reachTarget
  cases hknown : containsParameterId search.reached dependency.target with
  | false => simp [hordinary]
  | true => simpa using mem_containsParameterId.mp hknown

variable (dependencies) in
theorem searchRound_spec (search : ParameterSearch) :
    ∃ added, searchRound dependencies search = ⟨search.reached ++ added, added⟩ ∧
      (∀ parameter ∈ added, parameter ∉ search.reached ∧
        ∃ current ∈ search.frontier, Leads dependencies current parameter) ∧
      ∀ current ∈ search.frontier, ∀ parameter, Leads dependencies current parameter →
        parameter ∈ search.reached ++ added := by
  have hturn : ∀ current ∈ search.frontier, ∀ between,
      Finds dependencies search.frontier between
        (dependencies.foldl (reachTarget current) between) :=
    fun current hcurrent => foldl_rel Finds.refl Finds.trans _
      fun dependency hdependency => reachTarget_finds hcurrent hdependency
  obtain ⟨added, hadded, hfresh⟩ :=
    foldl_rel Finds.refl Finds.trans search.frontier hturn ⟨search.reached, []⟩
  have hround : searchRound dependencies search = ⟨search.reached ++ added, added⟩ := hadded
  refine ⟨added, hround, hfresh, ?_⟩
  rintro current hcurrent _ ⟨dependency, hdependency, hordinary, rfl, rfl⟩
  obtain ⟨between, -, hafter⟩ :=
    foldl_visits Finds.refl Finds.trans search.frontier hturn hcurrent ⟨search.reached, []⟩
  obtain ⟨inner, -, hinner⟩ := foldl_visits Finds.refl Finds.trans dependencies
    (fun other hother => reachTarget_finds hcurrent hother) hdependency between
  have hmem := hafter.reached (hinner.reached (reachTarget_reached hordinary inner))
  rw [show search.frontier.foldl _ _ = _ from hadded] at hmem
  exact hmem

def unreached (dependencies : List ParameterDependency) (reached : List TypeParameterId) :
    List ParameterDependency :=
  dependencies.filter fun dependency => !containsParameterId reached dependency.target

theorem unreached_lt {reached added : List TypeParameterId} (hadded : parameter ∈ added)
    (hfresh : parameter ∉ reached)
    (htarget : ∃ dependency ∈ dependencies, dependency.target = parameter) :
    (unreached dependencies (reached ++ added)).length < (unreached dependencies reached).length := by
  have hsplit : unreached dependencies (reached ++ added) =
      (unreached dependencies reached).filter fun dependency =>
        !containsParameterId added dependency.target := by
    unfold unreached containsParameterId
    rw [List.filter_filter]
    refine List.filter_congr fun dependency _ => ?_
    rw [List.any_append, Bool.not_or, Bool.and_comm]
  obtain ⟨dependency, hdependency, rfl⟩ := htarget
  rw [hsplit, List.length_filter_lt_length_iff_exists]
  refine ⟨dependency, List.mem_filter.mpr ⟨hdependency, ?_⟩, ?_⟩
  · simpa [← Bool.not_eq_true, mem_containsParameterId] using hfresh
  · simpa [mem_containsParameterId] using hadded

/-- What the search knows between rounds. -/
structure SearchInvariant (dependencies : List ParameterDependency) (start : TypeParameterId)
    (search : ParameterSearch) : Prop where
  start_reached : start ∈ search.reached
  frontier_reached : ∀ parameter ∈ search.frontier, parameter ∈ search.reached
  reaches : ∀ parameter ∈ search.reached, ReachesByCalls dependencies start parameter
  followed : ∀ parameter ∈ search.reached, parameter ∉ search.frontier →
    ∀ target, Leads dependencies parameter target → target ∈ search.reached

theorem searchRound_keeps {start : TypeParameterId} {search : ParameterSearch}
    (h : SearchInvariant dependencies start search) :
    SearchInvariant dependencies start (searchRound dependencies search) := by
  obtain ⟨added, hround, hfresh, hled⟩ := searchRound_spec dependencies search
  rw [hround]
  refine ⟨List.mem_append_left _ h.start_reached, fun parameter hparameter => ?_, ?_, ?_⟩
  · exact List.mem_append_right _ hparameter
  · intro parameter hparameter
    rcases List.mem_append.mp hparameter with hold | hnew
    · exact h.reaches parameter hold
    · obtain ⟨-, current, hcurrent, hleads⟩ := hfresh parameter hnew
      exact (h.reaches current (h.frontier_reached current hcurrent)).tail hleads
  · intro parameter hparameter hnot target hleads
    rcases List.mem_append.mp hparameter with hold | hnew
    · by_cases hfrontier : parameter ∈ search.frontier
      · exact hled parameter hfrontier target hleads
      · exact List.mem_append_left _ (h.followed parameter hold hfrontier target hleads)
    · exact absurd hnew hnot

variable (dependencies) in
/-- **The search decides reachability.** -/
theorem parameterReaches_settles (start target : TypeParameterId) :
    ∃ answer, Outcome.Settles (fun n => parameterReaches n start target dependencies)
        (.ok answer) ∧ (answer = true ↔ ReachesByCalls dependencies start target) := by
  have hstart : SearchInvariant dependencies start ⟨[start], [start]⟩ := by
    refine ⟨by simp, by simp, fun parameter hparameter => ?_, fun parameter hparameter hnot => ?_⟩
    · obtain rfl := List.mem_singleton.mp hparameter
      exact .refl
    · exact absurd hparameter hnot
  obtain ⟨last, hrun, hlast, hend⟩ := repeatWhile_settles (ε := Empty)
    (fun search : ParameterSearch => !search.frontier.isEmpty)
    (fun _ search => .ok (searchRound dependencies search))
    (SearchInvariant dependencies start)
    (fun search => 2 * (unreached dependencies search.reached).length +
      if search.frontier.isEmpty then 0 else 1)
    (by
      intro search hsearch htest
      refine ⟨_, Outcome.Settles.ok, searchRound_keeps hsearch, ?_⟩
      obtain ⟨added, hround, hfresh, -⟩ := searchRound_spec dependencies search
      have hsome : search.frontier.isEmpty = false := by simpa using htest
      rw [hround]
      simp only [hsome]
      -- A round that reaches nothing new is the last one.
      cases added with
      | nil => simp
      | cons parameter rest =>
        obtain ⟨hnew, current, -, dependency, hdependency, -, -, htarget⟩ :=
          hfresh parameter List.mem_cons_self
        have hlt := unreached_lt (List.mem_cons_self (l := rest)) hnew
          ⟨dependency, hdependency, htarget⟩
        simp only [List.isEmpty_cons, Bool.false_eq_true, ↓reduceIte]
        omega)
    ⟨[start], [start]⟩ hstart
  have hempty : last.frontier = [] := by simpa using hend
  refine ⟨containsParameterId last.reached target,
    Outcome.Settles.bind_ok hrun Outcome.Settles.ok, ?_⟩
  rw [mem_containsParameterId]
  constructor
  · exact hlast.reaches target
  · intro hreaches
    induction hreaches with
    | refl => exact hlast.start_reached
    | tail _ hleads ih => exact hlast.followed _ ih (by simp [hempty]) _ hleads

variable (dependencies) in
theorem growingDependency_settles : ∀ scanned : List ParameterDependency,
    ∃ found, Outcome.Settles (fun n => growingDependency n dependencies scanned) (.ok found) ∧
      (found.isSome = true ↔ ∃ dependency ∈ scanned, Grows dependencies dependency) := by
  intro scanned
  induction scanned with
  | nil => exact ⟨none, Outcome.Settles.ok, by simp⟩
  | cons dependency rest ih =>
    obtain ⟨answer, hanswer, hreaches⟩ :=
      parameterReaches_settles dependencies dependency.target dependency.source
    obtain ⟨found, hfound, hrest⟩ := ih
    have hgrows : (!dependency.traitDerived && (!dependency.operations.isEmpty && answer)) = true ↔
        Grows dependencies dependency := by
      simp [Grows, hreaches]
    by_cases htest : (!dependency.traitDerived && (!dependency.operations.isEmpty && answer)) = true
    · refine ⟨some dependency.span, ?_, ?_⟩
      · unfold growingDependency
        refine Outcome.Settles.bind_ok hanswer ?_
        simp only [htest, ↓reduceIte]
        exact Outcome.Settles.ok
      · simp [hgrows.mp htest]
    · refine ⟨found, ?_, ?_⟩
      · unfold growingDependency
        refine Outcome.Settles.bind_ok hanswer ?_
        simp only [htest, Bool.false_eq_true, ↓reduceIte]
        exact hfound
      · have hnot : ¬ Grows dependencies dependency := fun hgrow => htest (hgrows.mpr hgrow)
        rw [hrest, List.exists_mem_cons_iff]
        exact ⟨.inr, fun hor => hor.resolve_left hnot⟩

end

end Blorp.Check
