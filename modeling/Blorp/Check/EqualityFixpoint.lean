import Blorp.Check.EqualityRequirements
import Blorp.Check.TraitAcceptance

/-!
# The rounds reach the right fixpoint

An assignment is consistent when every aggregate it makes available has all its members
supported by its own bounds, which include the written ones.  The rounds keep every
consistent assignment below the candidates they have, and stop only at one.
-/

namespace Blorp.Check

open Fuel

variable {traits : AcceptedTraits} {declarations : EqualityDeclarations} {canonical : TraitId}

/-- Rows are found under their own identity. -/
structure NumberedRows (declarations : EqualityDeclarations) : Prop where
  records : ∀ (id : RecordId) (row : CheckedRecord), declarations.records[id]? = some row →
    row.id = id
  unions : ∀ (id : UnionId) (row : BoundedUnion), declarations.unions[id]? = some row → row.id = id

section

variable (traits : AcceptedTraits) (declarations : EqualityDeclarations) (canonical : TraitId)
    (assignment : EqualityAssignment)

/-- An assignment that its own bounds justify. -/
structure JustifiedEquality : Prop where
  derived : ∀ aggregate, assignment.available aggregate →
    ∃ candidate ∈ equalityCandidates traits declarations canonical, candidate.aggregate = aggregate
  members : ∀ aggregate, assignment.available aggregate →
    ∀ members, declarations.members aggregate = some members → ∀ member ∈ members,
      Supported traits assignment (assignment.required aggregate) canonical member.2.valueType

/-- A justified assignment that keeps the written bounds. -/
structure ConsistentEquality : Prop
    extends JustifiedEquality traits declarations canonical assignment where
  written : ∀ candidate ∈ equalityCandidates traits declarations canonical,
    assignment.available candidate.aggregate → ∀ bound ∈ candidate.requirements,
      assignment.required candidate.aggregate bound.atom

end

/-! ## One candidate -/

section Members

variable {candidate : EqualityCandidate} {possible : List EqualityCandidate}
  {summary : EqualitySummary}

section

variable (h : summarizeMembers traits canonical candidate declarations possible = .ok summary)

include h

theorem summarizeMembers_eq_ok :
    ∃ members, declarations.members candidate.aggregate = some members ∧
      summarizeEach (members.map fun member => summarizeGoal traits possible candidate.aggregate
        member.1 member.2.span member.2.valueType canonical) ⟨candidate.requirements, none⟩ =
          .ok summary := by
  obtain ⟨members, hmembers, h⟩ := Except.peel h
  unfold orCheckerInvariant at hmembers
  split at hmembers
  · next found hfound =>
    cases hmembers
    exact ⟨_, hfound, h⟩
  · cases hmembers

theorem members_extends : AddsBounds candidate.requirements summary.requirements := by
  obtain ⟨members, -, h⟩ := summarizeMembers_eq_ok h
  refine summarizeEach_keeps (I := fun s => AddsBounds candidate.requirements s.requirements) ?_
    (.refl _) rfl h
  intro step hstep before next hbefore hnone hnext
  obtain ⟨member, -, rfl⟩ := List.mem_map.mp hstep
  exact hbefore.trans (goal_extends _ _ _ _ hnone hnext)

theorem members_failure {failure : EqualityUnavailable}
    (hfailure : summary.failure = some failure) : failure.aggregate = candidate.aggregate := by
  obtain ⟨members, -, h⟩ := summarizeMembers_eq_ok h
  refine summarizeEach_keeps (I := fun s => ∀ failure, s.failure = some failure →
    failure.aggregate = candidate.aggregate) ?_ (fun failure h => by cases h) rfl h failure hfailure
  intro step hstep before next _ hnone hnext failure hlast
  obtain ⟨member, -, rfl⟩ := List.mem_map.mp hstep
  exact goal_failure _ _ _ _ failure hnone hnext hlast

end

theorem members_supported (hdistinct : (possible.map (·.aggregate)).Nodup)
    (h : summarizeMembers traits canonical candidate declarations possible = .ok summary)
    (hsuccess : summary.failure = none) {members : List (EqualityMember × TypeUse)}
    (hmembers : declarations.members candidate.aggregate = some members) :
    ∀ member ∈ members, Supported traits (candidateAssignment possible)
      (· ∈ summary.requirements.map (·.atom)) canonical member.2.valueType := by
  obtain ⟨found, hfound, h⟩ := summarizeMembers_eq_ok h
  cases hfound.symm.trans hmembers
  have hvisits := (summarizeEach_visits ?_ rfl h hsuccess).2
  · intro member hmember
    obtain ⟨before, next, hnone, hnext, hlast, hlater⟩ := hvisits _ (List.mem_map_of_mem hmember)
    have hgoal := goal_supported hdistinct _ _ _ _ hnone hnext hlast
    exact hgoal.mono fun atom hatom => hlater.mem hatom
  · intro step hstep before next hnone hnext
    obtain ⟨member, -, rfl⟩ := List.mem_map.mp hstep
    exact goal_extends _ _ _ _ hnone hnext

theorem members_within {assignment : EqualityAssignment}
    (hconsistent : ConsistentEquality traits declarations canonical assignment)
    (hpossible : ∀ aggregate, assignment.available aggregate → ∃ candidate ∈ possible,
      candidate.aggregate = aggregate)
    (hwithin : ∀ candidate ∈ possible, assignment.available candidate.aggregate →
      ∀ atom ∈ candidate.requirements.map (·.atom), assignment.required candidate.aggregate atom)
    (hcandidate : candidate ∈ possible) (havailable : assignment.available candidate.aggregate)
    (h : summarizeMembers traits canonical candidate declarations possible = .ok summary) :
    summary.failure = none ∧ ∀ atom ∈ summary.requirements.map (·.atom),
      assignment.required candidate.aggregate atom := by
  obtain ⟨members, hmembers, h⟩ := summarizeMembers_eq_ok h
  refine summarizeEach_keeps (I := fun s => s.failure = none ∧
    ∀ atom ∈ s.requirements.map (·.atom), assignment.required candidate.aggregate atom) ?_
    ⟨rfl, hwithin candidate hcandidate havailable⟩ rfl h
  rintro step hstep before next ⟨-, hbefore⟩ hnone hnext
  obtain ⟨member, hmember, rfl⟩ := List.mem_map.mp hstep
  exact goal_within hpossible hwithin _ _ _ _ hnone hbefore
    (hconsistent.members _ havailable members hmembers member hmember) hnext

end Members

/-! ## One round -/

def keptCandidate (summarized : EqualityCandidate × EqualitySummary) : Option EqualityCandidate :=
  if summarized.2.failure.isSome then none
  else some { summarized.1 with requirements := summarized.2.requirements }

def changesCandidate (summarized : EqualityCandidate × EqualitySummary) : Bool :=
  summarized.2.failure.isSome ||
    summarized.2.requirements.length != summarized.1.requirements.length

/-- What a round is made of: a summary of each candidate against all of them. -/
structure Rounded (traits : AcceptedTraits) (declarations : EqualityDeclarations)
    (canonical : TraitId) (rounds : EqualityRounds) (summaries : List EqualitySummary)
    (round : EqualityRound) : Prop where
  each : List.Forall₂ (fun candidate summary => summarizeMembers traits canonical candidate
    declarations rounds.possible = .ok summary) rounds.possible summaries
  retained : round.retained = (rounds.possible.zip summaries).filterMap keptCandidate
  unavailable : round.unavailable = rounds.unavailable ++ summaries.filterMap (·.failure)
  changed : round.changed = (rounds.possible.zip summaries).any changesCandidate

theorem equalityRound_spec {rounds : EqualityRounds} {round : EqualityRound}
    (h : equalityRound traits canonical declarations rounds = .ok round) :
    ∃ summaries, Rounded traits declarations canonical rounds summaries round := by
  have hfold := Except.foldlM_invariant (I := fun passed (state : EqualityRound) => ∃ summaries,
    List.Forall₂ (fun candidate summary => summarizeMembers traits canonical candidate declarations
      rounds.possible = .ok summary) passed summaries ∧
    state.retained = (passed.zip summaries).filterMap keptCandidate ∧
    state.unavailable = rounds.unavailable ++ summaries.filterMap (·.failure) ∧
    state.changed = (passed.zip summaries).any changesCandidate) ?_ rounds.possible [] _ round
    ⟨[], .nil, rfl, by simp, rfl⟩ h
  · obtain ⟨summaries, hsummaries, hretained, hunavailable, hchanged⟩ := hfold
    exact ⟨summaries, hsummaries, hretained, hunavailable, hchanged⟩
  · rintro passed candidate state next ⟨summaries, hsummaries, hretained, hunavailable, hchanged⟩ h
    obtain ⟨summary, hsummary, h⟩ := Except.peel h
    have hlength : passed.length = summaries.length := hsummaries.length_eq
    refine ⟨summaries ++ [summary], List.rel_append hsummaries (.cons hsummary .nil), ?_⟩
    rw [List.zip_append hlength]
    simp only [List.filterMap_append, List.any_append, ← hretained, ← hchanged,
      ← List.append_assoc, ← hunavailable]
    cases hfailure : summary.failure with
    | some failure | none =>
      simp only [hfailure] at h
      cases h
      simp [keptCandidate, changesCandidate, hfailure]

section Rounded

variable {rounds : EqualityRounds} {summaries : List EqualitySummary} {round : EqualityRound}
  (hrounded : Rounded traits declarations canonical rounds summaries round)

include hrounded

theorem Rounded.summarized {candidate : EqualityCandidate} {summary : EqualitySummary}
    (h : (candidate, summary) ∈ rounds.possible.zip summaries) :
    summarizeMembers traits canonical candidate declarations rounds.possible = .ok summary :=
  List.forall₂_zip hrounded.each h

theorem Rounded.exists_summary {candidate : EqualityCandidate} (h : candidate ∈ rounds.possible) :
    ∃ summary, (candidate, summary) ∈ rounds.possible.zip summaries := by
  obtain ⟨position, hposition⟩ := List.mem_iff_getElem?.mp h
  have hlength : rounds.possible.length = summaries.length := hrounded.each.length_eq
  have hlt : position < summaries.length := by
    have hlt := (List.getElem?_eq_some_iff.mp hposition).1
    omega
  refine ⟨summaries[position], List.mem_of_getElem? (i := position) ?_⟩
  exact List.getElem?_zip_eq_some.mpr ⟨hposition, List.getElem?_eq_getElem hlt⟩

theorem Rounded.paired : rounds.possible = (rounds.possible.zip summaries).map Prod.fst := by
  rw [List.map_fst_zip (Nat.le_of_eq hrounded.each.length_eq)]

theorem Rounded.mem_retained {after : EqualityCandidate} :
    after ∈ round.retained ↔ ∃ candidate summary,
      (candidate, summary) ∈ rounds.possible.zip summaries ∧ summary.failure = none ∧
        after = { candidate with requirements := summary.requirements } := by
  rw [hrounded.retained, List.mem_filterMap]
  constructor
  · rintro ⟨⟨candidate, summary⟩, hmem, hkept⟩
    unfold keptCandidate at hkept
    split at hkept
    · cases hkept
    · next hnone =>
      cases hkept
      exact ⟨candidate, summary, hmem, by simpa using hnone, rfl⟩
  · rintro ⟨candidate, summary, hmem, hnone, rfl⟩
    exact ⟨(candidate, summary), hmem, by simp [keptCandidate, hnone]⟩

theorem Rounded.retained_sublist :
    (round.retained.map (·.aggregate)).Sublist (rounds.possible.map (·.aggregate)) := by
  rw [hrounded.retained]
  have hkept : ∀ pairs : List (EqualityCandidate × EqualitySummary),
      ((pairs.filterMap keptCandidate).map (·.aggregate)).Sublist
        ((pairs.map Prod.fst).map (·.aggregate)) := by
    intro pairs
    induction pairs with
    | nil => exact .slnil
    | cons pair pairs ih =>
      rw [List.filterMap_cons]
      unfold keptCandidate
      split
      · exact .cons _ ih
      · next kept hkept =>
        split at hkept
        · cases hkept
        · cases hkept
          exact .cons_cons _ ih
  conv_rhs => rw [hrounded.paired]
  exact hkept _

theorem Rounded.unchanged (h : round.changed = false) :
    round.retained.map (fun candidate => (candidate.aggregate, candidate.requirements.map (·.atom))) =
      rounds.possible.map fun candidate =>
        (candidate.aggregate, candidate.requirements.map (·.atom)) := by
  have hall : ∀ pair ∈ rounds.possible.zip summaries, changesCandidate pair = false := by
    intro pair hpair
    rw [hrounded.changed, List.any_eq_false] at h
    simpa using h pair hpair
  have hsame : ∀ pair ∈ rounds.possible.zip summaries, ∃ kept, keptCandidate pair = some kept ∧
      (kept.aggregate, kept.requirements.map (·.atom)) =
        (pair.1.aggregate, pair.1.requirements.map (·.atom)) := by
    rintro ⟨candidate, summary⟩ hpair
    have hchanges := hall _ hpair
    simp only [changesCandidate, Bool.or_eq_false_iff, bne_eq_false_iff_eq] at hchanges
    refine ⟨{ candidate with requirements := summary.requirements }, by simp [keptCandidate, hchanges],
      ?_⟩
    have hgrows := members_extends (hrounded.summarized hpair)
    simp [hgrows.same hchanges.2]
  rw [hrounded.retained]
  conv_rhs => rw [hrounded.paired, List.map_map]
  generalize rounds.possible.zip summaries = pairs at hsame
  induction pairs with
  | nil => rfl
  | cons pair pairs ih =>
    obtain ⟨kept, hkept, heq⟩ := hsame pair List.mem_cons_self
    have hrest := ih fun other hother => hsame other (List.mem_cons_of_mem _ hother)
    rw [List.filterMap_cons_some hkept, List.map_cons, List.map_cons, hrest, heq]
    rfl

end Rounded

/-! ## Why the rounds end -/

/-- What a candidate can still come to require, and itself. -/
def roomLeft (ceiling : Finset BoundAtom) (candidate : EqualityCandidate) : Nat :=
  (ceiling \ (candidate.requirements.map (·.atom)).toFinset).card + 1

variable {ceiling : Finset BoundAtom} {candidate after : EqualityCandidate}

theorem roomLeft_le (h : AddsBounds candidate.requirements after.requirements) :
    roomLeft ceiling after ≤ roomLeft ceiling candidate := by
  refine Nat.succ_le_succ (Finset.card_le_card ?_)
  refine Finset.sdiff_subset_sdiff (Finset.Subset.refl _) ?_
  intro atom hatom
  rw [List.mem_toFinset] at hatom ⊢
  exact h.mem hatom

theorem roomLeft_lt (h : AddsBounds candidate.requirements after.requirements)
    (hbounded : ∀ atom ∈ after.requirements.map (·.atom), atom ∈ ceiling)
    (hlength : after.requirements.length ≠ candidate.requirements.length) :
    roomLeft ceiling after < roomLeft ceiling candidate := by
  obtain ⟨new, hnew, hfresh⟩ := h
  obtain ⟨atom, hatom⟩ : ∃ atom, atom ∈ new := by
    refine List.exists_mem_of_ne_nil _ fun hnil => hlength ?_
    have hcount := congrArg List.length hnew
    simpa [hnil] using hcount
  have hafter : atom ∈ after.requirements.map (·.atom) := by
    rw [hnew]
    exact List.mem_append_right _ hatom
  refine Nat.succ_lt_succ (Finset.card_lt_card ⟨?_, fun hsubset => ?_⟩)
  · intro other hother
    rw [Finset.mem_sdiff, List.mem_toFinset] at hother ⊢
    refine ⟨hother.1, fun hknown => hother.2 ?_⟩
    rw [hnew]
    exact List.mem_append_left new hknown
  · have hroom : atom ∈ ceiling \ (candidate.requirements.map (·.atom)).toFinset := by
      rw [Finset.mem_sdiff, List.mem_toFinset]
      exact ⟨hbounded atom hafter, hfresh atom hatom⟩
    have hgone := hsubset hroom
    rw [Finset.mem_sdiff, List.mem_toFinset] at hgone
    exact hgone.2 hafter

theorem Rounded.room {rounds : EqualityRounds} {summaries : List EqualitySummary}
    {round : EqualityRound}
    (hrounded : Rounded traits declarations canonical rounds summaries round)
    (hbounded : ∀ candidate summary, (candidate, summary) ∈ rounds.possible.zip summaries →
      ∀ atom ∈ summary.requirements.map (·.atom), atom ∈ ceiling) :
    (round.retained.map (roomLeft ceiling)).sum + round.changed.toNat ≤
      (rounds.possible.map (roomLeft ceiling)).sum := by
  have hadds : ∀ pair ∈ rounds.possible.zip summaries,
      AddsBounds pair.1.requirements pair.2.requirements :=
    fun pair hpair => members_extends (hrounded.summarized hpair)
  have hwithin : ∀ pair ∈ rounds.possible.zip summaries,
      ∀ atom ∈ pair.2.requirements.map (·.atom), atom ∈ ceiling :=
    fun pair hpair => hbounded pair.1 pair.2 hpair
  rw [hrounded.retained, hrounded.changed]
  conv_rhs => rw [hrounded.paired]
  generalize rounds.possible.zip summaries = pairs at hadds hwithin
  induction pairs with
  | nil => exact Nat.le_refl 0
  | cons pair pairs ih =>
    have hrest := ih (fun other hother => hadds other (List.mem_cons_of_mem _ hother))
      fun other hother => hwithin other (List.mem_cons_of_mem _ hother)
    obtain ⟨candidate, summary⟩ := pair
    have hfirst := hadds _ List.mem_cons_self
    have hinside := hwithin _ List.mem_cons_self
    simp only at hfirst hinside
    have hpositive : 1 ≤ roomLeft ceiling candidate := Nat.succ_le_succ (Nat.zero_le _)
    simp only [List.map_cons, List.sum_cons, List.any_cons]
    cases hfailure : summary.failure with
    | some failure =>
      have hkept : keptCandidate (candidate, summary) = none := by simp [keptCandidate, hfailure]
      have hchanges : changesCandidate (candidate, summary) = true := by
        simp [changesCandidate, hfailure]
      rw [List.filterMap_cons_none hkept, hchanges]
      simp only [Bool.true_or, Bool.toNat_true]
      omega
    | none =>
      have hkept : keptCandidate (candidate, summary) =
          some { candidate with requirements := summary.requirements } := by
        simp [keptCandidate, hfailure]
      rw [List.filterMap_cons_some hkept, List.map_cons, List.sum_cons]
      by_cases hsame : summary.requirements.length = candidate.requirements.length
      · have hchanges : changesCandidate (candidate, summary) = false := by
          simp [changesCandidate, hfailure, hsame]
        have hle : roomLeft ceiling { candidate with requirements := summary.requirements } ≤
            roomLeft ceiling candidate := roomLeft_le hfirst
        rw [hchanges, Bool.false_or]
        omega
      · have hchanges : changesCandidate (candidate, summary) = true := by
          simp [changesCandidate, hfailure, hsame]
        have hlt : roomLeft ceiling { candidate with requirements := summary.requirements } <
            roomLeft ceiling candidate := roomLeft_lt hfirst hinside hsame
        rw [hchanges]
        simp only [Bool.true_or, Bool.toNat_true]
        omega

section

variable (traits : AcceptedTraits) (declarations : EqualityDeclarations) (canonical : TraitId)

/-- Finitely many parameters and traits that summaries never leave. -/
structure BoundUniverse (parameters : Set TypeParameterId) (requirable : Set TraitId) : Prop where
  equality : canonical ∈ requirable
  families : ∀ required head row, traits.familyFor required head = some row →
    ∀ bounds ∈ row.parameterBounds, ∀ bound ∈ bounds, bound.requiredTrait ∈ requirable
  written : ∀ candidate ∈ equalityCandidates traits declarations canonical,
    ∀ atom ∈ candidate.requirements.map (·.atom), atom.1 ∈ parameters ∧ atom.2 ∈ requirable
  members : ∀ candidate ∈ equalityCandidates traits declarations canonical,
    ∀ members, declarations.members candidate.aggregate = some members → ∀ member ∈ members,
      ∀ id, member.2.valueType.Reads id → id ∈ parameters

theorem exists_boundUniverse : ∃ parameters requirable,
      BoundUniverse traits declarations canonical parameters requirable ∧ parameters.Finite ∧
        requirable.Finite := by
  let candidates := equalityCandidates traits declarations canonical
  let atoms := candidates.flatMap fun candidate => candidate.requirements.map (·.atom)
  let types := candidates.flatMap fun candidate =>
    ((declarations.members candidate.aggregate).getD []).map (·.2.valueType)
  let bounds := traits.implementations.byKey.flatMap fun entry => entry.2.parameterBounds.flatten
  refine ⟨{id | id ∈ atoms.map Prod.fst} ∪ ⋃ type ∈ {type | type ∈ types}, {id | type.Reads id},
    {required | required ∈ canonical :: atoms.map Prod.snd ++ bounds.map (·.requiredTrait)}, ?_,
    ?_, List.finite_toSet _⟩
  · constructor
    · exact List.mem_append_left _ List.mem_cons_self
    · intro required head row hrow located hlocated bound hbound
      refine List.mem_append_right _ (List.mem_map_of_mem (List.mem_flatMap.mpr ?_))
      unfold AcceptedTraits.familyFor Entries.lookup at hrow
      obtain ⟨entry, hentry, rfl⟩ := Option.map_eq_some_iff.mp hrow
      exact ⟨entry, List.mem_of_find?_eq_some hentry, List.mem_flatten.mpr ⟨located, hlocated, hbound⟩⟩
    · intro candidate hcandidate atom hatom
      have hmem : atom ∈ atoms := List.mem_flatMap.mpr ⟨candidate, hcandidate, hatom⟩
      exact ⟨.inl (List.mem_map_of_mem hmem),
        List.mem_append_left _ (List.mem_cons_of_mem _ (List.mem_map_of_mem hmem))⟩
    · intro candidate hcandidate members hmembers member hmember id hid
      refine .inr (Set.mem_biUnion (show member.2.valueType ∈ types from ?_) hid)
      refine List.mem_flatMap.mpr ⟨candidate, hcandidate, ?_⟩
      rw [hmembers]
      exact List.mem_map_of_mem hmember
  · exact (List.finite_toSet _).union
      (Set.Finite.biUnion (List.finite_toSet types) fun type _ => type.reads_finite)

/-! ## Rounds -/

/-- What holds before every round. -/
structure RoundsInvariant (parameters : Set TypeParameterId) (requirable : Set TraitId)
    (rounds : EqualityRounds) : Prop where
  started : (rounds.possible.map (·.aggregate)).Sublist
    ((equalityCandidates traits declarations canonical).map (·.aggregate))
  written : ∀ first ∈ equalityCandidates traits declarations canonical,
    ∀ candidate ∈ rounds.possible, candidate.aggregate = first.aggregate →
      ∀ atom ∈ first.requirements.map (·.atom), atom ∈ candidate.requirements.map (·.atom)
  bounded : ∀ candidate ∈ rounds.possible, ∀ atom ∈ candidate.requirements.map (·.atom),
    atom.1 ∈ parameters ∧ atom.2 ∈ requirable
  /-- No consistent assignment is lost, nor asked for more than it requires. -/
  keeps : ∀ assignment, ConsistentEquality traits declarations canonical assignment →
    ∀ aggregate, assignment.available aggregate →
      ∃ candidate ∈ rounds.possible, candidate.aggregate = aggregate
  within : ∀ assignment, ConsistentEquality traits declarations canonical assignment →
    ∀ candidate ∈ rounds.possible, assignment.available candidate.aggregate →
      ∀ atom ∈ candidate.requirements.map (·.atom), assignment.required candidate.aggregate atom
  dropped : ∀ first ∈ equalityCandidates traits declarations canonical,
    (∃ candidate ∈ rounds.possible, candidate.aggregate = first.aggregate) ∨
      ∃ failure ∈ rounds.unavailable, failure.aggregate = first.aggregate
  failed : ∀ failure ∈ rounds.unavailable,
    (∃ first ∈ equalityCandidates traits declarations canonical,
      first.aggregate = failure.aggregate) ∧
    ∀ candidate ∈ rounds.possible, candidate.aggregate ≠ failure.aggregate

end

section

variable {parameters : Set TypeParameterId} {requirable : Set TraitId}

theorem RoundsInvariant.start
    (hdistinct : ((equalityCandidates traits declarations canonical).map (·.aggregate)).Nodup)
    (hceiling : BoundUniverse traits declarations canonical parameters requirable) :
    RoundsInvariant traits declarations canonical parameters requirable
      ⟨equalityCandidates traits declarations canonical, []⟩ where
  started := .refl _
  written := by
    intro first hfirst candidate hcandidate hsame atom hatom
    rw [List.inj_on_of_nodup_map hdistinct hcandidate hfirst hsame]
    exact hatom
  bounded := hceiling.written
  keeps := fun assignment hconsistent aggregate havailable =>
    hconsistent.derived aggregate havailable
  within := by
    intro assignment hconsistent candidate hcandidate havailable atom hatom
    obtain ⟨bound, hbound, rfl⟩ := List.mem_map.mp hatom
    exact hconsistent.written candidate hcandidate havailable bound hbound
  dropped := fun first hfirst => .inl ⟨first, hfirst, rfl⟩
  failed := fun failure hfailure => absurd hfailure List.not_mem_nil

variable {rounds : EqualityRounds} {summaries : List EqualitySummary} {round : EqualityRound}

theorem Rounded.bounded (hceiling : BoundUniverse traits declarations canonical parameters requirable)
    (h : RoundsInvariant traits declarations canonical parameters requirable rounds)
    (hrounded : Rounded traits declarations canonical rounds summaries round)
    {candidate : EqualityCandidate} {summary : EqualitySummary}
    (hmem : (candidate, summary) ∈ rounds.possible.zip summaries) :
    ∀ atom ∈ summary.requirements.map (·.atom), atom.1 ∈ parameters ∧ atom.2 ∈ requirable := by
  obtain ⟨members, hmembers, hsummary⟩ := summarizeMembers_eq_ok (hrounded.summarized hmem)
  have hcandidate : candidate ∈ rounds.possible := (List.of_mem_zip hmem).1
  obtain ⟨first, hfirst, hsame⟩ := List.mem_map.mp (h.started.subset (List.mem_map_of_mem hcandidate))
  have hrequired : ∀ other ∈ rounds.possible, ∀ bound ∈ other.requirements,
      bound.requiredTrait ∈ requirable := fun other hother bound hbound =>
    (h.bounded other hother bound.atom (List.mem_map_of_mem hbound)).2
  refine summarizeEach_keeps (I := fun s => ∀ atom ∈ s.requirements.map (·.atom),
    atom.1 ∈ parameters ∧ atom.2 ∈ requirable) ?_ (h.bounded candidate hcandidate) rfl hsummary
  intro step hstep before next hbefore hnone hnext
  obtain ⟨member, hmember, rfl⟩ := List.mem_map.mp hstep
  rw [← hsame] at hmembers
  exact goal_bounded (· ∈ requirable) hceiling.families hrequired _ _ _ _ hnone hceiling.equality
    (hceiling.members first hfirst members hmembers member hmember) hbefore hnext

theorem RoundsInvariant.distinct
    (hdistinct : ((equalityCandidates traits declarations canonical).map (·.aggregate)).Nodup)
    (h : RoundsInvariant traits declarations canonical parameters requirable rounds) :
    (rounds.possible.map (·.aggregate)).Nodup :=
  h.started.nodup hdistinct

/-- A round keeps the invariant. -/
theorem RoundsInvariant.step
    (hdistinct : ((equalityCandidates traits declarations canonical).map (·.aggregate)).Nodup)
    (hceiling : BoundUniverse traits declarations canonical parameters requirable)
    (h : RoundsInvariant traits declarations canonical parameters requirable rounds)
    (hrounded : Rounded traits declarations canonical rounds summaries round) :
    RoundsInvariant traits declarations canonical parameters requirable
      ⟨round.retained, round.unavailable⟩ where
  started := hrounded.retained_sublist.trans h.started
  written := by
    intro first hfirst after hafter hsame atom hatom
    obtain ⟨candidate, summary, hmem, hnone, rfl⟩ := hrounded.mem_retained.mp hafter
    have hknown := h.written first hfirst candidate (List.of_mem_zip hmem).1 hsame atom hatom
    exact (members_extends (hrounded.summarized hmem)).mem hknown
  bounded := by
    intro after hafter
    obtain ⟨candidate, summary, hmem, hnone, rfl⟩ := hrounded.mem_retained.mp hafter
    exact hrounded.bounded hceiling h hmem
  keeps := by
    intro assignment hconsistent aggregate havailable
    obtain ⟨candidate, hcandidate, rfl⟩ := h.keeps assignment hconsistent aggregate havailable
    obtain ⟨summary, hmem⟩ := hrounded.exists_summary hcandidate
    have hnone := (members_within hconsistent (h.keeps assignment hconsistent)
      (h.within assignment hconsistent) hcandidate havailable (hrounded.summarized hmem)).1
    exact ⟨_, hrounded.mem_retained.mpr ⟨candidate, summary, hmem, hnone, rfl⟩, rfl⟩
  within := by
    intro assignment hconsistent after hafter havailable
    obtain ⟨candidate, summary, hmem, hnone, rfl⟩ := hrounded.mem_retained.mp hafter
    exact (members_within hconsistent (h.keeps assignment hconsistent)
      (h.within assignment hconsistent) (List.of_mem_zip hmem).1 havailable
      (hrounded.summarized hmem)).2
  dropped := by
    intro first hfirst
    rcases h.dropped first hfirst with ⟨candidate, hcandidate, hsame⟩ | ⟨failure, hfailure, hsame⟩
    · obtain ⟨summary, hmem⟩ := hrounded.exists_summary hcandidate
      cases hfailure : summary.failure with
      | none => exact .inl ⟨_, hrounded.mem_retained.mpr ⟨candidate, summary, hmem, hfailure, rfl⟩, hsame⟩
      | some failure =>
        refine .inr ⟨failure, ?_, ?_⟩
        · simp only [hrounded.unavailable, List.mem_append, List.mem_filterMap]
          exact .inr ⟨summary, (List.of_mem_zip hmem).2, hfailure⟩
        · rw [members_failure (hrounded.summarized hmem) hfailure, hsame]
    · refine .inr ⟨failure, ?_, hsame⟩
      simp only [hrounded.unavailable, List.mem_append]
      exact .inl hfailure
  failed := by
    intro failure hfailure
    simp only [hrounded.unavailable, List.mem_append, List.mem_filterMap] at hfailure
    rcases hfailure with hold | ⟨summary, hsummary, hfailure⟩
    · obtain ⟨hfirst, hother⟩ := h.failed failure hold
      refine ⟨hfirst, fun after hafter => ?_⟩
      obtain ⟨candidate, summary, hmem, hnone, rfl⟩ := hrounded.mem_retained.mp hafter
      exact hother candidate (List.of_mem_zip hmem).1
    · obtain ⟨candidate, hmem⟩ : ∃ candidate, (candidate, summary) ∈ rounds.possible.zip summaries := by
        obtain ⟨position, hposition⟩ := List.mem_iff_getElem?.mp hsummary
        have hlength : rounds.possible.length = summaries.length := hrounded.each.length_eq
        have hlt : position < rounds.possible.length := by
          have hlt := (List.getElem?_eq_some_iff.mp hposition).1
          omega
        refine ⟨rounds.possible[position], List.mem_of_getElem? (i := position) ?_⟩
        exact List.getElem?_zip_eq_some.mpr ⟨List.getElem?_eq_getElem hlt, hposition⟩
      have hcandidate : candidate ∈ rounds.possible := (List.of_mem_zip hmem).1
      have haggregate := members_failure (hrounded.summarized hmem) hfailure
      refine ⟨?_, fun after hafter hsame => ?_⟩
      · obtain ⟨first, hfirst, hsame⟩ :=
          List.mem_map.mp (h.started.subset (List.mem_map_of_mem hcandidate))
        exact ⟨first, hfirst, hsame.trans haggregate.symm⟩
      · obtain ⟨other, kept, hother, hnone, rfl⟩ := hrounded.mem_retained.mp hafter
        have hsame : other.aggregate = candidate.aggregate := hsame.trans haggregate
        obtain rfl := List.inj_on_of_nodup_map (h.distinct hdistinct) (List.of_mem_zip hother).1
          hcandidate hsame
        have hfirst := hrounded.summarized hmem
        have hsecond := hrounded.summarized hother
        cases hfirst.symm.trans hsecond
        rw [hnone] at hfailure
        cases hfailure

end

/-! ## Where the rounds end -/

/-- The candidates the rounds end with: the largest consistent assignment, with the fewest
bounds. -/
structure EqualityFixpoint (traits : AcceptedTraits) (declarations : EqualityDeclarations)
    (canonical : TraitId) (possible : List EqualityCandidate) : Prop where
  consistent : ConsistentEquality traits declarations canonical (candidateAssignment possible)
  largest : ∀ assignment, ConsistentEquality traits declarations canonical assignment →
    ∀ aggregate, assignment.available aggregate →
      (candidateAssignment possible).available aggregate
  fewest : ∀ assignment, ConsistentEquality traits declarations canonical assignment →
    ∀ aggregate atom, assignment.available aggregate →
      (candidateAssignment possible).required aggregate atom → assignment.required aggregate atom

theorem candidateAssignment_congr {possible after : List EqualityCandidate}
    (h : after.map (fun candidate => (candidate.aggregate, candidate.requirements.map (·.atom))) =
      possible.map fun candidate => (candidate.aggregate, candidate.requirements.map (·.atom))) :
    candidateAssignment after = candidateAssignment possible := by
  have hmem : ∀ (candidates : List EqualityCandidate) (aggregate : AggregateId)
      (P : List BoundAtom → Prop),
      (∃ candidate ∈ candidates, candidate.aggregate = aggregate ∧
        P (candidate.requirements.map (·.atom))) ↔
      ∃ pair ∈ candidates.map fun candidate =>
        (candidate.aggregate, candidate.requirements.map (·.atom)),
        pair.1 = aggregate ∧ P pair.2 := by
    intro candidates aggregate P
    simp only [List.mem_map]
    constructor
    · rintro ⟨candidate, hcandidate, hsame, hP⟩
      exact ⟨_, ⟨candidate, hcandidate, rfl⟩, hsame, hP⟩
    · rintro ⟨pair, ⟨candidate, hcandidate, rfl⟩, hsame, hP⟩
      exact ⟨candidate, hcandidate, hsame, hP⟩
  unfold candidateAssignment
  congr 1
  · funext aggregate
    have hboth := hmem after aggregate (fun _ => True)
    rw [h, ← hmem possible aggregate (fun _ => True)] at hboth
    simpa using hboth
  · funext aggregate atom
    have hboth := hmem after aggregate (atom ∈ ·)
    rw [h, ← hmem possible aggregate (atom ∈ ·)] at hboth
    simpa using hboth

section

variable {parameters : Set TypeParameterId} {requirable : Set TraitId} {rounds : EqualityRounds}
  {summaries : List EqualitySummary} {round : EqualityRound}

/-- A round that changes nothing is at the fixpoint. -/
theorem RoundsInvariant.fixpoint
    (h : RoundsInvariant traits declarations canonical parameters requirable
      ⟨round.retained, round.unavailable⟩)
    (hbefore : (rounds.possible.map (·.aggregate)).Nodup)
    (hrounded : Rounded traits declarations canonical rounds summaries round)
    (hunchanged : round.changed = false) :
    EqualityFixpoint traits declarations canonical round.retained where
  consistent := by
    refine ⟨⟨?_, ?_⟩, ?_⟩
    · rintro aggregate ⟨candidate, hcandidate, rfl⟩
      obtain ⟨first, hfirst, hsame⟩ :=
        List.mem_map.mp (h.started.subset (List.mem_map_of_mem hcandidate))
      exact ⟨first, hfirst, hsame⟩
    · rintro aggregate ⟨after, hafter, rfl⟩ members hmembers member hmember
      have hretained := hafter
      obtain ⟨candidate, summary, hmem, hnone, rfl⟩ := hrounded.mem_retained.mp hafter
      have hsupported := members_supported hbefore (hrounded.summarized hmem) hnone hmembers member
        hmember
      rw [← candidateAssignment_congr (hrounded.unchanged hunchanged)] at hsupported
      exact hsupported.mono fun atom hatom => ⟨_, hretained, rfl, hatom⟩
    · rintro first hfirst ⟨candidate, hcandidate, hsame⟩ bound hbound
      exact ⟨candidate, hcandidate, hsame, h.written first hfirst candidate hcandidate hsame _
        (List.mem_map_of_mem hbound)⟩
  largest := fun assignment hconsistent aggregate havailable =>
    h.keeps assignment hconsistent aggregate havailable
  fewest := by
    rintro assignment hconsistent aggregate atom havailable ⟨candidate, hcandidate, rfl, hatom⟩
    exact h.within assignment hconsistent candidate hcandidate havailable atom hatom

end

theorem equalityTurn_eq_ok {rounds : EqualityRounds} {taken : Turn EqualityRounds EqualityRounds}
    (h : equalityTurn traits canonical declarations rounds = .ok taken) :
    ∃ summaries round, Rounded traits declarations canonical rounds summaries round ∧
      taken = if round.changed then .again ⟨round.retained, round.unavailable⟩
        else .done ⟨round.retained, round.unavailable⟩ := by
  obtain ⟨round, hround, h⟩ := Outcome.peel h
  obtain ⟨summaries, hrounded⟩ := equalityRound_spec (Outcome.liftM_eq_ok.mp hround)
  cases h
  exact ⟨summaries, round, hrounded, rfl⟩

theorem nodup_of_numbered {α : Type} {rows : List α} {id : α → Nat}
    (h : ∀ position row, rows[position]? = some row → id row = position) : (rows.map id).Nodup := by
  have hrange : rows.map id = List.range rows.length := by
    refine List.ext_getElem (by simp) fun position hfirst hsecond => ?_
    rw [List.getElem_map, List.getElem_range]
    exact h position _ (List.getElem?_eq_getElem (by simpa using hfirst))
  rw [hrange]
  exact List.nodup_range

theorem nodup_filterMap_aggregate {α : Type} {rows : List α} {id : α → Nat}
    {aggregate : Nat → AggregateId} {candidate : α → Option EqualityCandidate}
    (hrows : (rows.map id).Nodup) (haggregate : Function.Injective aggregate)
    (hcandidate : ∀ row found, candidate row = some found → found.aggregate = aggregate (id row)) :
    ((rows.filterMap candidate).map (·.aggregate)).Nodup := by
  have hsublist : ((rows.filterMap candidate).map (·.aggregate)).Sublist
      ((rows.map id).map aggregate) := by
    clear hrows
    induction rows with
    | nil => exact .slnil
    | cons row rows ih =>
      rw [List.filterMap_cons]
      split
      · exact .cons _ ih
      · next found hfound =>
        rw [List.map_cons, hcandidate row found hfound]
        exact .cons_cons _ ih
  exact hsublist.nodup (hrows.map haggregate)

theorem candidates_distinct (hrows : NumberedRows declarations) :
    ((equalityCandidates traits declarations canonical).map (·.aggregate)).Nodup := by
  have hrecords : (declarations.records.map (·.id)).Nodup :=
    nodup_of_numbered fun position row hrow => hrows.records position row hrow
  have hunions : (declarations.unions.map (·.id)).Nodup :=
    nodup_of_numbered fun position row hrow => hrows.unions position row hrow
  unfold equalityCandidates
  rw [List.map_append]
  refine List.nodup_append.mpr ⟨?_, ?_, ?_⟩
  · refine nodup_filterMap_aggregate hrecords (fun _ _ h => AggregateId.recordAggregate.inj h) ?_
    intro row found h
    split at h <;> cases h
    rfl
  · refine nodup_filterMap_aggregate hunions (fun _ _ h => AggregateId.unionAggregate.inj h) ?_
    intro row found h
    split at h <;> cases h
    rfl
  · intro first hfirst second hsecond heq
    obtain ⟨record, hrecord, rfl⟩ := List.mem_map.mp hfirst
    obtain ⟨union, hunion, rfl⟩ := List.mem_map.mp hsecond
    obtain ⟨row, -, hrow⟩ := List.mem_filterMap.mp hrecord
    obtain ⟨other, -, hother⟩ := List.mem_filterMap.mp hunion
    split at hrow <;> cases hrow
    split at hother <;> cases hother
    cases heq

/-- The rounds end, and when they end without an error, at the fixpoint. -/
theorem equalityRounds_end (hrows : NumberedRows declarations) :
    Outcome.Ends (fun fuel => turns (equalityTurn traits canonical declarations) fuel
      ⟨equalityCandidates traits declarations canonical, []⟩) fun last =>
        EqualityFixpoint traits declarations canonical last.possible ∧
        (last.possible.map (·.aggregate)).Nodup ∧
        ∀ first ∈ equalityCandidates traits declarations canonical,
          ((candidateAssignment last.possible).available first.aggregate ↔
            ¬ ∃ failure ∈ last.unavailable, failure.aggregate = first.aggregate) := by
  have hdistinct : ((equalityCandidates traits declarations canonical).map (·.aggregate)).Nodup :=
    candidates_distinct hrows
  obtain ⟨parameters, requirable, hceiling, hparameters, hrequirable⟩ :=
    exists_boundUniverse traits declarations canonical
  let ceiling := hparameters.toFinset ×ˢ hrequirable.toFinset
  have hinside : ∀ atom : BoundAtom, atom.1 ∈ parameters ∧ atom.2 ∈ requirable → atom ∈ ceiling := by
    rintro ⟨parameter, required⟩ ⟨hparameter, hrequired⟩
    rw [Finset.mem_product, Set.Finite.mem_toFinset, Set.Finite.mem_toFinset]
    exact ⟨hparameter, hrequired⟩
  have hends : Outcome.Ends (fun fuel => turns (equalityTurn traits canonical declarations) fuel
      ⟨equalityCandidates traits declarations canonical, []⟩) _ :=
    turns_ends (fun rounds => (rounds.possible.map (roomLeft ceiling)).sum) ?_ ?_ _
      (RoundsInvariant.start hdistinct hceiling)
  · obtain ⟨outcome, hsettles, hlast⟩ := hends
    refine ⟨outcome, hsettles, fun value hvalue => ?_⟩
    obtain ⟨last, hinvariant, hdone⟩ := hlast value hvalue
    obtain ⟨summaries, round, hrounded, htaken⟩ := equalityTurn_eq_ok hdone
    have hafter := hinvariant.step hdistinct hceiling hrounded
    cases hchanged : round.changed with
    | true => simp [hchanged] at htaken
    | false =>
      simp only [hchanged, Bool.false_eq_true, if_false, Turn.done.injEq] at htaken
      subst htaken
      refine ⟨hafter.fixpoint (hinvariant.distinct hdistinct) hrounded hchanged,
        hafter.distinct hdistinct, ?_⟩
      intro first hfirst
      constructor
      · rintro ⟨candidate, hcandidate, hsame⟩ ⟨failure, hfailure, hfailed⟩
        exact (hafter.failed failure hfailure).2 candidate hcandidate (hsame.trans hfailed.symm)
      · intro hnone
        exact (hafter.dropped first hfirst).resolve_right hnone
  · intro rounds _
    unfold equalityTurn
    cases equalityRound traits canonical declarations rounds <;> simp
  · intro rounds next hinvariant hturn
    obtain ⟨summaries, round, hrounded, htaken⟩ := equalityTurn_eq_ok hturn
    cases hchanged : round.changed with
    | false => simp [hchanged] at htaken
    | true =>
      simp only [hchanged, if_true, Turn.again.injEq] at htaken
      subst htaken
      refine ⟨hinvariant.step hdistinct hceiling hrounded, ?_⟩
      have hroom := hrounded.room fun candidate summary hmem atom hatom =>
        hinside atom (hrounded.bounded hceiling hinvariant hmem atom hatom)
      rw [hchanged] at hroom
      exact hroom

end Blorp.Check
