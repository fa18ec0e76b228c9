import Blorp.Verify.Effects

/-!
# What the operations of a block do

The stages of a definition, the parameters a construct introduces, the owners a step
drops, and from these what a verified list of operations leaves: a state further on
in the same block, and the controls that wait for it (`verifyOperations_grows`).
-/

namespace Blorp.Verify

open Check (Span)
open Specialize
open Own
open Fuel

variable {context : Context} {state after : VerificationState} {span : Span}

/-! ## Definitions -/

/-- A verified definition: its operands are checked in the state before it, discharged,
and then its own owner and value are introduced. -/
structure DefinitionStages (context : Context) (state : VerificationState)
    (projection : ProjectionContext) (definition : OwnedDefinition) (candidate : KnownValue)
    (moved : VerificationState) (introduced : Option OwnerId)
    (owned after : VerificationState) : Prop where
  next : definition.id = state.blockEnd.nextValue
  result : candidate.result = definition.result
  checked : OperationChecked context state projection definition definition.operation
    candidate.projectionParent
  discharges : dischargeOperands context state definition = .ok moved
  owns : ResultChecked context definition introduced
  introduces : introduceResult moved definition introduced = .ok owned
  defines : after = (noteParameter owned definition).withValue candidate

variable {projection : ProjectionContext} {definition : OwnedDefinition} {block : VerifiedBlock}

theorem verifyDefinition_stages
    (h : verifyDefinition context state projection definition = .ok after) :
    ∃ candidate moved introduced owned, DefinitionStages context state projection definition
      candidate moved introduced owned after := by
  unfold verifyDefinition verifyDefinitionType at h
  obtain ⟨candidate, hcandidate, h⟩ := Outcome.peel h
  obtain ⟨_, hnext, hcandidate⟩ := Outcome.peel hcandidate
  obtain ⟨_, -, hcandidate⟩ := Outcome.peel hcandidate
  obtain ⟨moved, hmoved, h⟩ := Outcome.peel h
  obtain ⟨introduced, hintroduced, h⟩ := Outcome.peel h
  obtain ⟨owned, howned, h⟩ := Outcome.peel h
  rw [Outcome.liftM_eq_ok] at hnext hintroduced howned
  rw [require_eq_ok, decide_eq_true_eq] at hnext
  obtain ⟨hresult, hchecked⟩ := operationValue_checked hcandidate
  cases h
  exact ⟨candidate, moved, introduced, owned, hnext, hresult, hchecked, hmoved,
    verifyDefinitionResult_checked hintroduced, howned, rfl⟩

variable {introduced : Option OwnerId} {output : OwnedJoinParameter} {drops : List (OwnerId × Span)}

theorem introduceResult_follows (h : introduceResult state definition introduced = .ok after) :
    Follows state after := by
  cases introduced with
  | none =>
    cases h
    exact .refl state
  | some id =>
    obtain ⟨-, rfl⟩ := introduceOwner_eq_ok.mp h
    exact .introduceOwner state definition.id

theorem DefinitionStages.follows {candidate : KnownValue} {moved owned : VerificationState}
    (h : DefinitionStages context state projection definition candidate moved introduced owned
      after) (hs : Scoped state) : Follows state after := by
  have hmoved := dischargeOperands_follows hs h.discharges
  have howned := hmoved.trans (introduceResult_follows h.introduces)
  have hnoted := howned.trans (.noteParameter owned definition)
  rw [h.defines]
  refine hnoted.trans (.withValue (hnoted.keeps hs).toOrdered fun parent hparent => ?_)
  exact ((h.checked.parent_live hparent).within hs.toOrdered).mono hnoted.grows

/-! ## Parameters -/

/-- A join output, arm input, loop header or loop output is the block's next value, and
a managed one is held by the block's next owner. -/
inductive ParameterIntroduced (state : VerificationState) :
    OwnedJoinParameter → VerificationState → Prop where
  | unmanaged {parameter known} (next : parameter.id = state.blockEnd.nextValue)
      (result : known.result = .unmanagedResult) (unprojected : known.projectionParent = none) :
      ParameterIntroduced state (.unmanagedJoinParameter parameter) (state.withValue known)
  | managed {parameter owner known} (next : parameter.id = state.blockEnd.nextValue)
      (nextOwner : owner = state.blockEnd.nextOwner) (result : known.result = .ownedResult owner)
      (unprojected : known.projectionParent = none) :
      ParameterIntroduced state (.managedJoinParameter parameter owner)
        (VerificationState.withValue
          { state with owners := state.owners ++ [.activeOwner parameter.id] } known)

theorem introduceCarriedParameter_introduced
    (h : introduceCarriedParameter context state output = .ok after) :
    ParameterIntroduced state output after := by
  unfold introduceCarriedParameter introduceJoinParameter at h
  obtain ⟨_, hnext, h⟩ := Except.peel h
  obtain ⟨_, -, h⟩ := Except.peel h
  obtain ⟨needsOwner, -, h⟩ := Except.peel h
  rw [require_eq_ok, decide_eq_true_eq] at hnext
  cases needsOwner with
  | false =>
    cases output with
    | unmanagedJoinParameter parameter =>
      cases h
      exact .unmanaged hnext rfl rfl
    | managedJoinParameter parameter owner => cases h
  | true =>
    cases output with
    | unmanagedJoinParameter parameter => cases h
    | managedJoinParameter parameter owner =>
      obtain ⟨owned, howned, h⟩ := Except.peel h
      obtain ⟨hnextOwner, rfl⟩ := introduceOwner_eq_ok.mp howned
      cases h
      exact .managed hnext hnextOwner rfl rfl

theorem ParameterIntroduced.follows (h : ParameterIntroduced state output after)
    (hs : Scoped state) : Follows state after := by
  cases h with
  | unmanaged next result unprojected =>
    refine .withValue hs.toOrdered fun parent hparent => ?_
    rw [unprojected] at hparent
    cases hparent
  | @managed parameter owner known next nextOwner result unprojected =>
    have howned := Follows.introduceOwner state parameter.id
    refine howned.trans (.withValue (howned.keeps hs).toOrdered fun parent hparent => ?_)
    rw [unprojected] at hparent
    cases hparent

theorem introduceOutputs_follows {outputs : List OwnedJoinParameter} (hs : Scoped state)
    (h : introduceOutputs context outputs state = .ok after) : Follows state after :=
  Follows.foldlM (fun _ _ _ hs h => (introduceCarriedParameter_introduced h).follows hs) outputs
    state after hs h

/-! ## Drops -/

theorem dropOwner_follows {id : Nat} (h : dropOwner state id span = .ok after) :
    Follows state after := by
  obtain ⟨_, htakes⟩ := dropOwner_takes h
  exact .takes htakes

theorem dropOwners_follows (hs : Scoped state) (h : dropOwners state drops = .ok after) :
    Follows state after :=
  Follows.foldlM (fun _ _ _ _ h => dropOwner_follows h) drops state after hs h

theorem dropOwners_facts (h : dropOwners state drops = .ok after) : after.facts = state.facts := by
  refine Except.foldlM_invariant (I := fun _ later => later.facts = state.facts)
    (fun _ drop later next hlater hnext => ?_) drops [] state after rfl h
  obtain ⟨_, htakes⟩ := dropOwner_takes hnext
  obtain ⟨_, slot, -, rfl⟩ := htakes.slot
  exact (dischargeSlot_facts later slot).trans hlater

theorem dropOwners_held (drops : List (OwnerId × Span)) :
    ∀ state, dropOwners state drops = .ok after → ∀ other : Nat,
      held after other = if other ∈ drops.map (·.1) then none else held state other := by
  induction drops with intro state h other
  | nil =>
    cases h
    simp
  | cons drop drops ih =>
    unfold dropOwners at h
    rw [List.foldlM_cons] at h
    obtain ⟨next, hnext, h⟩ := Except.peel h
    obtain ⟨_, htakes⟩ := dropOwner_takes hnext
    rw [ih _ h other, htakes.releases other, List.map_cons]
    by_cases hother : other = drop.1
    · rw [if_pos (show other ∈ drop.1 :: drops.map (·.1) from List.mem_cons.mpr (.inl hother)),
        if_pos hother]
      split <;> rfl
    · rw [if_neg hother]
      exact if_congr (by rw [List.mem_cons, or_iff_right hother]) rfl rfl

theorem transferJoinEntry_held {join : OwnedJoin} (h : transferJoinEntry join state = .ok after)
    (other : Nat) :
    held after other = if other ∈ join.entering then none else held state other := by
  rw [dropOwners_held _ state h other, List.map_map]
  simp

theorem transferLoopEntry_eq_ok {loop : OwnedLoop}
    (h : transferLoopEntry context loop state = .ok after) :
    (∀ initial ∈ loop.headers.filterMap (takenInitial loop),
        held state initial.owner = some initial.value) ∧
      dropOwners state ((loop.headers.filterMap (takenInitial loop)).map fun initial =>
        (initial.owner, initial.span)) = .ok after := by
  unfold transferLoopEntry at h
  obtain ⟨_, hborrows, h⟩ := Outcome.peel h
  refine ⟨fun initial hinitial => ?_, Outcome.liftM_eq_ok.mp h⟩
  cases verifyBorrow_live (Outcome.forM_eq_ok.mp hborrows initial hinitial) with
  | owner _ holds => exact holds

/-! ## Operations -/

def PendingControl.start : PendingControl → VerificationState
  | .verifyJoin _ start => start
  | .verifyLoop _ start => start

/-- The block has gone on, with controls that start between its states. -/
structure Grows (block after : VerifiedBlock) : Prop where
  follows : Follows block.state after.state
  pending : ∀ control ∈ block.pending, control ∈ after.pending
  starts : ∀ control ∈ after.pending, control ∈ block.pending ∨
    (Follows block.state control.start ∧ control.start.blockEnd.le after.state.blockEnd)

theorem Grows.refl (block : VerifiedBlock) : Grows block block :=
  ⟨.refl _, fun _ h => h, fun _ h => .inl h⟩

theorem Grows.trans {first second third : VerifiedBlock} (h : Grows first second)
    (h' : Grows second third) : Grows first third where
  follows := h.follows.trans h'.follows
  pending control hcontrol := h'.pending control (h.pending control hcontrol)
  starts control hcontrol := by
    rcases h'.starts control hcontrol with hcontrol | ⟨hfollows, hend⟩
    · rcases h.starts control hcontrol with hcontrol | ⟨hfollows, hend⟩
      · exact .inl hcontrol
      · exact .inr ⟨hfollows, hend.trans h'.follows.grows⟩
    · exact .inr ⟨h.follows.trans hfollows, hend⟩

theorem Grows.of_state (h : Follows block.state after) :
    Grows block { block with state := after } :=
  ⟨h, fun _ hcontrol => hcontrol, fun _ hcontrol => .inl hcontrol⟩

theorem Grows.of_control {control : PendingControl} (hstart : Follows block.state control.start)
    (h : Follows control.start after) :
    Grows block ⟨after, block.pending ++ [control]⟩ where
  follows := hstart.trans h
  pending other hother := List.mem_append_left _ hother
  starts other hother := by
    rcases List.mem_append.mp hother with hother | hother
    · exact .inl hother
    · rw [List.mem_singleton] at hother
      subst hother
      exact .inr ⟨hstart, h.grows⟩

theorem verifyOperation_grows {after : VerifiedBlock} {operation : OwnershipOperation}
    (hs : Scoped block.state) (h : verifyOperation context projection block operation = .ok after) :
    Grows block after := by
  cases operation with
  | defineValue definition =>
    obtain ⟨next, hnext, h⟩ := Outcome.peel h
    cases h
    obtain ⟨_, _, _, _, hstages⟩ := verifyDefinition_stages hnext
    exact .of_state (hstages.follows hs)
  | executeJoin join =>
    obtain ⟨_, -, h⟩ := Outcome.peel h
    obtain ⟨entered, hentered, h⟩ := Outcome.peel h
    obtain ⟨introduced, hintroduced, h⟩ := Outcome.peel h
    rw [Outcome.liftM_eq_ok] at hentered hintroduced
    cases h
    have hdrops := dropOwners_follows hs hentered
    exact .of_control (.refl _) (hdrops.trans (introduceOutputs_follows (hdrops.keeps hs) hintroduced))
  | executeLoop loop =>
    obtain ⟨start, hstart, h⟩ := Outcome.peel h
    obtain ⟨introduced, hintroduced, h⟩ := Outcome.peel h
    rw [Outcome.liftM_eq_ok] at hintroduced
    cases h
    have hdrops := dropOwners_follows hs (transferLoopEntry_eq_ok hstart).2
    exact .of_control hdrops (introduceOutputs_follows (hdrops.keeps hs) hintroduced)
  | acquireOwner id borrow occurrence =>
    obtain ⟨_, -, h⟩ := Outcome.peel h
    obtain ⟨next, hnext, h⟩ := Outcome.peel h
    rw [Outcome.liftM_eq_ok] at hnext
    obtain ⟨-, rfl⟩ := introduceOwner_eq_ok.mp hnext
    cases h
    exact .of_state (.introduceOwner _ _)
  | dropOwner id occurrence =>
    obtain ⟨next, hnext, h⟩ := Outcome.peel h
    rw [Outcome.liftM_eq_ok] at hnext
    cases h
    exact .of_state (dropOwner_follows hnext)

theorem foldlM_verifyOperation_grows (operations : List OwnershipOperation) :
    ∀ {block after : VerifiedBlock}, Scoped block.state →
      operations.foldlM (verifyOperation context projection) block = .ok after →
      Grows block after := by
  induction operations with
  | nil =>
    intro block after _ h
    cases h
    exact .refl block
  | cons operation operations ih =>
    intro block after hs h
    rw [List.foldlM_cons] at h
    obtain ⟨next, hnext, h⟩ := Outcome.peel h
    have hgrows := verifyOperation_grows hs hnext
    exact hgrows.trans (ih (hgrows.follows.keeps hs) h)

/-- **A verified block goes on from its start, and its controls start within it.** -/
theorem verifyOperations_grows {operations : List OwnershipOperation} {after : VerifiedBlock}
    (hs : Scoped state) (h : verifyOperations context projection operations state = .ok after) :
    Grows ⟨state, []⟩ after :=
  foldlM_verifyOperation_grows operations hs h

end Blorp.Verify
