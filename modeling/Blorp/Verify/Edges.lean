import Blorp.Verify.Blocks

/-!
# What an edge out of a block leaves

A nested block sees the owners of the block that it was entered from.  When it
leaves, by whatever edge, its own owners are all discharged, so what is held again
is what the block around it held, less the owners the edge has flagged.
-/

namespace Blorp.Verify

open Check (Span)
open Specialize
open Own
open Fuel

variable {context : Context} {state after : VerificationState} {span : Span}

/-! ## Owners of a nested block -/

variable {cursor : BlockEnd} {id value root : Nat} {u : Unit} {facts : VerificationFacts}
variable {transfer : ReturnTransfer} {joinType : TypeRef} {selection : OwnedSelection}
variable {incoming : Incoming}

theorem Scoped.enter (hs : Scoped state) (hcursor : state.blockEnd.le cursor) :
    Scoped (enter state cursor.nextValue cursor.nextOwner) := by
  refine ⟨hs.toOrdered.enter hcursor, fun id known parent hid hparent => ?_⟩
  rw [valueEntry_enter hs.toOrdered hcursor] at hid
  exact (hs.parents id known parent hid hparent).mono hcursor

theorem Ordered.held_unflagged (hs : Ordered state) (h : held state id = some value) :
    dischargedAlready state.discharged id = false := by
  rw [held_eq_some, ownerEntry] at h
  cases henclosing : enclosingOwner state.facts id with rw [henclosing] at h
  | some entry =>
    simp only at h
    split at h
    · cases h
    · next hflag => exact (Bool.not_eq_true _).mp hflag
  | none =>
    simp only at h
    split at h
    · cases h
    · exact hs.flags id (by omega)

/-- No owner of the block itself is live. -/
def Retired (state : VerificationState) : Prop :=
  ∀ (i : Nat) value, state.owners[i]? ≠ some (.activeOwner value)

theorem completeOwners_retired {edge : ExitEdge} {first : Nat}
    (h : completeOwners state.owners first none edge span = .ok u) : Retired state := by
  intro i value hi
  unfold completeOwners at h
  split at h
  · cases h
  · next hfind =>
    rw [List.find?_eq_none] at hfind
    have hmem : (OwnerState.activeOwner value, i + first) ∈ state.owners.zipIdx first := by
      rw [List.mk_mem_zipIdx_iff_le_and_getElem?_sub]
      exact ⟨Nat.le_add_left first i, by rwa [Nat.add_sub_cancel]⟩
    exact hfind _ hmem (by simp [remainsLive])

theorem enclosingOwner_congr {facts' : VerificationFacts} (h : facts'.enclosing = facts.enclosing)
    (id : Nat) : enclosingOwner facts' id = enclosingOwner facts id := by
  unfold enclosingOwner
  rw [h]

theorem Retired.held_none (hr : Retired state) (h : enclosingOwner state.facts id = none) :
    held state id = none := by
  cases hheld : held state id with
  | none => rfl
  | some value =>
    rw [held_eq_some, ownerEntry, h] at hheld
    simp only at hheld
    split at hheld
    · cases hheld
    · exact absurd hheld (hr _ value)

/-- Once its own owners are retired, a nested block holds what the block around it
held, except for the owners flagged since. -/
theorem Retired.held_eq (hr : Retired after) (hs : Ordered state)
    (hcursor : state.blockEnd.le cursor)
    (hf : Follows (enter state cursor.nextValue cursor.nextOwner) after) (id : Nat) :
    held after id = if dischargedAlready after.discharged id then none else held state id := by
  rw [← held_enter hs hcursor id]
  have hsame := enclosingOwner_congr hf.enclosing id
  cases henclosing : enclosingOwner (enter state cursor.nextValue cursor.nextOwner).facts id with
  | some entry =>
    unfold held ownerEntry
    rw [hsame, henclosing]
    by_cases hflag : dischargedAlready after.discharged id = true
    · simp [hflag]
    · -- a flag is never taken back, so it was not set on entry either
      have hbefore : dischargedAlready state.discharged id = false := by
        by_contra hset
        exact hflag (hf.flags id ((Bool.not_eq_false _).mp hset))
      simp [hflag, enter, hbefore]
  | none =>
    have hentered : Retired (enter state cursor.nextValue cursor.nextOwner) := by
      intro i value
      simp [enter]
    rw [hr.held_none (hsame.trans henclosing), hentered.held_none henclosing, ite_self]

theorem mem_enclosingOwners {entry : OwnerState} (h : enclosingOwner facts id = some entry) :
    (entry, id) ∈ facts.enclosingOwners := by
  unfold enclosingOwner at h
  split at h
  · next scope hfind =>
    have hholds := List.find?_some hfind
    simp only [EnclosingScope.holdsOwner, Bool.and_eq_true, decide_eq_true_eq] at hholds
    refine List.mem_flatMap.mpr ⟨scope, List.mem_of_find?_eq_some hfind, ?_⟩
    rw [List.mk_mem_zipIdx_iff_le_and_getElem?_sub]
    exact ⟨hholds.1, h⟩
  · cases h

theorem held_mem_enclosingOwners (hs : Ordered state) (hcursor : state.blockEnd.le cursor)
    (hf : Follows (enter state cursor.nextValue cursor.nextOwner) after)
    (h : held state id = some value) : (.activeOwner value, id) ∈ after.facts.enclosingOwners := by
  rw [← held_enter hs hcursor, held_eq_some, ownerEntry] at h
  refine mem_enclosingOwners ?_
  rw [enclosingOwner_congr hf.enclosing]
  cases henclosing : enclosingOwner (enter state cursor.nextValue cursor.nextOwner).facts id with
  | some entry =>
    rw [henclosing] at h
    simp only at h
    split at h
    · cases h
    · exact h
  | none =>
    rw [henclosing] at h
    simp [enter] at h

/-! ## Moved values -/

theorem consumeYield_cases {loopFloor : Option Nat}
    (h : consumeYield context loopFloor state transfer joinType span = .ok after) :
    (∃ value, transfer = .unmanagedReturn value ∧ after = state) ∨
      ∃ value owner slot, transfer = .ownedReturn value owner ∧ Takes state after value owner ∧
        movable loopFloor slot = true ∧ after = state.dischargeSlot slot := by
  obtain ⟨known, -, h⟩ := Except.peel h
  obtain ⟨_, -, h⟩ := Except.peel h
  obtain ⟨needsOwner, -, h⟩ := Except.peel h
  cases transfer with
  | unmanagedReturn value =>
    cases needsOwner with
    | true => cases h
    | false =>
      cases h
      exact .inl ⟨value, rfl, rfl⟩
  | ownedReturn value owner =>
    cases needsOwner with
    | false => cases h
    | true =>
      obtain ⟨slot, hyielded, h⟩ := Except.peel h
      cases h
      obtain ⟨found, hslot, hyielded⟩ := Except.peel hyielded
      split at hyielded
      · next hmovable =>
        obtain ⟨entry, hentry, hyielded⟩ := Except.peel hyielded
        rw [knownOwner_eq_ok] at hentry
        cases entry with
        | dischargedOwner => cases hyielded
        | activeOwner owned =>
          simp only at hyielded
          split at hyielded
          · next heq =>
            cases hyielded
            have hheld : held state owner = some value := by
              rw [held_eq_some, hentry, heq]
              rfl
            exact .inr ⟨value, owner, slot, rfl, ⟨hheld, span, slot, hslot, rfl⟩, hmovable, rfl⟩
          · cases hyielded
      · cases hyielded

/-- A transfer moves the owner that holds its value, if it has one. -/
inductive Moves (state : VerificationState) : ReturnTransfer → VerificationState → Prop where
  | unmanaged (value : Nat) : Moves state (.unmanagedReturn value) state
  | owned {value owner : Nat} {after : VerificationState} (takes : Takes state after value owner) :
      Moves state (.ownedReturn value owner) after

theorem Moves.follows (h : Moves state transfer after) : Follows state after := by
  cases h with
  | unmanaged value => exact .refl state
  | owned takes => exact .takes takes

theorem consumeYield_moves {loopFloor : Option Nat}
    (h : consumeYield context loopFloor state transfer joinType span = .ok after) :
    Moves state transfer after := by
  rcases consumeYield_cases h with ⟨value, rfl, rfl⟩ | ⟨value, owner, slot, rfl, htakes, -, -⟩
  · exact .unmanaged value
  · exact .owned htakes

def Unflagging (state after : VerificationState) : Prop := after.discharged = state.discharged

theorem consumeYield_unflagging
    (h : consumeYield context none state transfer joinType span = .ok after) :
    Unflagging state after := by
  rcases consumeYield_cases h with ⟨value, -, rfl⟩ | ⟨value, owner, slot, -, -, hmovable, rfl⟩
  · rfl
  · cases slot with
    | localSlot index => rfl
    | enclosingSlot ordinal => cases hmovable

theorem foldlM_unflagging {ε α : Type} {f : VerificationState → α → Except ε VerificationState}
    (follows : ∀ state x after, f state x = .ok after → Follows state after)
    (unflagging : ∀ state x after, f state x = .ok after → Unflagging state after) (xs : List α)
    (h : xs.foldlM f state = .ok after) : Follows state after ∧ Unflagging state after := by
  refine Except.foldlM_invariant
    (I := fun _ later => Follows state later ∧ Unflagging state later) ?_ xs [] state after
    ⟨.refl state, rfl⟩ h
  rintro passed x later next ⟨hfollows, hflags⟩ hx
  exact ⟨hfollows.trans (follows later x next hx), (unflagging later x next hx).trans hflags⟩

theorem Retired.held_unflagging (hr : Retired after) (hs : Ordered state)
    (hcursor : state.blockEnd.le cursor)
    (hf : Follows (enter state cursor.nextValue cursor.nextOwner) after)
    (hflags : after.discharged = state.discharged) (id : Nat) : held after id = held state id := by
  rw [hr.held_eq hs hcursor hf, hflags]
  cases hheld : held state id with
  | none => simp
  | some value => rw [hs.held_unflagged hheld, if_neg (by simp)]

inductive MovesAll : VerificationState → List ReturnTransfer → VerificationState → Prop where
  | nil {state : VerificationState} : MovesAll state [] state
  | cons {state between after : VerificationState} {transfer : ReturnTransfer}
      {transfers : List ReturnTransfer} (first : Moves state transfer between)
      (rest : MovesAll between transfers after) : MovesAll state (transfer :: transfers) after

theorem MovesAll.follows {transfers : List ReturnTransfer} (h : MovesAll state transfers after) :
    Follows state after := by
  induction h with
  | nil => exact .refl _
  | cons first rest ih => exact first.follows.trans ih

theorem MovesAll.of_zip {β : Type}
    {check : VerificationState → ReturnTransfer × β → Except Diagnostic VerificationState}
    (hcheck : ∀ state transfer b after, check state (transfer, b) = .ok after →
      Moves state transfer after) :
    ∀ (transfers : List ReturnTransfer) (bs : List β) (state : VerificationState),
      transfers.length = bs.length → (transfers.zip bs).foldlM check state = .ok after →
      MovesAll state transfers after := by
  intro transfers
  induction transfers with
  | nil =>
    intro bs state _ h
    cases h
    exact .nil
  | cons transfer transfers ih =>
    intro bs state hlength h
    cases bs with
    | nil => cases hlength
    | cons b bs =>
      obtain ⟨between, hbetween, h⟩ := Except.peel h
      exact .cons (hcheck state transfer b between hbetween)
        (ih bs between (Nat.succ.inj hlength) h)

/-! ## Yields -/

theorem verifyEnteringDischarge_eq_ok {entering : List OwnerId} {entry : List Bool}
    (h : verifyEnteringDischarge entering entry state span (.activeOwner value, id) = .ok u)
    (hentry : dischargedAlready entry id = false) :
    dischargedAlready state.discharged id = true ↔ id ∈ entering := by
  unfold verifyEnteringDischarge at h
  simp only [hentry, Bool.not_false, Bool.and_true] at h
  have hmem : (entering.any fun owner => decide (owner = id)) = true ↔ id ∈ entering := by simp
  cases hflag : dischargedAlready state.discharged id with
  | true =>
    cases henters : entering.any fun owner => decide (owner = id) with
    | true => simpa [henters] using hmem
    | false => simp [hflag, henters] at h
  | false =>
    cases henters : entering.any fun owner => decide (owner = id) with
    | true => simp [hflag, henters] at h
    | false => simpa [henters] using hmem

/-- **A yield leaves the owners that its join's entry leaves.** -/
theorem verifyJoinTransfers_checked {join : OwnedJoin} {outputs : OwnedJoinOutputs}
    {start entered : VerificationState} (hs : Scoped start) (hcursor : start.blockEnd.le cursor)
    (hf : Follows (enter start cursor.nextValue cursor.nextOwner) state)
    (hentered : transferJoinEntry join start = .ok entered)
    (h : verifyJoinTransfers context join start.discharged state outputs = .ok u) :
    ∃ moved, MovesAll state (outputs.transfer :: outputs.carried) moved ∧
      ∀ id, held moved id = held entered id := by
  obtain ⟨_, hlength, h⟩ := Except.peel h
  obtain ⟨first, hfirst, h⟩ := Except.peel h
  obtain ⟨moved, hmoved, h⟩ := Except.peel h
  obtain ⟨_, hretired, hentering⟩ := Except.peel h
  rw [require_eq_ok, decide_eq_true_eq] at hlength
  have hmoves : MovesAll state (outputs.transfer :: outputs.carried) moved :=
    .cons (consumeYield_moves hfirst)
      (.of_zip (fun _ _ _ _ h => consumeYield_moves h) _ _ _ hlength hmoved)
  refine ⟨moved, hmoves, fun id => ?_⟩
  have hflags : moved.discharged = state.discharged :=
    (foldlM_unflagging (fun _ _ _ h => (consumeYield_moves h).follows)
      (fun _ _ _ h => consumeYield_unflagging h) _ hmoved).2.trans (consumeYield_unflagging hfirst)
  rw [(completeOwners_retired hretired).held_eq hs.toOrdered hcursor (hf.trans hmoves.follows),
    hflags, transferJoinEntry_held hentered]
  cases hheld : held start id with
  | none => simp
  | some value =>
    have hmem := held_mem_enclosingOwners hs.toOrdered hcursor hf hheld
    have hchecked := Except.forM_eq_ok.mp hentering _ hmem
    exact if_congr (verifyEnteringDischarge_eq_ok hchecked (hs.toOrdered.held_unflagged hheld))
      rfl rfl

/-! ## Selection edges -/

variable {definition : OwnedDefinition} {projection : ProjectionContext}
variable {unions : List ConcreteUnion} {records : List ConcreteRecord}
variable {targets : List SelectionTarget}

theorem introduceResult_unflagging {introduced : Option OwnerId}
    (h : introduceResult state definition introduced = .ok after) : Unflagging state after := by
  cases introduced with
  | none =>
    cases h
    rfl
  | some id =>
    obtain ⟨-, rfl⟩ := introduceOwner_eq_ok.mp h
    rfl

theorem edgeOperation_moved
    (hallowed : edgeOperationAllowed root facts (.defineValue definition) = true)
    (h : dischargeOperands context state definition = .ok after) : after = state := by
  obtain ⟨id, valueType, operation, result, occurrence⟩ := definition
  cases operation with
  | readRecordFieldDefinition field argument | payloadDefinition field value
  | listElementDefinition index value | listSuffixDefinition argument skipped =>
    exact (Outcome.ok.inj h).symm
  | _ => cases hallowed

theorem edgeOperation_unflagging {block after : VerifiedBlock} {operation : OwnershipOperation}
    (hs : Ordered block.state) (hfirst : facts.firstOwner = block.state.facts.firstOwner)
    (hallowed : edgeOperationAllowed root facts operation = true)
    (h : verifyOperation context projection block operation = .ok after) :
    Unflagging block.state after.state ∧ after.pending = block.pending := by
  cases operation with
  | defineValue definition =>
    obtain ⟨next, hnext, h⟩ := Outcome.peel h
    cases h
    obtain ⟨candidate, moved, introduced, owned, hstages⟩ := verifyDefinition_stages hnext
    have hmoved := edgeOperation_moved hallowed hstages.discharges
    refine ⟨?_, rfl⟩
    show next.discharged = block.state.discharged
    rw [hstages.defines, ← hmoved, ← introduceResult_unflagging hstages.introduces]
    unfold noteParameter
    split <;> rfl
  | executeJoin join => cases hallowed
  | executeLoop loop => cases hallowed
  | acquireOwner id borrow occurrence =>
    obtain ⟨_, -, h⟩ := Outcome.peel h
    obtain ⟨next, hnext, h⟩ := Outcome.peel h
    rw [Outcome.liftM_eq_ok] at hnext
    obtain ⟨-, rfl⟩ := introduceOwner_eq_ok.mp hnext
    cases h
    exact ⟨rfl, rfl⟩
  | dropOwner id occurrence =>
    obtain ⟨next, hnext, h⟩ := Outcome.peel h
    rw [Outcome.liftM_eq_ok] at hnext
    cases h
    obtain ⟨_, htakes⟩ := dropOwner_takes hnext
    obtain ⟨_, slot, hslot, rfl⟩ := htakes.slot
    have hlocal : block.state.facts.firstOwner ≤ id := hfirst ▸ of_decide_eq_true hallowed
    rcases ownerSlot_cases hslot with ⟨entry, hentry, -⟩ | ⟨-, -, -, rfl⟩
    · rw [hs.enclosingOwner_none hlocal] at hentry
      cases hentry
    · exact ⟨rfl, rfl⟩

theorem edgeOperations_unflagging (operations : List OwnershipOperation) :
    ∀ {block after : VerifiedBlock}, Scoped block.state →
      facts.firstOwner = block.state.facts.firstOwner →
      operations.all (edgeOperationAllowed root facts) = true →
      operations.foldlM (verifyOperation context projection) block = .ok after →
      Unflagging block.state after.state ∧ after.pending = block.pending := by
  induction operations with
  | nil =>
    intro block after _ _ _ h
    cases h
    exact ⟨rfl, rfl⟩
  | cons operation operations ih =>
    intro block after hs hfirst hallowed h
    rw [List.all_cons, Bool.and_eq_true] at hallowed
    obtain ⟨next, hnext, h⟩ := Outcome.peel h
    have hgrows := verifyOperation_grows hs hnext
    obtain ⟨hflags, hpending⟩ := edgeOperation_unflagging hs.toOrdered hfirst hallowed.1 hnext
    obtain ⟨hflags', hpending'⟩ := ih (hgrows.follows.keeps hs)
      (hfirst.trans hgrows.follows.firstOwner.symm) hallowed.2 h
    exact ⟨hflags'.trans hflags, hpending'.trans hpending⟩

theorem consumeEdgeTransfer_moves {firstValue : Nat} {output : OwnedJoinParameter}
    (h : consumeEdgeTransfer context root firstValue span state (transfer, output) = .ok after) :
    Moves state transfer after ∧ Unflagging state after := by
  unfold consumeEdgeTransfer at h
  split at h
  · exact ⟨consumeYield_moves h, consumeYield_unflagging h⟩
  · cases h

/-- **A selection edge leaves the owners that the selection started with.** -/
theorem verifySelectionEdge_checked {facts : List PlaceFact} {reached : BlockEnd}
    {edge : OwnedSelectionEdge} {target : SelectionTarget} (hs : Scoped state)
    (hcursor : state.blockEnd.le cursor)
    (h : verifySelectionEdge context selection facts span (enter state cursor.nextValue
      cursor.nextOwner) edge target = .ok reached) :
    ∃ verified moved,
      verifyOperations context (.selectionProjection selection.scrutinee facts) edge.operations
        (enter state cursor.nextValue cursor.nextOwner) = .ok verified ∧
      verified.pending = [] ∧ MovesAll verified.state edge.transfers moved ∧
      Follows (enter state cursor.nextValue cursor.nextOwner) moved ∧
      (∀ id, held moved id = held state id) ∧ reached = moved.blockEnd := by
  obtain ⟨_, hallowed, h⟩ := Outcome.peel h
  obtain ⟨verified, hverified, h⟩ := Outcome.peel h
  obtain ⟨_, hlength, h⟩ := Outcome.peel h
  obtain ⟨moved, hmoved, h⟩ := Outcome.peel h
  obtain ⟨_, hretired, h⟩ := Outcome.peel h
  rw [Outcome.liftM_eq_ok] at hallowed hlength hmoved hretired
  rw [require_eq_ok] at hallowed
  rw [require_eq_ok, decide_eq_true_eq] at hlength
  cases h
  have hentered := hs.enter hcursor
  have hgrows := verifyOperations_grows hentered hverified
  obtain ⟨hflags, hpending⟩ :=
    edgeOperations_unflagging edge.operations hentered rfl hallowed hverified
  obtain ⟨hfollows, hflags'⟩ :=
    foldlM_unflagging (fun _ _ _ h => (consumeEdgeTransfer_moves h).1.follows)
      (fun _ _ _ h => (consumeEdgeTransfer_moves h).2) _ hmoved
  refine ⟨verified, moved, hverified, hpending, ?_, hgrows.follows.trans hfollows, ?_, rfl⟩
  · exact .of_zip (fun _ _ _ _ h => (consumeEdgeTransfer_moves h).1) _ _ _ hlength hmoved
  · exact (completeOwners_retired hretired).held_unflagging hs.toOrdered hcursor
      (hgrows.follows.trans hfollows) (hflags'.trans hflags)

/-! ## Selections -/

def successors : OwnedDecisionNode → Option (Nat × Nat)
  | .testVariant _ _ yes no | .testListLength _ _ yes no | .testLiteral _ _ yes no => some (yes, no)
  | .enterArm _ => none

/-- A verified selection: its scrutinee is live, its tests lead to nodes, and each of
its edges was verified from the selection's own state. -/
structure SelectionChecked (context : Context) (selection : OwnedSelection)
    (targets : List SelectionTarget) (state : VerificationState) : Prop where
  live : LiveOperand state selection.scrutinee
  entry : selection.entry < selection.nodes.length
  tests : ∀ (position : Nat) node yes no, selection.nodes[position]? = some node →
    successors node = some (yes, no) → yes < selection.nodes.length ∧ no < selection.nodes.length
  edges : ∀ edge, .enterArm edge ∈ selection.nodes → ∃ cursor facts span target reached,
    state.blockEnd.le cursor ∧
    targets.find? (fun target => edge.arm = target.id) = some target ∧
    verifySelectionEdge context selection facts span
      (enter state cursor.nextValue cursor.nextOwner) edge target = .ok reached

theorem propagateSelection_lt {incoming' : Incoming} {position target : Nat}
    {facts : Option (List PlaceFact)}
    (h : propagateSelection incoming position target facts span = .ok incoming') :
    target < position := by
  unfold propagateSelection at h
  split at h
  · cases h
  · omega

theorem examineNode_successors {nodes : List OwnedDecisionNode} {rootType : TypeRef}
    {incoming' : Incoming} {position yes no : Nat} {node : OwnedDecisionNode}
    (h : examineNode nodes rootType unions span records incoming position = .ok incoming')
    (hnode : nodes[position]? = some node) (hsuccessors : successors node = some (yes, no)) :
    yes < position ∧ no < position := by
  unfold examineNode at h
  rw [hnode] at h
  split at h
  · next heq => cases heq
  · next facts heq hincoming =>
    cases heq
    obtain ⟨branches, -, h⟩ := Except.peel h
    cases node with
    | enterArm edge => cases hsuccessors
    | _ =>
      cases hsuccessors
      obtain ⟨_, hyes, hno⟩ := Except.peel h
      exact ⟨propagateSelection_lt hyes, propagateSelection_lt hno⟩
  · cases h

theorem selectionPossibilities_tests {scrutinee : KnownValue}
    (h : selectionPossibilities selection scrutinee unions records = .ok incoming) :
    selection.entry < selection.nodes.length ∧
      ∀ (position : Nat) node yes no, selection.nodes[position]? = some node →
        successors node = some (yes, no) →
        yes < selection.nodes.length ∧ no < selection.nodes.length := by
  obtain ⟨_, hentry, h⟩ := Except.peel h
  rw [require_eq_ok, decide_eq_true_eq] at hentry
  refine ⟨hentry, fun position node yes no hnode hsuccessors => ?_⟩
  have hexamined := Except.foldlM_invariant
    (I := fun passed (_ : Incoming) => ∀ position ∈ passed, ∀ node yes no,
      selection.nodes[position]? = some node → successors node = some (yes, no) →
      yes < position ∧ no < position)
    (fun passed k _ _ hpassed hk => by
      intro position hposition node yes no hnode hsuccessors
      rcases List.mem_append.mp hposition with hposition | hposition
      · exact hpassed position hposition node yes no hnode hsuccessors
      · rw [List.mem_singleton] at hposition
        subst hposition
        exact examineNode_successors hk hnode hsuccessors)
    _ [] _ _ (by simp) h
  obtain ⟨hposition, -⟩ := List.getElem?_eq_some_iff.mp hnode
  have := hexamined position (by simpa using hposition) node yes no hnode hsuccessors
  omega

theorem BlockEnd.le_enter (state : VerificationState) (cursor : BlockEnd) :
    cursor.le (enter state cursor.nextValue cursor.nextOwner).blockEnd := by
  simp [BlockEnd.le, VerificationState.blockEnd, enter]

theorem verifySelectionNode_checked {at_ reached : SelectionCursor}
    {entry : OwnedDecisionNode × Nat} (hs : Scoped state) (hcursor : state.blockEnd.le at_.cursor)
    (h : verifySelectionNode context selection targets state incoming span at_ entry =
      .ok reached) :
    at_.cursor.le reached.cursor ∧ ∀ edge, entry.1 = .enterArm edge → ∃ facts target after,
      targets.find? (fun target => edge.arm = target.id) = some target ∧
      verifySelectionEdge context selection facts span
        (enter state at_.cursor.nextValue at_.cursor.nextOwner) edge target = .ok after := by
  obtain ⟨node, position⟩ := entry
  cases node with
  | enterArm edge =>
    obtain ⟨target, htarget, h⟩ := Outcome.peel h
    rw [Outcome.liftM_eq_ok, selectionTarget, orVerificationError_eq_ok] at htarget
    split at h
    · cases h
    · cases h
    · next facts hfacts =>
      obtain ⟨after, hafter, h⟩ := Outcome.peel h
      cases h
      obtain ⟨_, moved, -, -, -, hfollows, -, rfl⟩ := verifySelectionEdge_checked hs hcursor hafter
      refine ⟨(BlockEnd.le_enter state at_.cursor).trans hfollows.grows, fun other hother => ?_⟩
      cases hother
      exact ⟨facts, target, _, htarget, hafter⟩
  | testVariant place variant yes no | testListLength place test yes no
  | testLiteral place literal yes no =>
    cases h
    exact ⟨.refl _, fun edge hedge => by cases hedge⟩

/-- **What a verified selection guarantees its paths.** -/
theorem verifySelection_checked {reached : BlockEnd} (hs : Scoped state)
    (hcursor : state.blockEnd.le cursor)
    (h : verifySelection context selection targets state cursor = .ok reached) :
    cursor.le reached ∧ SelectionChecked context selection targets state := by
  obtain ⟨scrutinee, -, h⟩ := Outcome.peel h
  obtain ⟨_, hlive, h⟩ := Outcome.peel h
  obtain ⟨incoming, hincoming, h⟩ := Outcome.peel h
  obtain ⟨_, -, h⟩ := Outcome.peel h
  obtain ⟨final, hnodes, h⟩ := Outcome.peel h
  obtain ⟨_, -, h⟩ := Outcome.peel h
  rw [Outcome.liftM_eq_ok] at hincoming
  cases h
  obtain ⟨hentry, htests⟩ := selectionPossibilities_tests hincoming
  obtain ⟨hle, hvisits⟩ := Outcome.foldlM_visits (I := fun at_ => cursor.le at_.cursor) _
    (fun entry _ at_ next hle hnext =>
      hle.trans (verifySelectionNode_checked hs (hcursor.trans hle) hnext).1)
    _ _ (.refl cursor) hnodes
  refine ⟨hle, verifyMatchArgument_live hlive, hentry, htests, fun edge hedge => ?_⟩
  obtain ⟨position, hposition, hnode⟩ := List.mem_iff_getElem.mp hedge
  obtain ⟨at_, next, hle, hnext⟩ := hvisits (.enterArm edge, position) (by
    rw [List.mk_mem_zipIdx_iff_getElem?, List.getElem?_eq_getElem hposition, hnode])
  obtain ⟨-, hedges⟩ := verifySelectionNode_checked hs (hcursor.trans hle) hnext
  obtain ⟨facts, target, after, htarget, hverified⟩ := hedges edge rfl
  exact ⟨at_.cursor, facts, _, target, after, hcursor.trans hle, htarget, hverified⟩

end Blorp.Verify
