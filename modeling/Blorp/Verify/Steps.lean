import Blorp.Verify.Calls

/-!
# Executing a verified block

Every part of a verified block, executed, stays in step with the verifier: however it
goes through selections, arms and loop iterations, it comes to the end of the block
with the state the verifier leaves, or leaves by an edge of the loop around it with
what was held before that loop (`blockSound`).  Owned parameters are left to the
function's own block.
-/

namespace Blorp.Verify

open Specialize
open Own
open Runs Obligations
open Fuel

variable {context : Context} {rows : List OwnedParameter} {live outer : Finset Nat} {bound : Nat}
  {state moved owned after : VerificationState} {frame : Frame} {projection : ProjectionContext}
  {definition : OwnedDefinition} {candidate : KnownValue} {introduced : Option OwnerId}

/-! ## Parameters -/

variable {index : Nat}

theorem DefinitionStages.parameter
    (h : DefinitionStages context state projection definition candidate moved introduced owned
      after) (hop : definition.operation = .parameterDefinition index) :
    moved = state ∧ index = state.facts.parameters.length ∧ candidate.projectionParent = none ∧
      ∃ row, context.rows[index]? = some row ∧ row.parameterType = definition.valueType := by
  have hmoved := dischargeOperands_none (by simp [hop]) (by simp [hop, storedPayloads]) h.discharges
  have hchecked := h.checked
  rw [hop] at hchecked
  generalize candidate.projectionParent = parent at hchecked ⊢
  cases hchecked with
  | plain simple => exact simple.elim
  | parameter next found typed => exact ⟨hmoved, next, rfl, _, found, typed⟩

theorem Received.argument {arguments : List Argument} (h : Received rows outer arguments)
    {row : OwnedParameter} (hrow : rows[index]? = some row) :
    ∃ argument, arguments[index]? = some argument ∧ Fits row argument := by
  obtain ⟨hi, -⟩ := List.getElem?_eq_some_iff.mp hrow
  have hi' : index < arguments.length := by rwa [h.arity]
  have hargument := List.getElem?_eq_getElem hi'
  exact ⟨arguments[index], hargument, h.fits index row _ hrow hargument⟩

section

variable (h : DefinitionStages context state projection definition candidate moved introduced owned after)

include h

theorem DefinitionStages.bindParameter (hop : definition.operation = .parameterDefinition index)
    (hunowned : definition.bindsOwned = false)
    (ht : Tracks context.rows outer bound state frame live) :
    Triple Ledger live (bindParameter frame definition index) fun frame' live' =>
      Tracks context.rows outer bound after frame' live' := by
  obtain ⟨rfl, -, hunprojected, row, hrow, -⟩ := h.parameter hop
  have hs := ht.scoped_state
  obtain ⟨argument, hargument, hfits⟩ := ht.received.argument hrow
  have hintroduces := h.introduces
  have hpayload : ∀ binding : Binding, ∀ value ancestor,
      candidate.result = .borrowedResult (.payloadBorrow value) →
      candidate.projectionParent = some ancestor → binding.root = frame.resolve ancestor := by
    intro binding value ancestor _ hancestor
    rw [hunprojected] at hancestor
    cases hancestor
  cases h.owns with
  | unmanaged result _ =>
    cases hintroduces
    simp only [Own.bindParameter, result, hargument]
    refine Triple.pure (h.binds hs ht ⟨by rw [h.result, result], ?_, hpayload _⟩)
    intro value hvalue
    rw [h.result, result] at hvalue
    cases hvalue
  | projected _ operation => exact absurd hop (operation index)
  | @borrowedParameter index' passing operation found borrowed result =>
    rw [hop] at operation
    cases operation
    cases hintroduces
    rw [hrow] at found
    cases found
    cases argument with
    | plain => exact hfits.elim
    | owned n =>
      rw [Fits, borrowed] at hfits
      cases hfits
    | borrowed root =>
      simp only [Own.bindParameter, result, hargument]
      refine Triple.pure (h.binds hs ht ⟨by rw [h.result, result], ?_, hpayload _⟩)
      intro value _
      exact ⟨root, rfl, ht.received.live index root hargument⟩
  | owned result _ =>
    rw [OwnedDefinition.bindsOwned, hop, result] at hunowned
    cases hunowned

/-- **An owned parameter takes its argument's obligation.** -/
theorem DefinitionStages.adoptParameter (hop : definition.operation = .parameterDefinition bound)
    (howned : definition.bindsOwned = true)
    (ht : Tracks context.rows outer bound state frame live) :
    Triple Ledger live (Own.bindParameter frame definition bound) fun frame' live' =>
      Tracks context.rows outer (bound + 1) after frame' live' := by
  obtain ⟨rfl, -, hunprojected, row, hrow, -⟩ := h.parameter hop
  have hs := ht.scoped_state
  obtain ⟨argument, hargument, hfits⟩ := ht.received.argument hrow
  have hintroduces := h.introduces
  cases h.owns with
  | unmanaged result _ | borrowedParameter _ _ _ result =>
    rw [OwnedDefinition.bindsOwned, hop, result] at howned
    cases howned
  | projected _ operation => exact absurd hop (operation bound)
  | @owned owner result found =>
    obtain ⟨passing, hpassing, howns⟩ := found bound hop
    rw [hrow] at hpassing
    cases hpassing
    obtain ⟨hid, rfl⟩ := introduceOwner_eq_ok.mp hintroduces
    cases argument with
    | plain => exact hfits.elim
    | borrowed root =>
      rw [Fits, howns] at hfits
      cases hfits
    | owned n =>
      simp only [Own.bindParameter, result, hargument]
      refine Triple.pure (h.binds hs (ht.adopt hargument hid) ⟨by rw [h.result, result], ?_, ?_⟩)
      · intro value hvalue
        rw [h.result, result] at hvalue
        cases hvalue
      · intro value ancestor hvalue
        rw [h.result, result] at hvalue
        cases hvalue

end

/-! ## Blocks without owned parameters -/

theorem operationBindsOwned_join (join : OwnedJoin) :
    operationBindsOwned (.executeJoin join) = joinArmsBindOwned join.arms := by
  cases join
  rfl

theorem operationBindsOwned_loop (loop : OwnedLoop) :
    operationBindsOwned (.executeLoop loop) = loopBlockBindsOwned loop.body := by
  cases loop
  rfl

theorem joinArmBindsOwned_eq (arm : OwnedJoinArm) :
    joinArmBindsOwned arm = (operationsBindOwned arm.operations || joinExitBindsOwned arm.exit) := by
  cases arm
  rfl

theorem loopBlockBindsOwned_eq (block : OwnedLoopBlock) : loopBlockBindsOwned block =
      (operationsBindOwned block.operations || loopTailBindsOwned block.tail) := by
  cases block
  rfl

theorem joinArmsBindOwned_mem {arms : List OwnedJoinArm} (h : joinArmsBindOwned arms = false) :
    ∀ arm ∈ arms, joinArmBindsOwned arm = false := by
  induction arms with
  | nil => simp
  | cons first arms ih =>
    rw [joinArmsBindOwned, Bool.or_eq_false_iff] at h
    intro arm harm
    rcases List.mem_cons.mp harm with rfl | harm
    · exact h.1
    · exact ih h.2 arm harm

theorem loopTailBindsOwned_match (matched : OwnedLoopMatch) :
    loopTailBindsOwned (.matchLoop matched) = loopArmsBindOwned matched.arms := by
  cases matched
  rfl

theorem loopArmsBindOwned_mem {arms : List OwnedLoopArm} (h : loopArmsBindOwned arms = false) :
    ∀ arm ∈ arms, loopBlockBindsOwned arm.body = false := by
  induction arms with
  | nil => simp
  | cons first arms ih =>
    obtain ⟨id, inputs, body⟩ := first
    rw [loopArmsBindOwned, Bool.or_eq_false_iff] at h
    intro arm harm
    rcases List.mem_cons.mp harm with rfl | harm
    · exact h.1
    · exact ih h.2 arm harm

theorem edgeOperations_unbound {root : Nat} {facts : VerificationFacts}
    {operations : List OwnershipOperation}
    (h : operations.all (edgeOperationAllowed root facts) = true) :
    operationsBindOwned operations = false := by
  induction operations with
  | nil => rfl
  | cons operation operations ih =>
    rw [List.all_cons, Bool.and_eq_true] at h
    rw [operationsBindOwned, Bool.or_eq_false_iff]
    refine ⟨?_, ih h.2⟩
    have hallowed := h.1
    cases operation with
    | defineValue definition =>
      obtain ⟨id, valueType, operation, result, span⟩ := definition
      cases operation with
      | parameterDefinition index => cases hallowed
      | _ => rfl
    | executeJoin join => cases hallowed
    | executeLoop loop => cases hallowed
    | acquireOwner id borrow span => rfl
    | dropOwner id span => rfl

/-! ## Selections -/

section

variable {selection : OwnedSelection} {targets : List SelectionTarget}

theorem SelectionChecked.walk (h : SelectionChecked context selection targets state) :
    ∀ (fuel id : Nat), id < selection.nodes.length →
      Triple Ledger live (Own.walkSelection selection.nodes fuel id) fun edge live' =>
        live' = live ∧ .enterArm edge ∈ selection.nodes := by
  intro fuel
  induction fuel with
  | zero =>
    intro id _
    exact Triple.stop
  | succ fuel ih =>
    intro id hid
    have hnode := List.getElem?_eq_getElem hid
    generalize selection.nodes[id] = node at hnode
    have hchoose : ∀ yes no, successors node = some (yes, no) →
        Triple Ledger live (do
          let choice ← choose
          Own.walkSelection selection.nodes fuel (if choice = 0 then no else yes))
          fun edge live' => live' = live ∧ .enterArm edge ∈ selection.nodes := by
      intro yes no hsuccessors
      obtain ⟨hyes, hno⟩ := h.tests id node yes no hnode hsuccessors
      refine choose_ledger.bind fun choice live' hlive' => ?_
      subst hlive'
      exact ih _ (by split <;> assumption)
    simp only [Own.walkSelection, hnode]
    cases node with
    | enterArm edge => exact Triple.pure ⟨rfl, List.mem_of_getElem? hnode⟩
    | testVariant place variant yes no => exact hchoose yes no rfl
    | testListLength place test yes no => exact hchoose yes no rfl
    | testLiteral place literal yes no => exact hchoose yes no rfl

end

/-! ## Blocks -/

/-- Where an execution of a block may be: past it, or on an edge of the active loop
with what was held before that loop. -/
def Flows (rows : List OwnedParameter) (active : Option ActiveLoop) (outer : Finset Nat)
    (bound : Nat) (next : Frame → Finset Nat → Prop) : Flow → Finset Nat → Prop
  | .next frame, live => next frame live
  | .leave target _ frame, live => ∃ loop, active = some loop ∧
      target = loop.loop.result.joinParameter.id ∧ Tracks rows outer bound loop.pre frame live

/-- The block lies in the body of the active loop, if there is one. -/
def Within (active : Option ActiveLoop) (state : VerificationState) : Prop :=
  ∀ loop, active = some loop → Scoped loop.pre ∧ Inside loop state

theorem Within.follows {active : Option ActiveLoop} (h : Within active state)
    (hf : Follows state after) : Within active after :=
  fun loop hloop => ⟨(h loop hloop).1, (h loop hloop).2.follows hf⟩

theorem Within.enter {active : Option ActiveLoop} (h : Within active state) (hs : Ordered state)
    {cursor : BlockEnd} (hcursor : state.blockEnd.le cursor) :
    Within active (Verify.enter state cursor.nextValue cursor.nextOwner) :=
  fun loop hloop => ⟨(h loop hloop).1, (h loop hloop).2.enter hs hcursor⟩

theorem Within.none : Within none state := fun _ h => by cases h

/-- A verified loop with its headers introduced: what they were introduced over, and
what the loop's outputs are introduced over, is what was held before the loop. -/
structure LoopChecked (context : Context) (loop : OwnedLoop)
    (start moved initial after : VerificationState) (cursor : BlockEnd) : Prop where
  scoped_start : Scoped start
  scoped_moved : Scoped moved
  held_moved : ∀ id, held moved id = held start id
  values_moved : ∀ id, moved.facts.valueEntry id = start.facts.valueEntry id
  headers : IntroducesAll moved (loop.headers.map (·.parameter)) initial
  inside : Inside ⟨loop, start, cursor.nextOwner⟩ initial
  outputs : IntroducesAll start (loop.result :: loop.carried) after
  body : ∃ fuel reached, verifyLoopBlock context fuel ⟨loop, start, cursor.nextOwner⟩ initial
    loop.body = .ok reached
  unbound : loopBlockBindsOwned loop.body = false

/-! ## Parts of a block

Each executes in step with the verifier. -/

section

variable (functions : List OwnedFunction) (context : Context) (fuel : Nat)

def OperationsSound : Prop :=
  ∀ {projection scrutinee active block after operations outer bound frame live},
    Selects projection scrutinee →
    operations.foldlM (verifyOperation context projection) block = .ok after →
    (∀ control ∈ after.pending, Controlled context active control) →
    Within active block.state → operationsBindOwned operations = false →
    Tracks context.rows outer bound block.state frame live →
    Triple Ledger live (runOperations functions fuel scrutinee frame operations)
      (Flows context.rows active outer bound (Tracks context.rows outer bound after.state))

def OperationSound : Prop :=
  ∀ {projection scrutinee active block after operation outer bound frame live},
    Selects projection scrutinee →
    verifyOperation context projection block operation = .ok after →
    (∀ control ∈ after.pending, Controlled context active control) →
    Within active block.state → operationBindsOwned operation = false →
    Tracks context.rows outer bound block.state frame live →
    Triple Ledger live (runOperation functions fuel scrutinee frame operation)
      (Flows context.rows active outer bound (Tracks context.rows outer bound after.state))

def SelectionSound : Prop :=
  ∀ {selection targets state outer bound frame live},
    SelectionChecked context selection targets state →
    Tracks context.rows outer bound state frame live →
    Triple Ledger live (runSelection functions fuel frame selection) fun entered live' =>
      Tracks context.rows outer bound state entered.2 live' ∧
        ∃ target, targets.find? (fun target => entered.1 = target.id) = some target

def JoinArmSound : Prop :=
  ∀ {checked active join arm start entered after cursor reached outer bound frame live},
    verifyJoinArm context checked active join start arm cursor = .ok reached →
    start.blockEnd.le cursor → transferJoinEntry join start = .ok entered →
    introduceOutputs context (join.result :: join.carried) entered = .ok after →
    Within active start → joinArmBindsOwned arm = false →
    Tracks context.rows outer bound start frame live →
    Triple Ledger live (runJoinArm functions fuel frame join arm)
      (Flows context.rows active outer bound (Tracks context.rows outer bound after))

def LoopBlockSound : Prop :=
  ∀ {checked active initial body reached outer bound frame live},
    verifyLoopBlock context checked active initial body = .ok reached →
    Scoped active.pre → Inside active initial → loopBlockBindsOwned body = false →
    Tracks context.rows outer bound initial frame live →
    Triple Ledger live
      (runLoopBlock functions fuel frame active.loop.result.joinParameter.id body)
      (Flows context.rows (some active) outer bound fun _ _ => False)

def LoopSound : Prop :=
  ∀ {loop start moved initial after cursor outer bound frame live},
    LoopChecked context loop start moved initial after cursor →
    Tracks context.rows outer bound initial frame live →
    Triple Ledger live (runLoop functions fuel frame loop) fun flow live' =>
      ∃ frame', flow = .next frame' ∧ Tracks context.rows outer bound after frame' live'

structure BlockSound : Prop where
  operations : OperationsSound functions context fuel
  operation : OperationSound functions context fuel
  selection : SelectionSound functions context fuel
  joinArm : JoinArmSound functions context fuel
  loopBlock : LoopBlockSound functions context fuel
  loop : LoopSound functions context fuel

end

/-! ## Loop entry -/

theorem takenInitial_eq (loop : OwnedLoop) (header : OwnedLoopHeader) :
    (takenInitial loop header).isSome = loop.takes header := by
  unfold takenInitial OwnedLoop.takes
  cases header.initial with
  | unmanagedReturn value => rfl
  | ownedReturn value owner =>
    simp only
    split <;> simp_all

theorem takenInitial_some {loop : OwnedLoop} {header : OwnedLoopHeader} {taken : TakenInitial}
    (h : takenInitial loop header = some taken) :
    header.initial = .ownedReturn taken.value taken.owner := by
  unfold takenInitial at h
  split at h
  · cases h
  · next value owner heq =>
    split at h
    · cases h
      exact heq
    · cases h

theorem takenInitials_move (loop : OwnedLoop) (headers : List OwnedLoopHeader) :
    ∀ {state : VerificationState},
      (∀ taken ∈ headers.filterMap (takenInitial loop), ∀ value,
        held state taken.owner = some value → value = taken.value) →
      dropOwners state ((headers.filterMap (takenInitial loop)).map fun taken =>
        (taken.owner, taken.span)) = .ok after →
      MovesAll state ((headers.filter loop.takes).map (·.initial)) after := by
  induction headers with
  | nil =>
    intro state _ h
    cases h
    exact .nil
  | cons header headers ih =>
    intro state hheld h
    have hsome := takenInitial_eq loop header
    cases htaken : takenInitial loop header with rw [htaken] at hsome
    | none =>
      rw [List.filterMap_cons_none htaken] at hheld h
      rw [List.filter_cons_of_neg (by simp [← hsome])]
      exact ih hheld h
    | some taken =>
      rw [List.filterMap_cons_some htaken] at hheld h
      rw [List.filter_cons_of_pos (by simp [← hsome]), List.map_cons]
      obtain ⟨between, hbetween, h⟩ := Except.peel h
      obtain ⟨value, htakes⟩ := dropOwner_takes hbetween
      have hvalue := hheld taken List.mem_cons_self value htakes.holds
      subst hvalue
      rw [takenInitial_some htaken]
      refine .cons (.owned htakes) (ih (fun other hother value hvalue => ?_) h)
      rw [htakes.releases] at hvalue
      split at hvalue
      · cases hvalue
      · exact hheld other (List.mem_cons_of_mem _ hother) value hvalue

theorem movedInitials_eq (loop : OwnedLoop) (headers : List OwnedLoopHeader) :
    movedInitials loop headers =
      (headers.filter fun header => !loop.takes header).map (·.initial) := by
  unfold movedInitials
  refine congrArg _ (List.filter_congr fun header _ => ?_)
  rw [← takenInitial_eq, Option.not_isSome]

theorem Tracks.acquireAll {span : Check.Span} (acquisitions : List OwnerAcquisition) :
    ∀ {block after : VerifiedBlock} {frame : Frame} {live : Finset Nat},
      (acquisitions.map fun acquisition => OwnershipOperation.acquireOwner acquisition.owner
        acquisition.borrow span).foldlM (verifyOperation context .noProjection) block = .ok after →
      Tracks rows outer bound block.state frame live →
      Triple Ledger live
        (acquisitions.foldlM
          (fun frame acquisition => acquireOwner frame acquisition.owner acquisition.borrow) frame)
        fun frame' live' => Tracks rows outer bound after.state frame' live' := by
  induction acquisitions with intro block after frame live h ht
  | nil =>
    cases h
    exact Triple.pure ht
  | cons acquisition acquisitions ih =>
    rw [List.map_cons, List.foldlM_cons] at h
    rw [List.foldlM_cons]
    obtain ⟨next, hnext, h⟩ := Outcome.peel h
    obtain ⟨_, hlive, hnext⟩ := Outcome.peel hnext
    obtain ⟨owned, howned, hnext⟩ := Outcome.peel hnext
    rw [Outcome.liftM_eq_ok] at howned
    obtain ⟨hid, rfl⟩ := introduceOwner_eq_ok.mp howned
    cases hnext
    exact (ht.acquire (verifyBorrow_live hlive) hid).bind fun frame' live' ht' => ih h ht'

/-- **A loop's entry** moves its initials and introduces its headers. -/
theorem Tracks.runLoopEntry {loop : OwnedLoop} {start initial : VerificationState}
    {cursor : BlockEnd} (hstart : transferLoopEntry context loop state = .ok start)
    (hcursor : start.blockEnd.le cursor)
    (hinitial : initializeLoop context loop start cursor = .ok initial)
    (ht : Tracks rows outer bound state frame live) :
    Triple Ledger live (runLoopEntry frame loop) fun frame' live' =>
      Tracks rows outer bound initial frame' live' := by
  obtain ⟨hheld, hdrops⟩ := transferLoopEntry_eq_ok hstart
  have htaken := takenInitials_move loop loop.headers
    (fun taken htaken value hvalue => by
      rw [hheld taken htaken] at hvalue
      exact (Option.some.inj hvalue).symm) hdrops
  have hs := htaken.follows.keeps ht.scoped_state
  obtain ⟨acquired, moved, hacquired, hmoves, -, -, -, hintroduces, -⟩ :=
    initializeLoop_checked hs hcursor hinitial
  rw [movedInitials_eq] at hmoves
  unfold Own.runLoopEntry
  refine (moveAll htaken ht).bind fun _ _ hstarted => ?_
  refine (acquireAll loop.entryAcquisitions hacquired (hstarted.enter hcursor)).bind
    fun acquiredFrame _ hacquiredTracks => ?_
  refine (moveAll hmoves hacquiredTracks).bind fun _ _ hmovedTracks => ?_
  exact introduceParameters hintroduces hmovedTracks

/-! ## Execution in step -/

section

variable {functions : List OwnedFunction} {fuel : Nat}

variable {scrutinee : Option OwnedArgument} {start : VerificationState} {cursor : BlockEnd}
variable {active : Option ActiveLoop}

theorem runDefinition_sound (hcallees : ∀ fewer < fuel, FunctionsSound functions fewer)
    (hfunctions : context.functions = functions)
    (hrows : ∀ function ∈ functions, RowsChecked context function.parameters)
    (hselects : Selects projection scrutinee)
    (h : verifyDefinition context state projection definition = .ok after)
    (hunowned : definition.bindsOwned = false)
    (ht : Tracks context.rows outer bound state frame live) :
    Triple Ledger live (runDefinition functions fuel scrutinee frame definition)
      fun frame' live' => Tracks context.rows outer bound after frame' live' := by
  obtain ⟨candidate, moved, introduced, owned, hstages⟩ := verifyDefinition_stages h
  cases fuel with
  | zero => exact Triple.stop
  | succ fuel =>
    by_cases hparameter : ∃ index, definition.operation = .parameterDefinition index
    · obtain ⟨index, hop⟩ := hparameter
      simp only [runDefinition, hop]
      exact hstages.bindParameter hop hunowned ht
    · exact hstages.run (hcallees fuel (Nat.lt_succ_self fuel)) hfunctions hrows hselects
        (fun index hop => hparameter ⟨index, hop⟩) ht

theorem Tracks.yield {join : OwnedJoin} {outputs : OwnedJoinOutputs}
    {entered joined : VerificationState} (hs : Scoped start) (hcursor : start.blockEnd.le cursor)
    (hf : Follows (Verify.enter start cursor.nextValue cursor.nextOwner) state)
    (hentered : transferJoinEntry join start = .ok entered)
    (hjoined : introduceOutputs context (join.result :: join.carried) entered = .ok joined)
    (h : verifyJoinTransfers context join start.discharged state outputs = .ok ())
    (ht : Tracks rows outer bound state frame live) :
    Triple Ledger live (do
        moveTransfers frame (outputs.transfer :: outputs.carried)
        let joined ← Own.introduceParameters frame (join.result :: join.carried)
        pure (Flow.next joined))
      fun flow live' => ∃ frame', flow = .next frame' ∧
        Tracks rows outer bound joined frame' live' := by
  obtain ⟨moved, hmoves, hheld⟩ := verifyJoinTransfers_checked hs hcursor hf hentered h
  refine (moveAll hmoves ht).bind fun _ live' hmoved => ?_
  have hdrops := dropOwners_follows hs hentered
  have hrestored : Tracks rows outer bound entered frame live' := by
    refine hmoved.restrict (hdrops.keeps hs) (fun id => (hheld id).symm) fun id known hid => ?_
    have hvisible : start.facts.valueEntry id = some known := by
      rwa [dropOwners_facts hentered] at hid
    exact (hf.trans hmoves.follows).sees id known
      (by rwa [valueEntry_enter hs.toOrdered hcursor])
  refine (introduceParameters (introduceOutputs_introduces hjoined) hrestored).bind
    fun frame' live'' hjoined => ?_
  exact Triple.pure ⟨frame', rfl, hjoined⟩

theorem operations_step (ih : BlockSound functions context fuel) :
    OperationsSound functions context (fuel + 1) := by
  intro projection scrutinee active block last operations outer bound frame live hselects h
    hcontrolled hwithin hunbound ht
  cases operations with
  | nil =>
    cases h
    exact Triple.pure ht
  | cons operation operations =>
    rw [List.foldlM_cons] at h
    obtain ⟨next, hnext, h⟩ := Outcome.peel h
    rw [operationsBindOwned, Bool.or_eq_false_iff] at hunbound
    have hgrows := verifyOperation_grows ht.scoped_state hnext
    have hrest := foldlM_verifyOperation_grows operations (hgrows.follows.keeps ht.scoped_state) h
    refine (ih.operation hselects hnext (fun control hcontrol =>
      hcontrolled control (hrest.pending control hcontrol)) hwithin hunbound.1 ht).bind
      fun flow live' hflow => ?_
    cases flow with
    | next frame' =>
      exact ih.operations hselects h hcontrolled (hwithin.follows hgrows.follows) hunbound.2 hflow
    | leave target edge frame' => exact Triple.pure hflow

theorem selection_step (ih : BlockSound functions context fuel) :
    SelectionSound functions context (fuel + 1) := by
  intro selection targets state outer bound frame live h ht
  have hs := ht.scoped_state
  refine (ht.readOperand h.live).reading fun _ _ => ?_
  refine (h.walk fuel selection.entry h.entry).reading fun edge hedge => ?_
  obtain ⟨cursor, facts, span, target, reached, hcursor, htarget, hverified⟩ := h.edges edge hedge
  have hunbound : operationsBindOwned edge.operations = false := by
    obtain ⟨_, hallowed, -⟩ := Outcome.peel hverified
    rw [Outcome.liftM_eq_ok, require_eq_ok] at hallowed
    exact edgeOperations_unbound hallowed
  obtain ⟨verified, moved, hoperations, hpending, hmoves, hfollows, hheld, -⟩ :=
    verifySelectionEdge_checked hs hcursor hverified
  have hselects : Selects (.selectionProjection selection.scrutinee facts)
      (some selection.scrutinee) := rfl
  have hcontrolled : ∀ control ∈ verified.pending, Controlled context none control := by
    simp [hpending]
  have hrun :=
    ih.operations hselects hoperations hcontrolled .none hunbound (ht.enter hcursor)
  refine hrun.bind fun flow live' hflow => ?_
  cases flow with
  | leave target edge frame' =>
    obtain ⟨_, hnone, -⟩ := hflow
    cases hnone
  | next projected =>
    refine (Tracks.moveAll hmoves hflow).bind fun _ live'' hmoved => ?_
    refine Triple.pure ⟨?_, target, htarget⟩
    refine hmoved.restrict hs (fun id => (hheld id).symm) fun id known hid => ?_
    exact hfollows.sees id known (by rwa [valueEntry_enter hs.toOrdered hcursor])

theorem find?_target {α : Type} {identity : α → Nat} {inputs : α → List OwnedJoinParameter}
    {arms : List α} {id : Nat} {target : SelectionTarget}
    (h : (arms.map fun arm => SelectionTarget.mk (identity arm) (inputs arm)).find?
      (fun target => id = target.id) = some target) :
    ∃ arm ∈ arms, arms.find? (fun arm => id = identity arm) = some arm := by
  rw [List.find?_map] at h
  obtain ⟨arm, harm, -⟩ := Option.map_eq_some_iff.mp h
  exact ⟨arm, List.mem_of_find?_eq_some harm, harm⟩

section

variable (ih : BlockSound functions context fuel)

include ih

theorem joinArm_step : JoinArmSound functions context (fuel + 1) := by
  intro checked active join arm start entered joined cursor reached outer bound frame live h
    hcursor hentered hjoined hwithin hunbound ht
  have hs := ht.scoped_state
  rw [joinArmBindsOwned_eq, Bool.or_eq_false_iff] at hunbound
  cases checked with
  | zero => cases h
  | succ checked =>
    obtain ⟨inside, hinside, h⟩ := Outcome.peel h
    rw [Outcome.liftM_eq_ok] at hinside
    have hinputs := introduceOutputs_follows (hs.enter hcursor) hinside
    have hsinside := hinputs.keeps (hs.enter hcursor)
    have hwithinside := (hwithin.enter hs.toOrdered hcursor).follows hinputs
    unfold runJoinArm
    refine (Tracks.introduceParameters (introduceOutputs_introduces hinside)
      (ht.enter hcursor)).bind fun started live' hstarted => ?_
    cases hexit : arm.exit with
    | yield outputs =>
      rw [hexit] at h
      obtain ⟨verified, hverified, h⟩ := Outcome.peel h
      obtain ⟨_, htransfers, h⟩ := Outcome.peel h
      rw [Outcome.liftM_eq_ok] at htransfers
      have hgrows := verifyOperations_grows hsinside hverified
      have hcontrolled := verifyJoins_controlled (hgrows.startsBefore hsinside) h
      refine (ih.operations Selects.none hverified hcontrolled hwithinside
        hunbound.1 hstarted).bind fun flow live'' hflow => ?_
      cases flow with
      | leave target edge frame' => exact Triple.pure hflow
      | next frame' =>
        refine (Tracks.yield hs hcursor (hinputs.trans hgrows.follows) hentered hjoined
          htransfers hflow).mono fun flow _ ⟨frame', hnext, hjoined⟩ => ?_
        subst hnext
        exact hjoined
    | transferLoop target tail =>
      rw [hexit] at h
      obtain ⟨loop, hloop, h⟩ := Outcome.peel h
      obtain ⟨_, htarget, h⟩ := Outcome.peel h
      rw [Outcome.liftM_eq_ok, orVerificationError_eq_ok] at hloop
      rw [Outcome.liftM_eq_ok, require_eq_ok, decide_eq_true_eq] at htarget
      obtain ⟨hspre, hinsideLoop⟩ := hwithinside loop hloop
      have hblock : loopBlockBindsOwned ⟨arm.operations, tail⟩ = false := by
        rw [hexit, joinExitBindsOwned] at hunbound
        rw [loopBlockBindsOwned, Bool.or_eq_false_iff]
        exact hunbound
      rw [htarget, hloop]
      refine (ih.loopBlock h hspre hinsideLoop hblock hstarted).mono fun flow _ hflow => ?_
      cases flow with
      | next frame' => exact hflow.elim
      | leave target edge frame' => exact hflow

theorem loopBlock_step : LoopBlockSound functions context (fuel + 1) := by
  intro checked active initial body reached outer bound frame live h hspre hinside hunbound ht
  have hs := ht.scoped_state
  rw [loopBlockBindsOwned_eq, Bool.or_eq_false_iff] at hunbound
  cases checked with
  | zero => cases h
  | succ checked =>
    obtain ⟨verified, hverified, h⟩ := Outcome.peel h
    have hgrows := verifyOperations_grows hs hverified
    have hstarts := hgrows.startsBefore hs
    have hinsideAfter := hinside.follows hgrows.follows
    have hwithin : Within (some active) initial := fun loop hloop => by
      cases hloop
      exact ⟨hspre, hinside⟩
    have hrun : (∀ control ∈ verified.pending, Controlled context (some active) control) →
        Triple Ledger live (runOperations functions fuel none frame body.operations)
          (Flows context.rows (some active) outer bound
            (Tracks context.rows outer bound verified.state)) :=
      fun hcontrolled => ih.operations Selects.none hverified hcontrolled
        hwithin hunbound.1 ht
    unfold runLoopBlock
    cases htail : body.tail with
    | exitLoop exit =>
      rw [htail] at h
      obtain ⟨_, hexit, h⟩ := Outcome.peel h
      rw [Outcome.liftM_eq_ok] at hexit
      obtain ⟨moved, hmoves, hinsideMoved, hheld⟩ :=
        verifyLoopExit_checked hspre hinsideAfter hexit
      refine (hrun (verifyJoins_controlled hstarts h)).bind fun flow live' hflow => ?_
      cases flow with
      | leave target edge frame' => exact Triple.pure hflow
      | next frame' =>
        refine (Tracks.moveAll hmoves hflow).bind fun _ live'' hmoved => ?_
        refine Triple.pure ⟨active, rfl, rfl, ?_⟩
        exact hmoved.restrict hspre (fun id => (hheld id).symm) hinsideMoved.sees
    | matchLoop matched =>
      rw [htail] at h
      rw [htail, loopTailBindsOwned_match] at hunbound
      obtain ⟨completed, hcompleted, h⟩ := Outcome.peel h
      obtain ⟨selected, hselected, h⟩ := Outcome.peel h
      have hsverified := hgrows.follows.keeps hs
      have hcursor := (cursorsGrow context checked).joins hstarts hcompleted
      obtain ⟨hselection, harms⟩ := loopArms_controlled hsverified hcursor hselected h
      refine (hrun (verifyJoins_controlled hstarts hcompleted)).bind fun flow live' hflow => ?_
      cases flow with
      | leave target edge frame' => exact Triple.pure hflow
      | next frame' =>
        refine (ih.selection hselection hflow).bind fun entered live'' ⟨hentered, htarget⟩ => ?_
        obtain ⟨target, htarget⟩ := htarget
        obtain ⟨arm, hmem, harm⟩ := find?_target htarget
        obtain ⟨cursor, after, hcursor, hverifiedArm⟩ := harms arm hmem
        cases checked with
        | zero => cases hverifiedArm
        | succ checked =>
          obtain ⟨start, hstart, hbody⟩ := Outcome.peel hverifiedArm
          rw [Outcome.liftM_eq_ok] at hstart
          have hinputs := introduceOutputs_follows (hsverified.enter hcursor) hstart
          simp only [harm]
          refine (Tracks.introduceParameters (introduceOutputs_introduces hstart)
            (hentered.enter hcursor)).bind fun started _ hstarted => ?_
          exact ih.loopBlock hbody hspre
            ((hinsideAfter.enter hsverified.toOrdered hcursor).follows hinputs)
            (loopArmsBindOwned_mem hunbound.2 arm hmem) hstarted

theorem loop_step : LoopSound functions context (fuel + 1) := by
  intro loop start moved initial last cursor outer bound frame live h ht
  obtain ⟨checked, reached, hbody⟩ := h.body
  unfold runLoop
  refine (ih.loopBlock hbody h.scoped_start h.inside h.unbound ht).bind fun flow live' hflow => ?_
  cases flow with
  | next frame' => exact hflow.elim
  | leave target edge frame' =>
    obtain ⟨_, hactive, htarget, hpre⟩ := hflow
    cases hactive
    simp only [htarget, ↓reduceIte]
    cases edge with
    | «break» =>
      refine (Tracks.introduceParameters h.outputs hpre).bind fun left live'' hleft => ?_
      exact Triple.pure ⟨left, rfl, hleft⟩
    | recur =>
      have hmoved : Tracks context.rows outer bound moved frame' live' := by
        refine hpre.restrict h.scoped_moved h.held_moved fun id known hid => ?_
        rwa [h.values_moved] at hid
      refine (Tracks.introduceParameters h.headers hmoved).bind fun again live'' hagain => ?_
      exact ih.loop h hagain

theorem operation_step (hcallees : ∀ fewer < fuel, FunctionsSound functions fewer)
    (hfunctions : context.functions = functions)
    (hrows : ∀ function ∈ functions, RowsChecked context function.parameters) :
    OperationSound functions context (fuel + 1) := by
  intro projection scrutinee active block last operation outer bound frame live hselects h
    hcontrolled hwithin hunbound ht
  have hs := ht.scoped_state
  cases operation with
  | defineValue definition =>
    obtain ⟨next, hnext, h⟩ := Outcome.peel h
    cases h
    refine (runDefinition_sound hcallees hfunctions hrows hselects hnext hunbound ht).bind
      fun frame' live' ht' => ?_
    exact Triple.pure ht'
  | acquireOwner id borrow span =>
    obtain ⟨_, hlive, h⟩ := Outcome.peel h
    obtain ⟨next, hnext, h⟩ := Outcome.peel h
    rw [Outcome.liftM_eq_ok] at hnext
    obtain ⟨hid, rfl⟩ := introduceOwner_eq_ok.mp hnext
    cases h
    refine (ht.acquire (verifyBorrow_live hlive) hid).bind fun frame' live' ht' => ?_
    exact Triple.pure ht'
  | dropOwner id span =>
    obtain ⟨next, hnext, h⟩ := Outcome.peel h
    rw [Outcome.liftM_eq_ok] at hnext
    cases h
    obtain ⟨_, htakes⟩ := dropOwner_takes hnext
    exact (ht.drop htakes).bind fun _ live' ht' => Triple.pure ht'
  | executeJoin join =>
    obtain ⟨_, -, h⟩ := Outcome.peel h
    obtain ⟨entered, hentered, h⟩ := Outcome.peel h
    obtain ⟨joined, hjoined, h⟩ := Outcome.peel h
    rw [Outcome.liftM_eq_ok] at hentered hjoined
    cases h
    rw [operationBindsOwned_join] at hunbound
    obtain ⟨hselection, harms⟩ := (hcontrolled (.verifyJoin join block.state) (by simp)).join
    unfold runOperation
    refine (ih.selection hselection ht).bind fun chosen live' ⟨hchosen, htarget⟩ => ?_
    obtain ⟨target, htarget⟩ := htarget
    obtain ⟨arm, hmem, harm⟩ := find?_target htarget
    obtain ⟨checked, cursor, reached, hcursor, hverified⟩ := harms arm hmem
    simp only [harm]
    exact ih.joinArm hverified hcursor hentered hjoined hwithin
      (joinArmsBindOwned_mem hunbound arm hmem) hchosen
  | executeLoop loop =>
    obtain ⟨start, hstart, h⟩ := Outcome.peel h
    obtain ⟨introduced, hintroduced, h⟩ := Outcome.peel h
    rw [Outcome.liftM_eq_ok] at hintroduced
    cases h
    rw [operationBindsOwned_loop] at hunbound
    obtain ⟨checked, cursor, initial, reached, hcursor, hinitial, hbody⟩ :=
      (hcontrolled (.verifyLoop loop start) (by simp)).loop
    have hsstart := (dropOwners_follows hs (transferLoopEntry_eq_ok hstart).2).keeps hs
    obtain ⟨_, moved, -, -, hfollows, hheld, hvalues, hheaders, hinside⟩ :=
      initializeLoop_checked hsstart hcursor hinitial
    have hchecked : LoopChecked context loop start moved initial introduced cursor :=
      ⟨hsstart, hfollows.keeps (hsstart.enter hcursor), hheld, hvalues, hheaders, hinside,
        introduceOutputs_introduces hintroduced, ⟨checked, reached, hbody⟩, hunbound⟩
    unfold runOperation
    refine (Tracks.runLoopEntry hstart hcursor hinitial ht).bind fun entered live' hentered => ?_
    refine (ih.loop hchecked hentered).mono fun flow live'' ⟨frame', hnext, hlast⟩ => ?_
    subst hnext
    exact hlast

end

/-- **Every part of a verified block executes in step with the verifier.** -/
theorem blockSound (hfunctions : context.functions = functions)
    (hrows : ∀ function ∈ functions, RowsChecked context function.parameters) :
    ∀ fuel, (∀ fewer < fuel, FunctionsSound functions fewer) →
      BlockSound functions context fuel := by
  intro fuel
  induction fuel with
  | zero =>
    intro _
    exact {
      operations := fun _ _ _ _ _ _ => Triple.stop
      operation := fun _ _ _ _ _ _ => Triple.stop
      selection := fun _ _ => Triple.stop
      joinArm := fun _ _ _ _ _ _ _ => Triple.stop
      loopBlock := fun _ _ _ _ _ => Triple.stop
      loop := fun _ _ => Triple.stop }
  | succ fuel ih =>
    intro hcallees
    have hfewer : ∀ fewer < fuel, FunctionsSound functions fewer :=
      fun fewer hlt => hcallees fewer (Nat.lt_succ_of_lt hlt)
    have hsound := ih hfewer
    exact {
      operations := operations_step hsound
      operation := operation_step hsound hfewer hfunctions hrows
      selection := selection_step hsound
      joinArm := joinArm_step hsound
      loopBlock := loopBlock_step hsound
      loop := loop_step hsound }

end

end Blorp.Verify
