import Blorp.Verify.Steps

/-!
# Soundness of the ownership verifier

Every function leaves exactly what its caller kept (`functionsSound`), and so

    verify program = ok, owned parameters bound in functions' own blocks →
      an execution meets no fault, its trace is accounted for, and when it ends
      every obligation it introduced was discharged exactly once    (verify_sound)

The restriction is needed.  A nested block checks a parameter definition against its
own copy of the parameters bound so far, so an arm may bind an owned parameter that
the block around it binds again (`verify_accepts_rebound_parameter`).
-/

namespace Blorp.Verify

open Specialize
open Own
open Runs Obligations
open Fuel

variable {context : Context} {rows : List OwnedParameter} {live outer : Finset Nat}
  {state moved owned after : VerificationState} {frame : Frame} {projection : ProjectionContext}
  {definition : OwnedDefinition} {candidate : KnownValue} {introduced : Option OwnerId}

/-! ## A function's own block -/

theorem ParameterIntroduced.parameters {output : OwnedJoinParameter}
    (h : ParameterIntroduced state output after) :
    after.facts.parameters = state.facts.parameters := by
  cases h <;> rfl

theorem IntroducesAll.parameters {outputs : List OwnedJoinParameter}
    (h : IntroducesAll state outputs after) :
    after.facts.parameters = state.facts.parameters := by
  induction h with
  | nil => rfl
  | cons first rest ih => exact ih.trans first.parameters

theorem DefinitionStages.parameters
    (h : DefinitionStages context state projection definition candidate moved introduced owned after) :
    after.facts.parameters = (noteParameter state definition).facts.parameters := by
  have hfacts : owned.facts = state.facts := by
    have hintroduces := h.introduces
    rw [← dischargeOperands_facts h.discharges]
    cases introduced with
    | none =>
      cases hintroduces
      rfl
    | some id =>
      obtain ⟨-, rfl⟩ := introduceOwner_eq_ok.mp hintroduces
      rfl
  rw [h.defines]
  show (noteParameter owned definition).facts.parameters = _
  unfold noteParameter
  split <;> simp [hfacts]

theorem verifyOperation_parameters {block last : VerifiedBlock} {operation : OwnershipOperation}
    (h : verifyOperation context projection block operation = .ok last)
    (hoperation : ∀ definition index, operation = .defineValue definition →
      definition.operation ≠ .parameterDefinition index) :
    last.state.facts.parameters = block.state.facts.parameters := by
  cases operation with
  | defineValue definition =>
    obtain ⟨next, hnext, h⟩ := Outcome.peel h
    cases h
    obtain ⟨_, _, _, _, hstages⟩ := verifyDefinition_stages hnext
    show next.facts.parameters = _
    rw [hstages.parameters, noteParameter]
    split
    · next index hop => exact absurd hop (hoperation definition index rfl)
    · rfl
  | acquireOwner id borrow span =>
    obtain ⟨_, -, h⟩ := Outcome.peel h
    obtain ⟨next, hnext, h⟩ := Outcome.peel h
    rw [Outcome.liftM_eq_ok] at hnext
    obtain ⟨-, rfl⟩ := introduceOwner_eq_ok.mp hnext
    cases h
    rfl
  | dropOwner id span =>
    obtain ⟨next, hnext, h⟩ := Outcome.peel h
    rw [Outcome.liftM_eq_ok] at hnext
    cases h
    obtain ⟨_, htakes⟩ := dropOwner_takes hnext
    obtain ⟨_, slot, -, rfl⟩ := htakes.slot
    exact congrArg _ (dischargeSlot_facts block.state slot)
  | executeJoin join =>
    obtain ⟨_, -, h⟩ := Outcome.peel h
    obtain ⟨entered, hentered, h⟩ := Outcome.peel h
    obtain ⟨joined, hjoined, h⟩ := Outcome.peel h
    rw [Outcome.liftM_eq_ok] at hentered hjoined
    cases h
    exact (introduceOutputs_introduces hjoined).parameters.trans
      (congrArg _ (dropOwners_facts hentered))
  | executeLoop loop =>
    obtain ⟨start, hstart, h⟩ := Outcome.peel h
    obtain ⟨introduced, hintroduced, h⟩ := Outcome.peel h
    rw [Outcome.liftM_eq_ok] at hintroduced
    cases h
    exact (introduceOutputs_introduces hintroduced).parameters.trans
      (congrArg _ (dropOwners_facts (transferLoopEntry_eq_ok hstart).2))

theorem DefinitionStages.unowned_argument
    (h : DefinitionStages context state projection definition candidate moved introduced owned after)
    {index : Nat} (hop : definition.operation = .parameterDefinition index)
    (hunowned : definition.bindsOwned = false) (hrows : RowsChecked context context.rows)
    {arguments : List Argument} (hreceived : Received context.rows outer arguments) (n : Nat) :
    arguments[index]? ≠ some (.owned n) := by
  intro hargument
  obtain ⟨-, -, -, row, hrow, htyped⟩ := h.parameter hop
  have hfits := hreceived.fits index row _ hrow hargument
  cases h.owns with
  | unmanaged _ unneeded =>
    have hmanaged := hrows row (List.mem_of_getElem? hrow)
    rw [htyped, unneeded] at hmanaged
    cases row with
    | managedParameter passing => cases hmanaged
    | unmanagedParameter valueType => exact hfits
  | projected _ operation => exact operation index hop
  | borrowedParameter operation found borrowed _ =>
    rw [hop] at operation
    cases operation
    rw [hrow] at found
    cases found
    rw [Fits, borrowed] at hfits
    cases hfits
  | owned result _ =>
    rw [OwnedDefinition.bindsOwned, hop, result] at hunowned
    cases hunowned

theorem OwnedDefinition.bindsOwned_cases (definition : OwnedDefinition) :
    definition.bindsOwned = false ∨
      definition.bindsOwned = true ∧ ∃ index, definition.operation = .parameterDefinition index := by
  cases hbinds : definition.bindsOwned with
  | false => exact .inl rfl
  | true =>
    refine .inr ⟨rfl, ?_⟩
    unfold OwnedDefinition.bindsOwned at hbinds
    split at hbinds
    · next index _ hop _ => exact ⟨index, hop⟩
    · cases hbinds

theorem operationBindsOwned_top {operation : OwnershipOperation}
    (hnested : operation.nestsOwned = false)
    (hdefinition : ∀ definition, operation = .defineValue definition →
      definition.bindsOwned = false) : operationBindsOwned operation = false := by
  cases operation with
  | defineValue definition => exact hdefinition definition rfl
  | executeJoin join => rwa [operationBindsOwned_join]
  | executeLoop loop => rwa [operationBindsOwned_loop]
  | acquireOwner id borrow span => rfl
  | dropOwner id span => rfl

section

variable {functions : List OwnedFunction} {block last : VerifiedBlock}

/-- One operation of a function's own block, which may bind the next owned parameter. -/
theorem topOperation_sound {fuel : Nat} {operation : OwnershipOperation}
    (hsound : BlockSound functions context fuel) (hrows : RowsChecked context context.rows)
    (h : verifyOperation context .noProjection block operation = .ok last)
    (hcontrolled : ∀ control ∈ last.pending, Controlled context none control)
    (hnested : operation.nestsOwned = false)
    (ht : Tracks context.rows outer block.state.facts.parameters.length block.state frame live) :
    Triple Ledger live (runOperation functions fuel none frame operation) fun flow live' =>
      ∃ frame', flow = .next frame' ∧
        Tracks context.rows outer last.state.facts.parameters.length last.state frame' live' := by
  by_cases hparameter : ∃ definition index, operation = .defineValue definition ∧
      definition.operation = .parameterDefinition index
  · obtain ⟨definition, index, rfl, hop⟩ := hparameter
    obtain ⟨next, hnext, hlast⟩ := Outcome.peel h
    obtain ⟨candidate, moved, introduced, owned, hstages⟩ := verifyDefinition_stages hnext
    obtain ⟨-, hindex, -⟩ := hstages.parameter hop
    have hlength : next.facts.parameters.length = block.state.facts.parameters.length + 1 := by
      rw [hstages.parameters, noteParameter, hop]
      simp
    cases hlast
    rcases OwnedDefinition.bindsOwned_cases definition with hunowned | ⟨howned, -⟩
    · refine (hsound.operation Selects.none h hcontrolled
        .none hunowned ht).mono fun flow live' hflow => ?_
      cases flow with
      | leave target edge frame' =>
        obtain ⟨_, hnone, -⟩ := hflow
        cases hnone
      | next frame' =>
        refine ⟨frame', rfl, ?_⟩
        show Tracks context.rows outer next.facts.parameters.length next frame' live'
        rw [hlength]
        exact Tracks.advance hflow fun n =>
          hindex ▸ hstages.unowned_argument hop hunowned hrows (Tracks.received hflow) n
    · cases fuel with
      | zero => exact Triple.stop
      | succ fuel =>
        cases fuel with
        | zero => exact Triple.stop
        | succ fuel =>
          simp only [runOperation, runDefinition, hop]
          rw [hindex] at hop ⊢
          refine (hstages.adoptParameter hop howned ht).bind fun frame' live' ht' => ?_
          refine Triple.pure ⟨frame', rfl, ?_⟩
          show Tracks context.rows outer next.facts.parameters.length next frame' live'
          rwa [hlength]
  · have hplain : ∀ definition index, operation = .defineValue definition →
        definition.operation ≠ .parameterDefinition index :=
      fun definition index hdefine hop => hparameter ⟨definition, index, hdefine, hop⟩
    have hunbound := operationBindsOwned_top hnested fun definition hdefine => by
      rcases OwnedDefinition.bindsOwned_cases definition with hunowned | ⟨-, index, hop⟩
      · exact hunowned
      · exact absurd hop (hplain definition index hdefine)
    rw [verifyOperation_parameters h hplain]
    refine (hsound.operation Selects.none h hcontrolled
      .none hunbound ht).mono fun flow live' hflow => ?_
    cases flow with
    | leave target edge frame' =>
      obtain ⟨_, hnone, -⟩ := hflow
      cases hnone
    | next frame' => exact ⟨frame', rfl, hflow⟩

theorem topOperations_sound (hrows : RowsChecked context context.rows) :
    ∀ (fuel : Nat), (∀ fewer < fuel, BlockSound functions context fewer) →
      ∀ {operations : List OwnershipOperation} {block last : VerifiedBlock} {frame : Frame}
        {live : Finset Nat},
        operations.foldlM (verifyOperation context .noProjection) block = .ok last →
        (∀ control ∈ last.pending, Controlled context none control) →
        (∀ operation ∈ operations, operation.nestsOwned = false) →
        Tracks context.rows outer block.state.facts.parameters.length block.state frame live →
        Triple Ledger live (runOperations functions fuel none frame operations) fun flow live' =>
          ∃ frame', flow = .next frame' ∧
            Tracks context.rows outer last.state.facts.parameters.length last.state frame' live' := by
  intro fuel
  induction fuel with
  | zero =>
    intros
    exact Triple.stop
  | succ fuel ih =>
    intro hsound operations block last frame live h hcontrolled hnested ht
    cases operations with
    | nil =>
      cases h
      exact Triple.pure ⟨frame, rfl, ht⟩
    | cons operation operations =>
      rw [List.foldlM_cons] at h
      obtain ⟨next, hnext, h⟩ := Outcome.peel h
      have hgrows := verifyOperation_grows ht.scoped_state hnext
      have hrest := foldlM_verifyOperation_grows operations (hgrows.follows.keeps ht.scoped_state) h
      refine (topOperation_sound (hsound fuel (Nat.lt_succ_self fuel)) hrows hnext
        (fun control hcontrol => hcontrolled control (hrest.pending control hcontrol))
        (hnested operation List.mem_cons_self) ht).bind fun flow live' ⟨frame', hflow, ht'⟩ => ?_
      subst hflow
      exact ih (fun fewer hlt => hsound fewer (Nat.lt_succ_of_lt hlt)) h hcontrolled
        (fun other hother => hnested other (List.mem_cons_of_mem _ hother)) ht'

end

/-! ## Returns -/

theorem knownOwner_slot {span : Check.Span} {id value : Nat}
    (h : knownOwner state id span = .ok (.activeOwner value)) :
    ∃ slot, Takes state (state.dischargeSlot slot) value id := by
  have hheld := held_eq_some.mpr (knownOwner_eq_ok.mp h)
  unfold knownOwner at h
  obtain ⟨slot, hslot, -⟩ := Except.peel h
  exact ⟨slot, hheld, span, slot, hslot, rfl⟩

theorem completeOwners_held {edge : ExitEdge} {span : Check.Span} {excluded : Option OwnerId}
    {u : Unit} (htop : state.facts.enclosing = [])
    (h : completeOwners state.owners state.facts.firstOwner excluded edge span = .ok u)
    {id value : Nat} (hheld : held state id = some value) : excluded = some id := by
  rw [held_eq_some, ownerEntry] at hheld
  have hnone : enclosingOwner state.facts id = none := by simp [enclosingOwner, htop]
  rw [hnone] at hheld
  simp only at hheld
  split at hheld
  · cases hheld
  · next hfirst =>
    unfold completeOwners at h
    split at h
    · cases h
    · next hfind =>
      rw [List.find?_eq_none] at hfind
      have hmem : (OwnerState.activeOwner value, id) ∈
          state.owners.zipIdx state.facts.firstOwner := by
        rw [List.mk_mem_zipIdx_iff_le_and_getElem?_sub]
        exact ⟨by omega, hheld⟩
      have hlive := hfind _ hmem
      simpa [remainsLive] using hlive

/-- **A return moves the last owner that its function holds.** -/
theorem verifyTransfer_moves {returnType : TypeRef} {result : ReturnTransfer} {u : Unit}
    (htop : state.facts.enclosing = [])
    (h : verifyTransfer context state returnType result = .ok u) :
    ∃ moved, Moves state result moved ∧ ∀ id, held moved id = none := by
  unfold verifyTransfer verifyReturn at h
  obtain ⟨known, -, h⟩ := Except.peel h
  obtain ⟨_, -, h⟩ := Except.peel h
  obtain ⟨needsOwner, -, h⟩ := Except.peel h
  obtain ⟨_, hreturned, h⟩ := Except.peel h
  obtain ⟨_, -, hcomplete⟩ := Except.peel h
  cases result with
  | unmanagedReturn value =>
    refine ⟨state, .unmanaged value, fun id => ?_⟩
    cases hheld : held state id with
    | none => rfl
    | some owned => cases completeOwners_held htop hcomplete hheld
  | ownedReturn value owner =>
    cases needsOwner with
    | false => cases hreturned
    | true =>
      obtain ⟨entry, hentry, hreturned⟩ := Except.peel hreturned
      cases entry with
      | dischargedOwner => cases hreturned
      | activeOwner owned =>
        rw [require_eq_ok, decide_eq_true_eq] at hreturned
        obtain ⟨slot, htakes⟩ := knownOwner_slot hentry
        rw [hreturned] at htakes
        refine ⟨_, .owned htakes, fun id => ?_⟩
        rw [htakes.releases id]
        split
        · rfl
        · next hother =>
          cases hheld : held state id with
          | none => rfl
          | some other =>
            have hexcluded := completeOwners_held htop hcomplete hheld
            exact absurd (Option.some.inj hexcluded).symm hother

/-! ## Functions -/

theorem Tracks.start {arguments : List Argument} (hreceived : Received rows outer arguments)
    (hcarried : Carried arguments live outer) :
    Tracks rows outer 0 initialState ⟨arguments, fun _ => none, fun _ => none⟩ live := by
  have hheld : ∀ id, held initialState id = none := by
    intro id
    simp [held, ownerEntry, initialState, enclosingOwner]
  have hvalues : ∀ id, initialState.facts.valueEntry id = none := by
    intro id
    simp [VerificationFacts.valueEntry, initialState]
  refine ⟨⟨⟨List.Pairwise.nil, by simp [initialState], ?_⟩, ?_⟩, ?_, ?_, ?_, hreceived⟩
  · intro id _
    simp [initialState, dischargedAlready]
  · intro id known parent hid
    rw [hvalues] at hid
    cases hid
  · refine ⟨hcarried.reserved_live, fun holder n hholds => ?_, fun holder holder' n hholds hholds' => ?_,
      fun n hn hnot => ?_⟩
    · cases holder with
      | owner id =>
        obtain ⟨value, hid, -⟩ := hholds
        rw [hheld] at hid
        cases hid
      | argument i => exact hcarried.held_live i n hholds.2
    · cases holder with
      | owner id =>
        obtain ⟨value, hid, -⟩ := hholds
        rw [hheld] at hid
        cases hid
      | argument i =>
        cases holder' with
        | owner id =>
          obtain ⟨value, hid, -⟩ := hholds'
          rw [hheld] at hid
          cases hid
        | argument i' => exact congrArg _ (hcarried.unique i i' n hholds.2 hholds'.2)
    · obtain ⟨i, hi⟩ := hcarried.covered n hn hnot
      exact ⟨.argument i, Nat.zero_le i, hi⟩
  · intro id value hid
    rw [hheld] at hid
    cases hid
  · intro id known hid
    rw [hvalues] at hid
    cases hid

/-- With nothing held and every argument bound, only what the caller kept is live. -/
theorem Tracks.settled (ht : Tracks rows outer rows.length state frame live)
    (hheld : ∀ id, held state id = none) : live = outer := by
  refine ht.custody.eq_reserved fun holder n hholds => ?_
  cases holder with
  | owner id =>
    obtain ⟨value, hid, -⟩ := hholds
    rw [hheld] at hid
    cases hid
  | argument i =>
    obtain ⟨hle, hi⟩ := hholds
    obtain ⟨hlt, -⟩ := List.getElem?_eq_some_iff.mp hi
    rw [ht.received.arity] at hlt
    omega

section

variable {program : OwnershipProgram} {checked : Nat}

/-- The functions of a program, each verified and binding owned parameters in its own
block only. -/
structure FunctionChecked (program : OwnershipProgram) (checked : Nat) (function : OwnedFunction) :
    Prop where
  rows : verifyRows program function = .ok ()
  body : verifyFunction checked program function = .ok ()
  top : ∀ operation ∈ function.operations, operation.nestsOwned = false

theorem verifyRows_checked {function : OwnedFunction} (h : verifyRows program function = .ok ())
    {context : Context} (hunions : context.unions = program.unions)
    (hrecords : context.records = program.records) : RowsChecked context function.parameters := by
  intro row hrow
  obtain ⟨_, -, hrows⟩ := Except.peel h
  have hchecked := Except.forM_eq_ok.mp hrows row hrow
  unfold verifyRow at hchecked
  obtain ⟨_, -, hchecked⟩ := Except.peel hchecked
  obtain ⟨managed, hmanaged, hchecked⟩ := Except.peel hchecked
  rw [Context.needsOwnership, hunions, hrecords, hmanaged]
  rw [require_eq_ok] at hchecked
  cases row with
  | managedParameter passing => exact congrArg _ hchecked
  | unmanagedParameter valueType => exact congrArg _ ((Bool.not_eq_true' _).mp hchecked)

/-- **Every function leaves exactly what its caller kept.** -/
theorem functionsSound
    (hchecked : ∀ function ∈ program.functions, FunctionChecked program checked function) :
    ∀ fuel, FunctionsSound program.functions fuel := by
  intro fuel
  induction fuel using Nat.strong_induction_on with
  | _ fuel ih =>
    intro function hfunction arguments live outer hreceived hcarried
    cases fuel with
    | zero => exact Triple.stop
    | succ fuel =>
      have hbody := (hchecked function hfunction).body
      unfold verifyFunction at hbody
      simp only at hbody
      obtain ⟨verified, hverified, hbody⟩ := Outcome.peel hbody
      obtain ⟨_, hbound, hbody⟩ := Outcome.peel hbody
      obtain ⟨_, hresult, hbody⟩ := Outcome.peel hbody
      obtain ⟨_, hjoins, -⟩ := Outcome.peel hbody
      rw [Outcome.liftM_eq_ok] at hbound hresult
      rw [require_eq_ok, decide_eq_true_eq] at hbound
      have hstart := Tracks.start hreceived hcarried
      have hgrows := verifyOperations_grows hstart.scoped_state hverified
      have hrows : ∀ callee ∈ program.functions, RowsChecked
          ⟨checked, function.parameters, program.functions, program.unions, program.records⟩
          callee.parameters :=
        fun callee hcallee => verifyRows_checked (hchecked callee hcallee).rows rfl rfl
      have hsound : ∀ fewer < fuel, BlockSound program.functions
          ⟨checked, function.parameters, program.functions, program.unions, program.records⟩
          fewer := by
        intro fewer hlt
        refine blockSound ?_ hrows fewer fun least hleast => ih least (by omega)
        rfl
      have hrun := topOperations_sound (hrows function hfunction) fuel hsound hverified
        (verifyJoins_controlled (hgrows.startsBefore hstart.scoped_state) hjoins)
        (hchecked function hfunction).top hstart
      refine hrun.bind fun flow live' ⟨frame', hflow, ht⟩ => ?_
      subst hflow
      obtain ⟨moved, hmoves, hheld⟩ := verifyTransfer_moves hgrows.follows.enclosing hresult
      rw [hbound] at ht
      exact (ht.move hmoves).mono fun _ live'' hmoved => hmoved.settled hheld

end

/-! ## Programs -/

section

variable {program accepted : OwnershipProgram} {checked : Nat}

theorem verify_functions (h : verify checked program = .ok accepted)
    (htop : program.ownedAtTop = true) :
    ∀ function ∈ program.functions, FunctionChecked program checked function := by
  intro function hfunction
  unfold verify at h
  iterate 4 obtain ⟨_, -, h⟩ := Outcome.peel h
  obtain ⟨_, hfunctions, -⟩ := Outcome.peel h
  have hverified := Outcome.forM_eq_ok.mp hfunctions function hfunction
  obtain ⟨_, hrows, hbody⟩ := Outcome.peel hverified
  refine ⟨Outcome.liftM_eq_ok.mp hrows, hbody, fun operation hoperation => ?_⟩
  have hall := List.all_eq_true.mp htop function hfunction
  simpa using List.all_eq_true.mp hall operation hoperation

theorem callerArguments_received (rows : List OwnedParameter) :
    Triple Ledger ∅ (callerArguments rows) fun arguments live =>
      Received rows ∅ arguments ∧ Carried arguments live ∅ := by
  have hpassed : Triple Ledger ∅ (callerArguments rows) fun arguments live =>
      List.Forall₂ Fits rows arguments ∧
        (∀ (i : Nat) root, arguments[i]? = some (.borrowed root) → root = .outside) ∧
        Carried arguments live ∅ := by
    refine Triple.foldlM
      (I := fun passed arguments live => List.Forall₂ Fits passed arguments ∧
        (∀ (i : Nat) root, arguments[i]? = some (.borrowed root) → root = .outside) ∧
        Carried arguments live ∅)
      rows ?_ [] [] ∅ ⟨.nil, by simp, .nil⟩
    rintro passed row hrow arguments live ⟨hfits, hroots, hcarried⟩
    -- an argument that is no borrow, or the outermost one, keeps the roots
    have hlast : ∀ argument, (∀ root, argument = .borrowed root → root = .outside) →
        ∀ (i : Nat) root, (arguments ++ [argument])[i]? = some (.borrowed root) →
          root = .outside := by
      intro argument hargument i root hi
      rw [List.getElem?_append] at hi
      split at hi
      · exact hroots i root hi
      · rw [List.getElem?_singleton] at hi
        split at hi
        · exact hargument root (Option.some.inj hi)
        · cases hi
    cases row with
    | unmanagedParameter valueType =>
      refine Triple.pure ⟨List.rel_append hfits (.cons ?_ .nil), hlast _ (by simp),
        hcarried.plain (by simp)⟩
      trivial
    | managedParameter passing =>
      simp only
      split
      · next howned =>
        refine introduce_ledger.bind fun n live' ⟨hn, hlive'⟩ => ?_
        subst hlive'
        exact Triple.pure ⟨List.rel_append hfits (.cons howned .nil), hlast _ (by simp),
          hcarried.fresh hn⟩
      · next howned =>
        refine Triple.pure ⟨List.rel_append hfits (.cons ?_ .nil), hlast _ (by simp),
          hcarried.plain (by simp)⟩
        exact (Bool.not_eq_true _).mp howned
  refine hpassed.mono fun arguments live ⟨hfits, hroots, hcarried⟩ => ?_
  refine ⟨⟨hfits.length_eq.symm, fun i row argument hrow hargument => ?_, fun i root hi => ?_⟩,
    hcarried⟩
  · obtain ⟨hi, rfl⟩ := List.getElem?_eq_some_iff.mp hrow
    obtain ⟨hi', rfl⟩ := List.getElem?_eq_some_iff.mp hargument
    exact (List.forall₂_iff_get.mp hfits).2 i hi hi'
  · rw [hroots i root hi]
    trivial

/-- **The ownership verifier is sound** where owned parameters are bound in their
function's own block: no execution of a verified function, on any path, reads,
discharges or introduces an obligation out of turn, and one that ends has discharged
every obligation exactly once. -/
theorem verify_sound (h : verify checked program = .ok accepted)
    (htop : program.ownedAtTop = true) {function : OwnedFunction}
    (hfunction : function ∈ program.functions) (fuel : Nat) (choices : List Nat) :
    (execute program.functions fuel function choices).1 ≠ .fault ∧
      Accounted (execute program.functions fuel function choices).2.trace ∧
      ((execute program.functions fuel function choices).1 = .done () →
        Settled (execute program.functions fuel function choices).2.trace) := by
  have hrun : Triple Ledger ∅ (do
      let arguments ← callerArguments function.parameters
      runFunction program.functions fuel function arguments : Exec Unit)
      fun _ live => live = ∅ := by
    refine (callerArguments_received function.parameters).bind
      fun arguments live ⟨hreceived, hcarried⟩ => ?_
    exact functionsSound (verify_functions h htop) fuel function hfunction arguments live ∅
      hreceived hcarried
  have hend := hrun ⟨0, [], choices⟩ ⟨.start, by simp⟩
  unfold execute
  revert hend
  generalize (do
      let arguments ← callerArguments function.parameters
      runFunction program.functions fuel function arguments : Exec Unit) ⟨0, [], choices⟩ = ended
  intro hend
  obtain ⟨status, machine⟩ := ended
  cases status with
  | done u =>
    obtain ⟨live, ⟨haccount, -⟩, hlive⟩ := hend
    subst hlive
    exact ⟨by simp, haccount.accounted, fun _ => haccount.settled⟩
  | stopped =>
    obtain ⟨live, haccount, -⟩ := hend
    exact ⟨by simp, haccount.accounted, by simp⟩
  | fault => exact hend.elim

end

/-! ## A parameter bound twice -/

section

open Check (compilerSpan)

/-- Consumes a string into the function after it. -/
def consumingMain : OwnedFunction where
  label := "main"
  parameters := []
  returnType := .voidType
  operations := [
    .defineValue ⟨0, .stringType, .stringDefinition "a", .ownedResult 0, compilerSpan⟩,
    .defineValue ⟨1, .voidType, .callDefinition (.userFunction 1) [.consumedArgument 0 0],
      .unmanagedResult, compilerSpan⟩]
  result := .unmanagedReturn 1

/-- A choice on value `2`. -/
def onCount : OwnedSelection :=
  ⟨.unmanagedArgument 2, [.enterArm ⟨0, [], []⟩, .enterArm ⟨1, [], []⟩,
    .testLiteral (.mk .intType .matchRoot) (.exactInt 0) 0 1], 2⟩

/-- Carries its owned parameter around a loop and out of it, and drops it in either arm of a
join. -/
def droppingFunction : OwnedFunction where
  label := "drop"
  parameters := [.managedParameter ⟨.stringType, true⟩]
  returnType := .voidType
  operations := [
    .defineValue ⟨0, .voidType, .voidDefinition, .unmanagedResult, compilerSpan⟩,
    .defineValue ⟨1, .stringType, .parameterDefinition 0, .ownedResult 0, compilerSpan⟩,
    .defineValue ⟨2, .intType, .integerDefinition 0, .unmanagedResult, compilerSpan⟩,
    .executeLoop ⟨[], [⟨.managedJoinParameter ⟨6, .stringType, compilerSpan⟩ 2, .ownedReturn 1 0⟩],
      .unmanagedJoinParameter ⟨3, .voidType, compilerSpan⟩,
      [.managedJoinParameter ⟨4, .stringType, compilerSpan⟩ 1],
      ⟨[], .matchLoop ⟨onCount,
        [⟨0, [], ⟨[], .exitLoop (.break ⟨.unmanagedReturn 0, [.ownedReturn 6 2], compilerSpan⟩)⟩⟩,
          ⟨1, [], ⟨[], .exitLoop (.recur [.ownedReturn 6 2] compilerSpan)⟩⟩]⟩⟩⟩,
    .executeJoin ⟨.unmanagedJoinParameter ⟨5, .voidType, compilerSpan⟩, [], [1], onCount,
      [⟨0, [], [.dropOwner 1 compilerSpan], .yield ⟨.unmanagedReturn 0, []⟩⟩,
        ⟨1, [], [.dropOwner 1 compilerSpan], .yield ⟨.unmanagedReturn 0, []⟩⟩]⟩]
  result := .unmanagedReturn 0

/-- Binds its owned parameter in a join's arm, drops it there, and binds and drops it
again in its own block. -/
def reboundFunction : OwnedFunction where
  label := "rebound"
  parameters := [.managedParameter ⟨.stringType, true⟩]
  returnType := .voidType
  operations := [
    .defineValue ⟨0, .voidType, .voidDefinition, .unmanagedResult, compilerSpan⟩,
    .executeJoin ⟨.unmanagedJoinParameter ⟨1, .voidType, compilerSpan⟩, [], [],
      ⟨.unmanagedArgument 0, [.enterArm ⟨0, [], []⟩], 0⟩,
      [⟨0, [], [
        .defineValue ⟨3, .stringType, .parameterDefinition 0, .ownedResult 1, compilerSpan⟩,
        .dropOwner 1 compilerSpan], .yield ⟨.unmanagedReturn 0, []⟩⟩]⟩,
    .defineValue ⟨2, .stringType, .parameterDefinition 0, .ownedResult 0, compilerSpan⟩,
    .dropOwner 0 compilerSpan]
  result := .unmanagedReturn 0

def droppingProgram : OwnershipProgram :=
  ⟨[], [], [consumingMain, droppingFunction], .noArguments 0 .successfulExit⟩

def reboundProgram : OwnershipProgram :=
  ⟨[], [], [consumingMain, reboundFunction], .noArguments 0 .successfulExit⟩

def accepts (fuel : Nat) (program : OwnershipProgram) : Bool :=
  match verify fuel program with
  | .ok _ => true
  | _ => false

theorem accepts_eq_true {fuel : Nat} {program : OwnershipProgram}
    (h : accepts fuel program = true) : ∃ accepted, verify fuel program = .ok accepted := by
  unfold accepts at h
  split at h
  · next accepted hverified => exact ⟨accepted, hverified⟩
  · cases h

/-- An execution through a consumed argument, two turns of a loop and a join's arm. -/
theorem verify_sound_dropping : (∃ accepted, verify 40 droppingProgram = .ok accepted) ∧
      (execute droppingProgram.functions 40 consumingMain [0, 1, 0]).1 = .done () ∧
      Settled (execute droppingProgram.functions 40 consumingMain [0, 1, 0]).2.trace := by
  have hended : (execute droppingProgram.functions 40 consumingMain [0, 1, 0]).1 = .done () := by
    decide +kernel
  obtain ⟨accepted, hverified⟩ :=
    accepts_eq_true (show accepts 40 droppingProgram = true by decide +kernel)
  have hmain : consumingMain ∈ droppingProgram.functions := by simp [droppingProgram]
  have hsound := verify_sound hverified (by decide +kernel) hmain 40 [0, 1, 0]
  exact ⟨⟨accepted, hverified⟩, hended, hsound.2.2 hended⟩

/-- **An accepted program discharges one obligation twice**: an arm binds an owned
parameter that its function binds again. -/
theorem verify_accepts_rebound_parameter : (∃ accepted, verify 20 reboundProgram = .ok accepted) ∧
      ¬ Accounted (execute reboundProgram.functions 20 consumingMain []).2.trace := by
  refine ⟨accepts_eq_true (by decide +kernel), fun haccounted => ?_⟩
  have htrace : (execute reboundProgram.functions 20 consumingMain []).2.trace =
      [.introduced 0, .used 0, .discharged 0, .introduced 1, .discharged 1] ++
        .discharged 1 :: [] := by
    decide +kernel
  have hplaced := haccounted _ _ _ htrace
  exact hplaced.2 (by simp)

end

end Blorp.Verify
