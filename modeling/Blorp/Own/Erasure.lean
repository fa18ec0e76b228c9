import Blorp.Own.Erase

/-!
# Insertion only adds ownership

Erasing what insertion built gives back the lowered program.  Each operand keeps
its value whatever its tag (`buildDefinition_erases`, `passCall_erases`), a block's
entries erase to its steps (`insertSteps_erases`), each edge keeps its values, and
`completeJoins` carries this through the arms by induction on its fuel.
-/

namespace Blorp.Own

open Check (Span)
open Specialize
open Lower (ValueId ValueParameter ValueDefinition LoweredStep LoweredJoin LoweredLoop
  LoweredSelection LoweredFunction LoopExit LoopTail LoopBlock LoopMatch LoopArm JoinArm JoinExit
  JoinOutputs SelectionDefinition SelectionEdge stepsWithoutReads stepsWithoutReads_eq_map)
open Fuel Outcome

/-! ## Operands keep their values -/

variable {value : ValueId} {scope : ValueScope} {span resultSpan : Span} {values : List ValueId}
variable {point : StepPoint}
variable {nextOwner fuel firstOwner initialOwner position firstValue heldHeaders : Nat}
variable {layouts : Layouts} {definition : OwnedDefinition} {parameters : List ValueParameter}
variable {inputs : BuiltInputs} {steps further : List LoweredStep} {entries : List InsertedEntry}
variable {operation : OwnershipOperation} {frame : BlockFrame} {state next : BlockState}
variable {looped : LoweredLoop} {seedInputs : List OwnedJoinParameter}
variable {operations : List OwnershipOperation} {definitions : List SelectionDefinition}
variable {enclosing : List EnclosingBlock} {outputs : JoinOutputs} {arm : JoinArm}
variable {entering : List ScheduledDrop} {loopScope : Option LoopScope} {contracts : CallContracts}
variable {exit : LoopExit}

theorem borrowArgument_value {argument : OwnedArgument}
    (h : borrowArgument value scope span = .ok argument) : argumentValue argument = value := by
  obtain ⟨source, -, h⟩ := Except.peel h
  cases source <;> cases h <;> rfl

theorem map_eq_of_forall₂ {α β : Type} {f : β → α} {as : List α} {bs : List β}
    (h : List.Forall₂ (fun a b => f b = a) as bs) : bs.map f = as := by
  induction h with
  | nil => rfl
  | cons hfirst _ ih => rw [List.map_cons, hfirst, ih]

variable {arguments : List OwnedArgument} {stepDrops : List ScheduledDrop}
variable {output : OwnedJoinParameter} {lowered : ValueDefinition} {more : List OwnershipOperation}

theorem borrowedArguments_value (h : borrowedArguments values scope span = .ok arguments) :
    arguments.map argumentValue = values :=
  map_eq_of_forall₂ ((List.mapM_eq_ok_iff.mp h).imp fun _ _ hb => borrowArgument_value hb)

theorem storePayload_value {state next : StoredPayloads}
    (h : storePayload scope span stepDrops point state value = .ok next) :
    next.stored.map payloadValue = state.stored.map payloadValue ++ [value] := by
  obtain ⟨source, -, h⟩ := Except.peel h
  cases source with
  | unmanagedResult => cases h; simp [payloadValue]
  | borrowedResult borrowed => cases h; simp [StoredPayloads.acquire, payloadValue]
  | ownedResult owner =>
    simp only at h
    split at h
    · cases h; simp [payloadValue]
    · cases h; simp [StoredPayloads.acquire, payloadValue]

theorem storePayloads_value {payloads : StoredPayloads}
    (h : storePayloads values scope span point nextOwner = .ok payloads) :
    payloads.stored.map payloadValue = values := by
  obtain ⟨stepDrops, -, h⟩ := Except.peel h
  have hall := Except.foldlM_invariant
    (I := fun passed state => state.stored.map payloadValue = passed)
    (fun passed value state next hs hn => by rw [storePayload_value hn, hs])
    values [] _ payloads rfl h
  simpa using hall

theorem storedFields_erase : ∀ (fields : List Lower.RecordFieldValue) (payloads : List StoredPayload),
    payloads.map payloadValue = fields.map (·.value) →
    ((storedFields fields payloads).map fun field =>
      (⟨field.field, payloadValue field.value⟩ : Lower.RecordFieldValue)) = fields
  | [], payloads, _ => by simp [storedFields]
  | field :: fields, [], h => by simp at h
  | field :: fields, payload :: payloads, h => by
      simp only [List.map_cons, List.cons.injEq] at h
      simp only [storedFields, List.zipWith_cons_cons, List.map_cons]
      rw [h.1]
      exact congrArg _ (storedFields_erase fields payloads h.2)

theorem buildOperation_erases {definition : ValueDefinition} {built : BuiltOperation}
    (h : buildOperation definition scope nextOwner point = .ok built) :
    eraseValueOperation built.operation = definition.operation := by
  unfold buildOperation at h
  cases hop : definition.operation with
  | constructRecordValue owner fields =>
    simp only [hop] at h
    obtain ⟨payloads, hp, h⟩ := Except.peel h
    split at h
    · cases h
      have hvalues := storedFields_erase fields _ (storePayloads_value hp)
      simp [StoredPayloads.build, eraseValueOperation, hvalues]
    · cases h
  | readRecordFieldValue field value =>
    simp only [hop] at h
    obtain ⟨parent, hp, h⟩ := Except.peel h
    cases h
    simp [eraseValueOperation, borrowArgument_value hp]
  | constructValue id values | constructListValue values =>
    simp only [hop] at h
    obtain ⟨payloads, hp, h⟩ := Except.peel h
    cases h
    simp [StoredPayloads.build, eraseValueOperation, storePayloads_value hp]
  | listSuffixValue value skipped =>
    simp only [hop] at h
    obtain ⟨argument, hp, h⟩ := Except.peel h
    cases h
    simp [eraseValueOperation, borrowArgument_value hp]
  | capturedCallableValue body environment =>
    simp only [hop] at h
    obtain ⟨payloads, hp, h⟩ := Except.peel h
    obtain ⟨payload, hfirst, h⟩ := Except.peel h
    cases h
    have hvalues := storePayloads_value hp
    have hvalue : payloadValue payload = environment := by
      have hget := congrArg (·[0]?) hvalues
      simpa [orInternalError_eq_ok.mp hfirst] using hget
    simp [StoredPayloads.build, eraseValueOperation, hvalue]
  | invokeCallableValue callee written =>
    simp only [hop] at h
    obtain ⟨callable, hc, h⟩ := Except.peel h
    obtain ⟨arguments, ha, h⟩ := Except.peel h
    cases h
    simp [eraseValueOperation, borrowArgument_value hc, borrowedArguments_value ha]
  | callValue target written =>
    simp only [hop] at h
    obtain ⟨arguments, ha, h⟩ := Except.peel h
    cases h
    simp [eraseValueOperation, borrowedArguments_value ha]
  | parameterValue index | voidValue | stringValue bytes | integerValue value | floatValue value
  | payloadValue variant value | listElementValue index value | freeCallableValue body =>
    simp only [hop] at h; cases h; rfl

theorem buildDefinition_erases {definition : ValueDefinition} {parameters : List OwnedParameter}
    {built : BuiltDefinition}
    (h : buildDefinition definition scope nextOwner point parameters layouts = .ok built) :
    eraseDefinition built.definition = definition := by
  obtain ⟨needsOwner, -, h⟩ := Except.peel h
  obtain ⟨operation, hop, h⟩ := Except.peel h
  obtain ⟨result, -, h⟩ := Except.peel h
  cases h
  simp [eraseDefinition, buildOperation_erases hop]

/-! ## Calls keep their arguments -/

theorem passArgument_value {rule : PassingRule} {transfers : List Bool} {backers : List OwnerId}
    {state next : Passing} {argument : OwnedArgument × Nat}
    (h : passArgument scope span stepDrops point rule transfers backers state argument = .ok next) :
    next.passed.map argumentValue = state.passed.map argumentValue ++ [argumentValue argument.1] := by
  unfold passArgument at h
  split at h
  · rename_i borrow hargument _
    obtain ⟨source, -, h⟩ := Except.peel h
    simp only at h
    split at h <;> cases h <;> simp [hargument, argumentValue]
  · cases h
    simp

theorem passArguments_erases {target : CallTarget} {rule : PassingRule} {passed : PassedCall}
    (hop : definition.operation = .callDefinition target arguments)
    (h : passArguments fuel definition target arguments rule firstOwner scope point =
      .ok (some passed)) : eraseDefinition passed.definition = eraseDefinition definition := by
  obtain ⟨stepDrops, -, h⟩ := peel h
  simp only at h
  split at h
  · cases h
  obtain ⟨⟨backers, failure⟩, -, h⟩ := peel h
  obtain ⟨⟨state, failure'⟩, hloop, h⟩ := peel h
  obtain ⟨final, hsettle, hfinal⟩ := peel h
  obtain ⟨rfl, rfl⟩ : state = final ∧ failure' = none := by simpa using settle_eq_ok.mp hsettle
  have hrun := (loop_eq_ok_none.mp hloop).2
  have hvalues := Yields.foldlM
    (I := fun seen (state : Passing) =>
      state.passed.map argumentValue = seen.map fun argument : OwnedArgument × Nat => argumentValue argument.1)
    (fun seen argument state hs => Yields.liftM fun next hn => by
      rw [passArgument_value hn, hs, List.map_append]; rfl)
    arguments.zipIdx [] _ rfl state hrun
  have hvalues : state.passed.map argumentValue = arguments.map argumentValue := by
    rw [hvalues, List.nil_append]
    show arguments.zipIdx.map (argumentValue ∘ Prod.fst) = _
    rw [← List.map_map, List.zipIdx_map_fst]
  split at hfinal
  · cases hfinal
  · cases hfinal
    simp [eraseDefinition, eraseValueOperation, hvalues, hop]

theorem passCall_erases {callees : CalleeContracts} {passed : PassedCall}
    (h : passCall fuel definition callees firstOwner scope point = .ok (some passed)) :
    eraseDefinition passed.definition = eraseDefinition definition := by
  unfold passCall at h
  split at h
  · rename_i operation arguments hop
    split at h
    · exact passArguments_erases hop h
    · cases h
  · rename_i callee arguments hop
    split at h
    · cases h
    · split at h
      · cases h
      · split at h
        · exact passArguments_erases hop h
        · cases h
  · cases h

/-! ## Outputs and inputs keep their parameters -/

theorem ownedJoinParameter_parameter {parameter : ValueParameter}
    (h : ownedJoinParameter parameter nextOwner layouts = .ok output) :
    output.joinParameter = parameter := by
  obtain ⟨needsOwner, -, h⟩ := Except.peel h
  cases needsOwner <;> cases h <;> rfl

theorem buildInputs_parameters (h : buildInputs parameters initialOwner layouts = .ok inputs) :
    inputs.parameters.map (·.joinParameter) = parameters := by
  have hall := Except.foldlM_invariant
    (I := fun passed (state : BuiltInputs) => state.parameters.map (·.joinParameter) = passed)
    (fun passed parameter state next hs hn => by
      obtain ⟨input, hinput, hn⟩ := Except.peel hn
      cases hn
      simp [hs, ownedJoinParameter_parameter hinput])
    parameters [] _ inputs rfl h
  simpa using hall

theorem buildOutputs_parameters {result : ValueParameter} {carried : List ValueParameter}
    {built : BuiltOutputs} (h : buildOutputs result carried nextOwner layouts = .ok built) :
    built.result.joinParameter = result ∧ built.carried.map (·.joinParameter) = carried := by
  obtain ⟨output, houtput, h⟩ := Except.peel h
  obtain ⟨inputs, hinputs, h⟩ := Except.peel h
  cases h
  exact ⟨ownedJoinParameter_parameter houtput, buildInputs_parameters hinputs⟩

/-! ## Entries and the steps they stand for -/

/-- The step an entry stands for: what its operation erases to, or the join or
loop it waits for, with the outputs already decided. -/
inductive EntryErases : InsertedEntry → List LoweredStep → Prop where
  | operation {operation : OwnershipOperation} {steps : List LoweredStep}
      (erases : eraseOperation operation = some steps) : EntryErases (.inserted operation) steps
  | join {pending : PendingOwnedJoin}
      (scrutinee : argumentValue pending.scrutinee = pending.join.selection.scrutinee)
      (result : pending.result.joinParameter = pending.join.result)
      (carried : pending.carried.map (·.joinParameter) = pending.join.carried) :
      EntryErases (.awaitingArms pending) [(LoweredStep.join pending.join).withoutReads]
  | loop {pending : PendingOwnedLoop}
      (headers : pending.headers.map (·.header) = pending.loop.headers)
      (result : pending.result.joinParameter = pending.loop.result)
      (carried : pending.carried.map (·.joinParameter) = pending.loop.carried) :
      EntryErases (.awaitingLoop pending) [(LoweredStep.loop pending.loop).withoutReads]

inductive EntriesErase : List InsertedEntry → List LoweredStep → Prop where
  | nil : EntriesErase [] []
  | cons {entry : InsertedEntry} {entries : List InsertedEntry} {first rest : List LoweredStep}
      (head : EntryErases entry first) (tail : EntriesErase entries rest) :
      EntriesErase (entry :: entries) (first ++ rest)

theorem EntryErases.single {entry : InsertedEntry} (h : EntryErases entry steps) :
    EntriesErase [entry] steps := by
  have hcons := EntriesErase.cons h .nil
  rwa [List.append_nil] at hcons

theorem EntriesErase.append {more : List InsertedEntry} (h : EntriesErase entries steps)
    (hmore : EntriesErase more further) : EntriesErase (entries ++ more) (steps ++ further) := by
  induction h with
  | nil => exact hmore
  | cons head tail ih =>
    rw [List.append_assoc]
    exact .cons head ih

/-- Acquisitions and drops stand for no step. -/
def OwnershipOperation.isBookkeeping : OwnershipOperation → Bool
  | .acquireOwner _ _ _ | .dropOwner _ _ => true
  | _ => false

theorem eraseOperation_bookkeeping (h : operation.isBookkeeping = true) :
    eraseOperation operation = some [] := by
  cases operation <;> first | rfl | cases h

theorem EntriesErase.bookkeeping : ∀ {operations : List OwnershipOperation},
    (∀ operation ∈ operations, operation.isBookkeeping = true) →
    EntriesErase (operations.map .inserted) []
  | [], _ => .nil
  | operation :: operations, h => by
      have hhead := eraseOperation_bookkeeping (h operation List.mem_cons_self)
      exact .cons (.operation hhead)
        (EntriesErase.bookkeeping fun other ho => h other (List.mem_cons_of_mem _ ho))

/-- The second list extends the first by entries that stand for `steps`. -/
def Grows (before after : List InsertedEntry) (steps : List LoweredStep) : Prop :=
  ∃ added, after = before ++ added ∧ EntriesErase added steps

theorem Grows.refl (entries : List InsertedEntry) : Grows entries entries [] :=
  ⟨[], (List.append_nil _).symm, .nil⟩

theorem Grows.trans {first second third : List InsertedEntry} (h : Grows first second steps)
    (hmore : Grows second third further) : Grows first third (steps ++ further) := by
  obtain ⟨added, rfl, hadded⟩ := h
  obtain ⟨more, rfl, hmore⟩ := hmore
  exact ⟨added ++ more, List.append_assoc _ _ _, hadded.append hmore⟩

theorem Grows.append {added : List InsertedEntry} (h : EntriesErase added steps) :
    Grows entries (entries ++ added) steps :=
  ⟨added, rfl, h⟩

theorem Grows.erases {before after : List InsertedEntry} (h : Grows before after further)
    (hbefore : EntriesErase before steps) : EntriesErase after (steps ++ further) := by
  obtain ⟨added, rfl, hadded⟩ := h
  exact hbefore.append hadded

/-! ## One step -/

theorem grows_acquire (state : BlockState) (acquisitions : List OwnerAcquisition) (span : Span) :
    Grows state.entries (state.acquire acquisitions span).entries [] := by
  let acquire (acquisition : OwnerAcquisition) : OwnershipOperation :=
    .acquireOwner acquisition.owner acquisition.borrow span
  have hacquired : EntriesErase ((acquisitions.map acquire).map .inserted) [] := by
    refine EntriesErase.bookkeeping fun operation ho => ?_
    obtain ⟨acquisition, -, rfl⟩ := List.mem_map.mp ho
    rfl
  rw [List.map_map] at hacquired
  exact .append hacquired

theorem entriesErase_define (h : eraseDefinition definition = lowered) :
    EntriesErase [.inserted (.defineValue definition)] [.define lowered] := by
  refine (EntryErases.operation ?_).single
  rw [eraseOperation, h]

theorem insertProjection_grows {borrow : BorrowedValue}
    (hd : eraseDefinition definition = lowered) :
    Yields (fun outputs : StepOutputs => Grows state.entries outputs.state.entries [.define lowered])
      (insertProjection fuel frame state position definition borrow) := by
  have hdefined : Grows state.entries (state.append [.inserted (.defineValue definition)]).entries
      [.define lowered] := .append (entriesErase_define hd)
  refine Yields.bind_any fun lasts => ?_
  cases lasts with
  | true => exact Yields.ok hdefined
  | false => exact Yields.ok (hdefined.trans (.append (EntryErases.operation rfl).single))

theorem insertDefineStep_grows {definition : ValueDefinition} : Yields (fun outputs : StepOutputs =>
        Grows state.entries outputs.state.entries [.define definition])
      (insertDefineStep fuel frame state position definition) := by
  refine Yields.bind (Yields.liftM fun built hb => buildDefinition_erases hb) fun built hb => ?_
  refine Yields.bind (fun passed hp => hp) fun passed hp => ?_
  cases passed with
  | some call =>
    have hcall : eraseDefinition call.definition = definition := (passCall_erases hp).trans hb
    simp only
    split
    · exact Yields.ok ((grows_acquire state call.acquisitions definition.span).trans
        (.append (entriesErase_define hcall)))
    · exact Yields.err _
  | none =>
    simp only
    split
    · exact Yields.ok ((grows_acquire { state with nextOwner := built.nextOwner } _
        definition.span).trans (.append (entriesErase_define hb)))
    · exact insertProjection_grows hb

theorem insertJoinStep_grows {joined : LoweredJoin} {outputs : StepOutputs}
    (h : insertJoinStep frame state position joined = .ok outputs) :
    Grows state.entries outputs.state.entries [(LoweredStep.join joined).withoutReads] := by
  obtain ⟨built, hbuilt, h⟩ := Except.peel h
  obtain ⟨scrutinee, hscrutinee, h⟩ := Except.peel h
  obtain ⟨taken, -, h⟩ := Except.peel h
  cases h
  obtain ⟨hresult, hcarried⟩ := buildOutputs_parameters hbuilt
  exact .append (EntryErases.join (borrowArgument_value hscrutinee) hresult hcarried).single

theorem enteringHeaders_header {reads : List ValueId} :
    Yields (fun entering : List EnteringHeader => entering.map (·.header) = looped.headers)
      (enteringHeaders fuel looped reads point scope) := by
  refine Yields.bind_any fun stepDrops => ?_
  refine (Yields.mapM (R := fun header (entered : EnteringHeader) => entered.header = header)
    (fun header => ?_) looped.headers).mono fun entering hall => ?_
  · refine Yields.bind_any fun entry => ?_
    exact Yields.ok rfl
  · exact map_eq_of_forall₂ hall

theorem insertLoopStep_grows : Yields (fun outputs : StepOutputs =>
        Grows state.entries outputs.state.entries [(LoweredStep.loop looped).withoutReads])
      (insertLoopStep fuel frame state position looped) := by
  refine Yields.bind (Yields.liftM fun built hb => buildOutputs_parameters hb) fun built hb => ?_
  refine Yields.bind enteringHeaders_header fun entering he => ?_
  exact Yields.ok (.append (EntryErases.loop he hb.1 hb.2).single)

theorem insertAvailable_grows (step : LoweredStep) :
    Yields (fun outputs : StepOutputs => Grows state.entries outputs.state.entries [step.withoutReads])
      (insertAvailable fuel frame state position step) := by
  cases step with
  | define definition => exact insertDefineStep_grows
  | join joined => exact Yields.liftM fun outputs ho => insertJoinStep_grows ho
  | loop looped => exact insertLoopStep_grows

theorem scheduleOwner_entries {slot : Nat} {owner : OwnerId}
    (h : scheduleOwner frame state slot position owner span = .ok next) :
    next.entries = state.entries := by
  obtain ⟨until_, -, h⟩ := Except.peel h
  split at h
  · split at h
    · cases h
    · split at h
      · cases h
      · cases h; rfl
  · cases h; rfl

theorem publishResult_entries {outputs : StepOutputs}
    (h : publishResult frame outputs position span = .ok next) :
    next.entries = outputs.state.entries := by
  unfold publishResult at h
  split at h
  · have hentries := scheduleOwner_entries h
    exact hentries
  · cases h; rfl

theorem publishCarried_entries (h : publishCarried frame position state output = .ok next) :
    next.entries = state.entries := by
  cases output with
  | unmanagedJoinParameter parameter => cases h; rfl
  | managedJoinParameter parameter owner =>
    have hentries : next.entries =
        ({ state with sources := state.sources ++ [.ownedResult owner] } : BlockState).entries :=
      scheduleOwner_entries h
    exact hentries

theorem retireRow_grows (frame : BlockFrame) (takenHere : List OwnerId) (state : BlockState)
    (dropped : ScheduledDrop) :
    Grows state.entries (retireRow frame takenHere state dropped).entries [] := by
  have hdrop : Grows state.entries
      (state.append [.inserted (.dropOwner dropped.owner dropped.span)]).entries [] :=
    .append (EntryErases.operation rfl).single
  unfold retireRow
  simp only
  split
  · exact .refl _
  · split
    all_goals
      split
      · exact .refl _
      · exact hdrop

theorem retireRows_grow (frame : BlockFrame) (takenHere : List OwnerId) :
    ∀ (bucket : List ScheduledDrop) (state : BlockState),
      Grows state.entries (bucket.foldl (retireRow frame takenHere) state).entries []
  | [], state => .refl _
  | dropped :: bucket, state => by
      rw [List.foldl_cons]
      exact (retireRow_grows frame takenHere state dropped).trans
        (retireRows_grow frame takenHere bucket _)

theorem insertStep_grows {step : LoweredStep × Nat} :
    Yields (fun next : BlockState => Grows state.entries next.entries [step.1.withoutReads])
      (insertStep fuel frame state step) := by
  refine Yields.bind (insertAvailable_grows step.1) fun outputs houtputs => ?_
  refine Yields.bind (Yields.liftM fun _ hp => publishResult_entries hp) fun published hp => ?_
  -- The outputs are published without further entries.
  refine Yields.bind (Yields.foldlM
    (I := fun _ (state : BlockState) => state.entries = published.entries)
    (fun _ output current hc => Yields.liftM fun next hn => (publishCarried_entries hn).trans hc)
    outputs.carried [] published rfl) fun carried hc => ?_
  refine Yields.bind_any fun bucket => ?_
  refine Yields.ok ?_
  have hretired := retireRows_grow frame outputs.takenHere bucket carried
  rw [hc, hp] at hretired
  simpa using houtputs.trans hretired

/-! ## The steps of a block -/

theorem seedInput_grows {input : OwnedJoinParameter × Nat}
    (h : seedInput frame state input = .ok next) : Grows state.entries next.entries [] := by
  unfold seedInput at h
  split at h
  · split at h
    · cases h; exact .refl _
    · split at h
      · cases h
      · cases h; exact .append (EntryErases.operation rfl).single
      · split at h
        · split at h
          · cases h; exact .refl _
          · cases h
        · cases h; exact .refl _
  · cases h; exact .refl _

theorem enterDischarge_grows {discharge : EnteringDischarge}
    (h : enterDischarge frame state discharge = .ok next) :
    Grows state.entries next.entries [] := by
  cases discharge with
  | dropOnEntry owner span => cases h; exact .append (EntryErases.operation rfl).single
  | lastReadInArm row =>
    unfold enterDischarge at h
    simp only at h
    split at h
    · split at h
      · cases h; exact .refl _
      · cases h
    · cases h; exact .refl _

theorem insertSteps_erases : Yields (fun inserted : InsertedSteps =>
        EntriesErase inserted.entries (stepsWithoutReads frame.steps))
      (insertSteps fuel frame initialOwner seedInputs) := by
  intro inserted h
  obtain ⟨⟨seeded, failed⟩, hseed, h⟩ := peel h
  obtain ⟨⟨entered, failure⟩, henter, h⟩ := peel h
  obtain ⟨start, hsettle, h⟩ := peel h
  obtain ⟨final, hsteps, h⟩ := peel h
  cases h
  have hfailure := settle_eq_ok.mp hsettle
  simp only [Prod.mk.injEq] at hfailure
  rw [hfailure.1, hfailure.2, loop_eq_ok_none] at henter
  rw [henter.1, loop_eq_ok_none] at hseed
  have hseeded := Yields.foldlM (I := fun _ (state : BlockState) => EntriesErase state.entries [])
    (fun _ input state hs => Yields.liftM fun next hn => by
      simpa using (seedInput_grows hn).erases hs)
    seedInputs.zipIdx [] _ .nil seeded hseed.2
  have hentered := Yields.foldlM (I := fun _ (state : BlockState) => EntriesErase state.entries [])
    (fun _ discharge state hs => Yields.liftM fun next hn => by
      simpa using (enterDischarge_grows hn).erases hs)
    frame.discharges [] seeded hseeded start henter.2
  have hfinal := Yields.foldlM
    (I := fun passed (state : BlockState) =>
      EntriesErase state.entries (passed.map fun step : LoweredStep × Nat => step.1.withoutReads))
    (fun passed step state hs => insertStep_grows.mono fun next hn => by
      rw [List.map_append]
      exact hn.erases hs)
    frame.steps.zipIdx [] start hentered final hsteps
  have hmap : (frame.steps.zipIdx.map fun step : LoweredStep × Nat => step.1.withoutReads) =
      stepsWithoutReads frame.steps := by
    rw [stepsWithoutReads_eq_map]
    show frame.steps.zipIdx.map (LoweredStep.withoutReads ∘ Prod.fst) = _
    rw [← List.map_map, List.zipIdx_map_fst]
  rw [List.nil_append, hmap] at hfinal
  exact hfinal

/-! ## Edges keep their values -/

theorem leaveWith_value (value : ValueId) (source : ResultOwnership)
    (entries : List InsertedEntry) (nextOwner : Nat) (span : Span) :
    transferValue (leaveWith value source entries nextOwner span).transfer = value := by
  cases source <;> rfl

theorem leaveWith_entries (value : ValueId) (source : ResultOwnership)
    (entries : List InsertedEntry) (nextOwner : Nat) (span : Span) :
    ∃ acquired : List OwnershipOperation,
      (leaveWith value source entries nextOwner span).entries =
          entries ++ acquired.map .inserted ∧
        ∀ operation ∈ acquired, ∃ owner borrow, operation = .acquireOwner owner borrow span := by
  cases source with
  | unmanagedResult => exact ⟨[], by simp [leaveWith], by simp⟩
  | ownedResult owner => exact ⟨[], by simp [leaveWith], by simp⟩
  | borrowedResult borrow =>
    exact ⟨[.acquireOwner nextOwner ⟨value, borrow⟩ span], by simp [leaveWith], by simp⟩

def Bookkeeping (operations : List OwnershipOperation) : Prop :=
  ∀ operation ∈ operations, operation.isBookkeeping = true

theorem Bookkeeping.append (h : Bookkeeping operations) (hmore : Bookkeeping more) :
    Bookkeeping (operations ++ more) := by
  intro operation ho
  rcases List.mem_append.mp ho with ho | ho
  · exact h operation ho
  · exact hmore operation ho

theorem leaveWith_grows (value : ValueId) (source : ResultOwnership)
    (entries : List InsertedEntry) (nextOwner : Nat) (span : Span) :
    ∃ acquired, Bookkeeping acquired ∧
      (leaveWith value source entries nextOwner span).entries =
        entries ++ acquired.map .inserted := by
  obtain ⟨acquired, hentries, hacquired⟩ := leaveWith_entries value source entries nextOwner span
  refine ⟨acquired, fun operation ho => ?_, hentries⟩
  obtain ⟨owner, borrow, rfl⟩ := hacquired operation ho
  rfl

/-- The occurrences passed so far: their values, and only acquisitions so far. -/
structure Leaves (before : List InsertedEntry) (values : List ValueId) (state : LeavingState) :
    Prop where
  values : state.transfers.map transferValue = values
  entries : ∃ acquired, Bookkeeping acquired ∧ state.entries = before ++ acquired.map .inserted

theorem leaveOccurrence_leaves {ending : List ScheduledDrop} {moved : List OwnerId}
    {left : LeftOccurrence}
    (h : leaveOccurrence scope ending position moved entries nextOwner value span = .ok left) :
    transferValue left.transfer = value ∧
      ∃ acquired, Bookkeeping acquired ∧ left.entries = entries ++ acquired.map .inserted := by
  obtain ⟨source, -, h⟩ := Except.peel h
  cases h
  exact ⟨leaveWith_value _ _ _ _ _, leaveWith_grows _ _ _ _ _⟩

theorem Leaves.leave {before : List InsertedEntry} {ending : List ScheduledDrop}
    {state next : LeavingState} (h : Leaves before values state)
    (hn : state.leave scope ending position value span = .ok next) :
    Leaves before (values ++ [value]) next := by
  obtain ⟨left, hleft, hn⟩ := Except.peel hn
  cases hn
  obtain ⟨hvalue, more, hmore, hentries⟩ := leaveOccurrence_leaves hleft
  obtain ⟨acquired, hacquired, hbefore⟩ := h.entries
  refine ⟨by simp [h.values, hvalue], acquired ++ more, hacquired.append hmore, ?_⟩
  simp [hentries, hbefore]

theorem bookkeeping_dropUnmoved (ending : List ScheduledDrop) (moved : List OwnerId) :
    Bookkeeping (dropUnmoved ending moved) := by
  intro operation ho
  obtain ⟨row, -, rfl⟩ := List.mem_map.mp ho
  rfl

theorem bookkeeping_dropYieldReads (discharges : List EnteringDischarge) (stepCount : Nat)
    (span : Span) : Bookkeeping (dropYieldReads discharges stepCount span) := by
  intro operation ho
  obtain ⟨discharge, -, hd⟩ := List.mem_filterMap.mp ho
  cases discharge with
  | dropOnEntry owner at_ => cases hd
  | lastReadInArm row =>
    simp only [Option.ite_none_right_eq_some, Option.some.injEq] at hd
    rw [← hd.2]
    rfl

/-! ## Selections -/

theorem selectionDefinition_selectionValue (definition : SelectionDefinition) :
    selectionDefinition (selectionValue definition) = some definition := by
  cases definition <;> rfl

theorem eraseEdgeOperation_bookkeeping (h : operation.isBookkeeping = true) :
    eraseEdgeOperation operation = some [] := by
  cases operation <;> first | rfl | cases h

/-- The operations of an edge and the definitions they leave behind. -/
def EdgeErases (operations : List OwnershipOperation) (definitions : List SelectionDefinition) :
    Prop :=
  ∃ parts, operations.mapM eraseEdgeOperation = some parts ∧ parts.flatten = definitions

theorem EdgeErases.append {further : List SelectionDefinition}
    (h : EdgeErases operations definitions) (hmore : EdgeErases more further) :
    EdgeErases (operations ++ more) (definitions ++ further) := by
  obtain ⟨parts, hparts, rfl⟩ := h
  obtain ⟨others, hothers, rfl⟩ := hmore
  exact ⟨parts ++ others, by simp [List.mapM_append, hparts, hothers], by simp⟩

theorem EdgeErases.bookkeeping : ∀ {operations : List OwnershipOperation},
    Bookkeeping operations → EdgeErases operations []
  | [], _ => ⟨[], rfl, rfl⟩
  | operation :: operations, h => by
      have hhead : EdgeErases [operation] [] :=
        ⟨[[]], by simp [eraseEdgeOperation_bookkeeping (h operation List.mem_cons_self)], rfl⟩
      exact hhead.append
        (EdgeErases.bookkeeping fun other ho => h other (List.mem_cons_of_mem _ ho))

theorem EdgeErases.edge (h : EdgeErases operations definitions) (arm : Check.MatchArmId)
    (transfers : List ReturnTransfer) :
    eraseEdge ⟨arm, operations, transfers⟩ = some ⟨arm, definitions, transfers.map transferValue⟩ := by
  obtain ⟨parts, hparts, rfl⟩ := h
  simp [eraseEdge, hparts]

theorem insertEdgeDefinition_erases {state next : EdgeState} {definition : SelectionDefinition}
    (hs : EdgeErases state.operations definitions)
    (h : insertEdgeDefinition enclosing firstValue layouts state definition = .ok next) :
    EdgeErases next.operations (definitions ++ [definition]) := by
  obtain ⟨built, hbuilt, h⟩ := Except.peel h
  cases h
  have hdefine : EdgeErases [.defineValue built.definition] [definition] :=
    ⟨[[definition]], by
      simp [eraseEdgeOperation, buildDefinition_erases hbuilt, selectionDefinition_selectionValue],
      rfl⟩
  refine EdgeErases.append ?_ hdefine
  -- Only acquisitions stand between the definitions.
  have hacquired : ∀ acquired : List OwnershipOperation, Bookkeeping acquired →
      EdgeErases (state.operations ++ acquired) definitions := by
    intro acquired ha
    simpa using hs.append (EdgeErases.bookkeeping ha)
  cases built.acquisitions with
  | storedAcquisitions acquisitions taken =>
    refine hacquired _ fun operation ho => ?_
    obtain ⟨acquisition, -, rfl⟩ := List.mem_map.mp ho
    rfl
  | projection borrow => exact hacquired [] (by simp [Bookkeeping])

theorem plainOperations_inserted {failure : Diagnostic} : ∀ {operations : List OwnershipOperation}
    {plain : List OwnershipOperation},
    plainOperations (operations.map .inserted) failure = .ok plain → plain = operations
  | [], plain, h => by cases h; rfl
  | operation :: operations, plain, h => by
      simp only [plainOperations, List.map_cons, List.mapM_cons] at h
      obtain ⟨first, hfirst, h⟩ := Except.peel h
      obtain ⟨rest, hrest, h⟩ := Except.peel h
      cases hfirst
      cases h
      rw [plainOperations_inserted hrest]

theorem insertSelectionEdge_erases {edge : SelectionEdge} {inserted : InsertedSelectionEdge}
    (h : insertSelectionEdge edge enclosing firstValue initialOwner layouts = .ok inserted) :
    eraseEdge inserted.edge = some edge := by
  obtain ⟨defined, hdefined, h⟩ := Except.peel h
  obtain ⟨left, hleft, h⟩ := Except.peel h
  obtain ⟨acquired, hacquired, h⟩ := Except.peel h
  cases h
  have hdefinitions := Except.foldlM_invariant
    (I := fun passed (state : EdgeState) => EdgeErases state.operations passed)
    (fun passed definition state next hs hn => insertEdgeDefinition_erases hs hn)
    edge.definitions [] _ defined ⟨[], rfl, rfl⟩ hdefined
  have hleaves := Except.foldlM_invariant (I := fun passed state => Leaves [] passed state)
    (fun passed value state next hs hn => hs.leave hn)
    edge.arguments [] _ left ⟨rfl, [], by simp [Bookkeeping], rfl⟩ hleft
  obtain ⟨operations, hbook, hentries⟩ := hleaves.entries
  rw [hentries, List.nil_append] at hacquired
  rw [plainOperations_inserted hacquired]
  have hedge := (hdefinitions.append (EdgeErases.bookkeeping hbook)).append
    (EdgeErases.bookkeeping (bookkeeping_dropUnmoved (edgeEnding defined.sources) left.moved))
  rw [hedge.edge, hleaves.values]
  simp

theorem insertNode_erases {state next : InsertedNodes} {node : Lower.LoweredDecisionNode}
    {passed : List Lower.LoweredDecisionNode} (hs : state.nodes.mapM eraseNode = some passed)
    (h : insertNode enclosing layouts state node = .ok next) :
    next.nodes.mapM eraseNode = some (passed ++ [node]) := by
  cases node with
  | testVariant place variant yes no | testListLength place test yes no
  | testLiteral place literal yes no => cases h; simp [List.mapM_append, hs, eraseNode]
  | enterArm edge =>
    obtain ⟨inserted, hinserted, h⟩ := Except.peel h
    cases h
    simp [List.mapM_append, hs, eraseNode, insertSelectionEdge_erases hinserted]

theorem insertSelection_erases {selection : LoweredSelection} {scrutinee : OwnedArgument}
    {inserted : InsertedSelection} (hs : argumentValue scrutinee = selection.scrutinee)
    (h : insertSelection selection scrutinee enclosing firstValue initialOwner layouts =
      .ok inserted) : eraseSelection inserted.selection = some selection := by
  obtain ⟨nodes, hnodes, h⟩ := Except.peel h
  cases h
  have hall := Except.foldlM_invariant
    (I := fun passed (state : InsertedNodes) => state.nodes.mapM eraseNode = some passed)
    (fun passed node state next hs hn => insertNode_erases hs hn)
    selection.nodes [] _ nodes rfl hnodes
  simp [eraseSelection, hs, hall]

/-! ## Arms and loop edges -/

theorem leaveJoin_erases {stepCount : Nat} {inserted : InsertedSteps} {uses : List (Option Nat)}
    {discharges : List EnteringDischarge} {leaving : LeavingJoin}
    (hsteps : EntriesErase inserted.entries steps)
    (hlength : outputs.carried.length = parameters.length)
    (h : leaveJoin outputs stepCount parameters inserted uses discharges enclosing firstValue span =
      .ok leaving) :
    EntriesErase leaving.entries steps ∧ transferValue leaving.transfer = outputs.value ∧
      leaving.carried.map transferValue = outputs.carried := by
  obtain ⟨ending, -, h⟩ := Except.peel h
  obtain ⟨result, hresult, h⟩ := Except.peel h
  obtain ⟨left, hleft, h⟩ := Except.peel h
  cases h
  obtain ⟨hvalue, first, hfirst, hentries⟩ := leaveOccurrence_leaves hresult
  have hleaves := Except.foldlM_zipIdx_invariant
    (I := fun n state => Leaves inserted.entries (outputs.carried.take n) state)
    (fun n parameter state next hs hn => by
      simp only at hn
      split at hn
      · cases hn
      · rename_i value hvalue
        rw [List.take_add_one, hvalue]
        exact hs.leave hn)
    parameters 0 _ left ⟨rfl, first, hfirst, hentries⟩ hleft
  obtain ⟨acquired, hacquired, hleft⟩ := hleaves.entries
  refine ⟨?_, hvalue, ?_⟩
  · rw [hleft, List.append_assoc, ← List.map_append]
    have hbook := (hacquired.append (bookkeeping_dropUnmoved ending left.moved)).append
      (bookkeeping_dropYieldReads discharges stepCount span)
    simpa using hsteps.append (EntriesErase.bookkeeping hbook)
  · rw [hleaves.values, Nat.zero_add, ← hlength, List.take_length]

theorem insertYieldingBlock_erases : Yields (fun block : InsertedSteps × LeavingJoin =>
        EntriesErase block.2.entries (stepsWithoutReads arm.steps) ∧
          transferValue block.2.transfer = outputs.value ∧
          block.2.carried.map transferValue = outputs.carried)
      (insertYieldingBlock fuel arm outputs parameters resultSpan entering enclosing loopScope
        firstValue inputs contracts layouts) := by
  unfold insertYieldingBlock
  split
  · exact Yields.err _
  rename_i hlength
  refine Yields.bind_any fun span => ?_
  refine Yields.bind_any fun uses => ?_
  refine Yields.bind_any fun discharges => ?_
  refine Yields.bind insertSteps_erases fun inserted hinserted => ?_
  refine Yields.bind
    (Yields.liftM fun leaving hl => leaveJoin_erases hinserted (not_not.mp hlength) hl)
    fun leaving hl => ?_
  exact Yields.ok hl

theorem leaveLoop_erases {inserted : InsertedSteps} {scope : LoopScope} {leaving : LoopEdgeEntries}
    (hsteps : EntriesErase inserted.entries steps)
    (h : leaveLoop exit inserted enclosing scope firstValue position = .ok leaving) :
    EntriesErase leaving.entries steps ∧ eraseLoopExit leaving.exit = exit := by
  obtain ⟨left, hleft, h⟩ := Except.peel h
  obtain ⟨ownedExit, hexit, h⟩ := Except.peel h
  cases h
  have hleaves := Except.foldlM_invariant
    (I := fun passed state => Leaves inserted.entries passed state)
    (fun passed value state next hs hn => hs.leave hn)
    (loopExitValues exit) [] _ left ⟨rfl, [], by simp [Bookkeeping], by simp⟩ hleft
  rw [List.nil_append] at hleaves
  obtain ⟨acquired, hacquired, hentries⟩ := hleaves.entries
  constructor
  · rw [hentries, List.append_assoc, ← List.map_append]
    have hbook := hacquired.append (bookkeeping_dropUnmoved
      (edgeLiveOwners inserted enclosing scope position) left.moved)
    simpa using hsteps.append (EntriesErase.bookkeeping hbook)
  · have hvalues := hleaves.values
    cases exit with
    | recur arguments span =>
      cases hexit
      simpa [eraseLoopExit, loopExitValues] using hvalues
    | «break» outputs =>
      cases htransfers : left.transfers with
      | nil => simp [htransfers, loopExitValues] at hvalues
      | cons first carried =>
        simp only [ownedLoopExit, htransfers] at hexit
        cases hexit
        simp only [htransfers, loopExitValues, List.map_cons, List.singleton_append,
          List.cons.injEq] at hvalues
        simp [eraseLoopExit, hvalues.1, hvalues.2]

theorem insertExitBlock_erases {scope : LoopScope} :
    Yields (fun block : InsertedSteps × LoopEdgeEntries =>
        EntriesErase block.2.entries (stepsWithoutReads steps) ∧
          eraseLoopExit block.2.exit = exit)
      (insertExitBlock fuel steps exit seedInputs heldHeaders enclosing scope firstValue
        initialOwner span contracts layouts) := by
  refine Yields.bind_any fun uses => ?_
  refine Yields.bind_any fun enclosingUses => ?_
  refine Yields.bind insertSteps_erases fun inserted hinserted => ?_
  refine Yields.bind (Yields.liftM fun leaving hl => leaveLoop_erases hinserted hl)
    fun leaving hl => ?_
  exact Yields.ok hl

/-! ## Entering a loop -/

theorem enterHeader_initials {state next : EntryState} {decided : EnteringHeader}
    (h : enterHeader enclosing firstValue state decided = .ok next) :
    next.initials.map transferValue = state.initials.map transferValue ++ [decided.header.initial] := by
  unfold enterHeader at h
  split at h
  · cases h
    simp [transferValue]
  · obtain ⟨source, -, h⟩ := Except.peel h
    obtain ⟨acquired, -, h⟩ := Except.peel h
    cases h
    simp [leaveWith_value]

theorem map_getElem?_zipIdx {α β : Type} {as : List α} {bs : List β} (h : as.length = bs.length) :
    (as.zipIdx.map fun p => bs[p.2]?) = bs.map some := by
  apply List.ext_getElem?
  intro n
  by_cases hn : n < as.length
  · have hb : n < bs.length := by omega
    simp [hn, hb]
  · have hb : ¬n < bs.length := by omega
    simp [hn, hb]

theorem eraseHeader_eq_header : ∀ {headers : List OwnedLoopHeader} {entering : List EnteringHeader},
    headers.map (·.parameter.joinParameter) = entering.map (·.header.parameter) →
    headers.map (fun header => transferValue header.initial) = entering.map (·.header.initial) →
    headers.map eraseHeader = entering.map (·.header)
  | [], [], _, _ => rfl
  | [], decided :: entering, h, _ => by simp at h
  | header :: headers, [], h, _ => by simp at h
  | header :: headers, decided :: entering, hp, hi => by
      simp only [List.map_cons, List.cons.injEq] at hp hi
      rw [List.map_cons, List.map_cons, eraseHeader_eq_header hp.2 hi.2, eraseHeader, hp.1, hi.1]

theorem enterLoop_headers {entering : List EnteringHeader} : Yields (fun entered : EnteredLoop =>
        entered.headers.map eraseHeader = entering.map (·.header))
      (enterLoop entering enclosing firstValue initialOwner layouts) := by
  refine Yields.bind (Yields.liftM fun entry he => Except.foldlM_invariant
    (I := fun passed (state : EntryState) =>
      state.initials.map transferValue = passed.map fun decided : EnteringHeader =>
        decided.header.initial)
    (fun passed decided state next hs hn => by
      rw [enterHeader_initials hn, hs, List.map_append]; rfl)
    entering [] _ entry rfl he) fun entry hentry => ?_
  refine Yields.bind (Yields.liftM fun inputs hi => buildInputs_parameters hi)
    fun inputs hinputs => ?_
  -- Each header takes the transfer at its position.
  refine fun entered h => ?_
  obtain ⟨⟨state, failure⟩, hloop, h⟩ := peel h
  obtain ⟨headers, hsettle, h⟩ := peel h
  cases h
  have hnone := settle_eq_ok.mp hsettle
  rw [hnone, loop_eq_ok_none] at hloop
  have hheaders := Yields.foldlM
    (I := fun passed (headers : List OwnedLoopHeader) =>
      headers.map (·.parameter) = passed.map Prod.fst ∧
        headers.map (fun header => some header.initial) =
          passed.map fun p : OwnedJoinParameter × Nat => entry.initials[p.2]?)
    (fun passed p headers hs => by
      cases hinitial : entry.initials[p.2]? with
      | none => simpa only [hinitial] using Yields.err _
      | some initial =>
        simp only [hinitial]
        exact Yields.ok ⟨by simp [hs.1], by simp [hs.2, hinitial]⟩)
    inputs.parameters.zipIdx [] [] ⟨rfl, rfl⟩ headers hloop.2
  rw [List.nil_append, List.zipIdx_map_fst] at hheaders
  have hlength : inputs.parameters.length = entry.initials.length := by
    have hp := congrArg List.length hinputs
    have hi := congrArg List.length hentry
    simp only [List.length_map, List.nil_append] at hp hi
    omega
  have hinitials : headers.map (·.initial) = entry.initials := by
    have hsome := hheaders.2
    rw [map_getElem?_zipIdx hlength] at hsome
    have hmap : (headers.map (·.initial)).map some = entry.initials.map some := by
      rw [List.map_map]
      exact hsome
    exact List.map_injective_iff.mpr (fun _ _ => Option.some.inj) hmap
  apply eraseHeader_eq_header
  · rw [← hinputs, ← hheaders.1, List.map_map]
    rfl
  · rw [List.nil_append, ← hinitials, List.map_map] at hentry
    exact hentry

/-! ## Completing a block

The nine functions that descend into arms and loop bodies call each other with
less fuel, so what they leave behind is proved together.  -/

theorem eraseOperations_append : ∀ {operations more : List OwnershipOperation}
    {steps further : List LoweredStep}, eraseOperations operations = some steps →
    eraseOperations more = some further →
    eraseOperations (operations ++ more) = some (steps ++ further)
  | [], more, steps, further, h, hmore => by
      cases h
      exact hmore
  | operation :: operations, more, steps, further, h, hmore => by
      simp only [eraseOperations, Option.bind_eq_bind, Option.bind_eq_some_iff] at h
      obtain ⟨first, hfirst, rest, hrest, h⟩ := h
      cases h
      have happend := eraseOperations_append hrest hmore
      simp [eraseOperations, hfirst, happend]

theorem eraseOperations_single (h : eraseOperation operation = some steps) :
    eraseOperations [operation] = some steps := by
  simp [eraseOperations, h]

theorem eraseJoinArms_append : ∀ {arms : List OwnedJoinArm} {arm : OwnedJoinArm}
    {erased : List JoinArm} {last : JoinArm}, eraseJoinArms arms = some erased →
    eraseJoinArm arm = some last → eraseJoinArms (arms ++ [arm]) = some (erased ++ [last])
  | [], arm, erased, last, h, hlast => by
      cases h
      simp [eraseJoinArms, hlast]
  | first :: arms, arm, erased, last, h, hlast => by
      simp only [eraseJoinArms, Option.bind_eq_bind, Option.bind_eq_some_iff] at h
      obtain ⟨one, hone, rest, hrest, h⟩ := h
      cases h
      have happend := eraseJoinArms_append hrest hlast
      simp [eraseJoinArms, hone, happend]

theorem eraseLoopArms_append : ∀ {arms : List OwnedLoopArm} {arm : OwnedLoopArm}
    {erased : List LoopArm} {last : LoopArm}, eraseLoopArms arms = some erased →
    eraseLoopArm arm = some last → eraseLoopArms (arms ++ [arm]) = some (erased ++ [last])
  | [], arm, erased, last, h, hlast => by
      cases h
      simp [eraseLoopArms, hlast]
  | first :: arms, arm, erased, last, h, hlast => by
      simp only [eraseLoopArms, Option.bind_eq_bind, Option.bind_eq_some_iff] at h
      obtain ⟨one, hone, rest, hrest, h⟩ := h
      cases h
      have happend := eraseLoopArms_append hrest hlast
      simp [eraseLoopArms, hone, happend]

/-- A pending join and what its outputs were decided from. -/
def PendingOwnedJoin.Matches (pending : PendingOwnedJoin) : Prop :=
  EntryErases (.awaitingArms pending) [(LoweredStep.join pending.join).withoutReads]

/-! What every function of the recursion leaves behind at some fuel. -/

section

variable (fuel : Nat)

def CompleteJoinsErases : Prop :=
  ∀ {entries firstValue firstOwner contracts layouts steps},
    EntriesErase entries steps →
    Yields (fun completed => eraseOperations completed.operations = some steps)
      (completeJoins fuel entries firstValue firstOwner contracts layouts)

def CompletePendingJoinErases : Prop :=
  ∀ {pending : PendingOwnedJoin} {firstValue initialOwner contracts layouts},
    pending.Matches →
    Yields (fun completed => eraseJoin completed.join = some pending.join.withoutReads)
      (completePendingJoin fuel pending firstValue initialOwner contracts layouts)

def InsertJoinArmErases : Prop :=
  ∀ (arm : JoinArm) {parameters resultSpan entering enclosing loopScope firstValue initialOwner
      contracts layouts},
    Yields (fun inserted => eraseJoinArm inserted.arm = some arm.withoutReads)
      (insertJoinArm fuel arm parameters resultSpan entering enclosing loopScope firstValue
        initialOwner contracts layouts)

def InsertYieldingArmErases : Prop :=
  ∀ {arm : JoinArm} {outputs parameters resultSpan entering enclosing loopScope
      firstValue} {inputs : BuiltInputs} {contracts layouts},
    inputs.parameters.map (·.joinParameter) = arm.inputs → arm.exit = .yield outputs →
    Yields (fun inserted => eraseJoinArm inserted.arm = some arm.withoutReads)
      (insertYieldingArm fuel arm outputs parameters resultSpan entering enclosing loopScope
        firstValue inputs contracts layouts)

def InsertAbruptArmErases : Prop :=
  ∀ {arm : JoinArm} {target tail resultSpan enclosing loopScope firstValue}
      {inputs : BuiltInputs} {contracts layouts},
    inputs.parameters.map (·.joinParameter) = arm.inputs → arm.exit = .transferLoop target tail →
    Yields (fun inserted => eraseJoinArm inserted.arm = some arm.withoutReads)
      (insertAbruptArm fuel arm target tail resultSpan enclosing loopScope firstValue inputs
        contracts layouts)

def InsertLoopBlockErases : Prop :=
  ∀ (block : LoopBlock) {seedInputs heldHeaders enclosing scope firstValue initialOwner span
      contracts layouts},
    Yields (fun inserted => eraseLoopBlock inserted.body = some block.withoutReads)
      (insertLoopBlock fuel block seedInputs heldHeaders enclosing scope firstValue initialOwner
        span contracts layouts)

def InsertLoopExitBlockErases : Prop :=
  ∀ (steps : List LoweredStep) (exit : LoopExit) {seedInputs heldHeaders enclosing scope firstValue
      initialOwner span contracts layouts},
    Yields (fun inserted =>
        eraseLoopBlock inserted.body = some (LoopBlock.withoutReads ⟨steps, .exitLoop exit⟩))
      (insertLoopExitBlock fuel steps exit seedInputs heldHeaders enclosing scope firstValue
        initialOwner span contracts layouts)

def InsertLoopMatchBlockErases : Prop :=
  ∀ (steps : List LoweredStep) (matched : LoopMatch) {seedInputs enclosing scope firstValue initialOwner span
      contracts layouts},
    Yields (fun inserted =>
        eraseLoopBlock inserted.body = some (LoopBlock.withoutReads ⟨steps, .matchLoop matched⟩))
      (insertLoopMatchBlock fuel steps matched seedInputs enclosing scope firstValue initialOwner
        span contracts layouts)

def InsertLoopErases : Prop :=
  ∀ {looped : LoweredLoop} {entering enclosing firstValue initialOwner contracts
      layouts},
    entering.map (·.header) = looped.headers →
    Yields (fun inserted => inserted.headers.map eraseHeader = looped.headers ∧
        eraseLoopBlock inserted.body = some looped.body.withoutReads)
      (insertLoop fuel looped entering enclosing firstValue initialOwner contracts layouts)

structure CompletionErases : Prop where
  completeJoins : CompleteJoinsErases fuel
  completePendingJoin : CompletePendingJoinErases fuel
  insertJoinArm : InsertJoinArmErases fuel
  insertYieldingArm : InsertYieldingArmErases fuel
  insertAbruptArm : InsertAbruptArmErases fuel
  insertLoopBlock : InsertLoopBlockErases fuel
  insertLoopExitBlock : InsertLoopExitBlockErases fuel
  insertLoopMatchBlock : InsertLoopMatchBlockErases fuel
  insertLoop : InsertLoopErases fuel

end

theorem CompletionErases.zero : CompletionErases 0 where
  completeJoins _ := Yields.timeout
  completePendingJoin _ := Yields.timeout
  insertJoinArm _ := Yields.timeout
  insertYieldingArm _ _ := Yields.timeout
  insertAbruptArm _ _ := Yields.timeout
  insertLoopBlock _ := Yields.timeout
  insertLoopExitBlock _ _ := Yields.timeout
  insertLoopMatchBlock _ _ := Yields.timeout
  insertLoop _ := Yields.timeout

section

variable (ih : CompletionErases fuel)

include ih

theorem completeJoins_erases : CompleteJoinsErases (fuel + 1) := by
  intro entries firstValue firstOwner contracts layouts steps h
  rw [completeJoins]
  -- The entries before `entries` already stand for `done`.
  suffices hall : ∀ (done : List LoweredStep) (state : CompletedJoins),
      eraseOperations state.operations = some done →
      Yields (fun completed => eraseOperations completed.operations = some (done ++ steps))
        (entries.foldlM _ state) from hall [] _ rfl
  induction h with intro done state hs
  | nil =>
    rw [List.append_nil]
    exact Yields.ok hs
  | @cons entry entries first rest head tail ihEntries =>
    rw [List.foldlM_cons, ← List.append_assoc]
    refine Yields.bind ?_ fun next hn => ihEntries (done ++ first) next hn
    cases head with
    | operation erases =>
      exact Yields.ok (eraseOperations_append hs (eraseOperations_single erases))
    | @join pending scrutinee result carried =>
      refine Yields.bind (ih.completePendingJoin (.join scrutinee result carried))
        fun completed hc => ?_
      refine Yields.ok (eraseOperations_append hs (eraseOperations_single ?_))
      simp [eraseOperation, hc, LoweredStep.withoutReads]
    | @loop pending headers result carried =>
      refine Yields.bind (ih.insertLoop headers) fun built hb => ?_
      refine Yields.ok (eraseOperations_append hs (eraseOperations_single ?_))
      simp [eraseOperation, eraseLoop, hb.1, hb.2, result, carried, LoweredStep.withoutReads,
        LoweredLoop.withoutReads_eq]

theorem completePendingJoin_erases : CompletePendingJoinErases (fuel + 1) := by
  intro pending firstValue initialOwner contracts layouts h
  cases h with
  | join scrutinee result carried =>
  refine Yields.bind (Yields.liftM fun _ hs => insertSelection_erases scrutinee hs)
    fun selected hselected => ?_
  refine Yields.bind (Yields.foldlM
    (I := fun passed (state : InsertedArms OwnedJoinArm) =>
      eraseJoinArms state.arms = some (passed.map JoinArm.withoutReads))
    (fun passed arm state hs => (ih.insertJoinArm arm).bind fun inserted hi => ?_)
    pending.join.arms [] _ rfl) fun inserted hinserted => ?_
  · refine Yields.ok ?_
    rw [List.map_append]
    exact eraseJoinArms_append hs hi
  · refine Yields.ok ?_
    simp [eraseJoin, hselected, hinserted, result, carried, LoweredJoin.withoutReads_eq]

theorem insertJoinArm_erases : InsertJoinArmErases (fuel + 1) := by
  intro arm parameters resultSpan entering enclosing loopScope firstValue initialOwner contracts layouts
  refine Yields.bind (Yields.liftM fun _ hi => buildInputs_parameters hi) fun inputs hinputs => ?_
  cases hexit : arm.exit with
  | yield outputs => exact ih.insertYieldingArm hinputs hexit
  | transferLoop target tail => exact ih.insertAbruptArm hinputs hexit

theorem insertYieldingArm_erases : InsertYieldingArmErases (fuel + 1) := by
  intro arm outputs parameters resultSpan entering enclosing loopScope firstValue inputs contracts
    layouts hinputs hexit
  refine Yields.bind insertYieldingBlock_erases fun block hblock => ?_
  obtain ⟨hentries, htransfer, hcarried⟩ := hblock
  refine Yields.bind (ih.completeJoins hentries) fun completed hcompleted => ?_
  refine Yields.ok ?_
  simp [eraseJoinArm, hcompleted, eraseJoinExit, htransfer, hcarried, hinputs,
    JoinArm.withoutReads_eq, hexit, JoinExit.withoutReads]

theorem insertAbruptArm_erases : InsertAbruptArmErases (fuel + 1) := by
  intro arm target tail resultSpan enclosing loopScope firstValue inputs contracts layouts hinputs
    hexit
  refine Yields.bind_any fun scope => ?_
  refine Yields.bind (ih.insertLoopBlock _) fun body hbody => ?_
  refine Yields.ok ?_
  obtain ⟨⟨operations, last⟩, nextValue, nextOwner⟩ := body
  simp only [eraseLoopBlock, LoopBlock.withoutReads, Option.bind_eq_bind,
    Option.bind_eq_some_iff, Option.some.injEq, Lower.LoopBlock.mk.injEq] at hbody
  obtain ⟨steps, hsteps, erased, herased, rfl, rfl⟩ := hbody
  simp [eraseJoinArm, hsteps, eraseJoinExit, herased, hinputs, JoinArm.withoutReads_eq, hexit,
    JoinExit.withoutReads]

theorem insertLoopBlock_erases : InsertLoopBlockErases (fuel + 1) := by
  intro block seedInputs heldHeaders enclosing scope firstValue initialOwner span contracts layouts
  obtain ⟨steps, tail⟩ := block
  cases tail with
  | exitLoop exit => exact ih.insertLoopExitBlock steps exit
  | matchLoop matched => exact ih.insertLoopMatchBlock steps matched

theorem insertLoopExitBlock_erases : InsertLoopExitBlockErases (fuel + 1) := by
  intro steps exit seedInputs heldHeaders enclosing scope firstValue initialOwner span contracts
    layouts
  refine Yields.bind insertExitBlock_erases fun block hblock => ?_
  refine Yields.bind (ih.completeJoins hblock.1) fun completed hcompleted => ?_
  refine Yields.ok ?_
  simp [eraseLoopBlock, hcompleted, eraseTail, hblock.2, LoopBlock.withoutReads,
    LoopTail.withoutReads]

theorem insertLoopMatchBlock_erases : InsertLoopMatchBlockErases (fuel + 1) := by
  intro steps matched seedInputs enclosing scope firstValue initialOwner span contracts layouts
  refine Yields.bind insertSteps_erases fun leading hleading => ?_
  refine Yields.bind (Yields.liftM fun _ hs => borrowArgument_value hs)
    fun scrutinee hscrutinee => ?_
  refine Yields.bind (ih.completeJoins hleading) fun completed hcompleted => ?_
  refine Yields.bind (Yields.liftM fun _ hs => insertSelection_erases hscrutinee hs)
    fun selected hselected => ?_
  refine Yields.bind (Yields.foldlM
    (I := fun passed (state : InsertedArms OwnedLoopArm) =>
      eraseLoopArms state.arms = some (passed.map LoopArm.withoutReads))
    (fun passed arm state hs => ?_) matched.arms [] _ rfl) fun inserted hinserted => ?_
  · refine Yields.bind (Yields.liftM fun _ hi => buildInputs_parameters hi)
      fun inputs hinputs => ?_
    refine Yields.bind (ih.insertLoopBlock _) fun built hb => ?_
    refine Yields.ok ?_
    rw [List.map_append]
    refine eraseLoopArms_append hs ?_
    simp [eraseLoopArm, hb, hinputs, LoopArm.withoutReads_eq]
  · refine Yields.ok ?_
    simp [eraseLoopBlock, hcompleted, eraseTail, eraseLoopMatch, hselected, hinserted,
      LoopBlock.withoutReads, LoopTail.withoutReads, LoopMatch.withoutReads_eq]

theorem insertLoop_erases : InsertLoopErases (fuel + 1) := by
  intro looped entering enclosing firstValue initialOwner contracts layouts h
  refine Yields.bind enterLoop_headers fun entered hentered => ?_
  refine Yields.bind (ih.insertLoopBlock _) fun body hbody => ?_
  exact Yields.ok ⟨hentered.trans h, hbody⟩

end

theorem completionErases : ∀ fuel, CompletionErases fuel
  | 0 => .zero
  | fuel + 1 =>
    have ih := completionErases fuel
    { completeJoins := completeJoins_erases ih
      completePendingJoin := completePendingJoin_erases ih
      insertJoinArm := insertJoinArm_erases ih
      insertYieldingArm := insertYieldingArm_erases ih
      insertAbruptArm := insertAbruptArm_erases ih
      insertLoopBlock := insertLoopBlock_erases ih
      insertLoopExitBlock := insertLoopExitBlock_erases ih
      insertLoopMatchBlock := insertLoopMatchBlock_erases ih
      insertLoop := insertLoop_erases ih }

/-! ## Functions -/

/-- An inserted function erases to the lowered one, whatever its contracts are, as
long as they keep the parameter types. -/
theorem insertContractedFunction_erases {function : LoweredFunction}
    (h : contracts.parameters.map (·.parameterType) = function.signature.parameters) :
    Yields (fun inserted : InsertedFunction =>
        eraseFunction inserted.function = some function.withoutReads)
      (insertContractedFunction fuel function contracts layouts) := by
  refine Yields.bind_any fun span => ?_
  refine Yields.bind_any fun uses => ?_
  refine Yields.bind insertSteps_erases fun inserted hinserted => ?_
  refine Yields.bind_any fun source => ?_
  obtain ⟨acquired, hbook, hentries⟩ :=
    leaveWith_grows function.result source inserted.entries inserted.nextOwner span
  have hleaving : EntriesErase
      (leaveWith function.result source inserted.entries inserted.nextOwner span).entries
      (stepsWithoutReads function.steps) := by
    rw [hentries]
    simpa using hinserted.append (EntriesErase.bookkeeping hbook)
  refine Yields.bind ((completionErases fuel).completeJoins hleaving) fun completed hc => ?_
  refine Yields.ok ?_
  simp [eraseFunction, hc, leaveWith_value, h, LoweredFunction.withoutReads]

end Blorp.Own
