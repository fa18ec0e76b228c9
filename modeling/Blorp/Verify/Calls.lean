import Blorp.Verify.Custody

/-!
# Executing a verified definition

A definition reads its operands, discharges those it consumes or stores, and binds its
result.  A call also passes what its callee's rows ask for: the consumed operands'
obligations are introduced again for the callee, which leaves exactly what was live
without them (`FunctionsSound`).
-/

namespace Blorp.Verify

open Specialize
open Own
open Runs Obligations
open Fuel

variable {context : Context} {rows : List OwnedParameter} {live outer : Finset Nat} {bound : Nat}
  {state moved owned after : VerificationState} {frame : Frame} {projection : ProjectionContext}
  {definition : OwnedDefinition} {candidate : KnownValue} {introduced : Option OwnerId}

/-! ## Results -/

variable {span : Check.Span} {argument : OwnedArgument} {arguments : List OwnedArgument}
variable {received : List Argument}

theorem consumeArgument_facts (h : consumeArgument span state argument = .ok after) :
    after.facts = state.facts := by
  cases argument with
  | consumedArgument value owner =>
    obtain ⟨_, htakes⟩ := dropOwner_takes h
    obtain ⟨_, slot, -, rfl⟩ := htakes.slot
    exact dischargeSlot_facts state slot
  | unmanagedArgument value =>
    cases h
    rfl
  | borrowedArgument borrow =>
    cases h
    rfl

theorem storePayload_facts {payload : StoredPayload}
    (h : storePayload context span state payload = .ok after) : after.facts = state.facts := by
  rcases storePayload_cases h with ⟨_, -, rfl⟩ | ⟨_, _, -, htakes⟩
  · rfl
  · obtain ⟨_, slot, -, rfl⟩ := htakes.slot
    exact dischargeSlot_facts state slot

theorem dischargeOperands_facts (h : dischargeOperands context state definition = .ok moved) :
    moved.facts = state.facts := by
  unfold dischargeOperands at h
  split at h
  · exact Except.foldlM_invariant (I := fun _ later => later.facts = state.facts)
      (fun _ _ _ _ hlater h => (consumeArgument_facts h).trans hlater) _ [] state moved rfl
      (dischargeCallArguments_eq_ok h).1
  · rw [Outcome.liftM_eq_ok] at h
    exact Except.foldlM_invariant (I := fun _ later => later.facts = state.facts)
      (fun _ _ _ _ hlater h => (storePayload_facts h).trans hlater) _ [] state moved rfl h

section

variable (h : DefinitionStages context state projection definition candidate moved introduced owned after)

include h

theorem DefinitionStages.binds (hs : Scoped state) (ht : Tracks rows outer bound owned frame live)
    {binding : Binding} (hbinds : Binds outer frame candidate binding) :
    Tracks rows outer bound after (frame.bindValue definition.id binding) live := by
  have hmoved := dischargeOperands_follows hs h.discharges
  have howned := hmoved.trans (introduceResult_follows h.introduces)
  have hnext : definition.id = (noteParameter owned definition).blockEnd.nextValue := by
    have hvalues : owned.facts = moved.facts := by
      have hintroduces := h.introduces
      cases introduced with
      | none =>
        cases hintroduces
        rfl
      | some id =>
        obtain ⟨-, rfl⟩ := introduceOwner_eq_ok.mp hintroduces
        rfl
    rw [h.next, blockEnd_noteParameter]
    simp [VerificationState.blockEnd, hvalues, dischargeOperands_facts h.discharges]
  rw [h.defines]
  refine (ht.noteParameter definition).bindValue hnext hbinds fun parent hparent => ?_
  rw [blockEnd_noteParameter]
  exact ((h.checked.parent_live hparent).within hs.toOrdered).mono howned.grows

theorem DefinitionStages.bindResult (hs : Scoped state)
    (hoperation : ∀ index, definition.operation ≠ .parameterDefinition index)
    (ht : Tracks rows outer bound moved frame live) {root : Option Root}
    (hroot : ∀ ancestor, candidate.projectionParent = some ancestor → root =
      frame.resolve ancestor) :
    Triple Ledger live (bindResult frame definition root) fun frame' live' =>
      Tracks rows outer bound after frame' live' := by
  have hintroduces := h.introduces
  cases h.owns with
  | unmanaged result unneeded =>
    cases hintroduces
    simp only [Own.bindResult, result]
    refine Triple.pure (h.binds hs ht ⟨by rw [h.result, result], ?_, ?_⟩)
    · intro value hvalue
      rw [h.result, result] at hvalue
      cases hvalue
    · intro value ancestor hvalue
      rw [h.result, result] at hvalue
      cases hvalue
  | projected result _ =>
    cases hintroduces
    simp only [Own.bindResult, result]
    refine Triple.pure (h.binds hs ht ⟨by rw [h.result, result], ?_, ?_⟩)
    · intro value hvalue
      rw [h.result, result] at hvalue
      cases hvalue
    · intro value ancestor _ hancestor
      exact hroot ancestor hancestor
  | borrowedParameter operation _ _ _ => exact absurd operation (hoperation _)
  | @owned owner result _ =>
    obtain ⟨hid, rfl⟩ := introduceOwner_eq_ok.mp hintroduces
    simp only [Own.bindResult, result]
    refine introduce_ledger.bind fun n live' ⟨hn, hlive'⟩ => ?_
    subst hlive'
    refine Triple.pure (h.binds hs (ht.own hn hid) ⟨by rw [h.result, result], ?_, ?_⟩)
    · intro value hvalue
      rw [h.result, result] at hvalue
      cases hvalue
    · intro value ancestor hvalue
      rw [h.result, result] at hvalue
      cases hvalue

end

/-! ## Stored operands -/

theorem Tracks.store (ht : Tracks rows outer bound state frame live) {payload : StoredPayload}
    (h : storePayload context span state payload = .ok after) :
    Triple Ledger live (storeOperand frame payload) fun _ live' =>
      Tracks rows outer bound after frame live' := by
  rcases storePayload_cases h with ⟨_, rfl, rfl⟩ | ⟨_, _, rfl, htakes⟩
  · exact Triple.pure ht
  · exact ht.take htakes

theorem Tracks.storeAll (ht : Tracks rows outer bound state frame live)
    {payloads : List StoredPayload}
    (h : dischargePayloads context state span payloads = .ok moved) :
    Triple Ledger live (storeOperands frame payloads) fun _ live' =>
      Tracks rows outer bound moved frame live' := by
  refine Triple.foldlM_checked (I := fun later _ live => Tracks rows outer bound later frame live)
    payloads ?_ state moved () live h ht
  intro later payload _ next _ live hnext ht
  exact ht.store hnext

/-! ## Passed operands -/

section

variable (ht : Tracks rows outer bound state frame live)

include ht

theorem Tracks.readArgument (h : LiveOperand state (asBorrow argument)) :
    Triple Ledger live (readArgument frame argument) fun _ live' => live' = live := by
  cases argument with
  | unmanagedArgument value => exact Triple.pure rfl
  | borrowedArgument borrow | consumedArgument value owner =>
    refine (ht.read h).bind fun root live' ⟨hlive', _, _⟩ => ?_
    exact Triple.pure hlive'

theorem Tracks.readArguments (h : ∀ argument ∈ arguments, LiveOperand state (asBorrow argument)) :
    Triple Ledger live
      (arguments.foldlM
        (fun _ argument => do
          let _ ← Own.readArgument frame argument
          pure ()) ())
      fun _ live' => live' = live := by
  refine Triple.foldlM (I := fun _ _ live' => live' = live) arguments ?_ [] () live rfl
  rintro _ argument hargument _ live' rfl
  exact (ht.readArgument (h argument hargument)).bind fun _ live' hlive' => Triple.pure hlive'

/-- The consumed operands were each held for their value before the call, so each is
discharged for it. -/
theorem Tracks.consumeArguments
    (hlive : ∀ argument ∈ arguments, LiveOperand state (asBorrow argument))
    (h : consumeArguments state span arguments = .ok moved) :
    Triple Ledger live (arguments.foldlM (fun _ argument => consumeOperand frame argument) ())
      fun _ live' => Tracks rows outer bound moved frame live' := by
  refine Triple.mono
    (Triple.foldlM_checked
      (I := fun later _ live => Tracks rows outer bound later frame live ∧
        ∀ id value, held later id = some value → held state id = some value)
      arguments ?_ state moved () live h ⟨ht, fun _ _ h => h⟩)
    fun _ _ h => h.1
  rintro later argument hargument next _ live hnext ⟨ht, hkept⟩
  cases argument with
  | unmanagedArgument value =>
    cases hnext
    exact Triple.pure ⟨ht, hkept⟩
  | borrowedArgument borrow =>
    cases hnext
    exact Triple.pure ⟨ht, hkept⟩
  | consumedArgument value owner =>
    obtain ⟨value', htakes⟩ := dropOwner_takes hnext
    have hvalue : value' = value := by
      have hbefore := hkept owner value' htakes.holds
      cases hlive _ hargument with
      | owner _ holds =>
        rw [holds] at hbefore
        exact (Option.some.inj hbefore).symm
    subst hvalue
    refine (ht.take htakes).mono fun _ live' ht' => ⟨ht', fun id other hid => hkept id other ?_⟩
    rw [htakes.releases id] at hid
    split at hid
    · cases hid
    · exact hid

end

/-- What the callee receives for an operand. -/
def Delivered (outer : Finset Nat) : OwnedArgument → Argument → Prop
  | .unmanagedArgument _, .plain => True
  | .borrowedArgument _, .borrowed root => LiveRoot outer root
  | .consumedArgument _ _, .owned _ => True
  | _, _ => False

/-- The obligations that the arguments carry are held by them alone. -/
def Carried (arguments : List Argument) (live outer : Finset Nat) : Prop :=
  Custody (fun (i : Nat) n => arguments[i]? = some (.owned n)) live outer

theorem Carried.nil : Carried [] live live :=
  ⟨fun _ h => h, by simp, by simp, fun n hn hnot => absurd hn hnot⟩

theorem Carried.plain {arguments : List Argument} (h : Carried arguments live outer)
    {argument : Argument} (hplain : ∀ n, argument ≠ .owned n) :
    Carried (arguments ++ [argument]) live outer := by
  refine Custody.congr h fun i n => ?_
  rw [List.getElem?_append]
  by_cases hi : i < arguments.length
  · rw [if_pos hi]
  · rw [if_neg hi, List.getElem?_eq_none (l := arguments) (by omega)]
    constructor
    · intro hlast
      rcases Nat.eq_zero_or_pos (i - arguments.length) with hzero | hpos
      · rw [hzero] at hlast
        exact absurd (Option.some.inj hlast) (hplain n)
      · rw [List.getElem?_eq_none (by simp only [List.length_singleton]; omega)] at hlast
        cases hlast
    · intro hnone
      cases hnone

theorem Carried.fresh {arguments : List Argument} (h : Carried arguments live outer) {n : Nat}
    (hn : n ∉ live) : Carried (arguments ++ [.owned n]) (insert n live) outer := by
  refine Custody.acquire h (x := arguments.length) hn (fun i m => ?_) (by simp)
  rw [List.getElem?_append]
  by_cases hi : i < arguments.length
  · rw [if_pos hi]
    simp [Nat.ne_of_lt hi]
  · rw [if_neg hi, List.getElem?_eq_none (l := arguments) (by omega)]
    by_cases hsame : i = arguments.length
    · simp [hsame, eq_comm]
    · rw [List.getElem?_eq_none (by simp; omega)]
      simp [hsame]

/-- Once the consumed operands are discharged, the callee receives an argument for each
operand, its borrows still live. -/
theorem Tracks.passAll (ht : Tracks rows outer bound state frame live)
    (hlive : ∀ borrow, .borrowedArgument borrow ∈ arguments → LiveBorrow state borrow) :
    Triple Ledger live
      (arguments.foldlM
        (fun passed argument => do
          let received ← passOperand frame argument
          pure (passed ++ [received])) [])
      fun received live' =>
        List.Forall₂ (Delivered live) arguments received ∧ Carried received live' live := by
  refine Triple.foldlM
    (I := fun passed received live' =>
      List.Forall₂ (Delivered live) passed received ∧ Carried received live' live)
    arguments ?_ [] [] live ⟨.nil, .nil⟩
  rintro passed argument hargument received live' ⟨hdelivered, hcarried⟩
  cases argument with
  | unmanagedArgument value =>
    refine Triple.pure ⟨List.rel_append hdelivered (.cons ?_ .nil), hcarried.plain (by simp)⟩
    trivial
  | borrowedArgument borrow =>
    obtain ⟨root, hroot, hrootLive⟩ := ht.resolves (hlive borrow hargument)
    simp only [passOperand, readBorrow, hroot]
    refine Triple.bind (P := fun received live'' => live'' = live' ∧ received = .borrowed root)
      ?_ fun delivered live'' ⟨hlive'', hdeliveredEq⟩ => ?_
    · refine Triple.bind (P := fun found live'' => live'' = live' ∧ found = root) ?_
        fun found live'' ⟨hlive'', hfound⟩ => Triple.pure ⟨hlive'', by rw [hfound]⟩
      refine (readRoot_ledger (hrootLive.mono hcarried.reserved_live)).bind fun _ live'' hlive'' => ?_
      exact Triple.pure ⟨hlive'', rfl⟩
    · subst hlive''
      subst hdeliveredEq
      exact Triple.pure
        ⟨List.rel_append hdelivered (.cons hrootLive .nil), hcarried.plain (by simp)⟩
  | consumedArgument value owner =>
    refine Triple.bind
      (P := fun received live'' => ∃ n, n ∉ live' ∧ received = .owned n ∧ live'' = insert n live')
      ?_ fun delivered live'' ⟨n, hn, hdeliveredEq, hlive''⟩ => ?_
    · refine introduce_ledger.bind fun n live'' ⟨hn, hlive''⟩ => ?_
      exact Triple.pure ⟨n, hn, rfl, hlive''⟩
    · subst hdeliveredEq
      subst hlive''
      refine Triple.pure ⟨List.rel_append hdelivered (.cons ?_ .nil), hcarried.fresh hn⟩
      trivial

/-- **Passing the operands of a call** discharges the consumed ones and introduces as
many obligations for the callee. -/
theorem Tracks.passOperands (ht : Tracks rows outer bound state frame live)
    (hlive : ∀ argument ∈ arguments, LiveOperand state (asBorrow argument))
    (h : dischargeCallArguments context state span arguments = .ok moved) :
    Triple Ledger live (passOperands frame arguments) fun received live' =>
      ∃ passed, Tracks rows outer bound moved frame passed ∧
        List.Forall₂ (Delivered passed) arguments received ∧ Carried received live' passed := by
  have hborrows : ∀ borrow, .borrowedArgument borrow ∈ arguments → LiveBorrow moved borrow :=
    dischargeCallArguments_live h fun borrow hborrow => hlive _ hborrow
  refine (ht.readArguments hlive).bind fun _ live' hlive' => ?_
  subst hlive'
  refine (ht.consumeArguments hlive (dischargeCallArguments_eq_ok h).1).bind fun _ passed ht' => ?_
  exact (ht'.passAll hborrows).mono fun received live' ⟨hdelivered, hcarried⟩ =>
    ⟨passed, ht', hdelivered, hcarried⟩

theorem Tracks.runtimeCall (ht : Tracks rows outer bound state frame live)
    (hlive : ∀ argument ∈ arguments, LiveOperand state (asBorrow argument))
    (h : dischargeCallArguments context state span arguments = .ok moved) :
    Triple Ledger live (runRuntimeCall frame arguments) fun _ live' =>
      Tracks rows outer bound moved frame live' := by
  have hborrows : ∀ borrow, .borrowedArgument borrow ∈ arguments → LiveBorrow moved borrow :=
    dischargeCallArguments_live h fun borrow hborrow => hlive _ hborrow
  refine (ht.readArguments hlive).bind fun _ live' hlive' => ?_
  subst hlive'
  refine (ht.consumeArguments hlive (dischargeCallArguments_eq_ok h).1).bind fun _ passed ht' => ?_
  refine Triple.foldlM (I := fun _ _ live' => Tracks rows outer bound moved frame live')
    arguments ?_ [] () passed ht'
  intro _ argument hargument _ live' ht''
  cases argument with
  | unmanagedArgument value => exact Triple.pure ht''
  | consumedArgument value owner => exact Triple.pure ht''
  | borrowedArgument borrow =>
    refine (ht''.read (hborrows borrow hargument)).bind fun _ live'' ⟨hlive'', _, _⟩ => ?_
    subst hlive''
    exact Triple.pure ht''

/-! ## Callees -/

def rowManaged : OwnedParameter → Bool
  | .managedParameter _ => true
  | .unmanagedParameter _ => false

/-- A row is managed exactly when its type needs ownership. -/
def RowsChecked (context : Context) (rows : List OwnedParameter) : Prop :=
  ∀ row ∈ rows, context.needsOwnership row.parameterType = .ok (rowManaged row)

/-- Every function leaves exactly what its caller kept: its arguments' obligations and
all those it introduced are discharged. -/
def FunctionsSound (functions : List OwnedFunction) (fuel : Nat) : Prop :=
  ∀ function ∈ functions, ∀ arguments live outer,
    Received function.parameters outer arguments → Carried arguments live outer →
    Triple Ledger live (runFunction functions fuel function arguments) fun _ live' => live' = outer

theorem OperandFits.fits {row : OwnedParameter} (h : OperandFits context state argument row)
    (hrow : context.needsOwnership row.parameterType = .ok (rowManaged row)) {received : Argument}
    (hdelivered : Delivered outer argument received) : Fits row received := by
  have hconsumed := h.consumed
  cases argument with
  | unmanagedArgument value =>
    have hunmanaged := h.unmanaged value rfl
    cases row with
    | managedParameter passing =>
      rw [hrow] at hunmanaged
      cases hunmanaged
    | unmanagedParameter valueType =>
      cases received with
      | plain => trivial
      | borrowed root => cases hdelivered
      | owned n => cases hdelivered
  | borrowedArgument borrow =>
    cases received with
    | plain => cases hdelivered
    | owned n => cases hdelivered
    | borrowed root =>
      cases row with
      | unmanagedParameter valueType => trivial
      | managedParameter passing => exact hconsumed.symm
  | consumedArgument value owner =>
    cases received with
    | plain => cases hdelivered
    | borrowed root => cases hdelivered
    | owned n =>
      cases row with
      | unmanagedParameter valueType => cases hconsumed
      | managedParameter passing => exact hconsumed.symm

theorem Delivered.borrows (h : List.Forall₂ (Delivered outer) arguments received) :
    ∀ (i : Nat) root, received[i]? = some (.borrowed root) → LiveRoot outer root := by
  induction h with
  | nil => simp
  | @cons argument delivered arguments received first rest ih =>
    intro i root hi
    cases i with
    | zero =>
      cases hi
      cases argument with
      | borrowedArgument borrow => exact first
      | unmanagedArgument value => cases first
      | consumedArgument value owner => cases first
    | succ i => exact ih i root hi

theorem userCall_received {callee : OwnedFunction}
    (harity : arguments.length = callee.parameters.length)
    (hfits : ∀ (i : Nat) argument row, arguments[i]? = some argument → callee.parameters[i]? =
      some row → OperandFits context state argument row)
    (hrows : RowsChecked context callee.parameters)
    (hdelivered : List.Forall₂ (Delivered outer) arguments received) :
    Received callee.parameters outer received := by
  refine ⟨hdelivered.length_eq.symm.trans harity, fun i row argument hrow hargument => ?_,
    Delivered.borrows hdelivered⟩
  obtain ⟨hi, rfl⟩ := List.getElem?_eq_some_iff.mp hargument
  have hi' : i < arguments.length := by rwa [hdelivered.length_eq]
  have hoperand := hfits i _ row (List.getElem?_eq_getElem hi') hrow
  exact hoperand.fits (hrows row (List.mem_of_getElem? hrow))
    ((List.forall₂_iff_get.mp hdelivered).2 i hi' hi)

theorem invoked_carried (hlive : ∀ argument ∈ arguments, LiveOperand state argument)
    (hdelivered : List.Forall₂ (Delivered outer) arguments received) :
    ∀ (i : Nat) n, received[i]? ≠ some (.owned n) := by
  induction hdelivered with
  | nil => simp
  | @cons argument delivered arguments received first rest ih =>
    intro i n hi
    cases i with
    | zero =>
      cases hi
      cases argument with
      | consumedArgument value owner => exact hlive _ List.mem_cons_self
      | unmanagedArgument value => cases first
      | borrowedArgument borrow => cases first
    | succ i => exact ih (fun other hother => hlive other (List.mem_cons_of_mem _ hother)) i n hi

theorem Carried.eq_of_unowned {arguments : List Argument} (h : Carried arguments live outer)
    (hunowned : ∀ (i : Nat) n, arguments[i]? ≠ some (.owned n)) : live = outer :=
  Custody.eq_reserved h hunowned

theorem Carried.of_unowned {arguments : List Argument}
    (hunowned : ∀ (i : Nat) n, arguments[i]? ≠ some (.owned n)) : Carried arguments live live :=
  ⟨fun _ h => h, fun i n h => absurd h (hunowned i n), fun i _ n h => absurd h (hunowned i n),
    fun _ hn hnot => absurd hn hnot⟩

theorem invokedArguments_received {body : OwnedFunction} {root : Option Root}
    {passed : List Argument} (h : invokedArguments body root passed = some received)
    (hroot : ∀ found, root = some found → LiveRoot outer found)
    (hlive : ∀ (i : Nat) found, passed[i]? = some (.borrowed found) → LiveRoot outer found)
    (hunowned : ∀ (i : Nat) n, passed[i]? ≠ some (.owned n)) :
    Received body.parameters outer received ∧ ∀ (i : Nat) n, received[i]? ≠ some (.owned n) := by
  unfold invokedArguments at h
  split at h
  · next hreceives =>
    cases h
    obtain ⟨harity, hfits⟩ := receivesAll_fits hreceives
    exact ⟨⟨harity, hfits, hlive⟩, hunowned⟩
  · split at h
    · next found =>
      split at h
      · next hreceives =>
        cases h
        obtain ⟨harity, hfits⟩ := receivesAll_fits hreceives
        refine ⟨⟨harity, hfits, fun i other hi => ?_⟩, fun i n hi => ?_⟩
        · cases i with
          | zero =>
            cases hi
            exact hroot found rfl
          | succ i => exact hlive i other hi
        · cases i with
          | zero => cases hi
          | succ i => exact hunowned i n hi
      · cases h
    · cases h

/-! ## Definitions -/

/-- An execution reads projections through the scrutinee that the verifier was given. -/
def Selects : ProjectionContext → Option OwnedArgument → Prop
  | .noProjection, scrutinee => scrutinee = none
  | .selectionProjection root _, scrutinee => scrutinee = some root

theorem Selects.none : Selects .noProjection none := rfl

theorem Tracks.readParent (ht : Tracks rows outer bound state frame live) {root : OwnedArgument}
    {value : Nat} {known : KnownValue} (hvisible : state.facts.valueEntry value = some known)
    (hparent : LiveOperand state (projectionArgument root value known.result)) :
    Triple Ledger live (readParent (some root) frame value) fun found live' => live' = live ∧
      found = (argumentBorrow (projectionArgument root value known.result)).bind frame.resolve := by
  obtain ⟨binding, hbinding, hbinds⟩ := ht.values value known hvisible
  simp only [Own.readParent, hbinding, hbinds.result]
  exact ht.readOperand hparent

section

variable (hcall : ∀ target arguments, definition.operation ≠ .callDefinition target arguments)

include hcall

theorem dischargeOperands_none (hstored : storedPayloads definition.operation = [])
    (h : dischargeOperands context state definition = .ok moved) : moved = state := by
  unfold dischargeOperands at h
  split at h
  · next heq => exact absurd heq (hcall _ _)
  · rw [hstored] at h
    exact (Outcome.ok.inj h).symm

theorem dischargeOperands_stored (h : dischargeOperands context state definition = .ok moved) :
    dischargePayloads context state definition.span (storedPayloads definition.operation) =
      .ok moved := by
  unfold dischargeOperands at h
  split at h
  · next heq => exact absurd heq (hcall _ _)
  · exact Outcome.liftM_eq_ok.mp h

end

theorem dischargeOperands_call {target : CallTarget}
    (heq : definition.operation = .callDefinition target arguments)
    (h : dischargeOperands context state definition = .ok moved) :
    dischargeCallArguments context state definition.span arguments = .ok moved := by
  unfold dischargeOperands at h
  rwa [heq] at h

theorem runDefinition_plain (functions : List OwnedFunction) (fuel : Nat)
    (scrutinee : Option OwnedArgument) (hplain : IsPlain definition.operation) :
    runDefinition functions (fuel + 1) scrutinee frame definition = (do
      storeOperands frame (storedPayloads definition.operation)
      bindResult frame definition none) := by
  obtain ⟨id, valueType, operation, result, span⟩ := definition
  cases operation with
  | constructRecordDefinition owner fields => rfl
  | constructDefinition variant payloads => rfl
  | constructListDefinition elements => rfl
  | voidDefinition => rfl
  | integerDefinition value => rfl
  | floatDefinition value => rfl
  | stringDefinition bytes => rfl
  | _ => exact hplain.elim

/-- **A verified definition executes in step with the verifier.** -/
theorem DefinitionStages.run {functions : List OwnedFunction} {fuel : Nat}
    (h : DefinitionStages context state projection definition candidate moved introduced owned after)
    (hcallees : FunctionsSound functions fuel) (hfunctions : context.functions = functions)
    (hrows : ∀ function ∈ functions, RowsChecked context function.parameters)
    {scrutinee : Option OwnedArgument} (hselects : Selects projection scrutinee)
    (hoperation : ∀ index, definition.operation ≠ .parameterDefinition index)
    (ht : Tracks rows outer bound state frame live) :
    Triple Ledger live (runDefinition functions (fuel + 1) scrutinee frame definition)
      fun frame' live' => Tracks rows outer bound after frame' live' := by
  have hs := ht.scoped_state
  have hchecked := h.checked
  generalize hop : definition.operation = operation at hchecked
  generalize hkept : candidate.projectionParent = parent at hchecked
  -- a value that keeps no borrow may be bound with any root
  have hnone : parent = none → ∀ (root : Option Root) ancestor,
      candidate.projectionParent = some ancestor → root = frame.resolve ancestor := by
    intro hparent root ancestor hancestor
    rw [hkept, hparent] at hancestor
    cases hancestor
  have hunmoved : (∀ target arguments, operation ≠ .callDefinition target arguments) →
      storedPayloads operation = [] → moved = state :=
    fun hcall hstored => dischargeOperands_none (hop ▸ hcall) (hop ▸ hstored) h.discharges
  cases hchecked with
  | plain simple =>
    rw [runDefinition_plain functions fuel scrutinee (hop ▸ simple)]
    have hstores := dischargeOperands_stored (fun target arguments hcall => by
      rw [hcall] at hop
      exact (hop ▸ simple : IsPlain (.callDefinition target arguments)).elim) h.discharges
    refine (ht.storeAll hstores).bind fun _ live' ht' => ?_
    exact h.bindResult hs hoperation ht' (hnone rfl none)
  | parameter _ _ _ => exact absurd hop (hoperation _)
  | @userCall id arguments callee found arity fits =>
    have hlive : ∀ argument ∈ arguments, LiveOperand state (asBorrow argument) := by
      intro argument hargument
      obtain ⟨i, hi, rfl⟩ := List.mem_iff_getElem.mp hargument
      have hi' : i < callee.parameters.length := by rwa [← arity]
      exact (fits i _ _ (List.getElem?_eq_getElem hi) (List.getElem?_eq_getElem hi')).live
    rw [hfunctions] at found
    have hcallee := List.mem_of_getElem? found
    simp only [runDefinition, hop, found]
    refine (ht.passOperands hlive (dischargeOperands_call hop h.discharges)).bind
      fun received live' hpassed => ?_
    obtain ⟨passed, ht', hdelivered, hcarried⟩ := hpassed
    have hreceived := userCall_received arity fits (hrows callee hcallee) hdelivered
    refine (hcallees callee hcallee received live' passed hreceived hcarried).bind
      fun _ live'' hlive'' => ?_
    subst hlive''
    exact h.bindResult hs hoperation ht' (hnone rfl none)
  | @runtimeCall operation arguments live =>
    simp only [runDefinition, hop]
    refine (ht.runtimeCall live (dischargeOperands_call hop h.discharges)).bind fun _ live' ht' => ?_
    exact h.bindResult hs hoperation ht' (hnone rfl none)
  | @invoke callee arguments calleeLive argumentsLive =>
    have hmoved := hunmoved (by simp) rfl
    subst hmoved
    have hborrows : ∀ argument ∈ arguments, LiveOperand moved (asBorrow argument) := by
      intro argument hargument
      have hlive := argumentsLive argument hargument
      cases argument with
      | consumedArgument value owner => exact hlive.elim
      | unmanagedArgument value => exact hlive
      | borrowedArgument borrow => exact hlive
    have hunconsumed : arguments.any isConsumed = false := by
      rw [List.any_eq_false]
      intro argument hargument
      have hlive := argumentsLive argument hargument
      cases argument with
      | consumedArgument value owner => exact hlive.elim
      | unmanagedArgument value => simp [isConsumed]
      | borrowedArgument borrow => simp [isConsumed]
    have hdischarges : dischargeCallArguments context moved definition.span arguments = .ok moved := by
      unfold dischargeCallArguments
      rw [consumeArguments_none arguments hunconsumed]
      simp [hunconsumed]
    simp only [runDefinition, hop]
    refine (ht.readOperand calleeLive).reading fun root hroot => ?_
    refine (ht.passOperands hborrows hdischarges).bind
      fun received live' hpassed => ?_
    obtain ⟨passed, ht', hdelivered, hcarried⟩ := hpassed
    have hunowned := invoked_carried argumentsLive hdelivered
    have hsame := hcarried.eq_of_unowned hunowned
    subst hsame
    refine choose_ledger.bind fun choice live'' hlive'' => ?_
    subst hlive''
    split
    · next body arguments' hbody =>
      obtain ⟨reached, hreached, hinvoked⟩ := Option.bind_eq_some_iff.mp hbody
      obtain ⟨received', hreceived', heq⟩ := Option.map_eq_some_iff.mp hinvoked
      cases heq
      obtain ⟨hreceived, hunowned'⟩ := invokedArguments_received hreceived'
        (fun found hfound => ht'.operand_root calleeLive (hroot ▸ hfound))
        (Delivered.borrows hdelivered) hunowned
      refine (hcallees body (List.mem_of_getElem? hreached) arguments' _ _ hreceived
        (.of_unowned hunowned')).bind fun _ live'' hlive'' => ?_
      subst hlive''
      exact h.bindResult hs hoperation ht' (hnone rfl none)
    · exact Triple.stop
  | freeCallable found pinned =>
    have hmoved := hunmoved (by simp) rfl
    subst hmoved
    rw [hfunctions] at found
    simp only [runDefinition, hop, found, pinned]
    exact h.bindResult hs hoperation ht (hnone rfl none)
  | capturedCallable found pinned =>
    have hstores := dischargeOperands_stored (by simp [hop]) h.discharges
    rw [hop] at hstores
    rw [hfunctions] at found
    simp only [runDefinition, hop, found, pinned]
    refine Triple.bind (P := fun _ live' => Tracks rows outer bound moved frame live') ?_
      fun _ live' ht' => h.bindResult hs hoperation ht' (hnone rfl none)
    obtain ⟨next, hnext, hrest⟩ := Except.peel hstores
    cases hrest
    exact ht.store hnext
  | @field field argument ordinary live =>
    have hmoved := hunmoved (by simp) rfl
    subst hmoved ordinary
    cases hselects
    simp only [runDefinition, hop]
    refine (ht.readOperand live).reading fun root hroot => ?_
    refine h.bindResult hs hoperation ht fun ancestor hancestor => ?_
    rw [hroot, ← hkept, hancestor]
    rfl
  | @selectedField field argument root facts known selected live visible parent =>
    have hmoved := hunmoved (by simp) rfl
    subst hmoved selected
    cases hselects
    simp only [runDefinition, hop]
    refine (ht.readOperand live).reading fun _ _ => ?_
    refine (ht.readParent visible parent).reading fun found hfound => ?_
    refine h.bindResult hs hoperation ht fun ancestor hancestor => ?_
    rw [hfound, ← hkept, hancestor]
    rfl
  | @payload field value root facts known selected visible parent
  | @element index value root facts known selected visible parent =>
    have hmoved := hunmoved (by simp) rfl
    subst hmoved selected
    cases hselects
    simp only [runDefinition, hop]
    refine (ht.readParent visible parent).reading fun found hfound => ?_
    refine h.bindResult hs hoperation ht fun ancestor hancestor => ?_
    rw [hfound, ← hkept, hancestor]
    rfl
  | @suffix argument skip root facts known selected live visible parent =>
    have hmoved := hunmoved (by simp) rfl
    subst hmoved selected
    cases hselects
    simp only [runDefinition, hop]
    refine (ht.readOperand live).reading fun _ _ => ?_
    refine (ht.readParent visible parent).reading fun _ _ => ?_
    exact h.bindResult hs hoperation ht (hnone rfl none)

end Blorp.Verify
