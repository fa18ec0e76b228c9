import Blorp.Verify.Edges

/-!
# Loops, and the blocks that wait

A loop is entered from the state its step leaves, and every edge out of its body,
however deep, returns to that state.  `Inside active state` says that a block lies in
the body of a loop with what the loop captured still in sight.
-/

namespace Blorp.Verify

open Check (Span)
open Specialize
open Own
open Fuel

variable {context : Context} {state after : VerificationState} {span : Span}

/-! ## Headers -/

/-- Parameters are introduced in order. -/
inductive IntroducesAll :
    VerificationState → List OwnedJoinParameter → VerificationState → Prop where
  | nil {state : VerificationState} : IntroducesAll state [] state
  | cons {state between after : VerificationState} {output : OwnedJoinParameter}
      {outputs : List OwnedJoinParameter} (first : ParameterIntroduced state output between)
      (rest : IntroducesAll between outputs after) : IntroducesAll state (output :: outputs) after

theorem IntroducesAll.follows {outputs : List OwnedJoinParameter}
    (h : IntroducesAll state outputs after) : Scoped state → Follows state after := by
  induction h with
  | nil =>
    intro _
    exact .refl _
  | cons first rest ih =>
    intro hs
    have hfirst := first.follows hs
    exact hfirst.trans (ih (hfirst.keeps hs))

theorem IntroducesAll.of_foldlM {α : Type}
    {check : VerificationState → α → Except Diagnostic VerificationState}
    (parameter : α → OwnedJoinParameter)
    (hcheck : ∀ state x after, check state x = .ok after →
      ParameterIntroduced state (parameter x) after) :
    ∀ (xs : List α) (state : VerificationState), xs.foldlM check state = .ok after →
      IntroducesAll state (xs.map parameter) after := by
  intro xs
  induction xs with
  | nil =>
    intro state h
    cases h
    exact .nil
  | cons x xs ih =>
    intro state h
    obtain ⟨between, hbetween, h⟩ := Except.peel h
    exact .cons (hcheck state x between hbetween) (ih between h)

theorem introduceOutputs_introduces {outputs : List OwnedJoinParameter}
    (h : introduceOutputs context outputs state = .ok after) :
    IntroducesAll state outputs after := by
  have hall := IntroducesAll.of_foldlM id
    (fun _ _ _ h => introduceCarriedParameter_introduced h) outputs state h
  rwa [List.map_id] at hall

theorem introduceHeaders_introduces {loop : OwnedLoop}
    (h : introduceHeaders context loop state = .ok after) :
    IntroducesAll state (loop.headers.map (·.parameter)) after := by
  refine IntroducesAll.of_foldlM (·.parameter) (fun state header after h => ?_) loop.headers state h
  obtain ⟨_, -, h⟩ := Except.peel h
  exact introduceCarriedParameter_introduced h

/-! ## Loop entry -/

theorem Moves.facts {transfer : ReturnTransfer} (h : Moves state transfer after) :
    after.facts = state.facts := by
  cases h with
  | unmanaged value => rfl
  | owned takes =>
    obtain ⟨_, slot, -, rfl⟩ := takes.slot
    exact dischargeSlot_facts state slot

theorem MovesAll.facts {transfers : List ReturnTransfer} (h : MovesAll state transfers after) :
    after.facts = state.facts := by
  induction h with
  | nil => rfl
  | cons first rest ih => exact ih.trans first.facts

theorem acquisitions_unflagging (acquisitions : List OwnerAcquisition) :
    ∀ {block after : VerifiedBlock},
      (acquisitions.map fun acquisition => OwnershipOperation.acquireOwner acquisition.owner
        acquisition.borrow span).foldlM (verifyOperation context .noProjection) block = .ok after →
      after.state.facts = block.state.facts ∧ Unflagging block.state after.state := by
  induction acquisitions with intro block after h
  | nil =>
    cases h
    exact ⟨rfl, rfl⟩
  | cons acquisition acquisitions ih =>
    obtain ⟨next, hnext, h⟩ := Outcome.peel h
    obtain ⟨_, -, hnext⟩ := Outcome.peel hnext
    obtain ⟨owned, howned, hnext⟩ := Outcome.peel hnext
    rw [Outcome.liftM_eq_ok] at howned
    obtain ⟨-, rfl⟩ := introduceOwner_eq_ok.mp howned
    cases hnext
    obtain ⟨hfacts, hflags⟩ := ih h
    exact ⟨hfacts, hflags⟩

/-- The initials that are not taken at the loop's step are moved at its entry. -/
def movedInitials (loop : OwnedLoop) (headers : List OwnedLoopHeader) : List ReturnTransfer :=
  (headers.filter fun header => (takenInitial loop header).isNone).map (·.initial)

variable {pre : VerificationState} {active : ActiveLoop} {cursor : BlockEnd}

theorem initializeHeaders_moves {loop : OwnedLoop} (headers : List OwnedLoopHeader) :
    ∀ {state : VerificationState},
      headers.foldlM (initializeHeader context loop pre) state = .ok after →
      MovesAll state (movedInitials loop headers) after ∧ Unflagging state after := by
  induction headers with
  | nil =>
    intro state h
    cases h
    exact ⟨.nil, rfl⟩
  | cons header headers ih =>
    intro state h
    obtain ⟨between, hbetween, h⟩ := Except.peel h
    obtain ⟨hrest, hflags⟩ := ih h
    iterate 2 obtain ⟨_, -, hbetween⟩ := Except.peel hbetween
    unfold movedInitials
    cases htaken : takenInitial loop header with rw [htaken] at hbetween
    | some taken =>
      cases hbetween
      rw [List.filter_cons_of_neg (by simp [htaken])]
      exact ⟨hrest, hflags⟩
    | none =>
      rw [List.filter_cons_of_pos (by simp [htaken]), List.map_cons]
      exact ⟨.cons (consumeYield_moves hbetween) hrest,
        hflags.trans (consumeYield_unflagging hbetween)⟩

/-! ## Blocks inside a loop -/

/-- A block of a loop's body: the scopes of before the loop are its outermost ones, and
what is numbered from the loop's first owner on is local to the loop. -/
structure Inside (active : ActiveLoop) (state : VerificationState) : Prop where
  scopes : ∃ inner, state.facts.enclosing =
      active.pre.facts.enclosing ++ active.pre.scope :: inner ∧
    ∀ scope ∈ inner, active.firstOwner ≤ scope.firstOwner
  floor : active.firstOwner ≤ state.facts.firstOwner
  later : active.pre.blockEnd.nextOwner ≤ active.firstOwner
  flags : ∀ id, dischargedAlready active.pre.discharged id = true →
    dischargedAlready state.discharged id = true
  sees : ∀ id known, active.pre.facts.valueEntry id = some known →
    state.facts.valueEntry id = some known

theorem Inside.follows (h : Inside active state) (hf : Follows state after) :
    Inside active after where
  scopes := by
    rw [hf.enclosing]
    exact h.scopes
  floor := by
    rw [hf.firstOwner]
    exact h.floor
  later := h.later
  flags id hid := hf.flags id (h.flags id hid)
  sees id known hid := hf.sees id known (h.sees id known hid)

theorem Inside.enter {active : ActiveLoop} (h : Inside active state) (hs : Ordered state)
    {cursor : BlockEnd} (hcursor : state.blockEnd.le cursor) :
    Inside active (enter state cursor.nextValue cursor.nextOwner) where
  scopes := by
    obtain ⟨inner, hinner, hfloor⟩ := h.scopes
    refine ⟨inner ++ [state.scope], ?_, fun scope hscope => ?_⟩
    · show state.facts.enclosing ++ [state.scope] = _
      rw [hinner]
      simp
    · rcases List.mem_append.mp hscope with hscope | hscope
      · exact hfloor scope hscope
      · rw [List.mem_singleton] at hscope
        subst hscope
        exact h.floor
  floor := by
    have hfloor := h.floor
    have howner := hcursor.2
    simp only [VerificationState.blockEnd] at howner
    show active.firstOwner ≤ cursor.nextOwner
    omega
  later := h.later
  flags id hid := h.flags id hid
  sees id known hid := by
    rw [valueEntry_enter hs hcursor]
    exact h.sees id known hid

theorem Inside.start (hs : Ordered pre) (hcursor : pre.blockEnd.le cursor) (loop : OwnedLoop) :
    Inside ⟨loop, pre, cursor.nextOwner⟩
      (Verify.enter pre cursor.nextValue cursor.nextOwner) where
  scopes := ⟨[], rfl, by simp⟩
  floor := Nat.le_refl _
  later := hcursor.2
  flags _ hid := hid
  sees id known hid := by
    rw [valueEntry_enter hs hcursor]
    exact hid

/-- **A loop's entry introduces its headers over what was held before the loop.** -/
theorem initializeLoop_checked {loop : OwnedLoop} {initial : VerificationState} (hs : Scoped pre)
    (hcursor : pre.blockEnd.le cursor) (h : initializeLoop context loop pre cursor = .ok initial) :
    ∃ acquired moved,
      verifyOperations context .noProjection (loop.entryAcquisitions.map fun acquisition =>
        OwnershipOperation.acquireOwner acquisition.owner acquisition.borrow
          loop.result.joinParameter.span)
        (enter pre cursor.nextValue cursor.nextOwner) = .ok acquired ∧
      MovesAll acquired.state (movedInitials loop loop.headers) moved ∧
      Follows (enter pre cursor.nextValue cursor.nextOwner) moved ∧
      (∀ id, held moved id = held pre id) ∧
      (∀ id, moved.facts.valueEntry id = pre.facts.valueEntry id) ∧
      IntroducesAll moved (loop.headers.map (·.parameter)) initial ∧
      Inside ⟨loop, pre, cursor.nextOwner⟩ initial := by
  obtain ⟨acquired, hacquired, h⟩ := Outcome.peel h
  obtain ⟨moved, hmoved, h⟩ := Outcome.peel h
  obtain ⟨_, hretired, h⟩ := Outcome.peel h
  rw [Outcome.liftM_eq_ok] at hmoved hretired h
  have hentered := hs.enter hcursor
  have hgrows := verifyOperations_grows hentered hacquired
  obtain ⟨hfacts, hflags⟩ := acquisitions_unflagging loop.entryAcquisitions hacquired
  obtain ⟨hmoves, hflags'⟩ := initializeHeaders_moves loop.headers hmoved
  have hfollows := hgrows.follows.trans hmoves.follows
  have hintroduces := introduceHeaders_introduces h
  refine ⟨acquired, moved, hacquired, hmoves, hfollows, ?_, fun id => ?_, hintroduces, ?_⟩
  · exact (completeOwners_retired hretired).held_unflagging hs.toOrdered hcursor hfollows
      (hflags'.trans hflags)
  · rw [hmoves.facts, hfacts]
    exact valueEntry_enter hs.toOrdered hcursor id
  · exact (Inside.start hs.toOrdered hcursor loop).follows
      (hfollows.trans (hintroduces.follows (hfollows.keeps hentered)))

/-! ## Loop exits -/

theorem Inside.enclosingOwner_eq (h : Inside active state) {id : Nat} (hid : id < active.firstOwner)
    (firstValue firstOwner : Nat) :
    enclosingOwner state.facts id =
      enclosingOwner (Verify.enter active.pre firstValue firstOwner).facts id := by
  obtain ⟨inner, hscopes, hfloor⟩ := h.scopes
  have hinner : inner.find? (·.holdsOwner id) = none := by
    rw [List.find?_eq_none]
    intro scope hscope
    have := hfloor scope hscope
    simp only [EnclosingScope.holdsOwner, Bool.and_eq_true, decide_eq_true_eq, not_and, Nat.not_lt]
    omega
  unfold enclosingOwner Verify.enter
  rw [hscopes]
  simp only [List.find?_append, List.find?_cons, List.find?_nil, hinner]

theorem completeLoopOwners_held {u : Unit} (hp : Scoped active.pre) (hin : Inside active state)
    (h : completeLoopOwners active.pre state active.firstOwner span = .ok u) (id : Nat) :
    held state id = held active.pre id := by
  obtain ⟨_, hcaptured, h⟩ := Except.peel h
  obtain ⟨_, hlocal, hretired⟩ := Except.peel h
  rw [require_eq_ok, List.all_eq_true] at hcaptured hlocal
  have hr := completeOwners_retired hretired
  have hle : active.pre.blockEnd.le ⟨active.pre.blockEnd.nextValue, active.firstOwner⟩ :=
    ⟨Nat.le_refl _, hin.later⟩
  by_cases hid : id < active.firstOwner
  · have hsame := hin.enclosingOwner_eq hid active.pre.blockEnd.nextValue active.firstOwner
    rw [← held_enter hp.toOrdered hle]
    cases henclosing : enclosingOwner (Verify.enter active.pre active.pre.blockEnd.nextValue
        active.firstOwner).facts id with
    | none =>
      have hentered : Retired (Verify.enter active.pre active.pre.blockEnd.nextValue
          active.firstOwner) := by
        intro i value
        simp [Verify.enter]
      rw [hr.held_none (hsame.trans henclosing)]
      exact (hentered.held_none henclosing).symm
    | some entry =>
      have hmem := mem_enclosingOwners henclosing
      unfold held ownerEntry
      rw [hsame, henclosing]
      cases entry with
      | dischargedOwner => simp
      | activeOwner value =>
        cases hbefore : dischargedAlready active.pre.discharged id with
        | true => simp [hin.flags id hbefore, Verify.enter, hbefore]
        | false =>
          -- a captured owner is not flagged by the edge
          have hkept := hcaptured (.activeOwner value, id) (by
            rw [VerificationFacts.enclosingOwners, Verify.enter] at hmem
            simpa [VerificationFacts.enclosingOwners, VerificationState.scope] using hmem)
          simp only [preservesCaptured, hbefore, Bool.false_or, Bool.not_eq_true'] at hkept
          simp [hkept, Verify.enter, hbefore]
  · have hpre : held active.pre id = none := by
      cases hheld : held active.pre id with
      | none => rfl
      | some value =>
        have := hp.toOrdered.held_lt hheld
        have := hin.later
        omega
    rw [hpre]
    cases henclosing : enclosingOwner state.facts id with
    | none => exact hr.held_none henclosing
    | some entry =>
      have hretires := hlocal _ (mem_enclosingOwners henclosing)
      unfold held ownerEntry
      rw [henclosing]
      cases entry with
      | dischargedOwner => simp
      | activeOwner value =>
        simp only [retiresLocal, hid, decide_false, Bool.false_or] at hretires
        simp [hretires]

/-- **A loop edge leaves what was held before the loop.** -/
theorem verifyLoopExit_checked {exit : OwnedLoopExit} {u : Unit} (hp : Scoped active.pre)
    (hin : Inside active state) (h : verifyLoopExit context active state exit = .ok u) :
    ∃ moved, MovesAll state exit.transfers moved ∧ Inside active moved ∧
      ∀ id, held moved id = held active.pre id := by
  obtain ⟨_, hlength, h⟩ := Except.peel h
  obtain ⟨moved, hmoved, h⟩ := Except.peel h
  rw [require_eq_ok, decide_eq_true_eq] at hlength
  have hmoves : MovesAll state exit.transfers moved :=
    .of_zip (fun _ _ _ _ h => consumeYield_moves h) _ _ _ hlength.symm hmoved
  have hinside := hin.follows hmoves.follows
  exact ⟨moved, hmoves, hinside, completeLoopOwners_held hp hinside h⟩

/-! ## The ordinals of nested blocks -/

/-- Every control starts before the ordinals. -/
def StartsBefore (pending : List PendingControl) (cursor : BlockEnd) : Prop :=
  ∀ control ∈ pending, Scoped control.start ∧ control.start.blockEnd.le cursor

theorem Grows.startsBefore {after : VerifiedBlock} (h : Grows ⟨state, []⟩ after)
    (hs : Scoped state) : StartsBefore after.pending after.state.blockEnd := by
  intro control hcontrol
  rcases h.starts control hcontrol with hcontrol | ⟨hfollows, hle⟩
  · cases hcontrol
  · exact ⟨hfollows.keeps hs, hle⟩

/-- The ordinals after nested blocks are not before those they start with. -/
structure CursorsGrow (context : Context) (fuel : Nat) : Prop where
  joins : ∀ {active pending cursor reached}, StartsBefore pending cursor →
    verifyJoins context fuel active pending cursor = .ok reached → cursor.le reached
  control : ∀ {active control cursor reached}, Scoped control.start →
    control.start.blockEnd.le cursor →
    verifyControl context fuel active control cursor = .ok reached → cursor.le reached
  joinArm : ∀ {active join start arm cursor reached}, Scoped start → start.blockEnd.le cursor →
    verifyJoinArm context fuel active join start arm cursor = .ok reached → cursor.le reached
  loopBlock : ∀ {active initial body reached}, Scoped initial →
    verifyLoopBlock context fuel active initial body = .ok reached → initial.blockEnd.le reached
  loopArm : ∀ {active state arm cursor reached}, Scoped state → state.blockEnd.le cursor →
    verifyLoopArm context fuel active state arm cursor = .ok reached → cursor.le reached

theorem cursorsGrow (context : Context) : ∀ fuel, CursorsGrow context fuel := by
  intro fuel
  induction fuel with
  | zero =>
    refine ⟨?_, ?_, ?_, ?_, ?_⟩
    · intro active pending cursor reached _ h
      cases h
    · intro active control cursor reached _ _ h
      cases control <;> cases h
    · intro active join start arm cursor reached _ _ h
      cases h
    · intro active initial body reached _ h
      cases h
    · intro active state arm cursor reached _ _ h
      cases h
  | succ fuel ih =>
    refine ⟨?_, ?_, ?_, ?_, ?_⟩
    · intro active pending cursor reached hstarts h
      exact (Outcome.foldlM_visits (I := fun later => cursor.le later) pending
        (fun control hcontrol later next hle hnext => hle.trans
          (ih.control (hstarts control hcontrol).1 ((hstarts control hcontrol).2.trans hle) hnext))
        cursor reached (.refl cursor) h).1
    · intro active control cursor reached hs hcursor h
      cases control with
      | verifyJoin join start =>
        obtain ⟨selected, hselected, h⟩ := Outcome.peel h
        have hle := (verifySelection_checked hs hcursor hselected).1
        exact (Outcome.foldlM_visits (I := fun later => cursor.le later) join.arms
          (fun arm _ later next hle hnext =>
            hle.trans (ih.joinArm hs (hcursor.trans hle) hnext))
          selected reached hle h).1
      | verifyLoop loop start =>
        obtain ⟨initial, hinitial, h⟩ := Outcome.peel h
        obtain ⟨_, moved, -, -, hfollows, -, -, hintroduces, -⟩ :=
          initializeLoop_checked hs hcursor hinitial
        have hmoved := hfollows.keeps (hs.enter hcursor)
        have hheaders := hintroduces.follows hmoved
        exact (((BlockEnd.le_enter start cursor).trans hfollows.grows).trans hheaders.grows).trans
          (ih.loopBlock (hheaders.keeps hmoved) h)
    · intro active join start arm cursor reached hs hcursor h
      obtain ⟨entered, hentered, h⟩ := Outcome.peel h
      rw [Outcome.liftM_eq_ok] at hentered
      have hinputs := introduceOutputs_follows (hs.enter hcursor) hentered
      have hsentered := hinputs.keeps (hs.enter hcursor)
      have hle := (BlockEnd.le_enter start cursor).trans hinputs.grows
      split at h
      · obtain ⟨verified, hverified, h⟩ := Outcome.peel h
        obtain ⟨_, -, h⟩ := Outcome.peel h
        have hgrows := verifyOperations_grows hsentered hverified
        exact (hle.trans hgrows.follows.grows).trans (ih.joins (hgrows.startsBefore hsentered) h)
      · obtain ⟨_, -, h⟩ := Outcome.peel h
        obtain ⟨_, -, h⟩ := Outcome.peel h
        exact hle.trans (ih.loopBlock hsentered h)
    · intro active initial body reached hs h
      obtain ⟨verified, hverified, h⟩ := Outcome.peel h
      have hgrows := verifyOperations_grows hs hverified
      have hstarts := hgrows.startsBefore hs
      have hle := hgrows.follows.grows
      split at h
      · obtain ⟨_, -, h⟩ := Outcome.peel h
        exact hle.trans (ih.joins hstarts h)
      · next matched htail =>
        obtain ⟨completed, hcompleted, h⟩ := Outcome.peel h
        obtain ⟨selected, hselected, h⟩ := Outcome.peel h
        have hjoined := ih.joins hstarts hcompleted
        have hsv := hgrows.follows.keeps hs
        have hselection := (verifySelection_checked hsv hjoined hselected).1
        exact hle.trans (Outcome.foldlM_visits (I := fun later => verified.state.blockEnd.le later)
          matched.arms
          (fun arm _ later next hle hnext => hle.trans (ih.loopArm hsv hle hnext))
          selected reached (hjoined.trans hselection) h).1
    · intro active state arm cursor reached hs hcursor h
      obtain ⟨entered, hentered, h⟩ := Outcome.peel h
      rw [Outcome.liftM_eq_ok] at hentered
      have hinputs := introduceOutputs_follows (hs.enter hcursor) hentered
      exact ((BlockEnd.le_enter state cursor).trans hinputs.grows).trans
        (ih.loopBlock (hinputs.keeps (hs.enter hcursor)) h)

/-! ## Controls of a verified block -/

/-- The control was verified from ordinals after its start. -/
def Controlled (context : Context) (active : Option ActiveLoop) (control : PendingControl) : Prop :=
  Scoped control.start ∧ ∃ fuel cursor reached, control.start.blockEnd.le cursor ∧
    verifyControl context fuel active control cursor = .ok reached

theorem verifyJoins_controlled {fuel : Nat} {active : Option ActiveLoop}
    {pending : List PendingControl} {reached : BlockEnd} (hstarts : StartsBefore pending cursor)
    (h : verifyJoins context fuel active pending cursor = .ok reached) :
    ∀ control ∈ pending, Controlled context active control := by
  intro control hcontrol
  cases fuel with
  | zero => cases h
  | succ fuel =>
    obtain ⟨-, hvisits⟩ := Outcome.foldlM_visits (I := fun later => cursor.le later) pending
      (fun control hcontrol later next hle hnext => hle.trans
        ((cursorsGrow context fuel).control (hstarts control hcontrol).1
          ((hstarts control hcontrol).2.trans hle) hnext))
      cursor reached (.refl cursor) h
    obtain ⟨later, next, hle, hnext⟩ := hvisits control hcontrol
    exact ⟨(hstarts control hcontrol).1, fuel, later, next, (hstarts control hcontrol).2.trans hle,
      hnext⟩

theorem Controlled.join {active : Option ActiveLoop} {join : OwnedJoin} {start : VerificationState}
    (h : Controlled context active (.verifyJoin join start)) :
    SelectionChecked context join.selection (joinTargets join) start ∧
      ∀ arm ∈ join.arms, ∃ fuel cursor reached, start.blockEnd.le cursor ∧
        verifyJoinArm context fuel active join start arm cursor = .ok reached := by
  obtain ⟨hs, fuel, cursor, reached, hcursor, h⟩ := h
  cases fuel with
  | zero => cases h
  | succ fuel =>
    obtain ⟨selected, hselected, h⟩ := Outcome.peel h
    obtain ⟨hle, hselection⟩ := verifySelection_checked hs hcursor hselected
    refine ⟨hselection, fun arm harm => ?_⟩
    obtain ⟨later, next, hle, hnext⟩ :=
      (Outcome.foldlM_visits (I := fun later => start.blockEnd.le later) join.arms
        (fun arm _ later next hle hnext =>
          hle.trans ((cursorsGrow context fuel).joinArm hs hle hnext))
        selected reached (hcursor.trans hle) h).2 arm harm
    exact ⟨fuel, later, next, hle, hnext⟩

theorem Controlled.loop {active : Option ActiveLoop} {loop : OwnedLoop} {start : VerificationState}
    (h : Controlled context active (.verifyLoop loop start)) :
    ∃ fuel cursor initial reached, start.blockEnd.le cursor ∧
      initializeLoop context loop start cursor = .ok initial ∧
      verifyLoopBlock context fuel ⟨loop, start, cursor.nextOwner⟩ initial loop.body =
        .ok reached := by
  obtain ⟨-, fuel, cursor, reached, hcursor, h⟩ := h
  cases fuel with
  | zero => cases h
  | succ fuel =>
    obtain ⟨initial, hinitial, h⟩ := Outcome.peel h
    exact ⟨fuel, cursor, initial, reached, hcursor, hinitial, h⟩

theorem loopArms_controlled {fuel : Nat} {matched : OwnedLoopMatch} {selected reached : BlockEnd}
    (hs : Scoped state) (hcursor : state.blockEnd.le cursor)
    (hselected : verifySelection context matched.selection (matchTargets matched) state cursor =
      .ok selected)
    (h : matched.arms.foldlM (fun cursor arm => verifyLoopArm context fuel active state arm
      cursor) selected = .ok reached) :
    SelectionChecked context matched.selection (matchTargets matched) state ∧
      ∀ arm ∈ matched.arms, ∃ cursor reached, state.blockEnd.le cursor ∧
        verifyLoopArm context fuel active state arm cursor = .ok reached := by
  obtain ⟨hle, hselection⟩ := verifySelection_checked hs hcursor hselected
  refine ⟨hselection, fun arm harm => ?_⟩
  obtain ⟨later, next, hle, hnext⟩ :=
    (Outcome.foldlM_visits (I := fun later => state.blockEnd.le later) matched.arms
      (fun arm _ later next hle hnext =>
        hle.trans ((cursorsGrow context fuel).loopArm hs hle hnext))
      selected reached (hcursor.trans hle) h).2 arm harm
  exact ⟨later, next, hle, hnext⟩

end Blorp.Verify
