import Blorp.Verify.Nesting
import Blorp.Own.Execution

/-!
# A frame in step with the verifier

`Tracks` relates the verifier's state to an execution's frame at the same point: each
live obligation of the function is in the custody of one owner the state holds, or of
one argument not yet bound, and each known value is bound to what its borrow rests on.
The primitive steps of an execution keep it.
-/

namespace Blorp.Verify

open Specialize
open Own
open Runs Obligations

/-! ## The ledger -/

/-- The trace accounts for exactly the live obligations, and the next number is unused. -/
def Ledger (machine : Machine) (live : Finset Nat) : Prop :=
  Account machine.trace live ∧ ∀ n, .introduced n ∈ machine.trace → n < machine.next

variable {live outer : Finset Nat}

theorem introduce_ledger :
    Triple Ledger live introduce fun n live' => n ∉ live ∧ live' = insert n live := by
  refine Triple.step fun machine ⟨haccount, hnext⟩ => ?_
  have hfresh : .introduced machine.next ∉ machine.trace :=
    fun h => Nat.lt_irrefl _ (hnext _ h)
  refine ⟨insert machine.next live, ⟨.introduce haccount hfresh, fun n hn => ?_⟩, ?_, rfl⟩
  · rcases List.mem_append.mp hn with hn | hn
    · exact Nat.lt_succ_of_lt (hnext n hn)
    · have hn : n = machine.next := by simpa using hn
      simp [hn]
  · exact fun hmem => hfresh ((haccount.mem_live_iff _).mp hmem).1

theorem discharge_ledger {n : Nat} (hn : n ∈ live) :
    Triple Ledger live (emit (.discharged n)) fun _ live' => live' = live.erase n := by
  refine Triple.step fun machine ⟨haccount, hnext⟩ => ?_
  refine ⟨live.erase n, ⟨.discharge haccount hn, fun m hm => hnext m ?_⟩, rfl⟩
  simpa using hm

theorem use_ledger {n : Nat} (hn : n ∈ live) :
    Triple Ledger live (emit (.used n)) fun _ live' => live' = live := by
  refine Triple.step fun machine ⟨haccount, hnext⟩ => ?_
  refine ⟨live, ⟨.use haccount hn, fun m hm => hnext m ?_⟩, rfl⟩
  simpa using hm

theorem choose_ledger : Triple Ledger live choose fun _ live' => live' = live := by
  intro machine hledger
  unfold choose
  split
  · exact ⟨live, hledger⟩
  · exact ⟨live, hledger, rfl⟩

/-- What a borrow ends in is live; a parameter of the outermost call always is. -/
def LiveRoot (live : Finset Nat) : Root → Prop
  | .obligation n => n ∈ live
  | .outside => True

theorem LiveRoot.mono {root : Root} (h : LiveRoot outer root) (hle : outer ⊆ live) :
    LiveRoot live root := by
  cases root with
  | obligation n => exact hle h
  | outside => trivial

theorem readRoot_ledger {root : Root} (h : LiveRoot live root) :
    Triple Ledger live (readRoot root) fun _ live' => live' = live := by
  cases root with
  | obligation n => exact use_ledger h
  | outside => exact Triple.pure rfl

/-! ## Arguments -/

/-- An owned row receives an obligation and a managed one a borrow. -/
def Fits : OwnedParameter → Argument → Prop
  | .unmanagedParameter _, .owned _ => False
  | .unmanagedParameter _, _ => True
  | .managedParameter passing, .owned _ => passing.owned = true
  | .managedParameter passing, .borrowed _ => passing.owned = false
  | .managedParameter _, .plain => False

/-- The arguments of a call fit its rows, and its borrows are live for all of it. -/
structure Received (rows : List OwnedParameter) (outer : Finset Nat) (arguments : List Argument) :
    Prop where
  arity : arguments.length = rows.length
  fits : ∀ (i : Nat) row argument, rows[i]? = some row → arguments[i]? = some argument →
    Fits row argument
  live : ∀ (i : Nat) root, arguments[i]? = some (.borrowed root) → LiveRoot outer root

theorem receives_fits {row : OwnedParameter} {argument : Argument}
    (h : row.receives argument = true) : Fits row argument := by
  cases row with
  | unmanagedParameter valueType =>
    cases argument with
    | plain => trivial
    | borrowed root => trivial
    | owned n => cases h
  | managedParameter passing =>
    cases argument with
    | plain => cases h
    | borrowed root => simpa [OwnedParameter.receives, Fits] using h
    | owned n => simpa [OwnedParameter.receives, Fits] using h

theorem receivesAll_fits : ∀ {rows : List OwnedParameter} {arguments : List Argument},
    receivesAll rows arguments = true → arguments.length = rows.length ∧
      ∀ (i : Nat) row argument, rows[i]? = some row → arguments[i]? = some argument →
        Fits row argument := by
  intro rows
  induction rows with
  | nil =>
    intro arguments h
    cases arguments with
    | nil => exact ⟨rfl, by simp⟩
    | cons argument arguments => cases h
  | cons row rows ih =>
    intro arguments h
    cases arguments with
    | nil => cases h
    | cons argument arguments =>
      rw [receivesAll, Bool.and_eq_true] at h
      obtain ⟨hlength, hfits⟩ := ih h.2
      refine ⟨by simp [hlength], fun i other otherArgument hrow hargument => ?_⟩
      cases i with
      | zero =>
        cases hrow
        cases hargument
        exact receives_fits h.1
      | succ i => exact hfits i other otherArgument hrow hargument

/-! ## Custody -/

/-- Who may hold an obligation of a function: an owner, or an argument not yet bound. -/
inductive Holder where
  | owner (id : Nat)
  | argument (index : Nat)
  deriving DecidableEq, Repr

/-- The owners the state holds keep the obligations the frame binds them to; the owned
arguments from `bound` on keep their own. -/
def Holds (state : VerificationState) (bound : Nat) (frame : Frame) : Holder → Nat → Prop
  | .owner id, n => ∃ value, held state id = some value ∧ frame.owners id = some (n, value)
  | .argument i, n => bound ≤ i ∧ frame.arguments[i]? = some (.owned n)

/-- A known value as the frame binds it: a parameter's root is live for the whole call,
and a projection's is what its parent's borrow resolves to. -/
structure Binds (outer : Finset Nat) (frame : Frame) (known : KnownValue) (binding : Binding) :
    Prop where
  result : binding.result = known.result
  parameter : ∀ value, known.result = .borrowedResult (.parameterBorrow value) →
    ∃ root, binding.root = some root ∧ LiveRoot outer root
  payload : ∀ value ancestor, known.result = .borrowedResult (.payloadBorrow value) →
    known.projectionParent = some ancestor → binding.root = frame.resolve ancestor

structure Tracks (rows : List OwnedParameter) (outer : Finset Nat) (bound : Nat)
    (state : VerificationState) (frame : Frame) (live : Finset Nat) : Prop where
  scoped_state : Scoped state
  custody : Custody (Holds state bound frame) live outer
  owners : ∀ id value, held state id = some value → ∃ n, frame.owners id = some (n, value)
  values : ∀ id known, state.facts.valueEntry id = some known →
    ∃ binding, frame.values id = some binding ∧ Binds outer frame known binding
  received : Received rows outer frame.arguments

namespace Tracks

variable {rows : List OwnedParameter} {bound : Nat} {state after : VerificationState}
  {frame : Frame}

theorem restrict (h : Tracks rows outer bound state frame live) (hs : Scoped after)
    (hheld : ∀ id, held after id = held state id)
    (hvalues : ∀ id known, after.facts.valueEntry id = some known →
      state.facts.valueEntry id = some known) : Tracks rows outer bound after frame live where
  scoped_state := hs
  custody := h.custody.congr fun holder n => by
    cases holder with
    | owner id => simp only [Holds, hheld]
    | argument i => exact Iff.rfl
  owners id value hid := h.owners id value (by rwa [← hheld])
  values id known hid := h.values id known (hvalues id known hid)
  received := h.received

theorem enter (h : Tracks rows outer bound state frame live) {cursor : BlockEnd}
    (hcursor : state.blockEnd.le cursor) :
    Tracks rows outer bound (Verify.enter state cursor.nextValue cursor.nextOwner) frame live :=
  h.restrict (h.scoped_state.enter hcursor)
    (fun id => held_enter h.scoped_state.toOrdered hcursor id)
    (fun id known hid => by rwa [valueEntry_enter h.scoped_state.toOrdered hcursor] at hid)

theorem noteParameter (h : Tracks rows outer bound state frame live)
    (definition : OwnedDefinition) :
    Tracks rows outer bound (Verify.noteParameter state definition) frame live :=
  h.restrict ((Follows.noteParameter state definition).keeps h.scoped_state)
    (fun id => held_noteParameter state definition id)
    (fun id known hid => by rwa [valueEntry_noteParameter] at hid)

/-! ## Reads -/

section

variable (h : Tracks rows outer bound state frame live)

include h

/-- **A live borrow resolves to something live.** -/
theorem resolves {borrow : BorrowedValue} (hlive : LiveBorrow state borrow) :
    ∃ root, frame.resolve borrow = some root ∧ LiveRoot live root := by
  induction hlive with
  | @parameter value source known parameter visible result =>
    obtain ⟨binding, hbinding, hbinds⟩ := h.values value known visible
    obtain ⟨root, hroot, hlive⟩ := hbinds.parameter parameter result
    refine ⟨root, ?_, hlive.mono h.custody.reserved_live⟩
    simp [Frame.resolve, hbinding, hroot]
  | @owner value owner known visible holds =>
    obtain ⟨n, hn⟩ := h.owners owner value holds
    refine ⟨.obligation n, by simp [Frame.resolve, hn], ?_⟩
    exact (h.custody.held_live (.owner owner) n ⟨value, holds, hn⟩).1
  | @payload value parent ancestor known visible result projected _ ih =>
    obtain ⟨binding, hbinding, hbinds⟩ := h.values value known visible
    obtain ⟨root, hroot, hlive⟩ := ih
    have hbound := hbinds.payload parent ancestor result projected
    rw [hroot] at hbound
    exact ⟨root, by simp [Frame.resolve, hbinding, hbound], hlive⟩

theorem read {borrow : BorrowedValue} (hlive : LiveBorrow state borrow) :
    Triple Ledger live (readBorrow frame borrow) fun root live' =>
      live' = live ∧ frame.resolve borrow = some root ∧ LiveRoot live root := by
  obtain ⟨root, hroot, hlive⟩ := h.resolves hlive
  unfold readBorrow
  rw [hroot]
  refine (readRoot_ledger hlive).bind fun _ live' hlive' => ?_
  exact Triple.pure ⟨hlive', rfl, hlive⟩

theorem readOperand {argument : OwnedArgument} (hlive : LiveOperand state argument) :
    Triple Ledger live (readOperand frame argument) fun root live' =>
      live' = live ∧ root = (argumentBorrow argument).bind frame.resolve := by
  cases argument with
  | unmanagedArgument value => exact Triple.pure ⟨rfl, rfl⟩
  | borrowedArgument borrow =>
    refine (h.read hlive).bind fun root live' ⟨hlive', hroot, _⟩ => ?_
    exact Triple.pure ⟨hlive', by simp [argumentBorrow, hroot]⟩
  | consumedArgument value owner => exact hlive.elim

theorem operand_root {argument : OwnedArgument} (hlive : LiveOperand state argument) {root : Root}
    (hroot : (argumentBorrow argument).bind frame.resolve = some root) : LiveRoot live root := by
  cases argument with
  | unmanagedArgument value => cases hroot
  | consumedArgument value owner => cases hroot
  | borrowedArgument borrow =>
    obtain ⟨found, hfound, hlive⟩ := h.resolves hlive
    simp only [argumentBorrow, Option.bind_some, hfound] at hroot
    cases hroot
    exact hlive

end

/-! ## Discharges -/

section

variable (h : Tracks rows outer bound state frame live)

include h

/-- **A taken owner's obligation is discharged.** -/
theorem take {value owner : Nat} (htakes : Takes state after value owner) :
    Triple Ledger live (moveOwner frame value owner) fun _ live' =>
      Tracks rows outer bound after frame live' := by
  obtain ⟨n, hn⟩ := h.owners owner value htakes.holds
  have hholds : Holds state bound frame (.owner owner) n := ⟨value, htakes.holds, hn⟩
  have hreleases := htakes.releases
  have hfollows := Follows.takes htakes
  have hfacts : after.facts = state.facts := by
    obtain ⟨_, slot, -, rfl⟩ := htakes.slot
    exact dischargeSlot_facts state slot
  have hmove : moveOwner frame value owner = emit (.discharged n) := by simp [moveOwner, hn]
  rw [hmove]
  refine (discharge_ledger (h.custody.held_live _ n hholds).1).mono fun _ live' hlive' => ?_
  subst hlive'
  refine ⟨hfollows.keeps h.scoped_state, ?_, fun id held hid => ?_, fun id known hid => ?_,
    h.received⟩
  · refine h.custody.release hholds (fun m ⟨_, _, hm⟩ => ?_) fun holder m => ?_
    · rw [hn] at hm
      cases hm
      rfl
    · cases holder with
      | argument i => simp [Holds]
      | owner id =>
        by_cases hid : id = owner
        · subst hid
          simp [Holds, hreleases id]
        · simp [Holds, hreleases id, hid]
  · rw [hreleases id] at hid
    split at hid
    · cases hid
    · exact h.owners id held hid
  · rw [hfacts] at hid
    exact h.values id known hid

theorem drop {value owner : Nat} (htakes : Takes state after value owner) :
    Triple Ledger live (releaseOwner frame owner) fun _ live' =>
      Tracks rows outer bound after frame live' := by
  obtain ⟨n, hn⟩ := h.owners owner value htakes.holds
  have hsame : releaseOwner frame owner = moveOwner frame value owner := by
    simp [releaseOwner, moveOwner, hn]
  rw [hsame]
  exact h.take htakes

theorem move {transfer : ReturnTransfer} (hmoves : Moves state transfer after) :
    Triple Ledger live (moveTransfer frame transfer) fun _ live' =>
      Tracks rows outer bound after frame live' := by
  cases hmoves with
  | unmanaged value => exact Triple.pure h
  | owned takes => exact h.take takes

end

theorem moveAll {transfers : List ReturnTransfer} (hmoves : MovesAll state transfers after) :
    ∀ {live : Finset Nat}, Tracks rows outer bound state frame live →
      Triple Ledger live (moveTransfers frame transfers) fun _ live' =>
        Tracks rows outer bound after frame live' := by
  induction hmoves with
  | nil =>
    intro live h
    exact Triple.pure h
  | cons first rest ih =>
    intro live h
    exact (h.move first).bind fun _ live' h' => ih h'

end Tracks

/-! ## Introductions -/

theorem resolve_bindValue {frame : Frame} {id : Nat} {binding : Binding} {borrow : BorrowedValue}
    (h : borrow.value ≠ id) : (frame.bindValue id binding).resolve borrow = frame.resolve borrow := by
  simp [Frame.resolve, Frame.bindValue, h]

theorem resolve_bindOwner {frame : Frame} {id n value : Nat} {borrow : BorrowedValue}
    (h : ∀ owner, borrow.source = .ownerBorrow owner → owner ≠ id) :
    (frame.bindOwner id n value).resolve borrow = frame.resolve borrow := by
  unfold Frame.resolve Frame.bindOwner
  cases hsource : borrow.source with
  | ownerBorrow owner => simp [h owner hsource]
  | parameterBorrow source => rfl
  | payloadBorrow source => rfl

theorem Binds.reframe {frame frame' : Frame} {known : KnownValue} {binding : Binding}
    (h : Binds outer frame known binding)
    (hsame : ∀ ancestor, known.projectionParent = some ancestor →
      frame'.resolve ancestor = frame.resolve ancestor) : Binds outer frame' known binding where
  result := h.result
  parameter := h.parameter
  payload value ancestor hresult hancestor :=
    (h.payload value ancestor hresult hancestor).trans (hsame ancestor hancestor).symm

theorem holds_bindOwner {state : VerificationState} (hs : Ordered state) {frame : Frame}
    {bound id n value : Nat} (hid : id = state.blockEnd.nextOwner) (holder : Holder) (m : Nat) :
    Holds { state with owners := state.owners ++ [.activeOwner value] } bound
        (frame.bindOwner id n value) holder m ↔
      (holder = .owner id ∧ m = n) ∨ (holder ≠ .owner id ∧ Holds state bound frame holder m) := by
  cases holder with
  | argument i => simp [Holds, Frame.bindOwner]
  | owner other =>
    simp only [Holds, introduceOwner_held hs, Frame.bindOwner, ← hid]
    by_cases hother : other = id
    · simp [hother, eq_comm]
    · simp [hother]

namespace Tracks

variable {rows : List OwnedParameter} {bound : Nat} {state after : VerificationState}
  {frame : Frame}

section

variable (h : Tracks rows outer bound state frame live)

include h

theorem bindOwner {id n value bound' : Nat} {live' : Finset Nat}
    (hid : id = state.blockEnd.nextOwner)
    (hcustody : Custody (Holds { state with owners := state.owners ++ [.activeOwner value] }
      bound' (frame.bindOwner id n value)) live' outer) :
    Tracks rows outer bound' { state with owners := state.owners ++ [.activeOwner value] }
      (frame.bindOwner id n value) live' where
  scoped_state := (Follows.introduceOwner state value).keeps h.scoped_state
  custody := hcustody
  owners other heldValue hother := by
    rw [introduceOwner_held h.scoped_state.toOrdered, ← hid] at hother
    by_cases hsame : other = id
    · rw [if_pos hsame] at hother
      cases hother
      exact ⟨n, by simp [Frame.bindOwner, hsame]⟩
    · rw [if_neg hsame] at hother
      obtain ⟨m, hm⟩ := h.owners other heldValue hother
      exact ⟨m, by simp [Frame.bindOwner, hsame, hm]⟩
  values other known hother := by
    obtain ⟨binding, hbinding, hbinds⟩ := h.values other known hother
    refine ⟨binding, hbinding, hbinds.reframe fun ancestor hancestor => ?_⟩
    refine resolve_bindOwner fun owner howner => ?_
    have hlt := (h.scoped_state.parents other known ancestor hother hancestor).2 owner howner
    exact hid ▸ Nat.ne_of_lt hlt
  received := h.received

theorem not_holds_next (m : Nat) :
    ¬ Holds state bound frame (.owner state.blockEnd.nextOwner) m := by
  rintro ⟨value, hheld, -⟩
  exact Nat.lt_irrefl _ (h.scoped_state.toOrdered.held_lt hheld)

/-- **An introduced owner holds a fresh obligation.** -/
theorem own {id n value : Nat} (hn : n ∉ live) (hid : id = state.blockEnd.nextOwner) :
    Tracks rows outer bound { state with owners := state.owners ++ [.activeOwner value] }
      (frame.bindOwner id n value) (insert n live) := by
  refine h.bindOwner hid (h.custody.acquire hn (fun holder m => ?_) (h.not_holds_next))
  rw [holds_bindOwner h.scoped_state.toOrdered hid, hid]

/-- **An owned argument's obligation passes to the owner its parameter introduces.** -/
theorem adopt {id n value : Nat} (hargument : frame.arguments[bound]? = some (.owned n))
    (hid : id = state.blockEnd.nextOwner) :
    Tracks rows outer (bound + 1) { state with owners := state.owners ++ [.activeOwner value] }
      (frame.bindOwner id n value) live := by
  refine h.bindOwner hid
    (h.custody.pass (x := .argument bound) ⟨Nat.le_refl bound, hargument⟩ (fun m hm => ?_)
      (fun holder m => ?_) h.not_holds_next)
  · have hm := hm.2
    rw [hargument] at hm
    cases hm
    rfl
  · rw [holds_bindOwner h.scoped_state.toOrdered hid, hid]
    refine or_congr Iff.rfl ?_
    cases holder with
    | owner other => simp [Holds]
    | argument i =>
      simp only [ne_eq, reduceCtorEq, not_false_eq_true, Holds, true_and, Holder.argument.injEq]
      constructor
      · rintro ⟨hle, hi⟩
        exact ⟨by omega, by omega, hi⟩
      · rintro ⟨hne, hle, hi⟩
        exact ⟨by omega, hi⟩

theorem advance (hargument : ∀ n, frame.arguments[bound]? ≠ some (.owned n)) :
    Tracks rows outer (bound + 1) state frame live :=
  { h with
    custody := h.custody.congr fun holder m => by
      cases holder with
      | owner other => exact Iff.rfl
      | argument i =>
        constructor
        · rintro ⟨hle, hi⟩
          exact ⟨by omega, hi⟩
        · rintro ⟨hle, hi⟩
          refine ⟨?_, hi⟩
          by_contra hlt
          have hsame : i = bound := by omega
          exact hargument m (hsame ▸ hi) }

theorem bindValue {known : KnownValue} {binding : Binding} {id : Nat}
    (hid : id = state.blockEnd.nextValue) (hbinds : Binds outer frame known binding)
    (hparent : ∀ parent, known.projectionParent = some parent →
      BorrowWithin parent state.blockEnd) :
    Tracks rows outer bound (state.withValue known) (frame.bindValue id binding) live where
  scoped_state := (Follows.withValue h.scoped_state.toOrdered hparent).keeps h.scoped_state
  custody := h.custody.congr fun holder n => by cases holder <;> exact Iff.rfl
  owners := h.owners
  values other found hother := by
    have hkeep : ∀ ancestor, BorrowWithin ancestor state.blockEnd →
        (frame.bindValue id binding).resolve ancestor = frame.resolve ancestor :=
      fun ancestor hwithin => resolve_bindValue (hid ▸ Nat.ne_of_lt hwithin.1)
    rw [valueEntry_withValue, ← hid] at hother
    by_cases hsame : other = id
    · rw [if_pos hsame] at hother
      cases hother
      exact ⟨binding, by simp [Frame.bindValue, hsame],
        hbinds.reframe fun ancestor hancestor => hkeep ancestor (hparent ancestor hancestor)⟩
    · rw [if_neg hsame] at hother
      obtain ⟨old, hold, hbound⟩ := h.values other found hother
      refine ⟨old, by simp [Frame.bindValue, hsame, hold],
        hbound.reframe fun ancestor hancestor => hkeep ancestor ?_⟩
      exact h.scoped_state.parents other found ancestor hother hancestor
  received := h.received

theorem bindPlain {known : KnownValue} {result : ResultOwnership} {id : Nat}
    (hid : id = state.blockEnd.nextValue) (hresult : known.result = result)
    (hunprojected : known.projectionParent = none)
    (hplain : ∀ source, result ≠ .borrowedResult source) :
    Tracks rows outer bound (state.withValue known) (frame.bindValue id ⟨result, none⟩) live := by
  refine h.bindValue hid ⟨hresult.symm, fun value hvalue => ?_, fun value _ hvalue => ?_⟩ ?_
  iterate 2 · exact absurd (hresult.symm.trans hvalue) (hplain _)
  · intro parent hparent
    rw [hunprojected] at hparent
    cases hparent

theorem introduceParameter {output : OwnedJoinParameter}
    (houtput : ParameterIntroduced state output after) :
    Triple Ledger live (introduceParameter frame output) fun frame' live' =>
      Tracks rows outer bound after frame' live' := by
  cases houtput with
  | unmanaged next result unprojected =>
    exact Triple.pure (h.bindPlain next result unprojected (by simp))
  | managed next nextOwner result unprojected =>
    refine introduce_ledger.bind fun n live' ⟨hn, hlive'⟩ => ?_
    subst hlive'
    exact Triple.pure ((h.own hn nextOwner).bindPlain next result unprojected (by simp))

end

theorem introduceParameters {outputs : List OwnedJoinParameter}
    (houtputs : IntroducesAll state outputs after) :
    ∀ {frame : Frame} {live : Finset Nat}, Tracks rows outer bound state frame live →
      Triple Ledger live (introduceParameters frame outputs) fun frame' live' =>
        Tracks rows outer bound after frame' live' := by
  induction houtputs with
  | nil =>
    intro frame live h
    exact Triple.pure h
  | cons first rest ih =>
    intro frame live h
    exact (h.introduceParameter first).bind fun frame' live' h' => ih h'

theorem acquire (h : Tracks rows outer bound state frame live) {id : Nat} {borrow : BorrowedValue}
    (hlive : LiveBorrow state borrow) (hid : id = state.blockEnd.nextOwner) :
    Triple Ledger live (acquireOwner frame id borrow) fun frame' live' =>
      Tracks rows outer bound { state with owners := state.owners ++ [.activeOwner borrow.value] }
        frame' live' := by
  refine (h.read hlive).bind fun _ live' ⟨hlive', _, _⟩ => ?_
  subst hlive'
  refine introduce_ledger.bind fun n live'' ⟨hn, hlive''⟩ => ?_
  subst hlive''
  exact Triple.pure (h.own hn hid)

end Tracks

end Blorp.Verify
