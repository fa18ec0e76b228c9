import Blorp.Verify.Control

/-!
# What a state makes visible

A state's scopes, flags and local tables are one thing seen from outside: which
values are known and which owners hold which values.  `held` is that view of the
owners, and every step of the verifier is stated by its effect on it.
-/

namespace Blorp.Verify

open Check (Span)
open Specialize
open Own

/-! ## Owners -/

/-- The entry of an owner, discharged if a flag says so. -/
def ownerEntry (state : VerificationState) (id : Nat) : Option OwnerState :=
  match enclosingOwner state.facts id with
  | some entry =>
      if dischargedAlready state.discharged id then some .dischargedOwner else some entry
  | none => if id < state.facts.firstOwner then none else state.owners[id - state.facts.firstOwner]?

variable {state after : VerificationState} {id value : Nat} {span : Span} {slot : OwnerSlot}
variable {cursor : BlockEnd}

theorem knownOwner_eq_ok {entry : OwnerState} :
    knownOwner state id span = .ok entry ↔ ownerEntry state id = some entry := by
  unfold knownOwner ownerSlot ownerEntry
  cases henclosing : enclosingOwner state.facts id with
  | some found =>
    simp only [Except.bind_eq_ok, Except.ok.injEq, exists_eq_left', orVerificationError_eq_ok]
    rw [henclosing]
  | none =>
    by_cases hbelow : id < state.facts.firstOwner
    · simp [hbelow, Except.bind_eq_ok]
    · by_cases hlocal : id < state.facts.firstOwner + state.owners.length
      · simp [hbelow, hlocal, Except.bind_eq_ok, orVerificationError_eq_ok]
      · have hnone : state.owners[id - state.facts.firstOwner]? = none :=
          List.getElem?_eq_none (by omega)
        simp [hbelow, hlocal, hnone, Except.bind_eq_ok]

/-- The value an owner holds, if it is visible and not discharged. -/
def held (state : VerificationState) (id : Nat) : Option Nat :=
  match ownerEntry state id with
  | some (.activeOwner value) => some value
  | _ => none

theorem held_eq_some :
    held state id = some value ↔ ownerEntry state id = some (.activeOwner value) := by
  unfold held
  split <;> simp_all

/-- The owner is held no more; every other one is held as before. -/
def Releases (state after : VerificationState) (id : Nat) : Prop :=
  ∀ other, held after other = if other = id then none else held state other

theorem dischargedAlready_discharge (flags : List Bool) (ordinal other : Nat) :
    dischargedAlready (discharge flags ordinal) other =
      (decide (other = ordinal) || dischargedAlready flags other) := by
  unfold dischargedAlready discharge
  rw [List.getElem?_set]
  by_cases hsame : ordinal = other
  · subst hsame
    simp only [↓reduceIte, List.length_append, List.length_replicate, decide_true, Bool.true_or]
    rw [if_pos (by omega)]
  · rw [if_neg hsame]
    have hdecide : decide (other = ordinal) = false := by simp [Ne.symm hsame]
    rw [hdecide, Bool.false_or, List.getElem?_append]
    by_cases hshort : other < flags.length
    · rw [if_pos hshort]
    · rw [if_neg hshort, List.getElem?_eq_none (Nat.le_of_not_lt hshort), List.getElem?_replicate]
      by_cases hin : other - flags.length < ordinal + 1 - flags.length <;> simp [hin]

theorem ownerSlot_cases {facts : VerificationFacts} {count : Nat}
    (h : ownerSlot facts count id span = .ok slot) :
    (∃ entry, enclosingOwner facts id = some entry ∧ slot = .enclosingSlot id) ∨
      (enclosingOwner facts id = none ∧ facts.firstOwner ≤ id ∧ id < facts.firstOwner + count ∧
        slot = .localSlot (id - facts.firstOwner)) := by
  unfold ownerSlot at h
  cases henclosing : enclosingOwner facts id with rw [henclosing] at h
  | some entry =>
    cases h
    exact .inl ⟨entry, rfl, rfl⟩
  | none =>
    simp only at h
    split at h
    · cases h
    · split at h
      · cases h
        exact .inr ⟨rfl, by omega, by omega, rfl⟩
      · cases h

@[simp] theorem dischargeSlot_facts (state : VerificationState) (slot : OwnerSlot) :
    (state.dischargeSlot slot).facts = state.facts := by
  cases slot <;> rfl

@[simp] theorem dischargeSlot_length (state : VerificationState) (slot : OwnerSlot) :
    (state.dischargeSlot slot).owners.length = state.owners.length := by
  cases slot <;> simp [VerificationState.dischargeSlot]

theorem dischargeSlot_releases (h : ownerSlot state.facts state.owners.length id span = .ok slot) :
    Releases state (state.dischargeSlot slot) id := by
  intro other
  rcases ownerSlot_cases h with ⟨entry, hentry, rfl⟩ | ⟨hnone, hfirst, hlast, rfl⟩
  · simp only [held, ownerEntry, VerificationState.dischargeSlot, dischargedAlready_discharge]
    by_cases hother : other = id
    · subst hother
      simp [hentry]
    · simp only [hother, decide_false, Bool.false_or, ↓reduceIte]
      rfl
  · simp only [held, ownerEntry, VerificationState.dischargeSlot]
    by_cases hother : other = id
    · subst hother
      have hnot : ¬ other < state.facts.firstOwner := by omega
      have hin : other - state.facts.firstOwner < state.owners.length := by omega
      simp [hnone, hnot, hin]
    · rw [if_neg hother]
      cases enclosingOwner state.facts other with
      | some entry => rfl
      | none =>
        by_cases hbelow : other < state.facts.firstOwner
        · simp [hbelow]
        · have hne : id - state.facts.firstOwner ≠ other - state.facts.firstOwner := by omega
          simp [hbelow, hne]

/-- The owner held the value, and the state after it is that of its discharge. -/
structure Takes (state after : VerificationState) (value owner : Nat) : Prop where
  holds : held state owner = some value
  slot : ∃ span slot, ownerSlot state.facts state.owners.length owner span = .ok slot ∧
    after = state.dischargeSlot slot

theorem Takes.releases {owner : Nat} (h : Takes state after value owner) :
    Releases state after owner := by
  obtain ⟨span, slot, hslot, rfl⟩ := h.slot
  exact dischargeSlot_releases hslot

theorem dropOwner_takes (h : dropOwner state id span = .ok after) :
    ∃ value, Takes state after value id := by
  unfold dropOwner verifiedDrop at h
  obtain ⟨slot, hslot, hafter⟩ := Except.peel h
  obtain ⟨entry, hentry, hslot⟩ := Except.peel hslot
  rw [knownOwner_eq_ok] at hentry
  cases entry with
  | dischargedOwner => cases hslot
  | activeOwner value =>
    cases hafter
    exact ⟨value, held_eq_some.mpr hentry, span, slot, hslot, rfl⟩

/-! ## Order of scopes -/

/-- Scopes come one after another, below the block itself, and only enclosing owners
are flagged. -/
structure Ordered (state : VerificationState) : Prop where
  nested : state.facts.enclosing.Pairwise fun outer inner =>
    outer.firstValue + outer.values.length ≤ inner.firstValue ∧
      outer.firstOwner + outer.owners.length ≤ inner.firstOwner
  below : ∀ scope ∈ state.facts.enclosing,
    scope.firstValue + scope.values.length ≤ state.facts.firstValue ∧
      scope.firstOwner + scope.owners.length ≤ state.facts.firstOwner
  flags : ∀ id, state.facts.firstOwner ≤ id → dischargedAlready state.discharged id = false

section

variable (h : Ordered state)

include h

theorem Ordered.enclosingOwner_none (hid : state.facts.firstOwner ≤ id) :
    enclosingOwner state.facts id = none := by
  have hfind : state.facts.enclosing.find? (·.holdsOwner id) = none := by
    rw [List.find?_eq_none]
    intro scope hscope
    have := (h.below scope hscope).2
    simp only [EnclosingScope.holdsOwner, Bool.and_eq_true, decide_eq_true_eq, not_and, Nat.not_lt]
    omega
  unfold enclosingOwner
  rw [hfind]

theorem Ordered.owner_lt {entry : OwnerState} (hid : ownerEntry state id = some entry) :
    id < state.blockEnd.nextOwner := by
  by_contra hge
  simp only [VerificationState.blockEnd, Nat.not_lt] at hge
  unfold ownerEntry at hid
  rw [h.enclosingOwner_none (by omega)] at hid
  simp only at hid
  rw [if_neg (by omega), List.getElem?_eq_none (by omega)] at hid
  cases hid

theorem Ordered.held_lt (hid : held state id = some value) : id < state.blockEnd.nextOwner :=
  h.owner_lt (held_eq_some.mp hid)

omit h in
theorem Ordered.value_lt {known : KnownValue} (hid : state.facts.valueEntry id = some known) :
    id < state.blockEnd.nextValue := by
  by_contra hge
  simp only [VerificationState.blockEnd, Nat.not_lt] at hge
  unfold VerificationFacts.valueEntry at hid
  rw [if_pos (by omega), List.getElem?_eq_none (by omega)] at hid
  cases hid

theorem Ordered.dischargeSlot
    (hslot : ownerSlot state.facts state.owners.length id span = .ok slot) :
    Ordered (state.dischargeSlot slot) := by
  refine ⟨by simpa using h.nested, by simpa using h.below, ?_⟩
  intro other hother
  rw [dischargeSlot_facts] at hother
  rcases ownerSlot_cases hslot with ⟨entry, hentry, rfl⟩ | ⟨-, -, -, rfl⟩
  · simp only [VerificationState.dischargeSlot, dischargedAlready_discharge, h.flags other hother,
      Bool.or_false, decide_eq_false_iff_not]
    rintro rfl
    rw [h.enclosingOwner_none hother] at hentry
    cases hentry
  · exact h.flags other hother

end

/-! ## Introductions -/

theorem introduceOwner_eq_ok : introduceOwner state id value span = .ok after ↔
      id = state.blockEnd.nextOwner ∧
        after = { state with owners := state.owners ++ [.activeOwner value] } := by
  unfold introduceOwner validateNextOwner VerificationState.blockEnd
  simp only [ne_eq, ite_not]
  constructor
  · intro h
    obtain ⟨_, hvalid, hafter⟩ := Except.peel h
    cases hafter
    refine ⟨?_, rfl⟩
    split at hvalid
    · cases hvalid
    · split at hvalid
      · assumption
      · cases hvalid
  · rintro ⟨rfl, rfl⟩
    simp [Bind.bind, Except.bind]

theorem introduceOwner_held (h : Ordered state) (value : Nat) (other : Nat) :
    held { state with owners := state.owners ++ [.activeOwner value] } other =
      if other = state.blockEnd.nextOwner then some value else held state other := by
  unfold held ownerEntry VerificationState.blockEnd
  simp only
  by_cases hother : other = state.facts.firstOwner + state.owners.length
  · subst hother
    have hnot : ¬ state.facts.firstOwner + state.owners.length < state.facts.firstOwner := by omega
    rw [h.enclosingOwner_none (by omega)]
    simp [hnot]
  · rw [if_neg hother]
    cases enclosingOwner state.facts other with
    | some entry => rfl
    | none =>
      by_cases hbelow : other < state.facts.firstOwner
      · simp [hbelow]
      · simp only [hbelow, ↓reduceIte]
        rw [List.getElem?_append]
        by_cases hin : other - state.facts.firstOwner < state.owners.length
        · rw [if_pos hin]
        · rw [if_neg hin, List.getElem?_eq_none (l := state.owners) (by omega),
            List.getElem?_eq_none (by simp; omega)]

theorem Ordered.introduceOwner (h : Ordered state) (value : Nat) :
    Ordered { state with owners := state.owners ++ [.activeOwner value] } :=
  ⟨h.nested, h.below, h.flags⟩

theorem Ordered.withValue (h : Ordered state) (known : KnownValue) :
    Ordered (state.withValue known) :=
  ⟨h.nested, h.below, h.flags⟩

theorem valueEntry_withValue (state : VerificationState) (known : KnownValue) (id : Nat) :
    (state.withValue known).facts.valueEntry id =
      if id = state.blockEnd.nextValue then some known else state.facts.valueEntry id := by
  unfold VerificationFacts.valueEntry VerificationState.withValue VerificationState.blockEnd
  simp only
  by_cases hid : id = state.facts.firstValue + state.facts.values.length
  · subst hid
    simp
  · rw [if_neg hid]
    by_cases hfirst : state.facts.firstValue ≤ id
    · rw [if_pos hfirst, if_pos hfirst, List.getElem?_append]
      by_cases hin : id - state.facts.firstValue < state.facts.values.length
      · rw [if_pos hin]
      · rw [if_neg hin, List.getElem?_eq_none (l := state.facts.values) (by omega),
          List.getElem?_eq_none (by simp; omega)]
    · rw [if_neg hfirst, if_neg hfirst]

theorem valueEntry_noteParameter (state : VerificationState) (definition : OwnedDefinition)
    (id : Nat) :
    (noteParameter state definition).facts.valueEntry id = state.facts.valueEntry id := by
  unfold noteParameter
  split <;> rfl

theorem held_noteParameter (state : VerificationState) (definition : OwnedDefinition)
    (id : Nat) : held (noteParameter state definition) id = held state id := by
  unfold noteParameter
  split <;> rfl

theorem Ordered.noteParameter (h : Ordered state) (definition : OwnedDefinition) :
    Ordered (noteParameter state definition) := by
  unfold Verify.noteParameter
  split
  · exact ⟨h.nested, h.below, h.flags⟩
  · exact h

@[simp] theorem blockEnd_noteParameter (state : VerificationState) (definition : OwnedDefinition) :
    (noteParameter state definition).blockEnd = state.blockEnd := by
  unfold noteParameter
  split <;> rfl

/-! ## Nested blocks -/

/-- The ordinals do not go back. -/
def BlockEnd.le (first second : BlockEnd) : Prop :=
  first.nextValue ≤ second.nextValue ∧ first.nextOwner ≤ second.nextOwner

theorem BlockEnd.le.refl (first : BlockEnd) : first.le first := ⟨Nat.le_refl _, Nat.le_refl _⟩

theorem BlockEnd.le.trans {first second third : BlockEnd} (h : first.le second)
    (h' : second.le third) : first.le third :=
  ⟨Nat.le_trans h.1 h'.1, Nat.le_trans h.2 h'.2⟩

theorem Ordered.enter (h : Ordered state) (hcursor : state.blockEnd.le cursor) :
    Ordered (enter state cursor.nextValue cursor.nextOwner) := by
  obtain ⟨hvalue, howner⟩ := hcursor
  simp only [VerificationState.blockEnd] at hvalue howner
  refine ⟨?_, ?_, ?_⟩
  · refine List.pairwise_append.mpr ⟨h.nested, List.pairwise_singleton _ _, ?_⟩
    intro scope hscope inner hinner
    rw [List.mem_singleton] at hinner
    subst hinner
    exact h.below scope hscope
  · intro scope hscope
    rcases List.mem_append.mp hscope with hscope | hscope
    · have := h.below scope hscope
      simp only [Verify.enter]
      omega
    · rw [List.mem_singleton] at hscope
      subst hscope
      exact ⟨hvalue, howner⟩
  · intro id hid
    simp only [Verify.enter] at hid ⊢
    exact h.flags id (by omega)

theorem find?_append_singleton {α : Type} (p : α → Bool) (xs : List α) (x : α) :
    (xs ++ [x]).find? p = (xs.find? p).or (if p x then some x else none) := by
  rw [List.find?_append]
  cases xs.find? p with
  | some y => rfl
  | none =>
    simp only [Option.none_or, List.find?_cons, List.find?_nil]
    cases p x <;> rfl

theorem enclosingOwner_enter (state : VerificationState) (firstValue firstOwner id : Nat) :
    enclosingOwner (enter state firstValue firstOwner).facts id =
      match state.facts.enclosing.find? (·.holdsOwner id) with
      | some scope => scope.owners[id - scope.firstOwner]?
      | none =>
          if state.facts.firstOwner ≤ id ∧ id < state.facts.firstOwner + state.owners.length then
            state.owners[id - state.facts.firstOwner]?
          else none := by
  unfold enclosingOwner enter
  simp only
  rw [find?_append_singleton]
  cases state.facts.enclosing.find? (·.holdsOwner id) with
  | some scope => rfl
  | none =>
    by_cases hlocal : state.facts.firstOwner ≤ id ∧ id < state.facts.firstOwner + state.owners.length
    · have hholds : state.scope.holdsOwner id = true :=
        Bool.and_eq_true_iff.mpr ⟨decide_eq_true hlocal.1, decide_eq_true hlocal.2⟩
      rw [if_pos hlocal, hholds]
      rfl
    · have hholds : state.scope.holdsOwner id = false := by
        refine Bool.and_eq_false_imp.mpr fun hle => decide_eq_false fun hlt => ?_
        exact hlocal ⟨of_decide_eq_true hle, hlt⟩
      rw [if_neg hlocal, hholds]
      rfl

section

variable (h : Ordered state) (hcursor : state.blockEnd.le cursor) (id : Nat)

include h hcursor

theorem ownerEntry_enter :
    ownerEntry (enter state cursor.nextValue cursor.nextOwner) id = ownerEntry state id := by
  obtain ⟨-, howner⟩ := hcursor
  simp only [VerificationState.blockEnd] at howner
  unfold ownerEntry
  rw [enclosingOwner_enter]
  unfold enclosingOwner
  cases hfind : state.facts.enclosing.find? (·.holdsOwner id) with
  | some scope =>
    simp only
    cases hscope : scope.owners[id - scope.firstOwner]? with
    | some entry => rfl
    | none =>
      have hholds := List.find?_some hfind
      simp only [EnclosingScope.holdsOwner, Bool.and_eq_true, decide_eq_true_eq] at hholds
      rw [List.getElem?_eq_none_iff] at hscope
      omega
  | none =>
    by_cases hbelow : id < state.facts.firstOwner
    · rw [if_neg (by omega), if_pos hbelow]
      exact if_pos (show id < cursor.nextOwner by omega)
    · rw [if_neg hbelow]
      by_cases hlocal : id < state.facts.firstOwner + state.owners.length
      · -- the block's own owners are not flagged
        have hflag := h.flags id (by omega)
        have hin : id - state.facts.firstOwner < state.owners.length := by omega
        rw [if_pos ⟨by omega, hlocal⟩, List.getElem?_eq_getElem hin]
        exact if_neg (by simp [enter, hflag])
      · rw [if_neg (by omega), List.getElem?_eq_none (l := state.owners) (by omega)]
        simp [enter]

theorem held_enter : held (enter state cursor.nextValue cursor.nextOwner) id = held state id := by
  unfold held
  rw [ownerEntry_enter h hcursor]

theorem valueEntry_enter : (enter state cursor.nextValue cursor.nextOwner).facts.valueEntry id =
      state.facts.valueEntry id := by
  obtain ⟨hvalue, -⟩ := hcursor
  simp only [VerificationState.blockEnd] at hvalue
  unfold VerificationFacts.valueEntry enter
  simp only
  rw [find?_append_singleton]
  by_cases hfirst : state.facts.firstValue ≤ id
  · have hfind : state.facts.enclosing.find? (·.holdsValue id) = none := by
      rw [List.find?_eq_none]
      intro scope hscope
      have := (h.below scope hscope).1
      simp only [EnclosingScope.holdsValue, Bool.and_eq_true, decide_eq_true_eq, not_and,
        Nat.not_lt]
      omega
    rw [if_pos hfirst, hfind]
    by_cases hlocal : id < state.facts.firstValue + state.facts.values.length
    · have hholds : state.scope.holdsValue id = true :=
        Bool.and_eq_true_iff.mpr ⟨decide_eq_true hfirst, decide_eq_true hlocal⟩
      rw [if_neg (by omega), hholds]
      rfl
    · rw [List.getElem?_eq_none (l := state.facts.values) (by omega)]
      have hholds : state.scope.holdsValue id = false :=
        Bool.and_eq_false_imp.mpr fun _ => decide_eq_false hlocal
      rw [hholds]
      simp
  · have hholds : state.scope.holdsValue id = false := by
      refine Bool.and_eq_false_imp.mpr fun hle => ?_
      exact absurd (of_decide_eq_true hle) hfirst
    rw [if_neg hfirst, if_neg (by omega), hholds]
    simp

end

end Blorp.Verify
