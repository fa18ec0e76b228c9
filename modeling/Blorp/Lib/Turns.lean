import Blorp.Lib.Loops

/-!
# Loops that carry a result

`turns turn` repeats a turn that goes on with a state, leaves with a value, or fails; one
unit of fuel a turn.  What holds at each turn is an invariant of the reached states.
-/

namespace Fuel

variable {ε σ ρ : Type}

inductive Turn (σ ρ : Type) where
  | again (state : σ)
  | done (value : ρ)

def turns (turn : σ → Outcome ε (Turn σ ρ)) : Nat → σ → Outcome ε ρ
  | 0, _ => .timeout
  | fuel + 1, s =>
      match turn s with
      | .ok (.again next) => turns turn fuel next
      | .ok (.done value) => .ok value
      | .err error => .err error
      | .timeout => .timeout

abbrev Reaches (turn : σ → Outcome ε (Turn σ ρ)) : σ → σ → Prop :=
  Relation.ReflTransGen fun s next => turn s = .ok (.again next)

variable {turn : σ → Outcome ε (Turn σ ρ)} {I : σ → Prop}

theorem Reaches.keeps (step : ∀ s next, I s → turn s = .ok (.again next) → I next) {s t : σ}
    (hs : I s) (h : Reaches turn s t) : I t := by
  induction h with
  | refl => exact hs
  | tail _ hturn ih => exact step _ _ ih hturn

theorem turns_eq_ok : ∀ {fuel : Nat} {s : σ} {value : ρ}, turns turn fuel s = .ok value →
      ∃ last, Reaches turn s last ∧ turn last = .ok (.done value) := by
  intro fuel
  induction fuel with
  | zero =>
    intro s value h
    cases h
  | succ fuel ih =>
    intro s value h
    unfold turns at h
    split at h
    · rename_i next hturn
      obtain ⟨last, hreaches, hlast⟩ := ih h
      exact ⟨last, .head hturn hreaches, hlast⟩
    · rename_i left hturn
      cases h
      exact ⟨s, .refl, hturn⟩
    · cases h
    · cases h

/-- The invariant rule of a loop. -/
theorem turns_yields {Q : ρ → Prop} (again : ∀ s next, I s → turn s = .ok (.again next) → I next)
    (done : ∀ s value, I s → turn s = .ok (.done value) → Q value) {fuel : Nat} {s : σ} (hs : I s)
    {value : ρ} (h : turns turn fuel s = .ok value) : Q value := by
  obtain ⟨last, hreaches, hlast⟩ := turns_eq_ok h
  exact done last value (hreaches.keeps again hs) hlast

theorem turns_ends (measure : σ → Nat) (ends : ∀ s, I s → turn s ≠ .timeout)
    (again : ∀ s next, I s → turn s = .ok (.again next) → I next ∧ measure next < measure s) :
    ∀ s, I s → Outcome.Ends (fun n => turns turn n s) fun value =>
      ∃ last, I last ∧ turn last = .ok (.done value) := by
  suffices hall : ∀ bound s, measure s < bound → I s → Outcome.Ends (fun n => turns turn n s)
      fun value => ∃ last, I last ∧ turn last = .ok (.done value) from
    fun s hs => hall (measure s + 1) s (Nat.lt_succ_self _) hs
  intro bound
  induction bound with
  | zero =>
    intro s hlt
    exact absurd hlt (Nat.not_lt_zero _)
  | succ bound ih =>
    intro s hlt hs
    cases hturn : turn s with
    | ok taken =>
      cases taken with
      | again next =>
        obtain ⟨hnext, hless⟩ := again s next hs hturn
        refine Outcome.Ends.succ (fun n => ?_) (ih next (by omega) hnext)
        simp [turns, hturn]
      | done value =>
        refine Outcome.Ends.succ (fun n => ?_) (Outcome.Ends.ok ⟨s, hs, hturn⟩)
        simp [turns, hturn]
    | err error =>
      refine Outcome.Ends.succ (fun n => ?_) (Outcome.Ends.err error)
      simp [turns, hturn]
    | timeout => exact absurd hturn (ends s hs)

theorem turns_errorsIn {P : ε → Prop} (again : ∀ s next, I s → turn s = .ok (.again next) → I next)
    (errors : ∀ s, I s → Outcome.ErrorsIn P (turn s)) :
    ∀ fuel s, I s → Outcome.ErrorsIn P (turns turn fuel s) := by
  intro fuel
  induction fuel with
  | zero =>
    intro s _
    exact Outcome.ErrorsIn.timeout
  | succ fuel ih =>
    intro s hs error h
    unfold turns at h
    split at h
    · next next hturn => exact ih next (again s next hs hturn) error h
    · cases h
    · next failed hturn =>
      cases h
      exact errors s hs error hturn
    · cases h

/-! ## Loops that follow each other -/

section

variable {ε' σ' ρ' : Type} {turn : σ → Outcome ε (Turn σ ρ)}
    {turn' : σ' → Outcome ε' (Turn σ' ρ')}

theorem turns_follow {R : σ → σ' → Prop} {value : ρ} {Q : ρ' → Prop}
    (again : ∀ s s' next fuel, R s s' → turn s = .ok (.again next) →
      turns turn fuel next = .ok value → ∃ next', turn' s' = .ok (.again next') ∧ R next next')
    (done : ∀ s s', R s s' → turn s = .ok (.done value) →
      ∃ value', turn' s' = .ok (.done value') ∧ Q value') :
    ∀ {fuel fuel' : Nat}, fuel ≤ fuel' → ∀ {s : σ} {s' : σ'}, R s s' →
      turns turn fuel s = .ok value → ∃ value', turns turn' fuel' s' = .ok value' ∧ Q value' := by
  intro fuel
  induction fuel with
  | zero =>
    intro fuel' _ s s' _ h
    cases h
  | succ fuel ih =>
    intro fuel' hfuel s s' hs h
    obtain ⟨more, rfl⟩ : ∃ more, fuel' = more + 1 := ⟨fuel' - 1, by omega⟩
    unfold turns at h
    split at h
    · rename_i next hturn
      obtain ⟨next', hturn', hnext⟩ := again s s' next fuel hs hturn h
      obtain ⟨value', hvalue, hq⟩ := ih (Nat.le_of_succ_le_succ hfuel) hnext h
      exact ⟨value', by simp [turns, hturn', hvalue], hq⟩
    · rename_i found hturn
      obtain rfl : found = value := by simpa using h
      obtain ⟨value', hturn', hq⟩ := done s s' hs hturn
      exact ⟨value', by simp [turns, hturn'], hq⟩
    · cases h
    · cases h

/-- A loop that follows another in `R` until, by at most `extra` turns of its own, it
goes over to follow it in `S`. -/
theorem turns_cross {R S : σ → σ' → Prop} {value : ρ} {Q : ρ' → Prop} {extra : Nat}
    (again : ∀ s s' next fuel, R s s' → turn s = .ok (.again next) →
      turns turn fuel next = .ok value →
      (∃ next', turn' s' = .ok (.again next') ∧ R next next') ∨
      ∃ count ≤ extra, ∃ next', S next next' ∧
        ∀ fuel', turns turn' (fuel' + count + 1) s' = turns turn' fuel' next')
    (done : ∀ s s', R s s' → turn s = .ok (.done value) →
      ∃ value', turn' s' = .ok (.done value') ∧ Q value')
    (againS : ∀ s s' next fuel, S s s' → turn s = .ok (.again next) →
      turns turn fuel next = .ok value → ∃ next', turn' s' = .ok (.again next') ∧ S next next')
    (doneS : ∀ s s', S s s' → turn s = .ok (.done value) →
      ∃ value', turn' s' = .ok (.done value') ∧ Q value') :
    ∀ {fuel fuel' : Nat}, fuel + extra ≤ fuel' → ∀ {s : σ} {s' : σ'}, R s s' →
      turns turn fuel s = .ok value → ∃ value', turns turn' fuel' s' = .ok value' ∧ Q value' := by
  intro fuel
  induction fuel with
  | zero =>
    intro fuel' _ s s' _ h
    cases h
  | succ fuel ih =>
    intro fuel' hfuel s s' hs h
    unfold turns at h
    split at h
    · rename_i next hturn
      obtain ⟨next', hturn', hnext⟩ | ⟨count, hcount, next', hnext, hskip⟩ :=
        again s s' next fuel hs hturn h
      · obtain ⟨more, rfl⟩ : ∃ more, fuel' = more + 1 := ⟨fuel' - 1, by omega⟩
        have hmore : fuel + extra ≤ more := by omega
        obtain ⟨value', hvalue, hq⟩ := ih hmore hnext h
        exact ⟨value', by simp [turns, hturn', hvalue], hq⟩
      · obtain ⟨more, rfl⟩ : ∃ more, fuel' = more + count + 1 := ⟨fuel' - count - 1, by omega⟩
        have hmore : fuel ≤ more := by omega
        obtain ⟨value', hvalue, hq⟩ := turns_follow againS doneS hmore hnext h
        exact ⟨value', by rw [hskip, hvalue], hq⟩
    · rename_i found hturn
      obtain rfl : found = value := by simpa using h
      obtain ⟨more, rfl⟩ : ∃ more, fuel' = more + 1 := ⟨fuel' - 1, by omega⟩
      obtain ⟨value', hturn', hq⟩ := done s s' hs hturn
      exact ⟨value', by simp [turns, hturn'], hq⟩
    · cases h
    · cases h

end

/-! ## Turns that are known -/

section

variable {turn : σ → Outcome ε (Turn σ ρ)} {s next : σ}

theorem turns_again (h : turn s = .ok (.again next)) (fuel : Nat) :
    turns turn (fuel + 1) s = turns turn fuel next := by
  simp [turns, h]

theorem turns_done {value : ρ} (h : turn s = .ok (.done value)) (fuel : Nat) :
    turns turn (fuel + 1) s = .ok value := by
  simp [turns, h]

theorem settles_again (h : turn s = .ok (.again next)) {outcome : Outcome ε ρ}
    (hnext : Outcome.Settles (fun n => turns turn n next) outcome) :
    Outcome.Settles (fun n => turns turn n s) outcome :=
  Outcome.Settles.succ (turns_again h) hnext

theorem settles_done {value : ρ} (h : turn s = .ok (.done value)) :
    Outcome.Settles (fun n => turns turn n s) (.ok value) :=
  Outcome.Settles.succ (turns_done h) Outcome.Settles.ok

theorem settles_err {error : ε} (h : turn s = .err error) :
    Outcome.Settles (fun n => turns turn n s) (.err error) :=
  Outcome.Settles.succ (fun n => by simp [turns, h]) Outcome.Settles.err

end

/-! ## Runs of positions -/

/-- The first position from `position` on at which the test fails, at most `count`
positions later. -/
def advance (test : Nat → Bool) : Nat → Nat → Nat
  | 0, position => position
  | count + 1, position => if test position then advance test count (position + 1) else position

theorem advance_spec (test : Nat → Bool) :
    ∀ count position, position ≤ advance test count position ∧
      advance test count position ≤ position + count ∧
      (∀ i, position ≤ i → i < advance test count position → test i = true) ∧
      (advance test count position = position + count ∨
        test (advance test count position) = false) := by
  intro count
  induction count with
  | zero =>
    intro position
    refine ⟨Nat.le_refl _, Nat.le_refl _, fun i hle hlt => ?_, .inl rfl⟩
    exact absurd hlt (Nat.not_lt.mpr hle)
  | succ count ih =>
    intro position
    by_cases htest : test position = true
    · obtain ⟨hle, hbound, hrun, hstop⟩ := ih (position + 1)
      simp only [advance, htest, ↓reduceIte]
      refine ⟨by omega, by omega, fun i hi hlt => ?_, ?_⟩
      · rcases Nat.eq_or_lt_of_le hi with rfl | hlater
        · exact htest
        · exact hrun i hlater hlt
      · rcases hstop with heq | hfalse
        · left
          omega
        · exact .inr hfalse
    · simp only [advance, htest, Bool.false_eq_true, ↓reduceIte]
      refine ⟨Nat.le_refl _, by omega, fun i hle hlt => ?_, .inr (by simp)⟩
      exact absurd hlt (Nat.not_lt.mpr hle)

theorem advance_eq {test : Nat → Bool} {count position stop : Nat} (hle : position ≤ stop)
    (hbound : stop ≤ position + count) (hrun : ∀ i, position ≤ i → i < stop → test i = true)
    (hstop : test stop = false) : advance test count position = stop := by
  obtain ⟨hle', -, hrun', hstop'⟩ := advance_spec test count position
  rcases Nat.lt_trichotomy (advance test count position) stop with hlt | heq | hlt
  · have hpassed := hrun _ hle' hlt
    obtain hend | hfalse := hstop'
    · omega
    · rw [hpassed] at hfalse
      cases hfalse
  · exact heq
  · rw [hrun' _ hle hlt] at hstop
    cases hstop

end Fuel
