import Mathlib.Data.List.Forall2

/-!
# Runs over a machine

A run changes a machine and ends with a value, is stopped before it has one, or
meets a fault.  `Triple R t x Q` is the total claim about a run `x` of a machine
that stands for the abstract state `t` under `R`: `x` meets no fault, it ends with
`Q`, and wherever it is stopped the machine still stands for some abstract state.
-/

namespace Runs

variable {σ τ α β γ : Type}

inductive Status (α : Type) where
  | done (value : α)
  | stopped
  | fault
  deriving DecidableEq, Repr

def Run (σ α : Type) : Type := σ → Status α × σ

namespace Run

def bind (x : Run σ α) (f : α → Run σ β) : Run σ β := fun s =>
  match x s with
  | (.done a, s') => f a s'
  | (.stopped, s') => (.stopped, s')
  | (.fault, s') => (.fault, s')

instance : Monad (Run σ) where
  pure a := fun s => (.done a, s)
  bind := Run.bind

def stop : Run σ α := fun s => (.stopped, s)

def fail : Run σ α := fun s => (.fault, s)

/-- A step that reads the machine and changes it. -/
def step (f : σ → α × σ) : Run σ α := fun s => (.done (f s).1, (f s).2)

end Run

open Run

/-- No fault, `Q` at the end, and an abstract state at a stop. -/
def Ends (R : σ → τ → Prop) (Q : α → τ → Prop) : Status α × σ → Prop
  | (.done a, s) => ∃ t, R s t ∧ Q a t
  | (.stopped, s) => ∃ t, R s t
  | (.fault, _) => False

def Triple (R : σ → τ → Prop) (t : τ) (x : Run σ α) (Q : α → τ → Prop) : Prop :=
  ∀ s, R s t → Ends R Q (x s)

variable {R : σ → τ → Prop} {t : τ} {x : Run σ α} {f : α → Run σ β} {P : α → τ → Prop}
  {Q : β → τ → Prop}

theorem Triple.pure {a : α} (h : P a t) : Triple R t (Pure.pure a) P :=
  fun _ hs => ⟨t, hs, h⟩

theorem Triple.stop : Triple R t (Run.stop : Run σ α) P := fun _ hs => ⟨t, hs⟩

theorem Triple.step {f : σ → α × σ}
    (h : ∀ s, R s t → ∃ t', R (f s).2 t' ∧ P (f s).1 t') : Triple R t (Run.step f) P :=
  fun s hs => h s hs

theorem Triple.bind (hx : Triple R t x P) (hf : ∀ a t', P a t' → Triple R t' (f a) Q) :
    Triple R t (x >>= f) Q := by
  intro s hs
  have hend := hx s hs
  show Ends R Q (Run.bind x f s)
  unfold Run.bind
  generalize x s = ended at hend ⊢
  obtain ⟨status, s'⟩ := ended
  cases status with
  | done a =>
    obtain ⟨t', hs', ha⟩ := hend
    exact hf a t' ha s' hs'
  | stopped => exact hend
  | fault => exact hend

theorem Triple.reading {P : α → Prop} (hx : Triple R t x fun a t' => t' = t ∧ P a)
    (hf : ∀ a, P a → Triple R t (f a) Q) : Triple R t (x >>= f) Q := by
  refine hx.bind fun a t' h => ?_
  obtain ⟨rfl, ha⟩ := h
  exact hf a ha

theorem Triple.mono {P' : α → τ → Prop} (hx : Triple R t x P) (h : ∀ a t', P a t' → P' a t') :
    Triple R t x P' := by
  intro s hs
  have hend := hx s hs
  generalize x s = ended at hend ⊢
  obtain ⟨status, s'⟩ := ended
  cases status with
  | done a =>
    obtain ⟨t', hs', ha⟩ := hend
    exact ⟨t', hs', h a t' ha⟩
  | stopped => exact hend
  | fault => exact hend

theorem Triple.foldlM {I : List γ → α → τ → Prop} {f : α → γ → Run σ α} (xs : List γ)
    (step : ∀ passed, ∀ x ∈ xs, ∀ a t, I passed a t → Triple R t (f a x) (I (passed ++ [x]))) :
    ∀ (passed : List γ) (a : α) (t : τ), I passed a t →
      Triple R t (xs.foldlM f a) (I (passed ++ xs)) := by
  induction xs with
  | nil =>
    intro passed a t h
    simpa using Triple.pure h
  | cons x xs ih =>
    intro passed a t h
    rw [List.foldlM_cons]
    refine (step passed x List.mem_cons_self a t h).bind fun a' t' h' => ?_
    have hrest := ih (fun passed y hy => step passed y (List.mem_cons_of_mem x hy))
      (passed ++ [x]) a' t' h'
    simpa using hrest

/-- An executed loop follows a checked one: each check that succeeds covers the step
executed for the same element. -/
theorem Triple.foldlM_checked {ε κ : Type} {check : κ → γ → Except ε κ} {f : α → γ → Run σ α}
    {I : κ → α → τ → Prop} (xs : List γ)
    (step : ∀ k, ∀ x ∈ xs, ∀ k' a t, check k x = .ok k' → I k a t → Triple R t (f a x) (I k')) :
    ∀ (k k' : κ) (a : α) (t : τ), xs.foldlM check k = .ok k' → I k a t →
      Triple R t (xs.foldlM f a) (I k') := by
  induction xs with intro k k' a t hcheck h
  | nil =>
    cases hcheck
    exact Triple.pure h
  | cons x xs ih =>
    rw [List.foldlM_cons] at hcheck ⊢
    cases hx : check k x with rw [hx] at hcheck
    | error e => cases hcheck
    | ok next =>
      refine (step k x List.mem_cons_self next a t hx h).bind fun a' t' h' => ?_
      exact ih (fun k y hy => step k y (List.mem_cons_of_mem x hy)) next k' a' t' hcheck h'

end Runs
