import Blorp.Lib.Loops

/-!
# Fuelled actions on a state

An action reads and changes a state, and ends as a fuelled computation does.
`Performs P f s Q` is the total claim about `f` started in `s`: with enough fuel it ends,
with a value and a state of `Q` or with an error of `P`.
-/

namespace Fuel

variable {σ ε α β : Type}

abbrev Action (σ ε α : Type) := StateT σ (Outcome ε) α

def Action.fail (error : ε) : Action σ ε α := fun _ => .err error

theorem Action.bind_eq_ok {x : Action σ ε α} {f : α → Action σ ε β} {s last : σ} {b : β} :
    (x >>= f) s = .ok (b, last) ↔ ∃ a s', x s = .ok (a, s') ∧ f a s' = .ok (b, last) := by
  refine Outcome.bind_eq_ok.trans ?_
  constructor
  · rintro ⟨⟨a, s'⟩, hx, hf⟩
    exact ⟨a, s', hx, hf⟩
  · rintro ⟨a, s', hx, hf⟩
    exact ⟨(a, s'), hx, hf⟩

theorem Action.forM_range {I : Nat → σ → Prop} {f : Nat → Action σ ε PUnit} (count : Nat)
    (turn : ∀ index < count, ∀ s, I index s → ∃ s', f index s = .ok (⟨⟩, s') ∧ I (index + 1) s')
    {s : σ} (hs : I 0 s) :
    ∃ last, (List.range count).forM f s = .ok (⟨⟩, last) ∧ I count last := by
  suffices hall : ∀ left start s, start + left = count → I start s →
      ∃ last, (List.range' start left).forM f s = .ok (⟨⟩, last) ∧ I count last by
    rw [List.range_eq_range']
    exact hall count 0 s (Nat.zero_add _) hs
  intro left
  induction left with intro start s hcount hs
  | zero =>
    obtain rfl : start = count := hcount
    exact ⟨s, rfl, hs⟩
  | succ left ih =>
    obtain ⟨next, hturn, hnext⟩ := turn start (by omega) s hs
    obtain ⟨last, hrun, hlast⟩ := ih (start + 1) next (by omega) hnext
    exact ⟨last, Action.bind_eq_ok.mpr ⟨⟨⟩, next, hturn, hrun⟩, hlast⟩

/-- With enough fuel the action ends, in `Q` or with an error of `P`. -/
def Performs (P : ε → Prop) (f : Nat → Action σ ε α) (s : σ) (Q : α → σ → Prop) : Prop :=
  ∃ outcome : Outcome ε (α × σ), Outcome.Settles (fun n => f n s) outcome ∧
    (∀ a s', outcome = .ok (a, s') → Q a s') ∧ ∀ e, outcome = .err e → P e

namespace Performs

variable {P : ε → Prop} {s s' : σ} {Q : α → σ → Prop} {R : β → σ → Prop}

variable {f : Nat → Action σ ε α} {a : α} {g : Nat → α → Action σ ε β}

theorem done (h : ∀ n, f n s = .ok (a, s')) (hQ : Q a s') : Performs P f s Q := by
  refine ⟨.ok (a, s'), .closed 0 (by simp) h, ?_, by simp⟩
  intro b t heq
  cases heq
  exact hQ

theorem fails {e : ε} (h : ∀ n, f n s = .err e) (he : P e) : Performs P f s Q := by
  refine ⟨.err e, .closed 0 (by simp) h, by simp, ?_⟩
  intro e' heq
  cases heq
  exact he

theorem pure (hQ : Q a s) : Performs P (fun _ => Pure.pure a) s Q :=
  done (fun _ => rfl) hQ

theorem mono {P' : ε → Prop} {Q' : α → σ → Prop} (h : Performs P f s Q) (hP : ∀ e, P e → P' e)
    (hQ : ∀ a s', Q a s' → Q' a s') : Performs P' f s Q' := by
  obtain ⟨outcome, hsettles, hok, herr⟩ := h
  exact ⟨outcome, hsettles, fun a s' heq => hQ a s' (hok a s' heq), fun e heq => hP e (herr e heq)⟩

theorem post {Q' : α → σ → Prop} (h : Performs P f s Q) (hQ : ∀ a s', Q a s' → Q' a s') :
    Performs P f s Q' :=
  h.mono (fun _ he => he) hQ

theorem congr {g : Nat → Action σ ε α} (h : Performs P f s Q) (hsame : ∀ n, f n s = g n s) :
    Performs P g s Q := by
  obtain ⟨outcome, ⟨hne, least, hleast⟩, hQ⟩ := h
  exact ⟨outcome, ⟨hne, least, fun fuel hle => (hsame fuel).symm.trans (hleast fuel hle)⟩, hQ⟩

/-- A step that needs no fuel. -/
theorem step {f : Action σ ε α} (h : f s = .ok (a, s')) (hg : Performs P (fun n => g n a) s' R) :
    Performs P (fun n => f >>= g n) s R := by
  obtain ⟨outcome, ⟨hne, least, hleast⟩, hR⟩ := hg
  refine ⟨outcome, ⟨hne, least, fun fuel hle => ?_⟩, hR⟩
  show (f s >>= fun found => g fuel found.1 found.2) = outcome
  rw [h]
  exact hleast fuel hle

theorem bind (hf : Performs P f s Q) (hg : ∀ a s', Q a s' → Performs P (fun n => g n a) s' R) :
    Performs P (fun n => f n >>= g n) s R := by
  obtain ⟨outcome, hsettles, hok, herr⟩ := hf
  cases outcome with
  | ok found =>
    obtain ⟨a, s'⟩ := found
    obtain ⟨last, hlast, hR⟩ := hg a s' (hok a s' rfl)
    have hboth : Outcome.Settles (fun n => f n s >>= fun found => g n found.1 found.2) last :=
      Outcome.Settles.bind_ok (g := fun n (found : α × σ) => g n found.1 found.2) hsettles hlast
    exact ⟨last, hboth, hR⟩
  | err e =>
    refine ⟨.err e, Outcome.Settles.bind_err hsettles fun n found => g n found.1 found.2, by simp, ?_⟩
    intro e' heq
    cases heq
    exact herr e rfl
  | timeout => exact absurd rfl hsettles.1

theorem succ {g : Nat → Action σ ε α} (hf : ∀ n, f (n + 1) s = g n s) (hg : Performs P g s Q) :
    Performs P f s Q := by
  obtain ⟨outcome, hsettles, hQ⟩ := hg
  exact ⟨outcome, Outcome.Settles.succ hf hsettles, hQ⟩

theorem lift {f : Nat → Outcome ε α} (hf : Outcome.Settles f (.ok a)) (hQ : Q a s) :
    Performs P (fun n => (liftM (f n) : Action σ ε α)) s Q := by
  refine ⟨.ok (a, s), ?_, ?_, by simp⟩
  · exact Outcome.Settles.bind_ok (g := fun _ a => .ok (a, s)) hf Outcome.Settles.ok
  · intro b t heq
    cases heq
    exact hQ

theorem liftStep {f : Nat → Outcome ε α} (hf : Outcome.Settles f (.ok a))
    (hg : Performs P (fun n => g n a) s R) :
    Performs P (fun n => (liftM (f n) : Action σ ε α) >>= g n) s R :=
  (lift (Q := fun b s' => b = a ∧ s' = s) hf ⟨rfl, rfl⟩).bind fun b s' h => by
    obtain ⟨rfl, rfl⟩ := h
    exact hg

end Performs

end Fuel
