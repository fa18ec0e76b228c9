import Blorp.Lib.Outcome

/-!
# Loops over lists

Two kinds of loop over a list of fallible steps.  `List.foldlM` stops at the
first failure.  `Fuel.Outcome.loop` notes a failure and goes on, so that the last
one is reported; several such loops may share one `failure`.  `Yields` is partial
correctness: what holds of the value, whenever there is one.
-/

variable {ε α : Type}

/-- A loop that stops at its first failure keeps an invariant of the elements
already passed. -/
theorem Except.foldlM_invariant {σ : Type} {I : List α → σ → Prop} {f : σ → α → Except ε σ}
    (step : ∀ passed x s t, I passed s → f s x = .ok t → I (passed ++ [x]) t) :
    ∀ (xs passed : List α) (s t : σ), I passed s → xs.foldlM f s = .ok t → I (passed ++ xs) t := by
  intro xs
  induction xs with intro passed s t h hrun
  | nil =>
    cases hrun
    simpa using h
  | cons x xs ih =>
    obtain ⟨next, hx, hrun⟩ := Except.peel hrun
    simpa using ih (passed ++ [x]) next t (step passed x s next h hx) hrun

theorem Except.foldlM_zipIdx_invariant {σ : Type} {I : Nat → σ → Prop}
    {f : σ → α × Nat → Except ε σ} (step : ∀ n x s t, I n s → f s (x, n) = .ok t → I (n + 1) t) :
    ∀ (xs : List α) (n : Nat) (s t : σ), I n s → (xs.zipIdx n).foldlM f s = .ok t →
      I (n + xs.length) t := by
  intro xs
  induction xs with
  | nil =>
    intro n s t h hrun
    cases hrun
    exact h
  | cons x xs ih =>
    intro n s t h hrun
    obtain ⟨next, hx, hrun⟩ := Except.peel hrun
    have hrest := ih (n + 1) next t (step n x s next h hx) hrun
    rwa [Nat.add_assoc, Nat.add_comm 1] at hrest

theorem Except.forM_eq_ok {f : α → Except ε PUnit} :
    ∀ {xs : List α}, xs.forM f = .ok () ↔ ∀ x ∈ xs, f x = .ok () := by
  intro xs
  induction xs with
  | nil => simp [pure, Except.pure]
  | cons x xs ih =>
    show (f x >>= fun _ => xs.forM f) = .ok () ↔ _
    rw [Except.bind_eq_ok]
    simp only [List.mem_cons, forall_eq_or_imp]
    exact ⟨fun ⟨_, hx, hxs⟩ => ⟨hx, ih.mp hxs⟩, fun ⟨hx, hxs⟩ => ⟨_, hx, ih.mpr hxs⟩⟩

namespace Fuel.Outcome

variable {ε α β σ : Type}

instance : LawfulMonad (Outcome ε) :=
  LawfulMonad.mk' (Outcome ε)
    (fun x => by cases x <;> rfl)
    (fun _ _ => rfl)
    (fun x _ _ => by cases x <;> rfl)

theorem forM_eq_ok {f : α → Outcome ε PUnit} :
    ∀ {xs : List α}, xs.forM f = .ok () ↔ ∀ x ∈ xs, f x = .ok () := by
  intro xs
  induction xs with
  | nil => simp
  | cons x xs ih =>
    show (f x >>= fun _ => xs.forM f) = .ok () ↔ _
    rw [bind_eq_ok]
    simp only [List.mem_cons, forall_eq_or_imp]
    exact ⟨fun ⟨_, hx, hxs⟩ => ⟨hx, ih.mp hxs⟩, fun ⟨hx, hxs⟩ => ⟨_, hx, ih.mpr hxs⟩⟩

/-! ## Partial correctness -/

/-- What holds of the value, whenever the computation has one. -/
def Yields (Q : α → Prop) (x : Outcome ε α) : Prop := ∀ a, x = .ok a → Q a

variable {Q : α → Prop} {f : σ → α → Outcome ε σ}

theorem Yields.ok {a : α} (h : Q a) : Yields Q (.ok a : Outcome ε α) := by
  intro b hb
  cases hb
  exact h

theorem Yields.err (e : ε) : Yields Q (.err e : Outcome ε α) := by
  intro b hb
  cases hb

theorem Yields.timeout : Yields Q (.timeout : Outcome ε α) := by
  intro b hb
  cases hb

theorem Yields.mono {R : α → Prop} {x : Outcome ε α} (h : Yields Q x) (hQ : ∀ a, Q a → R a) :
    Yields R x :=
  fun a ha => hQ a (h a ha)

theorem Yields.bind {R : β → Prop} {x : Outcome ε α} {f : α → Outcome ε β} (hx : Yields Q x)
    (hf : ∀ a, Q a → Yields R (f a)) : Yields R (x >>= f) := by
  intro b hb
  obtain ⟨a, ha, hb⟩ := bind_eq_ok.mp hb
  exact hf a (hx a ha) b hb

theorem Yields.bind_any {R : β → Prop} {x : Outcome ε α} {f : α → Outcome ε β}
    (hf : ∀ a, Yields R (f a)) : Yields R (x >>= f) :=
  Yields.bind (Q := fun _ => True) (fun _ _ => trivial) fun a _ => hf a

theorem Yields.liftM {x : Except ε α} (h : ∀ a, x = .ok a → Q a) :
    Yields Q (liftM x : Outcome ε α) :=
  fun a ha => h a (liftM_eq_ok.mp ha)

/-- A loop that stops at its first failure keeps an invariant of the elements
already passed. -/
theorem Yields.foldlM {I : List α → σ → Prop}
    (step : ∀ passed x s, I passed s → Yields (I (passed ++ [x])) (f s x)) :
    ∀ (xs passed : List α) (s : σ), I passed s → Yields (I (passed ++ xs)) (xs.foldlM f s) := by
  intro xs
  induction xs with
  | nil =>
    intro passed s h
    simpa using Yields.ok h
  | cons x xs ih =>
    intro passed s h
    refine (step passed x s h).bind fun s' h' => ?_
    simpa using ih (passed ++ [x]) s' h'

theorem Yields.foldlM_within {I : List α → σ → Prop} {xs : List α} {s : σ}
    (step : ∀ passed x s, passed ++ [x] <+: xs → I passed s → Yields (I (passed ++ [x])) (f s x))
    (h : I [] s) : Yields (I xs) (xs.foldlM f s) := by
  suffices hall : ∀ (rest passed : List α) (s : σ), passed ++ rest = xs → I passed s →
      Yields (I (passed ++ rest)) (rest.foldlM f s) from hall xs [] s rfl h
  intro rest
  induction rest with
  | nil =>
    intro passed s _ h
    simpa using Yields.ok h
  | cons x rest ih =>
    intro passed s hxs h
    refine (step passed x s ⟨rest, by simpa using hxs⟩ h).bind fun s' h' => ?_
    simpa using ih (passed ++ [x]) s' (by simpa using hxs) h'

theorem foldlM_visits {I : σ → Prop} (xs : List α)
    (step : ∀ x ∈ xs, ∀ s t, I s → f s x = .ok t → I t) :
    ∀ s t, I s → xs.foldlM f s = .ok t →
      I t ∧ ∀ x ∈ xs, ∃ s' t', I s' ∧ f s' x = .ok t' := by
  induction xs with
  | nil =>
    intro s t h hrun
    cases hrun
    exact ⟨h, by simp⟩
  | cons x xs ih =>
    intro s t h hrun
    obtain ⟨next, hx, hrun⟩ := bind_eq_ok.mp hrun
    have hnext := step x List.mem_cons_self s next h hx
    obtain ⟨ht, hvisits⟩ :=
      ih (fun y hy => step y (List.mem_cons_of_mem x hy)) next t hnext hrun
    refine ⟨ht, fun y hy => ?_⟩
    rcases List.mem_cons.mp hy with rfl | hy
    · exact ⟨s, next, h, hx⟩
    · exact hvisits y hy

theorem Yields.mapM {R : α → β → Prop} {f : α → Outcome ε β} (hf : ∀ a, Yields (R a) (f a)) :
    ∀ as : List α, Yields (List.Forall₂ R as) (as.mapM f) := by
  intro as
  induction as with
  | nil => exact Yields.ok .nil
  | cons a as ih =>
    rw [List.mapM_cons]
    exact (hf a).bind fun b hb => ih.bind fun bs hbs => Yields.ok (.cons hb hbs)

/-! ## Loops that go on past a failure -/

/-- Runs every element, keeping the state of before a failed one and the last
failure. -/
def loop (f : σ → α → Outcome ε σ) : List α → σ × Option ε → Outcome ε (σ × Option ε)
  | [], state => .ok state
  | x :: xs, (s, failure) =>
      match f s x with
      | .ok next => loop f xs (next, failure)
      | .err error => loop f xs (s, some error)
      | .timeout => .timeout

/-- The end of a sequence of loops: the failure they noted, or their state. -/
def settle : σ × Option ε → Outcome ε σ
  | (_, some error) => .err error
  | (s, none) => .ok s

theorem settle_eq_ok {state : σ × Option ε} {s : σ} : settle state = .ok s ↔ state = (s, none) := by
  obtain ⟨t, failure⟩ := state
  cases failure <;> simp [settle]

/-- A loop ends without a failure exactly when no element failed, and then it ran
as the loop that stops at the first failure does. -/
theorem loop_eq_ok_none : ∀ {xs : List α} {s t : σ} {failure : Option ε},
      loop f xs (s, failure) = .ok (t, none) ↔ failure = none ∧ xs.foldlM f s = .ok t := by
  intro xs
  induction xs with
  | nil =>
    intro s t failure
    simp only [loop, List.foldlM_nil, pure_eq, Outcome.ok.injEq, Prod.mk.injEq]
    exact and_comm
  | cons x xs ih =>
    intro s t failure
    rw [List.foldlM_cons]
    cases hf : f s x with
    | ok next => simp only [loop, hf, ih, ok_bind]
    | err e => simp [loop, hf, ih]
    | timeout => simp [loop, hf]

/-! ## Loops that end -/

theorem Ends.mono {R : α → Prop} {f : Nat → Outcome ε α} (h : Ends f Q) (hQ : ∀ a, Q a → R a) :
    Ends f R := by
  obtain ⟨outcome, hsettles, houtcome⟩ := h
  exact ⟨outcome, hsettles, fun a ha => hQ a (houtcome a ha)⟩

theorem Ends.mapM {R : α → β → Prop} {f : Nat → α → Outcome ε β} :
    ∀ (as : List α), (∀ a ∈ as, Ends (fun n => f n a) (R a)) →
      Ends (fun n => as.mapM (f n)) (List.Forall₂ R as) := by
  intro as
  induction as with
  | nil =>
    intro _
    exact Ends.ok .nil
  | cons a as ih =>
    intro h
    simp only [List.mapM_cons]
    refine (h a List.mem_cons_self).bind fun b hb => ?_
    refine (ih fun x hx => h x (List.mem_cons_of_mem a hx)).bind fun bs hbs => ?_
    exact Ends.ok (.cons hb hbs)

end Fuel.Outcome
