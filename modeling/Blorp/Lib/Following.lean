import Blorp.Lib.While

/-!
# Following another computation

`Follows errors x f`: the value `x` ends with, the fuelled computation `f` settles in, and
the error too where `errors` holds.  A functional that calls its argument only through
binds, maps and folds follows when its argument does, so two recursions through one
functional have the same outcomes.
-/

namespace Fuel.Outcome

variable {ε α β σ : Type} {errors : Prop}

structure Follows (errors : Prop) (x : Outcome ε α) (f : Nat → Outcome ε α) : Prop where
  value : ∀ a, x = .ok a → Settles f (.ok a)
  error : errors → ∀ e, x = .err e → Settles f (.err e)

theorem Follows.refl (x : Outcome ε α) : Follows errors x (fun _ => x) where
  value a h := by
    subst h
    exact Settles.ok
  error _ e h := by
    subst h
    exact Settles.err

theorem Follows.timeout (f : Nat → Outcome ε α) : Follows errors .timeout f where
  value _ h := by cases h
  error _ _ h := by cases h

theorem Follows.err_of_not (h : ¬ errors) (e : ε) (f : Nat → Outcome ε α) :
    Follows errors (.err e) f where
  value _ heq := by cases heq
  error he := absurd he h

variable {x : Outcome ε α} {f g : Nat → Outcome ε α}

theorem Follows.succ (hf : ∀ n, f (n + 1) = g n) (h : Follows errors x g) : Follows errors x f where
  value a hx := Settles.succ hf (h.value a hx)
  error he e hx := Settles.succ hf (h.error he e hx)

theorem Settles.shift (h : Settles f x) : Settles (fun n => f (n + 1)) x := by
  obtain ⟨hne, least, hleast⟩ := h
  exact ⟨hne, least, fun fuel hle => hleast (fuel + 1) (by omega)⟩

theorem Follows.shift (h : Follows errors x f) : Follows errors x (fun n => f (n + 1)) where
  value a hx := (h.value a hx).shift
  error he e hx := (h.error he e hx).shift

theorem Follows.bind {k : α → Outcome ε β} {g : Nat → α → Outcome ε β} (hx : Follows errors x f)
    (hk : ∀ a, Follows errors (k a) (fun n => g n a)) :
    Follows errors (x >>= k) (fun n => f n >>= g n) := by
  cases x with
  | ok a =>
    exact ⟨fun b h => Settles.bind_ok (hx.value a rfl) ((hk a).value b h),
      fun he e h => Settles.bind_ok (hx.value a rfl) ((hk a).error he e h)⟩
  | err e =>
    refine ⟨fun b h => (by cases h), fun he e' h => ?_⟩
    cases h
    exact Settles.bind_err (hx.error he e rfl) g
  | timeout => exact Follows.timeout _

theorem Follows.mapM {k : α → Outcome ε β} {g : Nat → α → Outcome ε β} :
    ∀ xs : List α, (∀ x ∈ xs, Follows errors (k x) (fun n => g n x)) →
      Follows errors (xs.mapM k) (fun n => xs.mapM (g n)) := by
  intro xs
  induction xs with
  | nil =>
    intro _
    exact Follows.refl _
  | cons x xs ih =>
    intro h
    simp only [List.mapM_cons]
    refine (h x (by simp)).bind fun b => ?_
    refine (ih fun y hy => h y (List.mem_cons_of_mem _ hy)).bind fun bs => ?_
    exact Follows.refl _

theorem Follows.foldlM {k : σ → α → Outcome ε σ} {g : Nat → σ → α → Outcome ε σ} :
    ∀ (xs : List α) (s : σ), (∀ x ∈ xs, ∀ s, Follows errors (k s x) (fun n => g n s x)) →
      Follows errors (xs.foldlM k s) (fun n => xs.foldlM (g n) s) := by
  intro xs
  induction xs with
  | nil =>
    intro s _
    exact Follows.refl _
  | cons x xs ih =>
    intro s h
    simp only [List.foldlM_cons]
    refine (h x (by simp) s).bind fun next => ?_
    exact ih next fun y hy => h y (List.mem_cons_of_mem _ hy)

theorem Follows.repeatWhile (test : σ → Bool) (body : σ → Outcome ε σ) :
    ∀ (bound : Nat) (s : σ), Follows errors (Fuel.repeatWhile test body bound s)
      (fun n => Fuel.repeatWhile test body n s) := by
  intro bound
  induction bound with
  | zero => exact fun _ => Follows.timeout _
  | succ bound ih =>
    intro s
    refine Follows.succ (fun n => rfl) ?_
    simp only [Fuel.repeatWhile]
    split
    · exact (Follows.refl _).bind ih
    · exact Follows.refl _

theorem Follows.map {δ : Type} (h : Follows True x f) (k : Outcome ε α → Outcome δ β)
    (hk : k .timeout = .timeout) : Follows True (k x) (fun n => k (f n)) := by
  have hsettles : x ≠ .timeout → ∃ least, ∀ fuel, least ≤ fuel → f fuel = x := by
    intro hne
    cases x with
    | ok a => exact (h.value a rfl).2
    | err e => exact (h.error trivial e rfl).2
    | timeout => exact absurd rfl hne
  have hends : ∀ outcome, outcome ≠ .timeout → k x = outcome →
      Settles (fun n => k (f n)) outcome := by
    rintro outcome hne rfl
    obtain ⟨least, hleast⟩ := hsettles (by rintro rfl; exact hne hk)
    exact ⟨hne, least, fun fuel hle => congrArg k (hleast fuel hle)⟩
  exact ⟨fun b => hends (.ok b) (by simp), fun _ e => hends (.err e) (by simp)⟩

theorem Follows.settles_ok (h : ∀ n, Follows errors (f n) g) {a : α} (hf : Settles f (.ok a)) :
    Settles g (.ok a) := by
  obtain ⟨-, n, hn⟩ := hf
  exact (h n).value a (hn n (Nat.le_refl n))

theorem Follows.settles (h : ∀ n, Follows errors (f n) g) (he : errors) {outcome : Outcome ε α}
    (hf : Settles f outcome) : Settles g outcome := by
  obtain ⟨hne, n, hn⟩ := hf
  have hend := hn n (Nat.le_refl n)
  cases outcome with
  | ok a => exact (h n).value a hend
  | err e => exact (h n).error he e hend
  | timeout => exact absurd rfl hne

theorem bind_assoc {γ : Type} (x : Outcome ε α) (f : α → Outcome ε β) (g : β → Outcome ε γ) :
    (x >>= f >>= g) = x >>= fun a => f a >>= g := by
  cases x with
  | ok a => rfl
  | err e => rfl
  | timeout => rfl

end Fuel.Outcome
