import Mathlib

/-!
# Outcomes of fuelled computations

A recursion that is not structural runs on fuel.  `Outcome ε α` keeps the three
ways it can end apart: a value, an error the program itself reports, and
`timeout`, which only says that the fuel was too small.  `Settles f outcome` says
that the fuel is only a bound: from some amount on, `f` ends with `outcome`.
-/

/-! ## Exceptions -/

namespace Except

variable {ε α β : Type} {P : ε → Prop}

/-- A value satisfies `Q`, an error satisfies `P`. -/
def Meets (Q : α → Prop) (P : ε → Prop) : Except ε α → Prop
  | .ok a => Q a
  | .error e => P e

/-- Every error the computation reports satisfies `P`. -/
abbrev ErrorsIn (P : ε → Prop) (x : Except ε α) : Prop := Meets (fun _ => True) P x

variable {Q : α → Prop} {x : Except ε α} {f : α → Except ε β}

theorem Meets.bind {R : β → Prop} (hx : Meets Q P x) (hf : ∀ a, Q a → Meets R P (f a)) :
    Meets R P (x >>= f) := by
  cases x with
  | ok a => exact hf a hx
  | error e => exact hx

theorem Meets.of_ok {a : α} (h : Meets Q P x) (hx : x = .ok a) : Q a := by
  subst hx
  exact h

theorem Meets.of_error {e : ε} (h : Meets Q P x) (hx : x = .error e) : P e := by
  subst hx
  exact h

theorem Meets.mono {P' : ε → Prop} (hp : ∀ e, P e → P' e) (h : Meets Q P x) : Meets Q P' x := by
  cases x with
  | ok a => exact h
  | error e => exact hp e h

theorem ErrorsIn.mapM : ∀ {as : List α}, (∀ a ∈ as, ErrorsIn P (f a)) → ErrorsIn P (as.mapM f) := by
  intro as
  induction as with
  | nil => intro _; trivial
  | cons a as ih =>
    intro h
    rw [List.mapM_cons]
    refine (h a List.mem_cons_self).bind fun b _ => ?_
    exact Meets.bind (ih fun c hc => h c (List.mem_cons_of_mem _ hc)) fun _ _ => trivial

theorem bind_eq_ok {b : β} : (x >>= f) = .ok b ↔ ∃ a, x = .ok a ∧ f a = .ok b := by
  cases x with
  | ok a => simp [Bind.bind, Except.bind]
  | error e => simp [Bind.bind, Except.bind]

theorem peel {b : β} (h : (x >>= f) = .ok b) : ∃ a, x = .ok a ∧ f a = .ok b := bind_eq_ok.mp h

theorem exists_bind {a : α} (hx : x = .ok a) (hf : ∃ b, f a = .ok b) : ∃ b, (x >>= f) = .ok b := by
  obtain ⟨b, hb⟩ := hf
  exact ⟨b, bind_eq_ok.mpr ⟨a, hx, hb⟩⟩

end Except

theorem List.mapM_eq_ok_iff {ε α β : Type} {f : α → Except ε β} : ∀ {as : List α} {bs : List β},
      as.mapM f = .ok bs ↔ List.Forall₂ (fun a b => f a = .ok b) as bs := by
  intro as
  induction as with
  | nil =>
    intro bs
    simp [List.mapM_nil, pure, Except.pure, eq_comm]
  | cons a as ih =>
    intro bs
    rw [List.mapM_cons, Except.bind_eq_ok]
    constructor
    · rintro ⟨b, hb, h⟩
      obtain ⟨rest, hrest, h⟩ := Except.peel h
      cases h
      exact .cons hb (ih.mp hrest)
    · intro h
      cases h with
      | cons hb hrest => exact ⟨_, hb, Except.bind_eq_ok.mpr ⟨_, ih.mpr hrest, rfl⟩⟩

theorem List.exists_mapM_eq_ok {ε α β : Type} {f : α → Except ε β} {as : List α}
    (h : ∀ a ∈ as, ∃ b, f a = .ok b) : ∃ bs, as.mapM f = .ok bs := by
  induction as with
  | nil => exact ⟨[], rfl⟩
  | cons a as ih =>
    obtain ⟨b, hb⟩ := h a List.mem_cons_self
    obtain ⟨bs, hbs⟩ := ih fun other hother => h other (List.mem_cons_of_mem _ hother)
    exact ⟨b :: bs, List.mapM_eq_ok_iff.mpr (.cons hb (List.mapM_eq_ok_iff.mp hbs))⟩

theorem List.exists_of_mapM_eq_ok {ε α β : Type} {f : α → Except ε β} {as : List α} {bs : List β}
    (h : as.mapM f = .ok bs) :
    (∀ a ∈ as, ∃ b ∈ bs, f a = .ok b) ∧ ∀ b ∈ bs, ∃ a ∈ as, f a = .ok b := by
  have hall := List.mapM_eq_ok_iff.mp h
  clear h
  induction hall with
  | nil => simp
  | @cons a b as bs hab _ ih =>
    obtain ⟨hright, hleft⟩ := ih
    constructor
    · intro x hx
      rcases List.mem_cons.mp hx with rfl | hx
      · exact ⟨b, List.mem_cons_self, hab⟩
      · obtain ⟨y, hy, hxy⟩ := hright x hx
        exact ⟨y, List.mem_cons_of_mem _ hy, hxy⟩
    · intro y hy
      rcases List.mem_cons.mp hy with rfl | hy
      · exact ⟨a, List.mem_cons_self, hab⟩
      · obtain ⟨x, hx, hxy⟩ := hleft y hy
        exact ⟨x, List.mem_cons_of_mem _ hx, hxy⟩

namespace Fuel

/-- A value, a reported error, or not enough fuel. -/
inductive Outcome (ε α : Type) where
  | ok (value : α)
  | err (error : ε)
  | timeout
  deriving Repr

variable {ε α β : Type}

namespace Outcome

def bind (x : Outcome ε α) (f : α → Outcome ε β) : Outcome ε β :=
  match x with
  | .ok value => f value
  | .err error => .err error
  | .timeout => .timeout

instance : Monad (Outcome ε) where
  pure := .ok
  bind := Outcome.bind

def ofExcept : Except ε α → Outcome ε α
  | .ok value => .ok value
  | .error error => .err error

instance : MonadLift (Except ε) (Outcome ε) := ⟨ofExcept⟩

/-- A computation that reports no error, among computations that do. -/
def ofEmpty : Outcome Empty α → Outcome ε α
  | .ok value => .ok value
  | .err error => nomatch error
  | .timeout => .timeout

@[simp] theorem pure_eq (a : α) : (pure a : Outcome ε α) = .ok a := rfl

@[simp] theorem ok_bind (a : α) (f : α → Outcome ε β) : (Outcome.ok a >>= f) = f a := rfl

@[simp] theorem err_bind (e : ε) (f : α → Outcome ε β) :
    (Outcome.err e >>= f) = .err e := rfl

@[simp] theorem timeout_bind (f : α → Outcome ε β) :
    ((Outcome.timeout : Outcome ε α) >>= f) = .timeout := rfl

@[simp] theorem liftM_ok (a : α) :
    (liftM (Except.ok a : Except ε α) : Outcome ε α) = .ok a := rfl

@[simp] theorem liftM_error (e : ε) :
    (liftM (Except.error e : Except ε α) : Outcome ε α) = .err e := rfl

theorem bind_eq_ok {x : Outcome ε α} {f : α → Outcome ε β} {b : β} :
    (x >>= f) = .ok b ↔ ∃ a, x = .ok a ∧ f a = .ok b := by
  cases x with
  | ok a => simp
  | err e => simp
  | timeout => simp

theorem peel {x : Outcome ε α} {f : α → Outcome ε β} {b : β} (h : (x >>= f) = .ok b) :
    ∃ a, x = .ok a ∧ f a = .ok b := bind_eq_ok.mp h

variable {x : Except ε α} {a : α} {f : Nat → Outcome ε α} {outcome : Outcome ε α}
variable {g : Nat → α → Outcome ε β} {Q : α → Prop}

theorem liftM_eq_ok : (liftM x : Outcome ε α) = .ok a ↔ x = .ok a := by
  cases x with
  | ok b => simp
  | error e => simp

/-! ## Enough fuel -/

/-- From some fuel on, the computation ends, always with the same outcome. -/
def Settles (f : Nat → Outcome ε α) (outcome : Outcome ε α) : Prop :=
  outcome ≠ .timeout ∧ ∃ least, ∀ fuel, least ≤ fuel → f fuel = outcome

theorem Settles.unique {first second : Outcome ε α} (hfirst : Settles f first)
    (hsecond : Settles f second) : first = second := by
  obtain ⟨-, n, hn⟩ := hfirst
  obtain ⟨-, m, hm⟩ := hsecond
  rw [← hn (max n m) (by omega), ← hm (max n m) (by omega)]

/-- A closed run is evaluated past its least fuel. -/
theorem Settles.closed (least : Nat) (h : outcome ≠ .timeout)
    (hf : ∀ n, f (n + least) = outcome) : Settles f outcome :=
  ⟨h, least, fun n hn => (congrArg f (Nat.sub_add_cancel hn)).symm.trans (hf (n - least))⟩

theorem Settles.const (h : outcome ≠ .timeout) : Settles (fun _ => outcome) outcome :=
  ⟨h, 0, fun _ _ => rfl⟩

theorem Settles.ok : Settles (fun _ => (.ok a : Outcome ε α)) (.ok a) := .const (by simp)

theorem Settles.err {e : ε} : Settles (fun _ => (.err e : Outcome ε α)) (.err e) := .const (by simp)

theorem Settles.ofExcept (x : Except ε α) :
    ∃ outcome, Settles (fun _ => (liftM x : Outcome ε α)) outcome := by
  cases x with
  | ok a => exact ⟨.ok a, Settles.const (by simp)⟩
  | error e => exact ⟨.err e, Settles.const (by simp)⟩

theorem Settles.ofEmpty {f : Nat → Outcome Empty α} (hf : Settles f (.ok a)) :
    Settles (fun n => (Outcome.ofEmpty (f n) : Outcome ε α)) (.ok a) := by
  obtain ⟨-, n, hn⟩ := hf
  refine ⟨by simp, n, fun fuel hle => ?_⟩
  show Outcome.ofEmpty (f fuel) = Outcome.ok a
  rw [hn fuel hle]
  rfl

theorem Settles.bind_ok {outcome : Outcome ε β} (hf : Settles f (.ok a))
    (hg : Settles (fun n => g n a) outcome) : Settles (fun n => f n >>= g n) outcome := by
  obtain ⟨-, n, hn⟩ := hf
  obtain ⟨h, m, hm⟩ := hg
  refine ⟨h, max n m, fun fuel hle => ?_⟩
  show (f fuel >>= g fuel) = outcome
  rw [hn fuel (by omega), ok_bind]
  exact hm fuel (by omega)

theorem Settles.bind_err {e : ε} (hf : Settles f (.err e)) (g : Nat → α → Outcome ε β) :
    Settles (fun n => f n >>= g n) (.err e) := by
  obtain ⟨-, n, hn⟩ := hf
  refine ⟨by simp, n, fun fuel hle => ?_⟩
  show (f fuel >>= g fuel) = .err e
  rw [hn fuel hle, err_bind]

theorem Settles.bind (hf : ∃ outcome, Settles f outcome)
    (hg : ∀ a, ∃ outcome, Settles (fun n => g n a) outcome) :
    ∃ outcome, Settles (fun n => f n >>= g n) outcome := by
  obtain ⟨x, hx, n, hn⟩ := hf
  cases x with
  | ok a =>
    obtain ⟨y, hy⟩ := hg a
    exact ⟨y, Settles.bind_ok ⟨hx, n, hn⟩ hy⟩
  | err e => exact ⟨.err e, Settles.bind_err ⟨hx, n, hn⟩ g⟩
  | timeout => exact absurd rfl hx

theorem Settles.bindExcept (hg : ∀ a, x = .ok a → ∃ outcome, Settles (fun n => g n a) outcome) :
    ∃ outcome, Settles (fun n => (liftM x : Outcome ε α) >>= g n) outcome := by
  cases x with
  | ok a => exact hg a rfl
  | error e => exact ⟨.err e, Settles.const (by simp)⟩

theorem Settles.succ {g : Nat → Outcome ε α} (hf : ∀ n, f (n + 1) = g n) (hg : Settles g outcome) :
    Settles f outcome := by
  obtain ⟨h, n, hn⟩ := hg
  refine ⟨h, n + 1, fun fuel hle => ?_⟩
  obtain ⟨m, rfl⟩ : ∃ m, fuel = m + 1 := ⟨fuel - 1, by omega⟩
  rw [hf, hn m (by omega)]

/-! ## Ending with a value that satisfies something -/

/-- The computation ends, and its value, when it has one, satisfies `Q`. -/
def Ends (f : Nat → Outcome ε α) (Q : α → Prop) : Prop :=
  ∃ outcome, Settles f outcome ∧ ∀ a, outcome = .ok a → Q a

theorem Ends.ok (h : Q a) : Ends (ε := ε) (fun _ => .ok a) Q := by
  refine ⟨.ok a, Settles.const (by simp), fun b hb => ?_⟩
  cases hb
  exact h

theorem Ends.err (e : ε) : Ends (fun _ => .err e) Q :=
  ⟨.err e, Settles.const (by simp), fun _ h => by cases h⟩

theorem Ends.imp {R : α → Prop} (h : Ends f Q) (hR : ∀ a, Q a → R a) : Ends f R := by
  obtain ⟨outcome, hsettles, hQ⟩ := h
  exact ⟨outcome, hsettles, fun a heq => hR a (hQ a heq)⟩

theorem Ends.bind {R : β → Prop} (hf : Ends f Q) (hg : ∀ a, Q a → Ends (fun n => g n a) R) :
    Ends (fun n => f n >>= g n) R := by
  obtain ⟨outcome, hsettles, hQ⟩ := hf
  cases outcome with
  | ok a =>
    obtain ⟨last, hlast, hR⟩ := hg a (hQ a rfl)
    exact ⟨last, Settles.bind_ok hsettles hlast, hR⟩
  | err e => exact ⟨.err e, Settles.bind_err hsettles g, fun _ h => by cases h⟩
  | timeout => exact absurd rfl hsettles.1

theorem Ends.liftM (h : ∀ a, x = .ok a → Q a) : Ends (fun _ => (liftM x : Outcome ε α)) Q := by
  cases x with
  | ok a => exact Ends.ok (h a rfl)
  | error e => exact Ends.err e

theorem Ends.succ {g : Nat → Outcome ε α} (hf : ∀ n, f (n + 1) = g n) (hg : Ends g Q) :
    Ends f Q := by
  obtain ⟨outcome, hsettles, hQ⟩ := hg
  exact ⟨outcome, Settles.succ hf hsettles, hQ⟩

/-! ## Which errors a computation reports -/

/-- Every error the computation reports satisfies `P`. -/
def ErrorsIn (P : ε → Prop) (x : Outcome ε α) : Prop := ∀ e, x = .err e → P e

variable {P : ε → Prop}

theorem ErrorsIn.ok (a : α) : ErrorsIn P (.ok a) := by
  intro e h
  cases h

theorem ErrorsIn.timeout : ErrorsIn P (.timeout : Outcome ε α) := by
  intro e h
  cases h

theorem ErrorsIn.err {e : ε} (h : P e) : ErrorsIn P (.err e : Outcome ε α) := by
  intro e' h'
  cases h'
  exact h

theorem ErrorsIn.bind {x : Outcome ε α} {f : α → Outcome ε β} (hx : ErrorsIn P x)
    (hf : ∀ a, x = .ok a → ErrorsIn P (f a)) : ErrorsIn P (x >>= f) := by
  cases x with
  | ok a => exact hf a rfl
  | err e => exact ErrorsIn.err (hx e rfl)
  | timeout => exact ErrorsIn.timeout

theorem ErrorsIn.liftM (h : x.ErrorsIn P) : ErrorsIn P (liftM x : Outcome ε α) := by
  cases x with
  | ok a => exact ErrorsIn.ok a
  | error e => exact ErrorsIn.err h

theorem Settles.ok_of_errorsIn (h : Settles f outcome) (hf : ∀ n, ErrorsIn (fun _ => False) (f n)) :
    ∃ a, outcome = .ok a := by
  obtain ⟨hne, n, hn⟩ := h
  cases outcome with
  | ok a => exact ⟨a, rfl⟩
  | err e => exact (hf n e (hn n (Nat.le_refl n))).elim
  | timeout => exact absurd rfl hne

end Outcome

end Fuel
