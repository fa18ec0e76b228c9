import Mathlib.Data.Finset.Order
import Mathlib.Data.Finset.Dedup
import Mathlib.Logic.Function.Basic
import Mathlib.Logic.Relation

/-!
# Triangular bindings

A unifier keeps what it has solved as bindings of variables to terms over other variables.
The bindings are `Layered` when every variable can be given a level above the levels of the
variables its term uses.
-/

namespace Triangular

variable {ν τ δ : Type} {uses : τ → List ν} {bound : ν → Option τ}

def Edge (uses : τ → List ν) (bound : ν → Option τ) (x y : ν) : Prop :=
  ∃ term, bound x = some term ∧ y ∈ uses term

/-- A level for each variable, above those of the variables its binding uses. -/
def Layered (uses : τ → List ν) (bound : ν → Option τ) : Prop :=
  ∃ level : ν → Nat, ∀ x y, Edge uses bound x y → level y < level x

/-- A variable of the term leads to `x`. -/
def Reaches (uses : τ → List ν) (bound : ν → Option τ) (term : τ) (x : ν) : Prop :=
  ∃ y ∈ uses term, Relation.ReflTransGen (Edge uses bound) y x

def Solves (eval : (ν → δ) → τ → δ) (bound : ν → Option τ) (values : ν → δ) : Prop :=
  ∀ x term, bound x = some term → values x = eval values term

theorem layered_unbound : Layered uses fun _ => none :=
  ⟨fun _ => 0, by rintro x y ⟨term, ⟨⟩, -⟩⟩

variable {x y : ν} {term : τ}

theorem Layered.level_lt {level : ν → Nat} (h : ∀ x y, Edge uses bound x y → level y < level x)
    (hreach : Relation.TransGen (Edge uses bound) x y) : level y < level x := by
  induction hreach with
  | single hedge => exact h _ _ hedge
  | tail _ hedge ih => exact (h _ _ hedge).trans ih

theorem Layered.acyclic (h : Layered uses bound) (x : ν) :
    ¬ Relation.TransGen (Edge uses bound) x x := by
  obtain ⟨level, hlevel⟩ := h
  intro hcycle
  exact Nat.lt_irrefl _ (Layered.level_lt hlevel hcycle)

theorem eq_of_unbound (h : Relation.ReflTransGen (Edge uses bound) x y) (hx : bound x = none) :
    x = y := by
  cases h using Relation.ReflTransGen.head_induction_on with
  | refl => rfl
  | head hedge _ =>
    obtain ⟨term, hterm, -⟩ := hedge
    rw [hx] at hterm
    cases hterm

theorem reaches_of_bound (h : Relation.ReflTransGen (Edge uses bound) x y)
    (hx : bound x = some term) (hy : bound y = none) : Reaches uses bound term y := by
  cases h using Relation.ReflTransGen.head_induction_on with
  | refl =>
    rw [hx] at hy
    cases hy
  | head hedge hrest =>
    obtain ⟨found, hfound, hmem⟩ := hedge
    rw [hx] at hfound
    cases hfound
    exact ⟨_, hmem, hrest⟩

/-! ## A new binding -/

theorem edge_update [DecidableEq ν] {v : ν}
    (h : Edge uses (Function.update bound x (some term)) v y) :
    v = x ∧ y ∈ uses term ∨ Edge uses bound v y := by
  obtain ⟨found, hfound, hmem⟩ := h
  by_cases hv : v = x
  · subst hv
    rw [Function.update_self] at hfound
    cases hfound
    exact .inl ⟨rfl, hmem⟩
  · rw [Function.update_of_ne hv] at hfound
    exact .inr ⟨found, hfound, hmem⟩

/-- The occurs check: binding a variable to a term that does not reach it keeps the layers.
Every variable that leads to the bound one is lifted above the term's variables. -/
theorem Layered.bind [DecidableEq ν] (h : Layered uses bound)
    (hoccurs : ¬ Reaches uses bound term x) :
    Layered uses (Function.update bound x (some term)) := by
  classical
  obtain ⟨level, hlevel⟩ := h
  obtain ⟨top, htop⟩ := ((uses term).map level).toFinset.exists_le
  let lifted : ν → Nat := fun v =>
    if Relation.ReflTransGen (Edge uses bound) v x then level v + (top + 1) else level v
  refine ⟨lifted, fun v y hedge => ?_⟩
  rcases edge_update hedge with ⟨rfl, hmem⟩ | hold
  · have hlow : lifted y = level y := if_neg fun hreach => hoccurs ⟨y, hmem, hreach⟩
    have hhigh : lifted v = level v + (top + 1) := if_pos .refl
    have hle : level y ≤ top := htop (level y) (by
      rw [List.mem_toFinset]
      exact List.mem_map_of_mem hmem)
    omega
  · have hlt := hlevel v y hold
    by_cases hreach : Relation.ReflTransGen (Edge uses bound) y x
    · have hy : lifted y = level y + (top + 1) := if_pos hreach
      have hv : lifted v = level v + (top + 1) := if_pos (.head hold hreach)
      omega
    · have hy : lifted y = level y := if_neg hreach
      have hv : level v ≤ lifted v := by
        by_cases hup : Relation.ReflTransGen (Edge uses bound) v x
        · exact (Nat.le_add_right _ _).trans_eq (if_pos hup).symm
        · exact (if_neg hup).ge
      omega

/-! ## Solutions -/

/-- A new binding of an unbound variable is one more equation. -/
theorem solves_update [DecidableEq ν] {eval : (ν → δ) → τ → δ} (hx : bound x = none)
    {values : ν → δ} :
    Solves eval (Function.update bound x (some term)) values ↔
      Solves eval bound values ∧ values x = eval values term := by
  constructor
  · intro h
    refine ⟨fun y found hy => h y found ?_, h x term (Function.update_self ..)⟩
    have hne : y ≠ x := by
      rintro rfl
      rw [hx] at hy
      cases hy
    rw [Function.update_of_ne hne]
    exact hy
  · rintro ⟨h, hnew⟩ y found hy
    by_cases hne : y = x
    · subst hne
      rw [Function.update_self] at hy
      cases hy
      exact hnew
    · rw [Function.update_of_ne hne] at hy
      exact h y found hy

section

variable {eval : (ν → δ) → τ → δ}

/-- The values after `n` rounds of evaluation. -/
def round (eval : (ν → δ) → τ → δ) (bound : ν → Option τ) (free : ν → δ) : Nat → ν → δ
  | 0, x => free x
  | n + 1, x =>
      match bound x with
      | some term => eval (round eval bound free n) term
      | none => free x

variable (heval : ∀ term (first second : ν → δ), (∀ x ∈ uses term, first x = second x) →
  eval first term = eval second term)

include heval

theorem round_settled {level : ν → Nat} (hlevel : ∀ x y, Edge uses bound x y → level y < level x)
    (free : ν → δ) : ∀ (n m : Nat) (x : ν), level x < n → level x < m →
      round eval bound free n x = round eval bound free m x := by
  intro n
  induction n with
  | zero =>
    intro m x hn
    exact absurd hn (Nat.not_lt_zero _)
  | succ n ih =>
    intro m x hn hm
    obtain ⟨m, rfl⟩ : ∃ k, m = k + 1 := ⟨m - 1, by omega⟩
    unfold round
    cases hx : bound x with
    | none => rfl
    | some term =>
      refine heval term _ _ fun y hy => ?_
      have hlt := hlevel x y ⟨term, hx, hy⟩
      exact ih m y (by omega) (by omega)

theorem Layered.solvable_on (h : Layered uses bound) (free : ν → δ) :
    ∃ values, Solves eval bound values ∧ ∀ x, bound x = none → values x = free x := by
  obtain ⟨level, hlevel⟩ := h
  refine ⟨fun x => round eval bound free (level x + 1) x, fun x term hx => ?_, fun x hx => ?_⟩
  · show round eval bound free (level x + 1) x = _
    rw [round, hx]
    refine heval term _ _ fun y hy => ?_
    have hlt := hlevel x y ⟨term, hx, hy⟩
    exact round_settled heval hlevel free _ _ y hlt (Nat.lt_succ_self _)
  · show round eval bound free (level x + 1) x = _
    rw [round, hx]

theorem Layered.solvable (h : Layered uses bound) (free : ν → δ) :
    ∃ values, Solves eval bound values := by
  obtain ⟨values, hvalues, -⟩ := h.solvable_on heval free
  exact ⟨values, hvalues⟩

end

end Triangular
