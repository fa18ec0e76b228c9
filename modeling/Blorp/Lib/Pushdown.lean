import Mathlib.Data.Set.Finite.List
import Mathlib.Logic.Relation
import Mathlib.Data.Set.Card

/-!
# Pushdown systems

A control and a stack, and transitions that keep, push or pop one symbol.

    Balanced c d      from c to d above a stack that comes back as it was
    Ahead c d         from c to d by balanced runs and pushes
    a pump            a push from s to t with Ahead t s
-/

namespace Pushdown

variable {γ σ : Type}

/-- The transitions of a pushdown system. -/
structure System (γ σ : Type) where
  keep : γ → γ → Prop
  push : γ → σ → γ → Prop
  pop : γ → σ → γ → Prop

inductive Step (P : System γ σ) : γ × List σ → γ × List σ → Prop
  | keep {s t : γ} {stack : List σ} : P.keep s t → Step P (s, stack) (t, stack)
  | push {s t : γ} {symbol : σ} {stack : List σ} :
      P.push s symbol t → Step P (s, stack) (t, symbol :: stack)
  | pop {s t : γ} {symbol : σ} {stack : List σ} :
      P.pop s symbol t → Step P (s, symbol :: stack) (t, stack)

/-- The configurations reached from one by any number of transitions. -/
def reached (P : System γ σ) (start : γ × List σ) : Set (γ × List σ) :=
  {configuration | Relation.ReflTransGen (Step P) start configuration}

/-- A run that leaves the stack as it found it and never looks below. -/
inductive Balanced (P : System γ σ) : γ → γ → Prop
  | refl (c : γ) : Balanced P c c
  | keep {c d : γ} : P.keep c d → Balanced P c d
  | trans {c d e : γ} : Balanced P c d → Balanced P d e → Balanced P c e
  | nest {c s t d : γ} {symbol : σ} :
      P.push c symbol s → Balanced P s t → P.pop t symbol d → Balanced P c d

inductive Ahead (P : System γ σ) : γ → γ → Prop
  | balanced {c d : γ} : Balanced P c d → Ahead P c d
  | push {c d : γ} {symbol : σ} : P.push c symbol d → Ahead P c d
  | trans {c d e : γ} : Ahead P c d → Ahead P d e → Ahead P c e

section

variable {P : System γ σ}

/-! ## Pumps -/

variable {c d : γ} {above : List σ}

theorem Balanced.reached (h : Balanced P c d) (stack : List σ) :
    (d, stack) ∈ reached P (c, stack) := by
  induction h generalizing stack with
  | refl c => exact .refl
  | keep hkeep => exact .single (.keep hkeep)
  | trans _ _ ih₁ ih₂ => exact (ih₁ stack).trans (ih₂ stack)
  | nest hpush _ hpop ih =>
    exact (Relation.ReflTransGen.single (.push hpush)).trans
      ((ih _).trans (.single (.pop hpop)))

theorem Ahead.reached (h : Ahead P c d) (stack : List σ) :
    ∃ above, (d, above ++ stack) ∈ reached P (c, stack) := by
  induction h generalizing stack with
  | balanced hbalanced => exact ⟨[], hbalanced.reached stack⟩
  | @push _ _ symbol hpush => exact ⟨[symbol], .single (.push hpush)⟩
  | trans _ _ ih₁ ih₂ =>
    obtain ⟨first, hfirst⟩ := ih₁ stack
    obtain ⟨second, hsecond⟩ := ih₂ (first ++ stack)
    refine ⟨second ++ first, ?_⟩
    rw [List.append_assoc]
    exact hfirst.trans hsecond

theorem reached_of_pump {s t : γ} {symbol : σ} (hpush : P.push s symbol t) (hback : Ahead P t s)
    (stack : List σ) (height : Nat) :
    ∃ above, height ≤ above.length ∧ (s, above ++ stack) ∈ reached P (s, stack) := by
  induction height with
  | zero => exact ⟨[], Nat.le_refl 0, .refl⟩
  | succ height ih =>
    obtain ⟨above, hheight, habove⟩ := ih
    obtain ⟨more, hmore⟩ := hback.reached (symbol :: (above ++ stack))
    refine ⟨more ++ symbol :: above, ?_, ?_⟩
    · rw [List.length_append, List.length_cons]
      omega
    · rw [List.append_assoc, List.cons_append]
      exact (habove.tail (.push hpush)).trans hmore

theorem infinite_of_pump {s t : γ} {symbol : σ} (hpush : P.push s symbol t)
    (hback : Ahead P t s) (stack : List σ) : (reached P (s, stack)).Infinite := by
  intro hfinite
  obtain ⟨bound, hbound⟩ := (hfinite.image fun configuration => configuration.2.length).bddAbove
  obtain ⟨above, hheight, habove⟩ := reached_of_pump hpush hback stack (bound + 1)
  have hle : (above ++ stack).length ≤ bound := hbound ⟨_, habove, rfl⟩
  rw [List.length_append] at hle
  omega

/-! ## Without a pump -/

/-- A run that ends `above` the stack it started on: its pushes that were not popped,
with balanced runs between them. -/
inductive Climb (P : System γ σ) (c : γ) : γ → List σ → Prop
  | base {d : γ} : Balanced P c d → Climb P c d []
  | push {s t d : γ} {symbol : σ} {above : List σ} :
      Climb P c s above → P.push s symbol t → Balanced P t d → Climb P c d (symbol :: above)

theorem Climb.balanced {e : γ} (h : Climb P c d above) (hbalanced : Balanced P d e) :
    Climb P c e above := by
  cases h with
  | base hbase => exact .base (hbase.trans hbalanced)
  | push hclimb hpush hlast => exact .push hclimb hpush (hlast.trans hbalanced)

/-- Every configuration reached is a climb above a suffix of the first stack. -/
theorem exists_climb {stack top : List σ} (h : (d, top) ∈ reached P (c, stack)) :
    ∃ base above rest, top = above ++ rest ∧ rest <:+ stack ∧ Climb P base d above := by
  suffices hall : ∀ configuration, Relation.ReflTransGen (Step P) (c, stack) configuration →
      ∃ base above rest, configuration.2 = above ++ rest ∧ rest <:+ stack ∧
        Climb P base configuration.1 above from hall (d, top) h
  intro configuration hrun
  induction hrun with
  | refl => exact ⟨c, [], stack, rfl, List.suffix_rfl, .base (.refl c)⟩
  | tail _ hstep ih =>
    obtain ⟨base, above, rest, htop, hrest, hclimb⟩ := ih
    cases hstep with
    | keep hkeep => exact ⟨base, above, rest, htop, hrest, hclimb.balanced (.keep hkeep)⟩
    | @push _ t symbol _ hpush =>
      refine ⟨base, symbol :: above, rest, ?_, hrest, .push hclimb hpush (.refl t)⟩
      simp only at htop
      rw [htop, List.cons_append]
    | @pop _ t symbol popped hpop =>
      cases hclimb with
      | base hbase =>
        -- The base level itself is popped, so the climb starts again one level down.
        subst htop
        exact ⟨t, [], popped, rfl, (List.suffix_cons symbol popped).trans hrest, .base (.refl t)⟩
      | push hclimb hpush hlast =>
        obtain ⟨rfl, rfl⟩ := List.cons_eq_cons.mp htop
        exact ⟨base, _, rest, rfl, hrest, hclimb.balanced (.nest hpush hlast hpop)⟩

/-- The controls that the pushes of a climb leave from are distinct: a control left twice
would be a pump. -/
theorem Climb.sources (hpumps : ∀ s symbol t, P.push s symbol t → ¬ Ahead P t s)
    (h : Climb P c d above) :
    ∃ sources : List γ, sources.length = above.length ∧ sources.Nodup ∧
      ∀ s ∈ sources, ∃ symbol t, P.push s symbol t ∧ Ahead P t d := by
  induction h with
  | base => exact ⟨[], rfl, List.nodup_nil, by simp⟩
  | @push s t d symbol above _ hpush hlast ih =>
    obtain ⟨sources, hlength, hnodup, hahead⟩ := ih
    refine ⟨s :: sources, by simp [hlength], ?_, ?_⟩
    · refine List.nodup_cons.mpr ⟨fun hmem => ?_, hnodup⟩
      obtain ⟨symbol', t', hpush', hback⟩ := hahead s hmem
      exact hpumps s symbol' t' hpush' hback
    · intro source hsource
      rcases List.mem_cons.mp hsource with rfl | hmem
      · exact ⟨symbol, t, hpush, .balanced hlast⟩
      · obtain ⟨symbol', t', hpush', hahead'⟩ := hahead source hmem
        exact ⟨symbol', t', hpush',
          (hahead'.trans (.push hpush)).trans (.balanced hlast)⟩

theorem Climb.symbols (h : Climb P c d above) : ∀ symbol ∈ above, ∃ s t, P.push s symbol t := by
  induction h with
  | base => simp
  | push _ hpush _ ih =>
    intro symbol hsymbol
    rcases List.mem_cons.mp hsymbol with rfl | hmem
    · exact ⟨_, _, hpush⟩
    · exact ih symbol hmem

theorem finite_lists {S : Set σ} (hS : S.Finite) (bound : Nat) :
    {symbols : List σ | symbols.length ≤ bound ∧ ∀ symbol ∈ symbols, symbol ∈ S}.Finite := by
  have : Finite S := hS
  refine ((List.finite_length_le S bound).image (List.map Subtype.val)).subset ?_
  rintro symbols ⟨hlength, hsymbols⟩
  refine ⟨symbols.attach.map fun symbol => ⟨symbol.1, hsymbols symbol.1 symbol.2⟩, ?_, ?_⟩
  · simpa using hlength
  · simp

theorem finite_suffixes (stack : List σ) : {rest : List σ | rest <:+ stack}.Finite := by
  refine (List.finite_toSet stack.tails).subset ?_
  intro rest hrest
  exact (List.mem_tails rest stack).mpr hrest

theorem reached_control {stack top : List σ} (h : (d, top) ∈ reached P (c, stack)) :
    d = c ∨ ∃ s, P.keep s d ∨ ∃ symbol, P.push s symbol d ∨ P.pop s symbol d := by
  rcases Relation.ReflTransGen.cases_tail h with heq | ⟨between, -, hstep⟩
  · exact .inl (congrArg Prod.fst heq)
  · cases hstep with
    | keep hkeep => exact .inr ⟨_, .inl hkeep⟩
    | push hpush => exact .inr ⟨_, .inr ⟨_, .inl hpush⟩⟩
    | pop hpop => exact .inr ⟨_, .inr ⟨_, .inr hpop⟩⟩

/-- A system of finitely many transitions without a pump reaches finitely many
configurations from any of them. -/
theorem finite_of_no_pump (hpumps : ∀ s symbol t, P.push s symbol t → ¬ Ahead P t s)
    (hsources : {s | ∃ symbol t, P.push s symbol t}.Finite)
    (hsymbols : {symbol | ∃ s t, P.push s symbol t}.Finite)
    (htargets : {d | ∃ s, P.keep s d ∨ ∃ symbol, P.push s symbol d ∨ P.pop s symbol d}.Finite)
    (c : γ) (stack : List σ) : (reached P (c, stack)).Finite := by
  classical
  have habove := finite_lists hsymbols hsources.toFinset.card
  have hstacks := habove.image2 (· ++ ·) (finite_suffixes stack)
  refine ((htargets.insert c).prod hstacks).subset ?_
  rintro ⟨d, top⟩ hreached
  refine ⟨?_, ?_⟩
  · rcases reached_control hreached with heq | htarget
    · exact .inl heq
    · exact .inr htarget
  · obtain ⟨base, above, rest, rfl, hrest, hclimb⟩ := exists_climb hreached
    obtain ⟨sources, hlength, hnodup, hahead⟩ := hclimb.sources hpumps
    refine ⟨above, ⟨?_, hclimb.symbols⟩, rest, hrest, rfl⟩
    calc above.length = sources.toFinset.card := by
          rw [List.toFinset_card_of_nodup hnodup, hlength]
      _ ≤ hsources.toFinset.card := by
          refine Finset.card_le_card fun s hs => ?_
          obtain ⟨symbol, t, hpush, -⟩ := hahead s (List.mem_toFinset.mp hs)
          exact hsources.mem_toFinset.mpr ⟨symbol, t, hpush⟩

end

end Pushdown
