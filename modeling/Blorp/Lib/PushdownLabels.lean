import Blorp.Lib.Pushdown

/-!
# Labelled runs of a pushdown system

The transitions of a system as a family, so that a run has the list of the transitions it
takes.  A run that starts on an empty stack climbs: the pushes it never pops stand between
balanced runs (exists_labelledClimb).
-/

namespace Pushdown

variable {ι γ σ : Type}

/-- The transitions of a family, taken together. -/
def union (P : ι → System γ σ) : System γ σ where
  keep s t := ∃ i, (P i).keep s t
  push s symbol t := ∃ i, (P i).push s symbol t
  pop s symbol t := ∃ i, (P i).pop s symbol t

inductive LabelledRun (P : ι → System γ σ) : γ × List σ → List ι → γ × List σ → Prop
  | refl (c : γ × List σ) : LabelledRun P c [] c
  | step {c d e : γ × List σ} {i : ι} {labels : List ι} :
      Step (P i) c d → LabelledRun P d labels e → LabelledRun P c (i :: labels) e

inductive LabelledBalanced (P : ι → System γ σ) : γ → List ι → γ → Prop
  | refl (c : γ) : LabelledBalanced P c [] c
  | keep {c d : γ} {i : ι} : (P i).keep c d → LabelledBalanced P c [i] d
  | trans {c d e : γ} {first second : List ι} : LabelledBalanced P c first d →
      LabelledBalanced P d second e → LabelledBalanced P c (first ++ second) e
  | nest {c s t d : γ} {symbol : σ} {opening closing : ι} {labels : List ι} :
      (P opening).push c symbol s → LabelledBalanced P s labels t → (P closing).pop t symbol d →
      LabelledBalanced P c (opening :: (labels ++ [closing])) d

/-- A run from an empty stack: the pushes that stay, with balanced runs between them. -/
inductive LabelledClimb (P : ι → System γ σ) (c : γ) : List ι → γ → List σ → Prop
  | base {d : γ} {labels : List ι} : LabelledBalanced P c labels d → LabelledClimb P c labels d []
  | push {s t d : γ} {symbol : σ} {above : List σ} {i : ι} {before after : List ι} :
      LabelledClimb P c before s above → (P i).push s symbol t → LabelledBalanced P t after d →
      LabelledClimb P c (before ++ i :: after) d (symbol :: above)

section

variable {P : ι → System γ σ}

/-! ## Runs -/

theorem LabelledRun.trans {c d e : γ × List σ} {first second : List ι}
    (h : LabelledRun P c first d) (h' : LabelledRun P d second e) :
    LabelledRun P c (first ++ second) e := by
  induction h with
  | refl => exact h'
  | step hstep _ ih => exact .step hstep (ih h')

variable {i : ι} {c d e : γ} {labels : List ι} {above : List σ}

theorem LabelledRun.single {c d : γ × List σ} (h : Step (P i) c d) : LabelledRun P c [i] d :=
  .step h (.refl d)

theorem LabelledBalanced.run (h : LabelledBalanced P c labels d) (stack : List σ) :
    LabelledRun P (c, stack) labels (d, stack) := by
  induction h generalizing stack with
  | refl c => exact .refl _
  | keep hkeep => exact .single (.keep hkeep)
  | trans _ _ ih₁ ih₂ => exact (ih₁ stack).trans (ih₂ stack)
  | @nest _ _ _ _ symbol _ _ _ hpush _ hpop ih =>
    exact .step (.push hpush) ((ih (symbol :: stack)).trans (.single (.pop hpop)))

theorem LabelledBalanced.balanced (h : LabelledBalanced P c labels d) : Balanced (union P) c d := by
  induction h with
  | refl c => exact .refl c
  | keep hkeep => exact .keep ⟨_, hkeep⟩
  | trans _ _ ih₁ ih₂ => exact ih₁.trans ih₂
  | nest hpush _ hpop ih => exact .nest ⟨_, hpush⟩ ih ⟨_, hpop⟩

theorem Balanced.labelled (h : Balanced (union P) c d) :
    ∃ labels, LabelledBalanced P c labels d := by
  induction h with
  | refl c => exact ⟨[], .refl c⟩
  | keep hkeep =>
    obtain ⟨i, hkeep⟩ := hkeep
    exact ⟨[i], .keep hkeep⟩
  | trans _ _ ih₁ ih₂ =>
    obtain ⟨first, hfirst⟩ := ih₁
    obtain ⟨second, hsecond⟩ := ih₂
    exact ⟨first ++ second, hfirst.trans hsecond⟩
  | nest hpush _ hpop ih =>
    obtain ⟨opening, hpush⟩ := hpush
    obtain ⟨closing, hpop⟩ := hpop
    obtain ⟨labels, hinner⟩ := ih
    exact ⟨opening :: (labels ++ [closing]), .nest hpush hinner hpop⟩

theorem Ahead.labelled (h : Ahead (union P) c d) (stack : List σ) :
    ∃ labels above, LabelledRun P (c, stack) labels (d, above ++ stack) := by
  induction h generalizing stack with
  | balanced hbalanced =>
    obtain ⟨labels, hlabels⟩ := hbalanced.labelled
    exact ⟨labels, [], hlabels.run stack⟩
  | @push _ _ symbol hpush =>
    obtain ⟨i, hpush⟩ := hpush
    exact ⟨[i], [symbol], .single (.push hpush)⟩
  | trans _ _ ih₁ ih₂ =>
    obtain ⟨first, below, hfirst⟩ := ih₁ stack
    obtain ⟨second, above, hsecond⟩ := ih₂ (below ++ stack)
    refine ⟨first ++ second, above ++ below, ?_⟩
    rw [List.append_assoc]
    exact hfirst.trans hsecond

/-! ## Climbs -/

theorem LabelledClimb.balanced {before after : List ι} (h : LabelledClimb P c before d above)
    (hbalanced : LabelledBalanced P d after e) : LabelledClimb P c (before ++ after) e above := by
  cases h with
  | base hbase => exact .base (hbase.trans hbalanced)
  | push hclimb hpush hlast =>
    rw [List.append_assoc, List.cons_append]
    exact .push hclimb hpush (hlast.trans hbalanced)

theorem LabelledClimb.tail {top : List σ} (h : LabelledClimb P c labels d above)
    (hstep : Step (P i) (d, above) (e, top)) : LabelledClimb P c (labels ++ [i]) e top := by
  cases hstep with
  | keep hkeep => exact h.balanced (.keep hkeep)
  | push hpush => exact .push h hpush (.refl e)
  | pop hpop =>
    cases h with
    | push hclimb hpush hlast =>
      rw [List.append_assoc, List.cons_append]
      exact hclimb.balanced (.nest hpush hlast hpop)

theorem exists_labelledClimb {top : List σ} (h : LabelledRun P (c, []) labels (d, top)) :
    LabelledClimb P c labels d top := by
  suffices hall : ∀ {start last : γ × List σ} {rest : List ι}, LabelledRun P start rest last →
      ∀ {before : List ι}, LabelledClimb P c before start.1 start.2 →
        LabelledClimb P c (before ++ rest) last.1 last.2 from
    hall h (.base (.refl c))
  intro start last rest hrun
  induction hrun with intro before hbefore
  | refl => rwa [List.append_nil]
  | step hstep _ ih =>
    have hnext := ih (hbefore.tail hstep)
    rwa [List.append_assoc] at hnext

theorem LabelledClimb.ahead (h : LabelledClimb P c labels d above) : Ahead (union P) c d := by
  induction h with
  | base hbase => exact .balanced hbase.balanced
  | push _ hpush hlast ih => exact (ih.trans (.push ⟨_, hpush⟩)).trans (.balanced hlast.balanced)

theorem LabelledClimb.mem (h : LabelledClimb P c labels d above) (hi : i ∈ labels) :
    (∃ s symbol t, (P i).push s symbol t ∧ Ahead (union P) c s ∧ Ahead (union P) t d) ∨
    ∃ s between t, LabelledBalanced P s between t ∧ i ∈ between ∧ Ahead (union P) c s ∧
      Ahead (union P) t d := by
  induction h with
  | base hbase => exact .inr ⟨_, _, _, hbase, hi, .balanced (.refl _), .balanced (.refl _)⟩
  | @push s t d symbol above j before after hclimb hpush hlast ih =>
    have hover : Ahead (union P) s t := .push ⟨j, hpush⟩
    have hrest : Ahead (union P) s d := hover.trans (.balanced hlast.balanced)
    rcases List.mem_append.mp hi with hbefore | htail
    · rcases ih hbefore with ⟨s', symbol', t', hpush', hto, hfrom⟩ |
        ⟨s', between, t', hbetween, hmem, hto, hfrom⟩
      · exact .inl ⟨s', symbol', t', hpush', hto, hfrom.trans hrest⟩
      · exact .inr ⟨s', between, t', hbetween, hmem, hto, hfrom.trans hrest⟩
    · rcases List.mem_cons.mp htail with rfl | hafter
      · exact .inl ⟨s, symbol, t, hpush, hclimb.ahead, .balanced hlast.balanced⟩
      · exact .inr ⟨t, after, d, hlast, hafter, hclimb.ahead.trans hover,
          .balanced (.refl d)⟩

/-! ## Pumping transitions -/

/-- The transition is taken by a run that comes back to its control under a longer stack. -/
def Pumping (P : ι → System γ σ) (i : ι) : Prop :=
  ∃ c labels above, above ≠ [] ∧ LabelledRun P (c, []) labels (c, above) ∧ i ∈ labels

/-- The two controls lie on one loop through a push, the second before the first. -/
def OnLoop (P : ι → System γ σ) (s t : γ) : Prop :=
  ∃ c symbol d, (union P).push c symbol d ∧ Ahead (union P) d s ∧ Ahead (union P) t c

theorem pumping_of_loop {s t : γ} (hloop : OnLoop P s t)
    (hrun : ∀ stack, LabelledRun P (s, stack) labels (t, above ++ stack)) (hi : i ∈ labels) :
    Pumping P i := by
  obtain ⟨c, symbol, d, ⟨j, hpush⟩, hto, hfrom⟩ := hloop
  obtain ⟨first, low, hfirst⟩ := hto.labelled [symbol]
  have hmiddle := hrun (low ++ [symbol])
  obtain ⟨second, high, hsecond⟩ := hfrom.labelled (above ++ (low ++ [symbol]))
  refine ⟨c, [j] ++ (first ++ (labels ++ second)), high ++ (above ++ (low ++ [symbol])), by simp,
    (LabelledRun.single (.push hpush)).trans (hfirst.trans (hmiddle.trans hsecond)), ?_⟩
  simp [hi]

theorem Pumping.push_or_balanced (h : Pumping P i) :
    (∃ s symbol t, (P i).push s symbol t ∧ Ahead (union P) t s) ∨
    ∃ s labels t, LabelledBalanced P s labels t ∧ i ∈ labels ∧ OnLoop P s t := by
  obtain ⟨c, labels, above, habove, hrun, hi⟩ := h
  have hclimb := exists_labelledClimb hrun
  rcases hclimb.mem hi with ⟨s, symbol, t, hpush, hto, hfrom⟩ |
    ⟨s, between, t, hbetween, hmem, hto, hfrom⟩
  · exact .inl ⟨s, symbol, t, hpush, hfrom.trans hto⟩
  · cases hclimb with
    | base => exact absurd rfl habove
    | @push last next _ symbol _ j _ _ hbefore hpush hlast =>
      exact .inr ⟨s, between, t, hbetween, hmem, last, symbol, next, ⟨j, hpush⟩,
        (Ahead.balanced hlast.balanced).trans hto, hfrom.trans hbefore.ahead⟩

/-- There is a balanced run between the controls, and all its transitions pump, whichever it
takes. -/
structure Covered (P : ι → System γ σ) (c d : γ) : Prop where
  balanced : Balanced (union P) c d
  pumping : ∀ labels, LabelledBalanced P c labels d → ∀ i ∈ labels, Pumping P i

theorem covered_of_loop (hbalanced : Balanced (union P) c d) (hloop : OnLoop P c d) :
    Covered P c d := by
  refine ⟨hbalanced, fun labels hlabels i hi => ?_⟩
  have hrun : ∀ stack, LabelledRun P (c, stack) labels (d, [] ++ stack) := hlabels.run
  exact pumping_of_loop hloop hrun hi

theorem Covered.before (h : Covered P c e) (hbefore : Balanced (union P) c d)
    (hafter : Balanced (union P) d e) : Covered P c d := by
  refine ⟨hbefore, fun first hfirst i hi => ?_⟩
  obtain ⟨second, hsecond⟩ := hafter.labelled
  exact h.pumping _ (hfirst.trans hsecond) i (List.mem_append_left _ hi)

theorem Covered.after (h : Covered P c e) (hbefore : Balanced (union P) c d)
    (hafter : Balanced (union P) d e) : Covered P d e := by
  refine ⟨hafter, fun second hsecond i hi => ?_⟩
  obtain ⟨first, hfirst⟩ := hbefore.labelled
  exact h.pumping _ (hfirst.trans hsecond) i (List.mem_append_right _ hi)

theorem Covered.inside {s t : γ} {symbol : σ} {opening closing : ι} (h : Covered P c d)
    (hpush : (P opening).push c symbol s) (hinner : Balanced (union P) s t)
    (hpop : (P closing).pop t symbol d) :
    Covered P s t ∧ Pumping P opening ∧ Pumping P closing := by
  obtain ⟨labels, hlabels⟩ := hinner.labelled
  have hall := fun i => h.pumping _ (.nest hpush hlabels hpop) i
  refine ⟨⟨hinner, fun between hbetween i hi => ?_⟩, hall _ (by simp), hall _ (by simp)⟩
  exact h.pumping _ (.nest hpush hbetween hpop) i (by simp [hi])

end

end Pushdown
