import Blorp.Check.Supertraits

/-!
# The check of the supertrait graph

`supertrait_cycle` from one trait, and the loop of `accept_trait_contracts` over all of them.
A walk holds each trait once, so it ends; it stops at an edge that returns to its root
exactly when the root is above itself.
-/

namespace Blorp.Check

open Fuel

/-- The loop of `accept_trait_contracts`: the first walk that reports ends it. -/
def checkSupertraits (traits : List AcceptedTrait) (fuel : Nat) : Outcome CheckError Unit :=
  traits.forM fun accepted => supertraitCycle traits accepted.id fuel accepted.id [accepted.id]

variable {traits : List AcceptedTrait} {root : TraitId}

def requiredTraits (traits : List AcceptedTrait) : List TraitId :=
  traits.flatMap fun accepted => accepted.supertraits.map (·.requiredTrait)

theorem mem_requiredTraits {current : TraitId} {supertrait : LocatedTrait}
    (h : supertrait ∈ directSupertraits traits current) :
    supertrait.requiredTrait ∈ requiredTraits traits := by
  unfold directSupertraits at h
  split at h
  · rename_i accepted haccepted
    exact List.mem_flatMap.mpr ⟨accepted, List.mem_of_getElem? haccepted, List.mem_map_of_mem h⟩
  · cases h

def unwalked (traits : List AcceptedTrait) (walked : List TraitId) : List TraitId :=
  (requiredTraits traits).filter fun id => !walked.contains id

theorem unwalked_lt {walked : List TraitId} {next : TraitId} (hnext : next ∈ requiredTraits traits)
    (hnew : next ∉ walked) :
    (unwalked traits (walked ++ [next])).length < (unwalked traits walked).length := by
  have hsub : unwalked traits (walked ++ [next]) =
      (unwalked traits walked).filter fun id => id != next := by
    unfold unwalked
    rw [List.filter_filter]
    refine List.filter_congr fun id _ => ?_
    by_cases hsame : id = next <;> simp [hsame]
  rw [hsub]
  refine List.length_filter_lt_length_iff_exists.mpr ⟨next, ?_, by simp⟩
  exact List.mem_filter.mpr ⟨hnext, by simpa using hnew⟩

/-- What a walk from `root` reports. -/
def ReportsCycle (traits : List AcceptedTrait) (root : TraitId) (outcome : Outcome CheckError Unit) : Prop :=
  ∃ span walked, outcome = .err (traitError span (.supertraitCycle walked)) ∧
    Relation.TransGen (Direct traits) root root

theorem forM_settles {ε α : Type} {f : Nat → α → Outcome ε PUnit} {P : Outcome ε PUnit → Prop} :
    ∀ (xs : List α), (∀ x ∈ xs, ∃ outcome, Outcome.Settles (fun n => f n x) outcome ∧
        (outcome = .ok () ∨ ((∃ e, outcome = .err e) ∧ P outcome))) →
      ∃ outcome, Outcome.Settles (fun n => xs.forM (f n)) outcome ∧
        (outcome = .ok () ∨ ((∃ e, outcome = .err e) ∧ P outcome)) := by
  intro xs
  induction xs with
  | nil =>
    intro _
    exact ⟨.ok (), Outcome.Settles.ok, .inl rfl⟩
  | cons x xs ih =>
    intro h
    obtain ⟨outcome, hfirst, houtcome⟩ := h x (by simp)
    rcases houtcome with rfl | ⟨⟨e, rfl⟩, hP⟩
    · obtain ⟨last, hrest, hlast⟩ := ih fun y hy => h y (List.mem_cons_of_mem _ hy)
      exact ⟨last, Outcome.Settles.bind_ok hfirst hrest, hlast⟩
    · exact ⟨.err e, Outcome.Settles.bind_err hfirst fun n _ => xs.forM (f n), .inr ⟨⟨e, rfl⟩, hP⟩⟩

/-- A walk ends, and reports only a root it has come back to. -/
theorem supertraitCycle_settles : ∀ (bound : Nat) (current : TraitId) (walked : List TraitId),
    (unwalked traits walked).length < bound → Relation.ReflTransGen (Direct traits) root current →
    ∃ outcome, Outcome.Settles (fun n => supertraitCycle traits root n current walked) outcome ∧
      (outcome = .ok () ∨ ((∃ e, outcome = .err e) ∧ ReportsCycle traits root outcome)) := by
  intro bound
  induction bound with
  | zero =>
    intro current walked hlt
    exact absurd hlt (Nat.not_lt_zero _)
  | succ bound ih =>
    intro current walked hlt hbelow
    let turn : Nat → LocatedTrait → Outcome CheckError Unit := fun n supertrait =>
      if supertrait.requiredTrait = root then
        .err (traitError supertrait.span (.supertraitCycle (walked ++ [supertrait.requiredTrait])))
      else if walked.any (· == supertrait.requiredTrait) then .ok ()
      else supertraitCycle traits root n supertrait.requiredTrait
        (walked ++ [supertrait.requiredTrait])
    have hturns := forM_settles (f := turn) (P := ReportsCycle traits root)
      (directSupertraits traits current) ?_
    · obtain ⟨outcome, hsettles, hspec⟩ := hturns
      exact ⟨outcome, Outcome.Settles.succ (fun _ => rfl) hsettles, hspec⟩
    · intro supertrait hmem
      have hdirect : Direct traits current supertrait.requiredTrait := ⟨supertrait, hmem, rfl⟩
      by_cases hroot : supertrait.requiredTrait = root
      · refine ⟨_, ?_, .inr ⟨⟨_, rfl⟩, supertrait.span, walked ++ [supertrait.requiredTrait], rfl,
          Relation.TransGen.tail' hbelow (hroot ▸ hdirect)⟩⟩
        simp only [turn, if_pos hroot]
        exact Outcome.Settles.err
      · by_cases hwalked : supertrait.requiredTrait ∈ walked
        · refine ⟨.ok (), ?_, .inl rfl⟩
          simp only [turn, if_neg hroot, if_pos (show walked.any
            (· == supertrait.requiredTrait) = true by simpa using hwalked)]
          exact Outcome.Settles.ok
        · have hless := unwalked_lt (mem_requiredTraits hmem) hwalked
          obtain ⟨outcome, hsettles, hspec⟩ := ih supertrait.requiredTrait
            (walked ++ [supertrait.requiredTrait]) (by omega) (hbelow.tail hdirect)
          refine ⟨outcome, ?_, hspec⟩
          simpa only [turn, if_neg hroot, if_neg (show ¬ walked.any
            (· == supertrait.requiredTrait) = true by simpa using hwalked)] using hsettles

/-- **One walk.**  It ends, and reports a cycle exactly when its root is above itself. -/
theorem supertraitCycle_iff (traits : List AcceptedTrait) (root : TraitId) :
    ∃ outcome, Outcome.Settles (fun n => supertraitCycle traits root n root [root]) outcome ∧
      (outcome = .ok () ∨ ∃ span walked,
        outcome = .err (traitError span (.supertraitCycle walked))) ∧
      (outcome ≠ .ok () ↔ Relation.TransGen (Direct traits) root root) := by
  obtain ⟨outcome, hsettles, hspec⟩ := supertraitCycle_settles _ root [root] (Nat.lt_succ_self _)
    (Relation.ReflTransGen.refl : Relation.ReflTransGen (Direct traits) root root)
  refine ⟨outcome, hsettles, ?_, ?_⟩
  · exact hspec.imp_right fun ⟨_, span, walked, herr, _⟩ => ⟨span, walked, herr⟩
  · constructor
    · intro hne
      obtain ⟨_, _, _, _, hcycle⟩ := hspec.resolve_left hne
      exact hcycle
    · rintro hcycle rfl
      obtain ⟨-, least, hleast⟩ := hsettles
      exact (clear_of_supertraitCycle (hleast least (Nat.le_refl _))).not_transGen hcycle

/-- Each row stands at the position of its identity. -/
def IssuedTraits (traits : List AcceptedTrait) : Prop :=
  ∀ (i : Nat) (declaration : AcceptedTrait), traits[i]? = some declaration → declaration.id = i

theorem checkSupertraits_settles (traits : List AcceptedTrait) :
    ∃ outcome, Outcome.Settles (checkSupertraits traits) outcome ∧
      (outcome = .ok () ∨ ((∃ e, outcome = .err e) ∧
        ∃ id, Relation.TransGen (Direct traits) id id)) := by
  refine forM_settles (f := fun n (accepted : AcceptedTrait) =>
    supertraitCycle traits accepted.id n accepted.id [accepted.id])
    (P := fun _ => ∃ id, Relation.TransGen (Direct traits) id id) traits fun accepted _ => ?_
  obtain ⟨outcome, hsettles, hform, hiff⟩ := supertraitCycle_iff traits accepted.id
  refine ⟨outcome, hsettles, hform.imp_right fun ⟨span, walked, herr⟩ => ⟨⟨_, herr⟩, ?_⟩⟩
  exact ⟨accepted.id, hiff.mp (by simp [herr])⟩

/-- A loop that reports nothing leaves every walk without a report. -/
theorem acyclic_of_checkSupertraits (hissued : IssuedTraits traits)
    (h : Outcome.Settles (checkSupertraits traits) (.ok ())) : Acyclic traits where
  issued := hissued
  walked := by
    intro declaration hmem
    obtain ⟨-, least, hleast⟩ := h
    exact ⟨least, Outcome.forM_eq_ok.mp (hleast least (Nat.le_refl _)) declaration hmem⟩

/-- **The supertrait graph.**  Every walk ends and reports the cycles through its root; the
loop over the table reports a cycle iff there is one, and else `entails` decides the
closure. -/
theorem checkSupertraits_exact (traits : List AcceptedTrait) (hissued : IssuedTraits traits) :
    (∀ root, ∃ outcome, Outcome.Settles (fun n => supertraitCycle traits root n root [root]) outcome ∧
      ((∃ span walked, outcome = .err (traitError span (.supertraitCycle walked))) ↔
        Relation.TransGen (Direct traits) root root)) ∧
      ∃ outcome, Outcome.Settles (checkSupertraits traits) outcome ∧
        ((∃ e, outcome = .err e) ↔ ∃ id, Relation.TransGen (Direct traits) id id) ∧
        (outcome = .ok () → ∀ held required, ∃ b,
          Outcome.Settles (fun n => entails (ε := CheckError) traits n held required) (.ok b) ∧
          (b = true ↔ Relation.ReflTransGen (Direct traits) held required)) := by
  refine ⟨fun root => ?_, ?_⟩
  · obtain ⟨outcome, hsettles, hform, hiff⟩ := supertraitCycle_iff traits root
    refine ⟨outcome, hsettles, Iff.trans ?_ hiff⟩
    constructor
    · rintro ⟨span, walked, rfl⟩
      simp
    · exact fun hne => hform.resolve_left hne
  · obtain ⟨outcome, hsettles, hspec⟩ := checkSupertraits_settles traits
    refine ⟨outcome, hsettles, ?_, ?_⟩
    · constructor
      · rintro ⟨e, rfl⟩
        exact (hspec.resolve_left (by simp)).2
      · rintro ⟨id, hcycle⟩
        rcases hspec with rfl | ⟨herr, -⟩
        · exact absurd hcycle ((acyclic_of_checkSupertraits hissued hsettles).not_transGen id)
        · exact herr
    · rintro rfl held required
      exact entails_settles (acyclic_of_checkSupertraits hissued hsettles) held required

def diamond : List AcceptedTrait :=
  [⟨0, [⟨1, compilerSpan⟩, ⟨2, compilerSpan⟩], []⟩, ⟨1, [⟨3, compilerSpan⟩], []⟩,
    ⟨2, [⟨3, compilerSpan⟩], []⟩, ⟨3, [], []⟩]

theorem diamond_issued : IssuedTraits diamond := by
  intro i declaration h
  rcases i with _ | _ | _ | _ | i
  iterate 4
    · cases h
      rfl
  · cases h

theorem checkSupertraits_exact_diamond : Outcome.Settles (checkSupertraits diamond) (.ok ()) ∧ ∃ b,
      Outcome.Settles (fun n => entails (ε := CheckError) diamond n 0 3) (.ok b) ∧
      (b = true ↔ Relation.ReflTransGen (Direct diamond) 0 3) := by
  obtain ⟨-, outcome, hsettles, -, hentails⟩ := checkSupertraits_exact diamond diamond_issued
  have hok : Outcome.Settles (checkSupertraits diamond) (.ok ()) :=
    .closed 3 (by simp) fun _ => rfl
  have hsame := hsettles.unique hok
  exact ⟨hok, hentails hsame 0 3⟩

end Blorp.Check
