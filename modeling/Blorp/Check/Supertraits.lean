import Blorp.Check.Traits
import Blorp.Lib.Acyclic

/-!
# Supertraits, as a relation

What `supertrait_cycle` and `entails` decide.  Acceptance walks up from every declared
trait; once no walk closes a cycle, the supertraits have no cycle at all, every ascent
ends, and `entails` is the reflexive transitive closure of the direct supertraits.
-/

namespace Blorp.Check

open Fuel

/-- `above` is a direct supertrait of `below`. -/
def Direct (traits : List AcceptedTrait) (below above : TraitId) : Prop :=
  ∃ supertrait ∈ directSupertraits traits below, supertrait.requiredTrait = above

/-- `held` proves `required`: it is that trait or below it. -/
abbrev Entails (traits : List AcceptedTrait) : TraitId → TraitId → Prop :=
  Relation.ReflTransGen (Direct traits)

/-- The declarations as `accept_trait_contracts` leaves them: each at the position of its
identity, and each walked without closing a cycle. -/
structure Acyclic (traits : List AcceptedTrait) : Prop where
  issued : ∀ (i : Nat) (declaration : AcceptedTrait), traits[i]? = some declaration → declaration.id = i
  walked : ∀ declaration ∈ traits, ∃ fuel,
    supertraitCycle traits declaration.id fuel declaration.id [declaration.id] = .ok ()

theorem clear_of_supertraitCycle {traits : List AcceptedTrait} {root : TraitId} :
    ∀ {fuel : Nat} {current : TraitId} {walked : List TraitId},
      supertraitCycle traits root fuel current walked = .ok () →
      Walks.Clear (Direct traits) root current walked := by
  intro fuel
  induction fuel with intro current walked h
  | zero => cases h
  | succ fuel ih =>
    have hall := Outcome.forM_eq_ok.mp h
    constructor
    · rintro next ⟨supertrait, hmem, rfl⟩ hroot
      have hstep := hall supertrait hmem
      rw [if_pos hroot] at hstep
      cases hstep
    · rintro next ⟨supertrait, hmem, rfl⟩ hwalked
      have hstep := hall supertrait hmem
      dsimp only at hstep
      split at hstep
      · cases hstep
      · rw [if_neg (by simpa using hwalked)] at hstep
        exact ih hstep

namespace Acyclic

variable {traits : List AcceptedTrait}

theorem not_transGen (h : Acyclic traits) (id : TraitId) :
    ¬ Relation.TransGen (Direct traits) id id := by
  intro hcycle
  obtain ⟨above, ⟨supertrait, hmem, -⟩, -⟩ := Relation.TransGen.head'_iff.mp hcycle
  unfold directSupertraits at hmem
  split at hmem
  · rename_i declaration hdeclaration
    obtain ⟨fuel, hwalk⟩ := h.walked declaration (List.mem_of_getElem? hdeclaration)
    rw [h.issued id declaration hdeclaration] at hwalk
    exact (clear_of_supertraitCycle hwalk).not_transGen hcycle
  · cases hmem

theorem wellFounded (h : Acyclic traits) : WellFounded (flip (Direct traits)) := by
  let targets := traits.flatMap fun declaration => declaration.supertraits.map (·.requiredTrait)
  have hfinite : ({id | id < traits.length} ∪ {id | id ∈ targets}).Finite :=
    (Set.finite_lt_nat _).union (List.finite_toSet targets)
  refine Walks.wellFounded_of_no_cycle hfinite ?_ h.not_transGen
  rintro below above ⟨supertrait, hmem, rfl⟩
  unfold directSupertraits at hmem
  split at hmem
  · rename_i declaration hdeclaration
    refine ⟨.inl (List.getElem?_eq_some_iff.mp hdeclaration).1, .inr ?_⟩
    exact List.mem_flatMap.mpr ⟨declaration, List.mem_of_getElem? hdeclaration,
      List.mem_map_of_mem hmem⟩
  · cases hmem

end Acyclic

/-! ## Tests over a list -/

variable {ε α : Type}

theorem anyOutcome_settles {f : Nat → α → Outcome ε Bool} {P : α → Prop} :
    ∀ (xs : List α), (∀ x ∈ xs, ∃ b, Outcome.Settles (fun n => f n x) (.ok b) ∧ (b = true ↔ P x)) →
      ∃ b, Outcome.Settles (fun n => anyOutcome (f n) xs) (.ok b) ∧ (b = true ↔ ∃ x ∈ xs, P x) := by
  intro xs
  induction xs with
  | nil =>
    intro _
    exact ⟨false, Outcome.Settles.ok, by simp⟩
  | cons x xs ih =>
    intro h
    obtain ⟨found, hfound, hiff⟩ := h x (by simp)
    obtain ⟨rest, hrest, hrestIff⟩ := ih fun y hy => h y (List.mem_cons_of_mem _ hy)
    cases found with
    | true =>
      refine ⟨true, Outcome.Settles.bind_ok hfound Outcome.Settles.ok, ?_⟩
      simp only [true_iff] at hiff ⊢
      exact ⟨x, by simp, hiff⟩
    | false =>
      refine ⟨rest, Outcome.Settles.bind_ok hfound hrest, hrestIff.trans ?_⟩
      have hnot : ¬ P x := by simpa using hiff
      simp [hnot]

/-- `entails` ends, and decides the closure of the direct supertraits. -/
theorem entails_settles {traits : List AcceptedTrait} (h : Acyclic traits)
    (held required : TraitId) :
    ∃ b, Outcome.Settles (fun n => entails (ε := ε) traits n held required) (.ok b) ∧
      (b = true ↔ Entails traits held required) := by
  induction held using h.wellFounded.induction with
  | _ held ih =>
    by_cases heq : held = required
    · subst heq
      refine ⟨true, ?_, iff_of_true rfl .refl⟩
      refine Outcome.Settles.succ (g := fun _ => .ok true) (fun n => ?_) Outcome.Settles.ok
      simp [entails]
    · have hsearch := anyOutcome_settles
        (f := fun n (supertrait : LocatedTrait) =>
          entails (ε := ε) traits n supertrait.requiredTrait required)
        (P := fun supertrait => Entails traits supertrait.requiredTrait required)
        (directSupertraits traits held)
        fun supertrait hmem => ih supertrait.requiredTrait ⟨supertrait, hmem, rfl⟩
      obtain ⟨b, hb, hiff⟩ := hsearch
      refine ⟨b, Outcome.Settles.succ (fun n => ?_) hb, hiff.trans ?_⟩
      · simp [entails, heq]
      · constructor
        · rintro ⟨supertrait, hmem, habove⟩
          exact .head ⟨supertrait, hmem, rfl⟩ habove
        · intro hentails
          obtain heq' | ⟨above, ⟨supertrait, hmem, rfl⟩, habove⟩ := hentails.cases_head
          · exact absurd heq' heq
          · exact ⟨supertrait, hmem, habove⟩

end Blorp.Check
