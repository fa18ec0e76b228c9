import Mathlib.Order.WellFoundedSet
import Mathlib.Logic.Relation

/-!
# Walks that find cycles

A depth-first walk from a root that never enters a node twice finds every cycle through
the root: a longest way around can be cut short where it meets itself.  `Clear` is what
such a walk has checked when it ends.
-/

namespace Walks

variable {α : Type} {edge : α → α → Prop}

/-- A way from one node to another in `n` edges whose inner nodes are not `avoided`. -/
inductive Route (edge : α → α → Prop) (avoided : List α) : Nat → α → α → Prop
  | edge {a b : α} : edge a b → Route edge avoided 1 a b
  | step {n : Nat} {a x b : α} : edge a x → x ∉ avoided → Route edge avoided n x b →
      Route edge avoided (n + 1) a b

theorem Route.avoid_or_shorter {avoided : List α} {n : Nat} {x b : α} (a : α)
    (h : Route edge avoided n x b) :
    Route edge (avoided ++ [a]) n x b ∨ ∃ m < n, Route edge avoided m a b := by
  induction h with
  | edge hedge => exact .inl (.edge hedge)
  | @step n y z b hedge hz hroute ih =>
    obtain havoids | ⟨m, hm, hshort⟩ := ih
    · by_cases hza : z = a
      · subst hza
        exact .inr ⟨n, by omega, hroute⟩
      · refine .inl (.step hedge ?_ havoids)
        simp only [List.mem_append, List.mem_singleton, not_or]
        exact ⟨hz, hza⟩
    · exact .inr ⟨m, by omega, hshort⟩

theorem Route.avoid_start {avoided : List α} {a b : α} :
    ∀ {n : Nat}, Route edge avoided n a b → ∃ m ≤ n, Route edge (avoided ++ [a]) m a b := by
  intro n
  induction n using Nat.strong_induction_on with
  | _ n ih =>
    intro h
    obtain havoids | ⟨m, hm, hshort⟩ := h.avoid_or_shorter a
    · exact ⟨n, le_rfl, havoids⟩
    · obtain ⟨k, hk, havoids⟩ := ih m hm hshort
      exact ⟨k, by omega, havoids⟩

theorem exists_route {a b : α} (h : Relation.TransGen edge a b) : ∃ n, Route edge [] n a b := by
  induction h using Relation.TransGen.head_induction_on with
  | single hedge => exact ⟨1, .edge hedge⟩
  | head hedge _ ih =>
    obtain ⟨n, hroute⟩ := ih
    exact ⟨n + 1, .step hedge (by simp) hroute⟩

/-- No edge from here ends at the root, and each node not yet walked is clear in turn. -/
inductive Clear (edge : α → α → Prop) (root : α) : α → List α → Prop
  | intro {a : α} {walked : List α}
      (ends : ∀ b, edge a b → b ≠ root)
      (goes : ∀ b, edge a b → b ∉ walked → Clear edge root b (walked ++ [b])) :
      Clear edge root a walked

theorem Clear.no_route {root a : α} {walked : List α} (h : Clear edge root a walked) :
    ∀ n, ¬ Route edge walked n a root := by
  induction h with
  | intro ends goes ih =>
    intro n hroute
    cases hroute with
    | edge hedge => exact ends root hedge rfl
    | step hedge hx hroute =>
      obtain ⟨m, -, havoids⟩ := hroute.avoid_start
      exact ih _ hedge hx m havoids

theorem Clear.not_transGen {root : α} (h : Clear edge root root [root]) :
    ¬ Relation.TransGen edge root root := by
  intro hcycle
  obtain ⟨n, hroute⟩ := exists_route hcycle
  obtain ⟨m, -, havoids⟩ := hroute.avoid_start
  exact h.no_route m havoids

theorem wellFounded_of_no_cycle {nodes : Set α} (hfinite : nodes.Finite)
    (hnodes : ∀ a b, edge a b → a ∈ nodes ∧ b ∈ nodes)
    (hcycle : ∀ a, ¬ Relation.TransGen edge a a) : WellFounded (flip edge) := by
  let above : α → α → Prop := flip (Relation.TransGen edge)
  have horder : IsStrictOrder α above :=
    { irrefl := hcycle, trans := fun _ _ _ hab hbc => Relation.TransGen.trans hbc hab }
  have hwell : WellFounded fun a b => above a b ∧ a ∈ nodes ∧ b ∈ nodes :=
    Set.wellFoundedOn_iff.mp hfinite.wellFoundedOn
  refine Subrelation.wf ?_ hwell
  intro a b hedge
  exact ⟨Relation.TransGen.single hedge, (hnodes b a hedge).2, (hnodes b a hedge).1⟩

end Walks
