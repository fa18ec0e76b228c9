import Mathlib.Data.List.Perm.Basic

/-!
# Lists in another order

`Reordered R as bs`: the rows of `bs` are those of `as`, each up to `R`, in another order.
-/

variable {α β γ δ : Type} {R : α → β → Prop} {S : γ → δ → Prop} {as : List α} {bs : List β}

def Reordered (R : α → β → Prop) (as : List α) (bs : List β) : Prop :=
  ∃ rows, as.Perm rows ∧ List.Forall₂ R rows bs

namespace Reordered

theorem exists_of_rel {a : α} {found : Option β} (h : Option.Rel R (some a) found) :
    ∃ b, found = some b ∧ R a b := by
  cases h with
  | some hab => exact ⟨_, rfl, hab⟩

theorem exists_related (h : List.Forall₂ R as bs) {a : α} (ha : a ∈ as) : ∃ b ∈ bs, R a b := by
  induction h with
  | nil => cases ha
  | cons hhead _ ih =>
    rcases List.mem_cons.mp ha with rfl | ha
    · exact ⟨_, List.mem_cons_self, hhead⟩
    · obtain ⟨b, hb, hrelated⟩ := ih ha
      exact ⟨b, List.mem_cons_of_mem _ hb, hrelated⟩

theorem of_forall₂ (h : List.Forall₂ R as bs) : Reordered R as bs := ⟨as, .refl as, h⟩

theorem forth (h : Reordered R as bs) {a : α} (ha : a ∈ as) : ∃ b ∈ bs, R a b := by
  obtain ⟨rows, hperm, hrows⟩ := h
  exact exists_related hrows (hperm.mem_iff.mp ha)

theorem symm {T : β → α → Prop} (h : Reordered R as bs) (hT : ∀ a b, R a b → T b a) :
    Reordered T bs as := by
  obtain ⟨rows, hperm, hrows⟩ := h
  obtain ⟨others, hothers, hback⟩ := List.perm_comp_forall₂ hperm hrows
  exact ⟨others, hback.symm, hothers.flip.imp fun b a hab => hT a b hab⟩

theorem back (h : Reordered R as bs) {b : β} (hb : b ∈ bs) : ∃ a ∈ as, R a b :=
  (h.symm (T := fun b a => R a b) fun _ _ hab => hab).forth hb

theorem append {as' : List α} {bs' : List β} (h : Reordered R as bs) (h' : Reordered R as' bs') :
    Reordered R (as ++ as') (bs ++ bs') := by
  obtain ⟨rows, hperm, hrows⟩ := h
  obtain ⟨rows', hperm', hrows'⟩ := h'
  exact ⟨rows ++ rows', hperm.append hperm', List.rel_append hrows hrows'⟩

theorem filter {p : α → Bool} {q : β → Bool} (h : Reordered R as bs)
    (hpq : ∀ a b, R a b → p a = q b) : Reordered R (as.filter p) (bs.filter q) := by
  obtain ⟨rows, hperm, hrows⟩ := h
  refine ⟨rows.filter p, hperm.filter p, List.rel_filter ?_ hrows⟩
  intro a b hab
  simp only [hpq a b hab]

theorem map {f : α → γ} {g : β → δ} (h : Reordered R as bs) (hfg : ∀ a b, R a b → S (f a) (g b)) :
    Reordered S (as.map f) (bs.map g) := by
  obtain ⟨rows, hperm, hrows⟩ := h
  exact ⟨rows.map f, hperm.map f, List.rel_map (fun a b => hfg a b) hrows⟩

theorem flatMap {f : α → List γ} {g : β → List δ} (h : Reordered R as bs)
    (hfg : ∀ a b, R a b → List.Forall₂ S (f a) (g b)) :
    Reordered S (as.flatMap f) (bs.flatMap g) := by
  obtain ⟨rows, hperm, hrows⟩ := h
  exact ⟨rows.flatMap f, hperm.flatMap_right f, List.rel_flatMap hrows fun a b => hfg a b⟩

theorem pairwise {P : α → α → Prop} {Q : β → β → Prop} (h : Reordered R as bs)
    (hsymm : ∀ a a', P a a' → P a' a)
    (hPQ : ∀ a a' b b', R a b → R a' b' → P a a' → Q b b') (hP : as.Pairwise P) :
    bs.Pairwise Q := by
  obtain ⟨rows, hperm, hrows⟩ := h
  replace hP : rows.Pairwise P := hperm.pairwise hP fun h => hsymm _ _ h
  clear hperm
  induction hrows with
  | nil => exact .nil
  | @cons a b rows bs hab hrest ih =>
    obtain ⟨hfirst, hothers⟩ := List.pairwise_cons.mp hP
    refine List.pairwise_cons.mpr ⟨fun b' hb' => ?_, ih hothers⟩
    obtain ⟨a', ha', hab'⟩ := exists_related hrest.flip hb'
    exact hPQ a a' b b' hab hab' (hfirst a' ha')

end Reordered
