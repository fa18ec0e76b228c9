import Mathlib.Data.List.Forall2
import Mathlib.Data.List.Infix

/-!
# Nested openers and closers

`Nested opens closes xs depth`: no start of `xs` closes more than it opens, and `xs` leaves
`depth` open.  It is kept along a list that grows at its end, one element at a time.
-/

namespace List

variable {α β : Type} {opens closes : α → Bool} {xs ys : List α} {x : α} {depth : Nat}

structure Nested (opens closes : α → Bool) (xs : List α) (depth : Nat) : Prop where
  starts : ∀ ys, ys <+: xs → ys.countP closes ≤ ys.countP opens
  total : xs.countP opens = xs.countP closes + depth

namespace Nested

theorem nil : Nested opens closes [] 0 := by
  refine ⟨fun ys hys => ?_, rfl⟩
  rw [List.prefix_nil.mp hys]
  exact Nat.le_refl _

theorem snoc (h : Nested opens closes xs depth) {after : Nat}
    (hafter : depth + [x].countP opens = after + [x].countP closes) :
    Nested opens closes (xs ++ [x]) after := by
  have htotal := h.total
  refine ⟨fun ys hys => ?_, ?_⟩
  · rcases List.prefix_concat_iff.mp hys with rfl | hearlier
    · rw [List.countP_append, List.countP_append]
      omega
    · exact h.starts ys hearlier
  · rw [List.countP_append, List.countP_append]
    omega

theorem opener (h : Nested opens closes xs depth) (hopens : opens x = true)
    (hcloses : closes x = false) : Nested opens closes (xs ++ [x]) (depth + 1) :=
  h.snoc (by simp [hopens, hcloses])

theorem closer (h : Nested opens closes xs (depth + 1)) (hopens : opens x = false)
    (hcloses : closes x = true) : Nested opens closes (xs ++ [x]) depth :=
  h.snoc (by simp [hopens, hcloses])

theorem append (h : Nested opens closes xs depth)
    (hplain : ∀ y ∈ ys, opens y = false ∧ closes y = false) :
    Nested opens closes (xs ++ ys) depth := by
  induction ys generalizing xs with
  | nil => rwa [List.append_nil]
  | cons y ys ih =>
    obtain ⟨hopens, hcloses⟩ := hplain y List.mem_cons_self
    have hfirst : Nested opens closes (xs ++ [y]) depth := h.snoc (by simp [hopens, hcloses])
    rw [List.append_cons]
    exact ih hfirst fun z hz => hplain z (List.mem_cons_of_mem _ hz)

theorem countP_forall₂ {opens' : β → Bool} {zs : List β}
    (h : List.Forall₂ (fun x z => opens' z = opens x) xs zs) :
    zs.countP opens' = xs.countP opens := by
  induction h with
  | nil => rfl
  | cons hxz _ ih => rw [List.countP_cons, List.countP_cons, ih, hxz]

theorem congr {opens' closes' : β → Bool} {zs : List β}
    (hshape : List.Forall₂ (fun x z => opens' z = opens x ∧ closes' z = closes x) xs zs)
    (h : Nested opens closes xs depth) : Nested opens' closes' zs depth := by
  have hcounts : ∀ {xs : List α} {zs : List β},
      List.Forall₂ (fun x z => opens' z = opens x ∧ closes' z = closes x) xs zs →
      zs.countP opens' = xs.countP opens ∧ zs.countP closes' = xs.countP closes := by
    intro xs zs hall
    exact ⟨countP_forall₂ (hall.imp fun _ _ hxz => hxz.1),
      countP_forall₂ (hall.imp fun _ _ hxz => hxz.2)⟩
  constructor
  · rintro start ⟨rest, rfl⟩
    obtain ⟨first, last, hfirst, hlast, rfl⟩ : ∃ first last,
        List.Forall₂ (fun x z => opens' z = opens x ∧ closes' z = closes x) first start ∧
        List.Forall₂ (fun x z => opens' z = opens x ∧ closes' z = closes x) last rest ∧
        xs = first ++ last := by
      refine ⟨xs.take start.length, xs.drop start.length, ?_, ?_, (List.take_append_drop ..).symm⟩
      · exact List.forall₂_take_append xs start rest hshape
      · exact List.forall₂_drop_append xs start rest hshape
    obtain ⟨hopens, hcloses⟩ := hcounts hfirst
    rw [hopens, hcloses]
    exact h.starts first (List.prefix_append ..)
  · obtain ⟨hopens, hcloses⟩ := hcounts hshape
    rw [hopens, hcloses]
    exact h.total

end Nested

end List
