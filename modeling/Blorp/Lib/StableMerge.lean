import Mathlib.Data.List.Basic

/-!
# Stable merging

A list is arranged in runs of `width` over a comparison `le`: it is a permutation of its input,
and where `le` is a total preorder, its runs are sorted and tied elements keep their order.
-/

namespace StableMerge

variable {α : Type} {le : α → α → Bool} {width : Nat}

/-- A comparison that orders every list. -/
structure TotalPreorder (le : α → α → Bool) : Prop where
  trans : ∀ x y z, le x y = true → le y z = true → le x z = true
  total : ∀ x y, (le x y || le y x) = true

def tied (le : α → α → Bool) (x y : α) : Bool := le x y && le y x

def Sorted (le : α → α → Bool) (xs : List α) : Prop := xs.Pairwise fun x y => le x y = true

/-- A rearrangement of `input` in runs of `width`. -/
structure Arranged (le : α → α → Bool) (width : Nat) (result input : List α) : Prop where
  perm : result.Perm input
  sorted : TotalPreorder le → ∀ run, Sorted le ((result.drop (run * width)).take width)
  stable : TotalPreorder le → ∀ x, result.filter (tied le x) = input.filter (tied le x)

theorem Sorted.sublist {xs ys : List α} (h : Sorted le ys) (hsub : xs.Sublist ys) : Sorted le xs :=
  List.Pairwise.sublist hsub h

theorem Arranged.refl (xs : List α) : Arranged le 1 xs xs := by
  refine ⟨List.Perm.refl xs, fun _ run => ?_, fun _ _ => rfl⟩
  cases hrest : xs.drop (run * 1) with
  | nil => exact List.Pairwise.nil
  | cons x rest => exact List.pairwise_singleton _ x

theorem arranged_nil : Arranged le width ([] : List α) [] :=
  ⟨List.Perm.nil, fun _ _ => by simp [Sorted], fun _ _ => rfl⟩

theorem Arranged.trans {width' : Nat} {result middle input : List α}
    (h : Arranged le width result middle) (h' : Arranged le width' middle input) :
    Arranged le width result input :=
  ⟨h.perm.trans h'.perm, h.sorted, fun horder x => (h.stable horder x).trans (h'.stable horder x)⟩

theorem Arranged.append {result input result' input' : List α}
    (h : Arranged le width result input) (h' : Arranged le width result' input')
    (hwhole : width ∣ result.length) : Arranged le width (result ++ result') (input ++ input') := by
  refine ⟨h.perm.append h'.perm, fun horder run => ?_, fun horder x => ?_⟩
  · obtain ⟨runs, hruns⟩ := hwhole
    rw [Nat.mul_comm] at hruns
    by_cases hlt : run < runs
    · have hfits : (run + 1) * width ≤ runs * width := Nat.mul_le_mul_right width hlt
      rw [Nat.add_mul, Nat.one_mul] at hfits
      rw [List.drop_append_of_le_length (by omega), List.take_append_of_le_length (by simp; omega)]
      exact h.sorted horder run
    · have hpast : result.length ≤ run * width := by
        rw [hruns]
        exact Nat.mul_le_mul_right width (by omega)
      have hrest : run * width - result.length = (run - runs) * width := by rw [hruns, Nat.sub_mul]
      rw [List.drop_append, List.drop_eq_nil_of_le hpast, List.nil_append, hrest]
      exact h'.sorted horder (run - runs)
  · rw [List.filter_append, List.filter_append, h.stable horder, h'.stable horder]

theorem Arranged.whole {result input : List α} (h : Arranged le width result input)
    (horder : TotalPreorder le) (hlength : result.length ≤ width) : Sorted le result := by
  have hrun := h.sorted horder 0
  rwa [Nat.zero_mul, List.drop_zero, List.take_of_length_le hlength] at hrun

theorem filter_tied_eq_nil (horder : TotalPreorder le) {x y : α} {ys : List α}
    (hsorted : Sorted le (y :: ys)) {z : α} (hlt : le y z = false) (htied : tied le x z = true) :
    (y :: ys).filter (tied le x) = [] := by
  rw [List.filter_eq_nil_iff]
  intro other hother hboth
  obtain ⟨hxz, hzx⟩ : le x z = true ∧ le z x = true := by simpa [tied] using htied
  obtain ⟨hxo, hox⟩ : le x other = true ∧ le other x = true := by simpa [tied] using hboth
  have hyo : le y other = true := by
    rcases List.mem_cons.mp hother with rfl | hmem
    · simpa using horder.total other other
    · exact List.rel_of_pairwise_cons hsorted hmem
  have hyz : le y z = true := horder.trans _ _ _ hyo (horder.trans _ _ _ hox hxz)
  rw [hyz] at hlt
  cases hlt

theorem filter_merge (horder : TotalPreorder le) (x : α) :
    ∀ {left : List α} (right : List α), Sorted le left →
      (left.merge right le).filter (tied le x)
        = left.filter (tied le x) ++ right.filter (tied le x) := by
  intro left
  induction left with
  | nil => simp
  | cons y left ih =>
    intro right hleft
    induction right with
    | nil => simp
    | cons z right ihright =>
      by_cases hle : le y z = true
      · rw [List.cons_merge_cons_pos _ _ _ hle, List.filter_cons, List.filter_cons,
          ih (z :: right) hleft.tail]
        split_ifs <;> rfl
      · rw [List.cons_merge_cons_neg _ _ _ hle, List.filter_cons, ihright]
        rw [Bool.not_eq_true] at hle
        by_cases htied : tied le x z = true
        · rw [if_pos htied, filter_tied_eq_nil horder hleft hle htied, List.filter_cons,
            if_pos htied]
          rfl
        · rw [if_neg htied, List.filter_cons (x := z), if_neg htied]

/-- Two sorted runs merge into one run. -/
theorem arranged_merge {left right : List α} (hleft : TotalPreorder le → Sorted le left)
    (hright : TotalPreorder le → Sorted le right) :
    Arranged le width (left.merge right le) (left ++ right) := by
  refine ⟨List.merge_perm_append le, fun horder run => ?_, fun horder x => ?_⟩
  · have hsorted : Sorted le (left.merge right le) :=
      List.pairwise_merge horder.trans horder.total left right (hleft horder) (hright horder)
    exact hsorted.sublist ((List.take_sublist _ _).trans (List.drop_sublist _ _))
  · rw [filter_merge horder x right (hleft horder), List.filter_append]

end StableMerge
