import Blorp.Lib.While

/-!
# Worklists

A list that grows while it is walked: `worklist items process` processes each item of a
state once, in order, the ones that processing appends included.  When the items are
bounded the walk ends, and each item was processed in some state before the last
(worklist_settles).
-/

namespace Fuel

variable {σ α : Type}

def worklistStep (items : σ → List α) (process : σ → α → σ) (state : σ × Nat) : σ × Nat :=
  match (items state.1)[state.2]? with
  | none => (state.1, state.2 + 1)
  | some item => (process state.1 item, state.2 + 1)

def worklist (items : σ → List α) (process : σ → α → σ) (fuel : Nat) (start : σ) :
    Outcome Empty σ := do
  let last ← repeatWhile (fun state => decide (state.2 < (items state.1).length))
    (fun state => .ok (worklistStep items process state)) fuel (start, 0)
  .ok last.1

/-- A loop reaches every element: `r` relates the states before and after it. -/
theorem foldl_rel {r : σ → σ → Prop} (hrefl : ∀ s, r s s)
    (htrans : ∀ {s t u}, r s t → r t u → r s u) {f : σ → α → σ} :
    ∀ (xs : List α), (∀ x ∈ xs, ∀ s, r s (f s x)) → ∀ s, r s (xs.foldl f s) := by
  intro xs
  induction xs with
  | nil => exact fun _ => hrefl
  | cons x xs ih =>
    intro hstep s
    exact htrans (hstep x List.mem_cons_self s)
      (ih (fun y hy => hstep y (List.mem_cons_of_mem x hy)) (f s x))

theorem foldl_visits {r : σ → σ → Prop} (hrefl : ∀ s, r s s)
    (htrans : ∀ {s t u}, r s t → r t u → r s u) {f : σ → α → σ} {x : α} :
    ∀ (xs : List α), (∀ x ∈ xs, ∀ s, r s (f s x)) → x ∈ xs →
      ∀ s, ∃ between, r s between ∧ r (f between x) (xs.foldl f s) := by
  intro xs
  induction xs with
  | nil =>
    intro _ hx
    cases hx
  | cons y xs ih =>
    intro hstep hx s
    have hrest := fun z hz => hstep z (List.mem_cons_of_mem y hz)
    rcases List.mem_cons.mp hx with rfl | hmem
    · exact ⟨s, hrefl s, foldl_rel hrefl htrans xs hrest (f s x)⟩
    · obtain ⟨between, hbefore, hafter⟩ := ih hrest hmem (f s y)
      exact ⟨between, htrans (hstep y List.mem_cons_self s) hbefore, hafter⟩

theorem getElem?_of_grows {xs ys : List α} (h : xs <+: ys) {i : Nat} (hi : i < xs.length) :
    ys[i]? = xs[i]? := by
  rw [List.prefix_iff_getElem?.mp h i hi, List.getElem?_eq_getElem hi]

section

variable {I : σ → Prop}

/-- What a walk from `start` knows at a position, where `r` relates each state to the later
ones: each earlier item was processed in some state on the way. -/
structure Walked (items : σ → List α) (process : σ → α → σ) (r : σ → σ → Prop) (I : σ → Prop)
    (start : σ) (state : σ × Nat) : Prop where
  holds : I state.1
  grown : r start state.1
  position : state.2 ≤ (items state.1).length
  processed : ∀ (i : Nat) (item : α), i < state.2 → (items state.1)[i]? = some item →
    ∃ before, I before ∧ r start before ∧ (items before)[i]? = some item ∧
      r (process before item) state.1

section

variable {r : σ → σ → Prop} (items : σ → List α) (process : σ → α → σ)
  (htrans : ∀ {s t u}, r s t → r t u → r s u)
  (hitems : ∀ {s t}, r s t → items s <+: items t)
  (hprocess : ∀ s, ∀ item ∈ items s, I s → I (process s item) ∧ r s (process s item))

include htrans hitems hprocess

theorem Walked.step (hrefl : ∀ s, r s s) {start : σ} {state : σ × Nat}
    (h : Walked items process r I start state) (hlt : state.2 < (items state.1).length) :
    Walked items process r I start (worklistStep items process state) := by
  have hitem := List.getElem?_eq_getElem hlt
  obtain ⟨hnext, hgrows⟩ := hprocess state.1 _ (List.getElem_mem hlt) h.holds
  unfold worklistStep
  rw [hitem]
  refine ⟨hnext, htrans h.grown hgrows, ?_, ?_⟩
  · exact Nat.le_trans hlt (hitems hgrows).length_le
  · intro i item hi hget
    simp only at hi hget
    have hold : i < (items state.1).length := by omega
    rw [getElem?_of_grows (hitems hgrows) hold] at hget
    rcases Nat.lt_or_ge i state.2 with hearlier | hlast
    · obtain ⟨before, hbefore, hstart, hin, hafter⟩ := h.processed i item hearlier hget
      exact ⟨before, hbefore, hstart, hin, htrans hafter hgrows⟩
    · obtain rfl : i = state.2 := by omega
      rw [hitem] at hget
      obtain rfl : _ = item := by simpa using hget
      exact ⟨state.1, h.holds, h.grown, hitem, hrefl _⟩

theorem worklist_visits (hrefl : ∀ s, r s s) {start : σ} {bound : Nat}
    (hbound : ∀ s, I s → (items s).length ≤ bound) (hstart : I start) :
    ∃ last, Outcome.Settles (fun n => worklist items process n start) (.ok last) ∧ I last ∧
      r start last ∧ ∀ (i : Nat) (item : α), (items last)[i]? = some item →
        ∃ before, I before ∧ r start before ∧ (items before)[i]? = some item ∧
          r (process before item) last := by
  obtain ⟨last, hrun, hwalked, hend⟩ := repeatWhile_settles (ε := Empty)
    (fun state : σ × Nat => decide (state.2 < (items state.1).length))
    (fun _ state => .ok (worklistStep items process state))
    (Walked items process r I start) (fun state => bound - state.2)
    (by
      intro state hwalked htest
      have hlt : state.2 < (items state.1).length := by simpa using htest
      refine ⟨_, Outcome.Settles.ok,
        Walked.step (r := r) items process (fun h h' => htrans h h') (fun h => hitems h) hprocess
          hrefl hwalked hlt, ?_⟩
      have hle := hbound state.1 hwalked.holds
      have hposition : (worklistStep items process state).2 = state.2 + 1 := by
        unfold worklistStep
        split <;> rfl
      omega)
    (start, 0) ⟨hstart, hrefl start, Nat.zero_le _, by simp⟩
  have hend : ¬ last.2 < (items last.1).length := by simpa using hend
  refine ⟨last.1, ?_, hwalked.holds, hwalked.grown, ?_⟩
  · exact Outcome.Settles.bind_ok hrun Outcome.Settles.ok
  · intro i item hget
    have hlt := (List.getElem?_eq_some_iff.mp hget).1
    exact hwalked.processed i item (by omega) hget

end

theorem worklist_settles (items : σ → List α) (process : σ → α → σ) {start : σ} {bound : Nat}
    (hprocess : ∀ s, ∀ item ∈ items s, I s → I (process s item) ∧ items s <+: items (process s item))
    (hbound : ∀ s, I s → (items s).length ≤ bound) (hstart : I start) :
    ∃ last, Outcome.Settles (fun n => worklist items process n start) (.ok last) ∧ I last ∧
      items start <+: items last ∧
      ∀ (i : Nat) (item : α), (items last)[i]? = some item →
        ∃ before, I before ∧ items start <+: items before ∧ (items before)[i]? = some item ∧
          items (process before item) <+: items last :=
  worklist_visits (r := fun s t => items s <+: items t) items process (fun h h' => h.trans h')
    (fun h => h) hprocess (fun _ => List.prefix_rfl) hbound hstart

end

end Fuel
