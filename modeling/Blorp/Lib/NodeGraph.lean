import Mathlib.Data.List.Basic

/-!
# Append-only node graphs

A graph kept as a list of nodes that only grows: a node is named by its position
and refers to nodes already issued.  `step` says what a node does on the input at
hand: it ends with a result, goes on to another node, or is stuck (`none`).
`run` follows it for at most `fuel` nodes.
-/

namespace NodeGraph

variable {ν ρ : Type}

/-- What one node decides: go to another node, or end with a result. -/
inductive Move (ρ : Type) where
  | goto (target : Nat)
  | done (result : ρ)
  deriving Repr

def run (step : ν → Option (Move ρ)) (nodes : List ν) : Nat → Nat → Option ρ
  | 0, _ => none
  | fuel + 1, entry =>
      match nodes[entry]? with
      | none => none
      | some node =>
          match step node with
          | none => none
          | some (.done result) => some result
          | some (.goto target) => run step nodes fuel target

theorem run_append (step : ν → Option (Move ρ)) (nodes more : List ν) (result : ρ) :
    ∀ fuel entry, run step nodes fuel entry = some result →
      run step (nodes ++ more) fuel entry = some result := by
  intro fuel
  induction fuel with
  | zero => intro entry h; simp [run] at h
  | succ fuel ih =>
    intro entry h
    simp only [run] at h ⊢
    cases hn : nodes[entry]? with
    | none => rw [hn] at h; simp at h
    | some node =>
      have hlt : entry < nodes.length := (List.getElem?_eq_some_iff.mp hn).1
      rw [hn] at h
      rw [List.getElem?_append_left hlt, hn]
      cases hs : step node with
      | none => simp [hs] at h
      | some move =>
        cases move with
        | done r => simpa [hs] using h
        | goto target =>
          simp only [hs] at h ⊢
          exact ih target h

theorem run_snoc_goto (step : ν → Option (Move ρ)) (nodes : List ν) (node : ν) (target fuel : Nat)
    (result : ρ) (hs : step node = some (.goto target))
    (h : run step nodes fuel target = some result) :
    run step (nodes ++ [node]) (fuel + 1) nodes.length = some result := by
  simp only [run, List.getElem?_concat_length, hs]
  exact run_append step nodes [node] result fuel target h

theorem run_snoc_done (step : ν → Option (Move ρ)) (nodes : List ν) (node : ν) (fuel : Nat)
    (result : ρ) (hs : step node = some (.done result)) :
    run step (nodes ++ [node]) (fuel + 1) nodes.length = some result := by
  simp [run, hs]

/-! ## Runs that go down -/

inductive Visits (step : ν → Option (Move ρ)) (nodes : List ν) (entry : Nat) : Nat → Prop where
  | entry : Visits step nodes entry entry
  | goto {position target : Nat} {node : ν} (before : Visits step nodes entry position)
      (found : nodes[position]? = some node) (goes : step node = some (.goto target)) :
      Visits step nodes entry target

/-- A node that is neither missing nor stuck, and goes to an earlier one. -/
def Descends (step : ν → Option (Move ρ)) (nodes : List ν) (position : Nat) : Prop :=
  ∃ node move, nodes[position]? = some node ∧ step node = some move ∧
    ∀ target, move = .goto target → target < position

theorem run_ends {step : ν → Option (Move ρ)} {nodes : List ν} {entry : Nat}
    (hdescends : ∀ position, Visits step nodes entry position → Descends step nodes position) :
    ∃ position node result, Visits step nodes entry position ∧ nodes[position]? = some node ∧
      step node = some (.done result) ∧
      ∀ fuel, entry < fuel → run step nodes fuel entry = some result := by
  have hdown : ∀ position, Visits step nodes entry position →
      ∃ last node result, Visits step nodes entry last ∧ nodes[last]? = some node ∧
        step node = some (.done result) ∧
        ∀ fuel, position < fuel → run step nodes fuel position = some result := by
    intro position
    induction position using Nat.strongRecOn with
    | _ position ih =>
      intro hvisits
      obtain ⟨node, move, hnode, hmove, hlower⟩ := hdescends position hvisits
      cases move with
      | done result =>
        refine ⟨position, node, result, hvisits, hnode, hmove, fun fuel hfuel => ?_⟩
        obtain ⟨rest, rfl⟩ : ∃ rest, fuel = rest + 1 := ⟨fuel - 1, by omega⟩
        simp [run, hnode, hmove]
      | goto target =>
        have htarget : target < position := hlower target rfl
        obtain ⟨last, final, result, hlast, hfinal, hdone, hrun⟩ :=
          ih target htarget (.goto hvisits hnode hmove)
        refine ⟨last, final, result, hlast, hfinal, hdone, fun fuel hfuel => ?_⟩
        obtain ⟨rest, rfl⟩ : ∃ rest, fuel = rest + 1 := ⟨fuel - 1, by omega⟩
        simp only [run, hnode, hmove]
        exact hrun rest (by omega)
  exact hdown entry .entry

end NodeGraph
