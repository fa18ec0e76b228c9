import Blorp.Lib.Loops

/-!
# While loops

`repeatWhile test body` runs its body while the test holds and uses one unit of fuel a
turn.  A loop whose body keeps an invariant and lowers a measure settles, with the
invariant and the test's failure at its end (`repeatWhile_settles`); a loop whose turns
are known settles where they end (`repeatWhile_iterate`).
-/

namespace Fuel

variable {ε σ α : Type}

def repeatWhile (test : σ → Bool) (body : σ → Outcome ε σ) : Nat → σ → Outcome ε σ
  | 0, _ => .timeout
  | fuel + 1, s =>
      if test s then do
        let next ← body s
        repeatWhile test body fuel next
      else .ok s

/-- A loop that lowers a measure settles.  Its body may use fuel of its own. -/
theorem repeatWhile_settles (test : σ → Bool) (body : Nat → σ → Outcome ε σ) (I : σ → Prop)
    (measure : σ → Nat)
    (step : ∀ s, I s → test s = true →
      ∃ next, Outcome.Settles (fun n => body n s) (.ok next) ∧ I next ∧ measure next < measure s) :
    ∀ s, I s → ∃ last, Outcome.Settles (fun n => repeatWhile test (body n) n s) (.ok last) ∧
      I last ∧ test last = false := by
  suffices hall : ∀ bound s, measure s < bound → I s → ∃ last least, I last ∧ test last = false ∧
      ∀ n fuel, least ≤ n → least ≤ fuel → repeatWhile test (body n) fuel s = .ok last by
    intro s hs
    obtain ⟨last, least, hlast, htest, hrun⟩ := hall (measure s + 1) s (Nat.lt_succ_self _) hs
    exact ⟨last, ⟨by simp, least, fun fuel hle => hrun fuel fuel hle hle⟩, hlast, htest⟩
  intro bound
  induction bound with
  | zero =>
    intro s hlt
    exact absurd hlt (Nat.not_lt_zero _)
  | succ bound ih =>
    intro s hlt hs
    cases htest : test s with
    | false =>
      refine ⟨s, 1, hs, htest, fun n fuel _ hle => ?_⟩
      obtain ⟨fewer, rfl⟩ : ∃ fewer, fuel = fewer + 1 := ⟨fuel - 1, by omega⟩
      simp [repeatWhile, htest]
    | true =>
      obtain ⟨next, ⟨-, enough, hbody⟩, hnext, hmeasure⟩ := step s hs htest
      obtain ⟨last, least, hlast, hend, hrun⟩ := ih next (by omega) hnext
      refine ⟨last, max enough (least + 1), hlast, hend, fun n fuel hn hle => ?_⟩
      obtain ⟨fewer, rfl⟩ : ∃ fewer, fuel = fewer + 1 := ⟨fuel - 1, by omega⟩
      simp only [repeatWhile, htest, ↓reduceIte, hbody n (by omega), Outcome.ok_bind]
      exact hrun n fewer (by omega) (by omega)

theorem repeatWhile_yields {test : σ → Bool} {body : σ → Outcome ε σ} {I : σ → Prop}
    (step : ∀ s next, I s → body s = .ok next → I next) :
    ∀ {fuel : Nat} {s last : σ}, I s → repeatWhile test body fuel s = .ok last → I last := by
  intro fuel
  induction fuel with
  | zero =>
    intro s last _ h
    cases h
  | succ fuel ih =>
    intro s last hs h
    unfold repeatWhile at h
    split at h
    · obtain ⟨next, hnext, h⟩ := Outcome.peel h
      exact ih (step s next hs hnext) h
    · cases h
      exact hs

/-- A loop that turns exactly `count` times. -/
theorem repeatWhile_iterate (test : σ → Bool) (next : σ → σ) (count : Nat) :
    ∀ s, (∀ turn < count, test (next^[turn] s) = true) → test (next^[count] s) = false →
      Outcome.Settles (ε := ε) (fun n => repeatWhile test (fun s => .ok (next s)) n s)
        (.ok (next^[count] s)) := by
  suffices hall : ∀ s, (∀ turn < count, test (next^[turn] s) = true) →
      test (next^[count] s) = false → ∀ fuel, count < fuel →
      repeatWhile (ε := ε) test (fun s => .ok (next s)) fuel s = .ok (next^[count] s) by
    intro s hturns hend
    exact ⟨by simp, count + 1, fun fuel hle => hall s hturns hend fuel (by omega)⟩
  induction count with
  | zero =>
    intro s _ hend fuel hlt
    obtain ⟨fewer, rfl⟩ : ∃ fewer, fuel = fewer + 1 := ⟨fuel - 1, by omega⟩
    have hend : test s = false := hend
    simp [repeatWhile, hend]
  | succ count ih =>
    intro s hturns hend fuel hlt
    obtain ⟨fewer, rfl⟩ : ∃ fewer, fuel = fewer + 1 := ⟨fuel - 1, by omega⟩
    have hfirst : test s = true := hturns 0 (Nat.succ_pos count)
    simp only [repeatWhile, hfirst, ↓reduceIte, Outcome.ok_bind, Function.iterate_succ_apply]
    refine ih (next s) (fun turn hturn => ?_) ?_ fewer (by omega)
    · exact hturns (turn + 1) (by omega)
    · exact hend

namespace Outcome

theorem Settles.foldlM {I : List α → σ → Prop} {f : Nat → σ → α → Outcome ε σ} (all : List α)
    (step : ∀ passed x rest, all = passed ++ x :: rest → ∀ s, I passed s →
      ∃ next, Settles (fun n => f n s x) (.ok next) ∧ I (passed ++ [x]) next)
    {s : σ} (hs : I [] s) :
    ∃ last, Settles (fun n => all.foldlM (f n) s) (.ok last) ∧ I all last := by
  suffices hall : ∀ xs passed s, all = passed ++ xs → I passed s →
      ∃ last, Settles (fun n => xs.foldlM (f n) s) (.ok last) ∧ I all last from
    hall all [] s rfl hs
  intro xs
  induction xs with intro passed s hsplit hs
  | nil =>
    rw [List.append_nil] at hsplit
    subst hsplit
    exact ⟨s, Settles.ok, hs⟩
  | cons x xs ih =>
    obtain ⟨next, hnext, hI⟩ := step passed x xs hsplit s hs
    obtain ⟨last, hlast, hI'⟩ := ih (passed ++ [x]) next (by simpa using hsplit) hI
    refine ⟨last, ?_, hI'⟩
    exact Settles.bind_ok hnext hlast

theorem Settles.forM {f : Nat → α → Outcome ε PUnit} :
    ∀ (xs : List α), (∀ x ∈ xs, Settles (fun n => f n x) (.ok ())) →
      Settles (fun n => xs.forM (f n)) (.ok ()) := by
  intro xs
  induction xs with
  | nil =>
    intro _
    exact Settles.ok
  | cons x xs ih =>
    intro h
    exact Settles.bind_ok (h x (by simp)) (ih fun y hy => h y (List.mem_cons_of_mem _ hy))

end Outcome

end Fuel
