import Blorp.Lex.LineWindows

/-!
# Code lines and fences

A code line holds no fence after its start: seen as a window, the source up to the LF before
a fence is left by no scanner, for no block goes on in the fence's line and no line inside
brackets starts with one.
-/

namespace Blorp.Lex

open Fuel
open SourceText (LinePrefix)

variable {text : SourceText} {fuel last : Nat}

/-- The source up to the LF before a fence, as a window on itself. -/
theorem fence_window (hfence : text.fenceLine (last + 1) = true) : Window text text 0 last 0 := by
  obtain ⟨hline, hat⟩ := SourceText.fenceLine_iff.mp hfence
  have hlf : text.byteIs last asciiLf = true := hline.resolve_left (Nat.succ_ne_zero last)
  refine ⟨Nat.le_of_lt (SourceText.lt_length_of_byteIs hlf), fun _ _ _ => rfl, fun _ _ _ => Iff.rfl,
    .inr hlf, fun _ => ?_⟩
  have hminus := (Bool.and_eq_true_iff.mp (SourceText.fenceAt_starts hat)).1
  rw [Nat.add_zero, SourceText.runEnd_fence hfence, Bool.eq_false_iff]
  exact fun hbar => absurd (SourceText.byteIs_unique hminus hbar) (by decide)

section

variable (w : Window text text 0 last 0)
include w

theorem continuingMarker_before {margin : LinePrefix} {lineEnd marker : Nat}
    (hmargin : MarginIn text 0 last margin) (hlast : lineEnd ≤ last)
    (h : text.continuingMarker lineEnd margin = some marker) : marker + 1 ≤ last := by
  refine (w.continuingMarker_some hmargin (Nat.zero_le _) (Nat.lt_of_le_of_ne hlast ?_) h).2.2
  rintro rfl
  rw [show text.continuingMarker lineEnd margin = none from w.continuingMarker_last hmargin] at h
  cases h

theorem pipeTokens_before {margin : LinePrefix} {code : ScannedCode}
    (hmargin : MarginIn text 0 last margin) (hbar : text.byteIs margin.stop asciiBar = true)
    (h : text.pipeTokens fuel margin = .ok code) : code.stop ≤ last := by
  refine turns_yields (I := fun state => state.start ≤ last) (Q := fun code => code.stop ≤ last)
    ?_ ?_ (w.inside_byteIs hmargin.stop hbar (by decide)) h
  · intro state next hstate hturn
    unfold SourceText.pipeTurn at hturn
    obtain ⟨stop, hstop, hturn⟩ := Outcome.peel hturn
    have hend := (w.pipeLineEnd (Nat.le_refl fuel) (Nat.zero_le _) hstate hstop).2.2
    have hdollar := (SourceText.pipeLineEnd_bound (Nat.le_trans hstate w.bound) hstop).2.2
    simp only at hturn
    split at hturn
    · rename_i hhole
      obtain ⟨hole, hhole', hturn⟩ := Outcome.peel hturn
      cases hturn
      obtain ⟨hone, htwo⟩ := Bool.and_eq_true_iff.mp (hdollar hhole).2
      have hlt : stop + 1 ≤ last := w.inside_byteIs hend hone (by decide)
      obtain ⟨_, -, hmoves⟩ := w.interpolationTokens (Nat.le_refl fuel) (Nat.zero_le _)
        (w.inside_byteIs hlt htwo (by decide)) hhole'
      exact hmoves.bound
    · split at hturn
      · split at hturn <;> cases hturn
      · rename_i marker hmarker
        have hin := continuingMarker_before w hmargin hend hmarker
        split at hturn
        all_goals
          cases hturn
          exact hin
  · intro state code hstate hturn
    unfold SourceText.pipeTurn at hturn
    obtain ⟨stop, hstop, hturn⟩ := Outcome.peel hturn
    have hend := (w.pipeLineEnd (Nat.le_refl fuel) (Nat.zero_le _) hstate hstop).2.2
    simp only at hturn
    split at hturn
    · obtain ⟨_, _, hturn⟩ := Outcome.peel hturn
      cases hturn
    · split at hturn
      · split at hturn
        all_goals
          cases hturn
          exact hend
      · split at hturn <;> cases hturn

theorem pipeBlock_before {margin : LinePrefix} {form : SourceText.PipeForm}
    {block : SourceText.PipeBlock} (hmargin : MarginIn text 0 last margin)
    (hbar : text.byteIs margin.stop asciiBar = true)
    (h : text.pipeBlock fuel margin form = .ok block) : block.stop ≤ last := by
  refine turns_yields (I := fun state => state.2 + 1 ≤ last) (Q := fun block => block.stop ≤ last)
    ?_ ?_ (w.inside_byteIs hmargin.stop hbar (by decide)) h
  · rintro state next hstate hturn
    unfold SourceText.pipeBlockTurn at hturn
    obtain ⟨stop, hstop, hturn⟩ := Outcome.peel hturn
    have hend := (w.pipeLineEnd (Nat.le_refl fuel) (Nat.zero_le _) hstate hstop).2.2
    simp only at hturn
    split at hturn
    · rename_i marker hmarker
      cases hturn
      exact continuingMarker_before w hmargin hend hmarker
    · cases hturn
  · rintro state block hstate hturn
    unfold SourceText.pipeBlockTurn at hturn
    obtain ⟨stop, hstop, hturn⟩ := Outcome.peel hturn
    have hend := (w.pipeLineEnd (Nat.le_refl fuel) (Nat.zero_le _) hstate hstop).2.2
    simp only at hturn
    split at hturn
    · cases hturn
    · cases hturn
      exact hend

theorem rawBlockMarkerLine_before {x : Nat} {markerLine : LinePrefix} (hlast : x ≤ last)
    (h : text.rawBlockMarkerLine x = some markerLine) :
    MarginIn text 0 last markerLine ∧ text.byteIs markerLine.stop asciiBar = true := by
  unfold SourceText.rawBlockMarkerLine at h
  have hend := w.runEnd_le (w.runEnd_le hlast .identifierByte) .spaceByte
  simp only at h
  generalize text.runEnd (text.runEnd x .identifierByte) .spaceByte = lineEnd at h hend
  split at h
  · rename_i hraw
    cases h
    simp only [Bool.and_eq_true] at hraw
    refine ⟨w.linePrefix_margin (Nat.zero_le _) (Nat.lt_of_le_of_ne hend ?_), hraw.2⟩
    rintro rfl
    have hclosed : text.byteIs (text.linePrefix (lineEnd + 1)).stop asciiBar = false :=
      w.closed hraw.1.2
    rw [hraw.2] at hclosed
    cases hclosed
  · cases h

theorem startLine_before {margin : LinePrefix} {lastColon : Bool} {layout : Layout}
    {state : CodeState} (hmargin : MarginIn text 0 last margin)
    (h : text.startLine fuel margin lastColon layout = .ok state) : state.cursor ≤ last := by
  unfold SourceText.startLine at h
  obtain ⟨found, hfound, h⟩ := Outcome.peel h
  unfold SourceText.lineCode at hfound
  split at hfound
  · rename_i hbar
    obtain ⟨block, hblock, hfound⟩ := Outcome.peel hfound
    cases hfound
    cases h
    exact pipeTokens_before w hmargin hbar hblock
  split at hfound
  · rename_i markerLine hmarker
    obtain ⟨block, hblock, hfound⟩ := Outcome.peel hfound
    cases hfound
    cases h
    obtain ⟨hin, hbar⟩ := rawBlockMarkerLine_before w hmargin.stop hmarker
    exact pipeBlock_before w hin hbar hblock
  · cases hfound
    cases h
    exact hmargin.stop

end

theorem codeTurn_before {state next : CodeState} (hfence : text.fenceLine (last + 1) = true)
    (hstate : state.cursor ≤ last) (h : text.codeTurn fuel state = .ok (.again next)) :
    next.cursor ≤ last := by
  have w := fence_window hfence
  unfold SourceText.codeTurn at h
  simp only at h
  split at h
  · cases h
  split at h
  · cases h
  split at h
  · split at h
    · cases h
    · rename_i hplain
      obtain ⟨started, hstarted, h⟩ := Outcome.peel h
      cases h
      refine startLine_before w (w.linePrefix_margin (Nat.zero_le _)
        (Nat.lt_of_le_of_ne hstate fun heq => ?_)) hstarted
      -- The line after the LF would be the fence itself.
      have hrun := SourceText.runEnd_fence hfence
      rw [← heq] at hfence hrun
      refine hplain ⟨hrun.symm, ?_⟩
      show text.fenceAt (text.runEnd (state.cursor + 1) .indentationByte) = true
      rw [hrun]
      exact (SourceText.fenceLine_iff.mp hfence).2
  split at h
  · rename_i hspace
    cases h
    exact w.inside_byteIs hstate hspace (by decide)
  split at h
  · rename_i hcomment
    obtain ⟨stop, hstop, h⟩ := Outcome.peel h
    cases h
    exact (w.codeCommentEnd (Nat.zero_le _) hstate hcomment rfl (Outcome.liftM_eq_ok.mp hstop)).2.2
  split at h
  · rename_i hquote
    obtain ⟨quoted, hquoted, h⟩ := Outcome.peel h
    cases h
    obtain ⟨_, -, hmoves⟩ := w.quotedTokens (Nat.le_refl fuel) (Nat.zero_le _)
      (w.inside_byteIs hstate hquote (by decide)) hquoted
    exact hmoves.bound
  · obtain ⟨scanned, hscanned, h⟩ := Outcome.peel h
    cases h
    obtain ⟨_, -, hmoves⟩ := w.codeToken (Nat.le_refl fuel) (Nat.zero_le _) hstate hscanned
    exact hmoves.stop.2

/-- No fence stands between the start of a code line's code and its end. -/
theorem codeLine_unfenced {margin : LinePrefix} {layout : Layout} {start state : CodeState}
    (hmargin : SourceText.IsMargin text margin)
    (hstart : text.startLine fuel margin false layout = .ok start)
    (hreaches : Reaches (text.codeTurn fuel) start state) :
    ∀ i, margin.stop < i → i ≤ state.cursor → text.fenceLine i = false := by
  intro i hafter hle
  rw [Bool.eq_false_iff]
  intro hfence
  obtain ⟨last, rfl⟩ : ∃ last, i = last + 1 := ⟨i - 1, by omega⟩
  have hline := (text.runEnd_spec margin.start .indentationByte)
  rw [← hmargin.stop] at hline
  have hin : MarginIn text 0 last margin := ⟨Nat.zero_le _, hline.1, by omega, hline.2.2.1⟩
  have hbefore := hreaches.keeps (I := fun state => state.cursor ≤ last)
    (fun _ _ hstate hturn => codeTurn_before hfence hstate hturn)
    (startLine_before (fence_window hfence) hin hstart)
  omega

end Blorp.Lex
