import Blorp.Lex.Coverage
import Blorp.Lex.LineWindows

/-!
# Layout in a window

Layouts that hold tokens of the same kinds over the same open levels and blocks go
through a window alike.  Of the positions of earlier tokens the lexer reads one alone,
whether a value ends directly before a comment, and that is carried along
(ScannedToken.Carries).
-/

namespace Blorp.Lex

open Fuel
open SourceText (LinePrefix CodeLine)

/-! ## Tokens carried along -/

/-- Tokens of one kind, words of one spelling. -/
def ScannedToken.Same : ScannedToken → ScannedToken → Prop
  | .wordToken spelling _ _, .wordToken spelling' _ _ => spelling' = spelling
  | .readyToken ready, .readyToken ready' => ready'.kind = ready.kind
  | _, _ => False

/-- Tokens of one kind after which a comment is rejected at the same positions, none of
them past the window. -/
structure ScannedToken.Carries (from_ last shift : Nat) (scanned scanned' : ScannedToken) :
    Prop where
  same : scanned.Same scanned'
  after : ∀ cursor, from_ ≤ cursor →
    SourceText.afterValue (some scanned') (cursor + shift)
      = SourceText.afterValue (some scanned) cursor
  ends : ∀ cursor, last < cursor → SourceText.afterValue (some scanned) cursor = false

/-- Layouts over the same levels and blocks, with tokens carried along. -/
structure LayoutMoves (from_ last shift : Nat) (layout layout' : Layout) : Prop where
  tokens : List.Forall₂ (ScannedToken.Carries from_ last shift) layout.tokens layout'.tokens
  levels : layout'.levels = layout.levels
  brackets : layout'.brackets = layout.brackets
  bodies : layout'.bodies = layout.bodies

variable {from_ last shift : Nat}

theorem ScannedToken.Moves.carries {scanned scanned' : ScannedToken}
    (h : Moves last shift scanned scanned') : Carries from_ last shift scanned scanned' := by
  refine ⟨?_, fun cursor _ => h.afterValue cursor, fun cursor hcursor => ?_⟩
  · cases scanned <;> cases scanned'
    · exact h.1
    · exact h.elim
    · exact h.elim
    · exact h.1
  · have hstop := h.stop.2
    have hne : ∀ stop : Nat, stop ≤ last → (stop == cursor) = false := by
      intro stop hle
      rw [beq_eq_false_iff_ne]
      omega
    cases scanned with
    | wordToken spelling start stop => exact hne stop hstop
    | readyToken ready =>
      show (_ && ready.span.stop == cursor) = false
      rw [hne ready.span.stop hstop, Bool.and_false]

theorem ScannedToken.Carries.layout (ready ready' : Token) (hsame : ready'.kind = ready.kind)
    (hkind : SourceText.endsValue ready.kind = false) :
    Carries from_ last shift (.readyToken ready) (.readyToken ready') := by
  have hnone : ∀ token : Token, SourceText.endsValue token.kind = false → ∀ cursor,
      SourceText.afterValue (some (.readyToken token)) cursor = false := by
    intro token htoken cursor
    show (_ && _) = false
    rw [htoken, Bool.false_and]
  refine ⟨hsame, fun cursor _ => ?_, fun cursor _ => hnone _ hkind cursor⟩
  rw [hnone _ hkind, hnone _ (hsame ▸ hkind)]

theorem ScannedToken.Carries.past {next later : Nat} {scanned scanned' : ScannedToken}
    (h : Carries 0 last 0 scanned scanned') (hnext : last < next) (hlater : last ≤ later) :
    Carries next later shift scanned scanned' := by
  refine ⟨h.same, fun cursor hcursor => ?_, fun cursor hcursor => h.ends cursor (by omega)⟩
  have hmoved := h.after (cursor + shift) (Nat.zero_le _)
  rw [Nat.add_zero] at hmoved
  rw [hmoved, h.ends _ (by omega), h.ends _ (by omega)]

theorem Moved.carries {tokens tokens' : List ScannedToken} (h : Moved last shift tokens tokens') :
    List.Forall₂ (ScannedToken.Carries from_ last shift) tokens tokens' :=
  h.imp fun _ _ hmoves => hmoves.carries

namespace LayoutMoves

variable {layout layout' : Layout}

theorem past {next later : Nat} (h : LayoutMoves 0 last 0 layout layout') (hnext : last < next)
    (hlater : last ≤ later) : LayoutMoves next later shift layout layout' :=
  ⟨h.tokens.imp fun _ _ hcarries => hcarries.past hnext hlater, h.levels, h.brackets, h.bodies⟩

theorem emit (h : LayoutMoves from_ last shift layout layout') {tokens tokens' : List ScannedToken}
    (htokens : List.Forall₂ (ScannedToken.Carries from_ last shift) tokens tokens') :
    LayoutMoves from_ last shift (layout.emit tokens) (layout'.emit tokens') :=
  ⟨List.rel_append h.tokens htokens, h.levels, h.brackets, h.bodies⟩

theorem scan (h : LayoutMoves from_ last shift layout layout') {scanned scanned' : ScannedToken}
    (hmoves : ScannedToken.Moves last shift scanned scanned') :
    LayoutMoves from_ last shift (layout.scan scanned) (layout'.scan scanned') := by
  have hemit := h.emit (.cons hmoves.carries .nil)
  cases scanned <;> cases scanned'
  · exact hemit
  · exact hmoves.elim
  · exact hmoves.elim
  · refine ⟨hemit.tokens, h.levels, ?_, h.bodies⟩
    show bracketDepth _ _ = bracketDepth _ _
    rw [h.brackets, hmoves.1]

variable {cursor : Nat} {text moved : SourceText}

theorem afterValue (h : LayoutMoves from_ last shift layout layout') (hcursor : from_ ≤ cursor) :
    SourceText.afterValue layout'.tokens.getLast? (cursor + shift)
      = SourceText.afterValue layout.tokens.getLast? cursor := by
  generalize hlast : layout.tokens.getLast? = previous
  generalize hlast' : layout'.tokens.getLast? = previous'
  have hrel := getLast?_forall₂ h.tokens
  rw [hlast, hlast'] at hrel
  cases hrel with
  | none => rfl
  | some hcarries => exact hcarries.after cursor hcursor

theorem afterValue_past (h : LayoutMoves from_ last shift layout layout')
    (hcursor : last < cursor) : SourceText.afterValue layout.tokens.getLast? cursor = false := by
  generalize hlast : layout.tokens.getLast? = previous
  have hrel := getLast?_forall₂ h.tokens
  rw [hlast] at hrel
  cases previous with
  | none => rfl
  | some scanned =>
    generalize layout'.tokens.getLast? = previous' at hrel
    cases hrel with
    | some hcarries => exact hcarries.ends cursor hcursor

/-! ## Lines laid out -/

theorem dedent {margin margin' : LinePrefix} (h : LayoutMoves from_ last shift layout layout') :
    LayoutMoves from_ last shift (layout.dedent text margin) (layout'.dedent moved margin') := by
  have hemit := h.emit (.cons (.layout (text.symbol .dedent margin.start margin.stop)
    (moved.symbol .dedent margin'.start margin'.stop) rfl rfl) .nil)
  refine ⟨hemit.tokens, ?_, h.brackets, h.bodies⟩
  show layout'.levels.dropLast = layout.levels.dropLast
  rw [h.levels]

/-- Levels close alike. -/
theorem dedents (moved : SourceText) {margin : LinePrefix} (margin' : LinePrefix) {target : Nat} :
    ∀ {fuel fuel' : Nat} {layout layout' closed : Layout}, fuel ≤ fuel' →
      LayoutMoves from_ last shift layout layout' →
      repeatWhile (ε := Diagnostic) (fun state : Layout => topLevel state.levels > target)
        (fun state => .ok (state.dedent text margin)) fuel layout = .ok closed →
      ∃ closed', repeatWhile (ε := Diagnostic)
          (fun state : Layout => topLevel state.levels > target)
          (fun state => .ok (state.dedent moved margin')) fuel' layout' = .ok closed' ∧
        LayoutMoves from_ last shift closed closed' := by
  intro fuel
  induction fuel with
  | zero =>
    intro _ _ _ _ _ _ h
    cases h
  | succ fuel ih =>
    intro fuel' layout layout' closed hfuel hmoves h
    obtain ⟨more, rfl⟩ : ∃ more, fuel' = more + 1 := ⟨fuel' - 1, by omega⟩
    unfold repeatWhile at h ⊢
    rw [hmoves.levels]
    split at h
    · rename_i hdeeper
      rw [if_pos hdeeper]
      exact ih (Nat.le_of_succ_le_succ hfuel) hmoves.dedent h
    · rename_i hclosed
      cases h
      rw [if_neg hclosed]
      exact ⟨layout', rfl, hmoves⟩

theorem layOut {line line' : CodeLine} {fuel fuel' : Nat} {opened : Layout}
    (hlevel : line'.level = line.level) (hfuel : fuel ≤ fuel')
    (h : LayoutMoves from_ last shift layout layout')
    (hopened : layout.layOut text fuel line = .ok opened) :
    ∃ opened', layout'.layOut moved fuel' line' = .ok opened' ∧
      LayoutMoves from_ last shift opened opened' := by
  have htarget : layout'.target line' = layout.target line := by
    unfold Layout.target
    rw [h.bodies, h.brackets, h.levels, hlevel]
  unfold Layout.layOut at hopened ⊢
  rw [hlevel, h.levels]
  split at hopened
  · rename_i hdeeper
    cases hopened
    rw [if_pos hdeeper]
    have hemit := h.emit (.cons (.layout (text.symbol .indent line.margin.start line.margin.stop)
      (moved.symbol .indent line'.margin.start line'.margin.stop) rfl rfl) .nil)
    refine ⟨_, rfl, hemit.tokens, ?_, h.brackets, h.bodies⟩
    show layout'.levels ++ _ = layout.levels ++ _
    rw [h.levels, hlevel]
  rename_i hdeeper
  rw [if_neg hdeeper]
  split at hopened
  · rename_i hshallower
    obtain ⟨closed, hclosed, hopened⟩ := Outcome.peel hopened
    obtain ⟨closed', hclosed', hmoves⟩ := dedents moved line'.margin hfuel h hclosed
    rw [if_pos hshallower]
    simp only [htarget, hclosed', Outcome.ok_bind, hmoves.levels]
    split at hopened
    · cases hopened
    · rename_i hlands
      cases hopened
      rw [if_neg hlands]
      refine ⟨_, rfl, hmoves.tokens, rfl, hmoves.brackets, ?_⟩
      show blocksOpenBelow _ _ = blocksOpenBelow _ _
      rw [hmoves.bodies]
  · rename_i hsame
    cases hopened
    rw [if_neg hsame]
    exact ⟨layout', rfl, h⟩

/-- Whether a LF ends the line depends on no position. -/
theorem lineEnds {cursor' : Nat} {lastColon : Bool}
    (h : LayoutMoves from_ last shift layout layout')
    (hlf : moved.byteIs cursor' asciiLf = text.byteIs cursor asciiLf) :
    Option.Rel (LayoutMoves from_ last shift) (layout.lineEnds text cursor lastColon)
      (layout'.lineEnds moved cursor' lastColon) := by
  unfold Layout.lineEnds
  rw [hlf, h.brackets, h.bodies]
  split
  · exact .none
  split
  · exact .some h
  split
  · refine .some ⟨h.tokens, h.levels, rfl, ?_⟩
    show _ ++ _ = _ ++ _
    rw [h.levels]
  split
  · exact .none
  · exact .some h

end LayoutMoves

/-! ## A code line -/

/-- A state on a code line and its like, the cursor being in the window. -/
structure StateMoves (from_ last shift : Nat) (state state' : CodeState) : Prop where
  cursor : state'.cursor = state.cursor + shift
  lastColon : state'.lastColon = state.lastColon
  layout : LayoutMoves from_ last shift state.layout state'.layout
  bound : state.cursor ≤ last

namespace Window

open SourceText

variable {text moved : SourceText} {first last shift from_ : Nat}
    (w : Window text moved first last shift)
include w

theorem startLine {margin : LinePrefix} (hmargin : MarginIn text first last margin)
    {fuel fuel' : Nat} {lastColon : Bool} {layout layout' : Layout} {state : CodeState}
    (hfuel : fuel ≤ fuel') (hlayout : LayoutMoves from_ last shift layout layout')
    (h : text.startLine fuel margin lastColon layout = .ok state) (hlast : state.cursor ≤ last) :
    ∃ state', moved.startLine fuel' (margin.later shift) lastColon layout' = .ok state' ∧
      StateMoves from_ last shift state state' := by
  unfold SourceText.startLine at h ⊢
  obtain ⟨found, hfound, h⟩ := Outcome.peel h
  obtain ⟨found', hfound', hrel⟩ := w.lineCode hmargin hfuel hfound (by
    rintro code rfl
    cases h
    exact hlast)
  rw [hfound']
  cases hrel with
  | none =>
    cases h
    exact ⟨_, rfl, rfl, rfl, hlayout, hlast⟩
  | some hmoves =>
    cases h
    exact ⟨_, rfl, hmoves.stop, rfl, hlayout.emit hmoves.tokens.carries, hmoves.bound⟩

theorem codeTurn {fuel fuel' : Nat} {state state' next : CodeState} (hfuel : fuel ≤ fuel')
    (hfrom : ∀ cursor, first ≤ cursor → text.byteIs cursor asciiMinus = true → from_ ≤ cursor)
    (hfirst : first ≤ state.cursor) (hstate : StateMoves from_ last shift state state')
    (h : text.codeTurn fuel state = .ok (.again next))
    (hcontinues : text.byteIs state.cursor asciiLf = true → state.cursor < last ∧ next.cursor ≤ last) :
    ∃ next', moved.codeTurn fuel' state' = .ok (.again next') ∧
      StateMoves from_ last shift next next' := by
  have hcursor := hstate.bound
  have hlf : moved.byteIs (state.cursor + shift) asciiLf = text.byteIs state.cursor asciiLf :=
    w.byteIs hfirst hcursor _
  have hends : Option.Rel (LayoutMoves from_ last shift)
      (state.layout.lineEnds text state.cursor state.lastColon)
      (state'.layout.lineEnds moved (state.cursor + shift) state.lastColon) :=
    hstate.layout.lineEnds hlf
  unfold SourceText.codeTurn at h ⊢
  simp only [hstate.cursor, hstate.lastColon, w.ends state.cursor hfirst hcursor, hlf,
    w.byteIs hfirst hcursor, w.commentStarts hfirst hcursor] at h ⊢
  split at h
  · cases h
  rename_i hinside
  rw [if_neg hinside]
  split at h
  · cases h
  rename_i hnone
  rw [hnone] at hends
  generalize state'.layout.lineEnds moved (state.cursor + shift) state.lastColon = ended' at hends ⊢
  cases hends
  simp only
  split at h
  · rename_i hbreak
    obtain ⟨hlt, hnext⟩ := hcontinues hbreak
    rw [if_pos hbreak]
    split at h
    · cases h
    rename_i hfence
    obtain ⟨started, hstarted, h⟩ := Outcome.peel h
    cases h
    have hmargin := w.linePrefix_margin (by omega : first ≤ state.cursor + 1) hlt
    obtain ⟨started', hstarted', hmoves⟩ :=
      w.startLine hmargin hfuel hstate.layout hstarted hnext
    have hfence' : ¬ (((text.linePrefix (state.cursor + 1)).later shift).start
        = ((text.linePrefix (state.cursor + 1)).later shift).stop ∧
        moved.fenceAt ((text.linePrefix (state.cursor + 1)).later shift).stop = true) := by
      rintro ⟨heq, hopens⟩
      have heq : (text.linePrefix (state.cursor + 1)).start + shift
        = (text.linePrefix (state.cursor + 1)).stop + shift := heq
      have hopens : moved.fenceAt ((text.linePrefix (state.cursor + 1)).stop + shift) = true := hopens
      rw [w.fenceAt (Nat.le_trans hmargin.start hmargin.le) hmargin.stop] at hopens
      exact hfence ⟨by omega, hopens⟩
    rw [Nat.add_right_comm, w.linePrefix (by omega) hlt, if_neg hfence', hstarted']
    exact ⟨_, rfl, hmoves⟩
  rename_i hbreak
  rw [if_neg hbreak]
  split at h
  · rename_i hspace
    cases h
    rw [if_pos hspace]
    exact ⟨_, rfl, Nat.add_right_comm _ _ _, rfl, hstate.layout,
      w.inside_byteIs hcursor hspace (by decide)⟩
  rename_i hspace
  rw [if_neg hspace]
  split at h
  · rename_i hcomment
    obtain ⟨stop, hstop, h⟩ := Outcome.peel h
    cases h
    have hminus := (Bool.and_eq_true_iff.mp hcomment).1
    obtain ⟨hmoved, -, hend⟩ := w.codeCommentEnd hfirst hcursor hcomment
      (hstate.layout.afterValue (hfrom _ hfirst hminus)) (Outcome.liftM_eq_ok.mp hstop)
    rw [if_pos hcomment, hmoved]
    exact ⟨_, rfl, rfl, rfl, hstate.layout, hend⟩
  rename_i hcomment
  rw [if_neg hcomment]
  split at h
  · rename_i hquote
    obtain ⟨quoted, hquoted, h⟩ := Outcome.peel h
    cases h
    obtain ⟨quoted', hmoved, hmoves⟩ := w.quotedTokens hfuel hfirst
      (w.inside_byteIs hcursor hquote (by decide)) hquoted
    rw [if_pos hquote, hmoved]
    exact ⟨_, rfl, hmoves.stop, rfl, hstate.layout.emit hmoves.tokens.carries, hmoves.bound⟩
  · rename_i hquote
    obtain ⟨scanned, hscanned, h⟩ := Outcome.peel h
    cases h
    obtain ⟨scanned', hmoved, hmoves⟩ := w.codeToken hfuel hfirst hcursor hscanned
    rw [if_neg hquote, hmoved]
    refine ⟨_, rfl, hmoves.stop.1, ?_, hstate.layout.scan hmoves, hmoves.stop.2⟩
    cases scanned <;> cases scanned'
    · rfl
    · exact hmoves.elim
    · exact hmoves.elim
    · show isColon _ = isColon _
      rw [hmoves.1]

theorem codeTurn_ends {fuel fuel' cursor : Nat} {state state' : CodeState} {ended : Layout}
    (hfirst : first ≤ state.cursor) (hstate : StateMoves from_ last shift state state')
    (h : text.codeTurn fuel state = .ok (.done (cursor, ended))) :
    cursor = state.cursor ∧
      ∃ ended', moved.codeTurn fuel' state' = .ok (.done (cursor + shift, ended')) ∧
        LayoutMoves from_ last shift ended ended' := by
  have hcursor := hstate.bound
  have hlf : moved.byteIs (state.cursor + shift) asciiLf = text.byteIs state.cursor asciiLf :=
    w.byteIs hfirst hcursor _
  have hends : Option.Rel (LayoutMoves from_ last shift)
      (state.layout.lineEnds text state.cursor state.lastColon)
      (state'.layout.lineEnds moved (state.cursor + shift) state.lastColon) :=
    hstate.layout.lineEnds hlf
  obtain ⟨rfl, hdone⟩ := codeTurn_done h
  refine ⟨rfl, ?_⟩
  unfold SourceText.codeTurn
  simp only [hstate.cursor, hstate.lastColon, w.ends state.cursor hfirst hcursor]
  by_cases hend : state.cursor = text.length
  · obtain rfl : ended = state.layout := by
      obtain ⟨-, rfl⟩ | hline := hdone
      · rfl
      · have := lt_length_of_byteIs (lineEnds_tokens hline).2
        omega
    rw [if_pos hend]
    exact ⟨_, rfl, hstate.layout⟩
  · rw [if_neg hend]
    obtain ⟨hend', -⟩ | hline := hdone
    · exact absurd hend' hend
    · rw [hline] at hends
      generalize state'.layout.lineEnds moved (state.cursor + shift) state.lastColon = ended'
        at hends ⊢
      cases hends with
      | some hmoves => exact ⟨_, rfl, hmoves⟩

/-! ## Trivia lines -/

theorem triviaEnd {x stop : Nat} (hfirst : first ≤ x) (hlast : x ≤ last)
    (htrivia : (text.byteIs x asciiLf || text.commentStarts x) = true)
    (h : text.triviaEnd x = .ok stop) :
    moved.triviaEnd (x + shift) = .ok (stop + shift) ∧ x ≤ stop ∧ stop ≤ last := by
  unfold SourceText.triviaEnd at h ⊢
  rw [w.byteIs hfirst hlast]
  split at h
  · rename_i hminus
    have hcomment : text.commentStarts x = true := by
      obtain hlf | hcomment := Bool.or_eq_true_iff.mp htrivia
      · exact absurd (byteIs_unique hminus hlf) (by decide)
      · exact hcomment
    have hsecond := (Bool.and_eq_true_iff.mp hcomment).2
    have hlt : x + 1 ≤ last := w.inside_byteIs hlast hminus (by decide)
    obtain ⟨hmoved, hle, hend⟩ :=
      w.commentEnd hfirst (w.inside_byteIs hlt hsecond (by decide)) h
    rw [if_pos hminus]
    exact ⟨hmoved, by omega, hend⟩
  · rename_i hminus
    cases h
    rw [if_neg hminus]
    exact ⟨rfl, Nat.le_refl _, hlast⟩

/-- One turn over the trivia line at `x`: it goes on at another line, and so does the
moved source where the next line starts in the window. -/
theorem codeLineTurn {fuel fuel' x : Nat} {next : LinePrefix} (hfuel : fuel ≤ fuel')
    (hfirst : first ≤ x) (hlast : x ≤ last)
    (h : text.codeLineTurn fuel (text.linePrefix x) = .ok (.again next)) :
    ∃ following, next = text.linePrefix following ∧ x < following ∧ following ≤ text.length ∧
      (following ≤ last + 1 → moved.codeLineTurn fuel' (moved.linePrefix (x + shift))
        = .ok (.again (moved.linePrefix (following + shift)))) ∧
      (last + 1 < following → (text.linePrefix x).start = (text.linePrefix x).stop ∧
        text.fenceAt (text.linePrefix x).stop = true ∧
        text.docBlockEnd fuel (text.linePrefix x).stop = .ok following) := by
  have hmargin := w.linePrefix_margin hfirst hlast
  have hbound := w.bound
  have hin : first ≤ (text.linePrefix x).stop := Nat.le_trans hmargin.start hmargin.le
  have hx : x ≤ (text.linePrefix x).stop := hmargin.le
  have hstart : (text.linePrefix x).start = x := rfl
  have hsame : (text.linePrefix x).start + shift = (text.linePrefix x).stop + shift ↔
      (text.linePrefix x).start = (text.linePrefix x).stop := by omega
  rw [w.linePrefix hfirst hlast]
  unfold SourceText.codeLineTurn LinePrefix.later at *
  simp only [w.ends _ hin hmargin.stop, w.byteIs hin hmargin.stop, w.commentStarts hin hmargin.stop,
    w.fenceAt hin hmargin.stop, hsame]
  split at h
  · cases h
  rename_i hskipped
  rw [if_neg hskipped]
  simp only [not_or, not_not] at hskipped
  have hlength : (text.linePrefix x).stop < text.length :=
    Nat.lt_of_le_of_ne (Nat.le_trans hmargin.stop hbound) hskipped.1
  split at h
  · rename_i hfence
    obtain ⟨after, hafter, h⟩ := Outcome.peel h
    cases h
    obtain ⟨hlt, hle⟩ := docBlockEnd_lt hlength hafter
    rw [if_pos hfence]
    refine ⟨after, rfl, by omega, hle, fun hnext => ?_, fun _ => ⟨hfence.1, hfence.2, hafter⟩⟩
    rw [w.docBlockEnd hfuel hin hmargin.stop hafter hnext]
    rfl
  · rename_i hfence
    obtain ⟨stop, hstop, h⟩ := Outcome.peel h
    cases h
    obtain ⟨hmoved, hle, hend⟩ := w.triviaEnd hin hmargin.stop hskipped.2
      (Outcome.liftM_eq_ok.mp hstop)
    have hends := w.ends stop (by omega) hend
    have hend' := w.le_length (by omega : first ≤ stop) hend
    rw [if_neg hfence]
    refine ⟨_, rfl, by omega, by omega, fun _ => ?_, fun hpassed => by omega⟩
    rw [hmoved]
    have hnext : min (stop + shift + 1) moved.length = min (stop + 1) text.length + shift := by
      by_cases hall : stop = text.length
      · have := hends.mpr hall
        omega
      · have : stop + shift ≠ moved.length := fun heq => hall (hends.mp heq)
        omega
    simp [Outcome.liftM_ok, Outcome.ok_bind, hnext]

theorem codeLineTurn_ends {fuel fuel' x : Nat} {found : LinePrefix} (hfirst : first ≤ x)
    (hlast : x ≤ last) (h : text.codeLineTurn fuel (text.linePrefix x) = .ok (.done found)) :
    found = text.linePrefix x ∧ moved.codeLineTurn fuel' (moved.linePrefix (x + shift))
      = .ok (.done (found.later shift)) := by
  have hmargin := w.linePrefix_margin hfirst hlast
  have hin : first ≤ (text.linePrefix x).stop := Nat.le_trans hmargin.start hmargin.le
  rw [w.linePrefix hfirst hlast]
  unfold SourceText.codeLineTurn at h ⊢
  have hstop : ((text.linePrefix x).later shift).stop = (text.linePrefix x).stop + shift := rfl
  simp only [hstop, w.ends _ hin hmargin.stop, w.byteIs hin hmargin.stop,
    w.commentStarts hin hmargin.stop]
  split at h
  · rename_i hdone
    cases h
    rw [if_pos hdone]
    exact ⟨rfl, rfl⟩
  · split at h
    all_goals
      obtain ⟨_, _, h⟩ := Outcome.peel h
      cases h

end Window

end Blorp.Lex
