import Blorp.Lex.Fences

/-!
# Tokens cover the source

The tokens of a lexed source, its Indents and Dedents apart, tile it: they lie in bounds,
in order and apart, and what is between them is trivia (`lex_covers`).  The tiling grows
with the cursor, over the turns of a code line and over the code lines, and before each code
line the fences come in pairs.
-/

namespace Blorp.Lex

open Fuel Tiling
open SourceText (LinePrefix CodeLine IsMargin)

variable {text : SourceText} {a b : Nat}

/-! ## Tokens other than Indents and Dedents -/

def codeTokens (tokens : List ScannedToken) : List ScannedToken :=
  tokens.filter fun scanned => !scanned.isIndentation

@[simp] theorem codeTokens_append (tokens more : List ScannedToken) :
    codeTokens (tokens ++ more) = codeTokens tokens ++ codeTokens more :=
  List.filter_append ..

variable {tokens scanned : List ScannedToken}

theorem codeTokens_eq (h : ∀ scanned ∈ tokens, scanned.isIndentation = false) :
    codeTokens tokens = tokens :=
  List.filter_eq_self.mpr fun scanned hscanned => by rw [h scanned hscanned]; rfl

variable {fuel : Nat} {line : CodeLine} {layout next : Layout} {state : CodeState}

theorem layOut_codeTokens (h : layout.layOut text fuel line = .ok next) :
    codeTokens next.tokens = codeTokens layout.tokens := by
  unfold Layout.layOut at h
  split at h
  · cases h
    show codeTokens (layout.tokens ++ [_]) = _
    rw [codeTokens_append]
    exact List.append_nil _
  split at h
  · obtain ⟨closed, hclosed, h⟩ := Outcome.peel h
    have hsame : codeTokens closed.tokens = codeTokens layout.tokens := by
      refine repeatWhile_yields (I := fun state : Layout => codeTokens state.tokens =
        codeTokens layout.tokens) ?_ rfl hclosed
      intro state next hstate hnext
      cases hnext
      rw [← hstate]
      show codeTokens (state.tokens ++ [_]) = _
      rw [codeTokens_append]
      exact List.append_nil _
    split at h
    · cases h
    · cases h
      exact hsame
  · cases h
    rfl

/-! ## A code line -/

/-- Code read on a line: more tokens, the levels and the open blocks as they were. -/
structure ReadsOn (text : SourceText) (layout : Layout) (a : Nat) (next : Layout) (b : Nat) :
    Prop where
  scans : ∃ more, next.tokens = layout.tokens ++ more ∧ Scans text a more b
  levels : next.levels = layout.levels
  bodies : next.bodies = layout.bodies

theorem ReadsOn.append (h : ReadsOn text layout a next b)
    (hbefore : Scans text 0 (codeTokens layout.tokens) a) :
    Scans text 0 (codeTokens next.tokens) b := by
  obtain ⟨more, htokens, hmore⟩ := h.scans
  rw [htokens, codeTokens_append, codeTokens_eq hmore.code]
  exact hbefore.append hmore

theorem ReadsOn.within (h : ReadsOn text layout a next b) : a ≤ b ∧ b ≤ text.length := by
  obtain ⟨_, -, hmore⟩ := h.scans
  exact ⟨hmore.le, hmore.bound⟩

theorem ReadsOn.emit (layout : Layout) (h : Scans text a tokens b) :
    ReadsOn text layout a (layout.emit tokens) b := ⟨⟨tokens, rfl, h⟩, rfl, rfl⟩

theorem ReadsOn.trivia (layout : Layout) (h : Scans text a [] b) : ReadsOn text layout a layout b :=
  ⟨⟨[], (List.append_nil _).symm, h⟩, rfl, rfl⟩

theorem ReadsOn.after {c : Nat} (htrivia : Scans text a [] b) (h : ReadsOn text layout b next c) :
    ReadsOn text layout a next c := by
  obtain ⟨more, htokens, hmore⟩ := h.scans
  exact ⟨⟨more, htokens, htrivia.append hmore⟩, h.levels, h.bodies⟩

theorem startLine_reads {margin : LinePrefix} {lastColon : Bool} (hmargin : IsMargin text margin)
    (hbound : margin.stop ≤ text.length)
    (h : text.startLine fuel margin lastColon layout = .ok state) :
    ReadsOn text layout margin.stop state.layout state.cursor := by
  unfold SourceText.startLine at h
  obtain ⟨found, hfound, h⟩ := Outcome.peel h
  cases found with
  | some pipe =>
    cases h
    exact .emit layout (SourceText.lineCode_scans hmargin hfound)
  | none =>
    cases h
    exact .trivia layout (.nil hbound)

theorem lineEnds_tokens {cursor : Nat} {lastColon : Bool} {ended : Layout}
    (h : layout.lineEnds text cursor lastColon = some ended) :
    ended.tokens = layout.tokens ∧ text.byteIs cursor asciiLf = true := by
  unfold Layout.lineEnds at h
  split at h
  · cases h
  rename_i hlf
  have hlf : text.byteIs cursor asciiLf = true := by simpa using hlf
  split at h
  · cases h
    exact ⟨rfl, hlf⟩
  split at h
  · cases h
    exact ⟨rfl, hlf⟩
  split at h
  · cases h
  · cases h
    exact ⟨rfl, hlf⟩

theorem ReadsOn.scan {scanned : ScannedToken} (layout : Layout) (h : Scans text a [scanned] b) :
    ReadsOn text layout a (layout.scan scanned) b := by
  cases scanned with
  | wordToken => exact ⟨⟨_, rfl, h⟩, rfl, rfl⟩
  | readyToken => exact ⟨⟨_, rfl, h⟩, rfl, rfl⟩

theorem codeTurn_reads {next : CodeState} (hbound : state.cursor ≤ text.length)
    (h : text.codeTurn fuel state = .ok (.again next)) :
    ReadsOn text state.layout state.cursor next.layout next.cursor := by
  unfold SourceText.codeTurn at h
  simp only at h
  split at h
  · cases h
  rename_i hend
  have hlt : state.cursor < text.length := Nat.lt_of_le_of_ne hbound hend
  split at h
  · cases h
  split at h
  · -- A continuation line inside brackets: its LF and its indentation are trivia.
    rename_i hlf
    split at h
    · cases h
    · obtain ⟨started, hstarted, h⟩ := Outcome.peel h
      cases h
      have hat : AtLine text (state.cursor + 1) := .inr (.inl (by simpa using hlf))
      have htrivia : Scans text state.cursor [] (text.linePrefix (state.cursor + 1)).stop :=
        SourceText.scans_margin (.trivia (Nat.le_succ _) hlt (.lineFeed hlf)) hat
      exact (startLine_reads (SourceText.linePrefix_isMargin hat) htrivia.bound hstarted).after
        htrivia
  split at h
  · rename_i hspace
    cases h
    exact .trivia _ (.trivia (Nat.le_succ _) hlt (.space hspace))
  split at h
  · rename_i hcomment
    obtain ⟨stop, hstop, h⟩ := Outcome.peel h
    cases h
    obtain ⟨hle, hin, htrivia⟩ :=
      SourceText.codeCommentEnd_trivia hcomment (Outcome.liftM_eq_ok.mp hstop)
    exact .trivia _ (.trivia (Nat.le_of_lt hle) hin htrivia)
  split at h
  · rename_i hquote
    obtain ⟨quoted, hquoted, h⟩ := Outcome.peel h
    cases h
    exact .emit _ (SourceText.quotedTokens_scans hquote hquoted)
  · obtain ⟨scanned, hscanned, h⟩ := Outcome.peel h
    cases h
    exact .scan _ (SourceText.codeToken_scans hlt hscanned).1

theorem codeTurn_done {cursor : Nat} {ended : Layout}
    (h : text.codeTurn fuel state = .ok (.done (cursor, ended))) :
    cursor = state.cursor ∧ (cursor = text.length ∧ ended = state.layout ∨
      state.layout.lineEnds text cursor state.lastColon = some ended) := by
  unfold SourceText.codeTurn at h
  simp only at h
  split at h
  · rename_i hend
    cases h
    exact ⟨rfl, .inl ⟨hend, rfl⟩⟩
  split at h
  · rename_i ended hends
    cases h
    exact ⟨rfl, .inr hends⟩
  split at h
  · split at h
    · cases h
    · obtain ⟨_, _, h⟩ := Outcome.peel h
      cases h
  split at h
  · cases h
  split at h
  · obtain ⟨_, _, h⟩ := Outcome.peel h
    cases h
  split at h
  all_goals
    obtain ⟨_, _, h⟩ := Outcome.peel h
    cases h

/-! ## All code lines -/

/-- A code line whose tokens and indentation have been read so far. -/
def LineOk (text : SourceText) (state : CodeLine × Layout) : Prop :=
  SourceText.Found text (codeTokens state.2.tokens) state.1.margin ∧
    text.fenceLine state.1.margin.stop = false

/-- What a turn over a code line does: the line is laid out, its code is scanned to its
end, and the next code line is found. -/
theorem lineTurn_again {next : CodeLine × Layout}
    (h : text.lineTurn fuel (line, layout) = .ok (.again next)) :
    ∃ opened start lineEnd ended, layout.layOut text fuel line = .ok opened ∧
      text.startLine fuel line.margin false opened = .ok start ∧
      turns (text.codeTurn fuel) fuel start = .ok (lineEnd, ended) ∧
      text.nextCodeLine fuel (min (lineEnd + 1) text.length) = .ok next.1 ∧
      next.2 = ended.emit
        [.readyToken (text.symbol .newline lineEnd (min (lineEnd + 1) text.length))] := by
  unfold SourceText.lineTurn at h
  obtain ⟨opened, hopened, h⟩ := Outcome.peel h
  split at h
  · cases h
  · obtain ⟨start, hstart, h⟩ := Outcome.peel h
    obtain ⟨⟨lineEnd, ended⟩, hended, h⟩ := Outcome.peel h
    obtain ⟨nextLine, hnextLine, h⟩ := Outcome.peel h
    cases h
    exact ⟨opened, start, lineEnd, ended, hopened, hstart, hended, hnextLine, rfl⟩

theorem lineTurn_done {last : Layout} (h : text.lineTurn fuel (line, layout) = .ok (.done last)) :
    layout.layOut text fuel line = .ok last ∧ line.margin.stop = text.length := by
  unfold SourceText.lineTurn at h
  obtain ⟨opened, hopened, h⟩ := Outcome.peel h
  split at h
  · rename_i hend
    cases h
    exact ⟨hopened, hend⟩
  · obtain ⟨_, _, h⟩ := Outcome.peel h
    obtain ⟨⟨_, _⟩, _, h⟩ := Outcome.peel h
    obtain ⟨_, _, h⟩ := Outcome.peel h
    cases h

theorem LineOk.start {opened : Layout} {start : CodeState} (h : LineOk text (line, layout))
    (hopened : layout.layOut text fuel line = .ok opened)
    (hstart : text.startLine fuel line.margin false opened = .ok start) :
    Scans text 0 (codeTokens start.layout.tokens) start.cursor := by
  refine (startLine_reads h.1.line h.1.scans.bound hstart).append ?_
  rw [layOut_codeTokens hopened]
  exact h.1.scans

theorem Reaches.scans {start : CodeState}
    (hstart : Scans text 0 (codeTokens start.layout.tokens) start.cursor)
    (h : Reaches (text.codeTurn fuel) start state) :
    Scans text 0 (codeTokens state.layout.tokens) state.cursor :=
  h.keeps (I := fun state => Scans text 0 (codeTokens state.layout.tokens) state.cursor)
    (fun _ _ hstate hturn => (codeTurn_reads hstate.bound hturn).append hstate) hstart

theorem lineTurn_ok {state next : CodeLine × Layout} (hstate : LineOk text state)
    (h : text.lineTurn fuel state = .ok (.again next)) : LineOk text next := by
  obtain ⟨line, layout⟩ := state
  obtain ⟨nextLine, nextLayout⟩ := next
  obtain ⟨opened, start, lineEnd, ended, hopened, hstart, hended, hnextLine, rfl⟩ :=
    lineTurn_again h
  have hline : Scans text 0 (codeTokens ended.tokens) lineEnd ∧
      (lineEnd = text.length ∨ text.byteIs lineEnd asciiLf = true) ∧
      line.margin.stop ≤ lineEnd ∧
      ∀ i, line.margin.stop < i → i ≤ lineEnd → text.fenceLine i = false := by
    obtain ⟨state, hreaches, hturn⟩ := turns_eq_ok hended
    have hscans := Reaches.scans (hstate.start hopened hstart) hreaches
    have hplain := codeLine_unfenced hstate.1.line hstart hreaches
    have hle : line.margin.stop ≤ state.cursor := by
      refine (hreaches.keeps (I := fun state => line.margin.stop ≤ state.cursor ∧
        state.cursor ≤ text.length) (fun _ _ hin hturn => ?_)
        (startLine_reads hstate.1.line hstate.1.scans.bound hstart).within).1
      have hturn := (codeTurn_reads hin.2 hturn).within
      exact ⟨Nat.le_trans hin.1 hturn.1, hturn.2⟩
    obtain ⟨rfl, ⟨hend, rfl⟩ | hends⟩ := codeTurn_done hturn
    · exact ⟨hscans, .inl hend, hle, hplain⟩
    · obtain ⟨htokens, hlf⟩ := lineEnds_tokens hends
      rw [htokens]
      exact ⟨hscans, .inr hlf, hle, hplain⟩
  obtain ⟨hread, hend, hle, hplain⟩ := hline
  have hbound := hread.bound
  have hnewline : Scans text 0 (codeTokens (ended.emit [.readyToken
      (text.symbol .newline lineEnd (min (lineEnd + 1) text.length))]).tokens)
      (min (lineEnd + 1) text.length) :=
    (ReadsOn.emit ended (.token (by omega) (by omega) rfl)).append hread
  refine SourceText.nextCodeLine_found hnewline (SourceText.atLine_next hend) ?_ hnextLine
  rw [SourceText.fencesBefore_eq (a := line.margin.stop) (by omega) fun i hi hlt => ?_]
  · exact hstate.1.paired
  rcases Nat.eq_or_lt_of_le hi with rfl | hlater
  · exact hstate.2
  · exact hplain i hlater (by omega)

/-! ## Tokens with names -/

/-- What a scanned token may become: a word gets an ID. -/
def ScannedToken.Becomes (kind : TokenKind) : ScannedToken → Prop
  | .wordToken .. => ∃ id, kind = .identifierToken id
  | .readyToken ready => kind = ready.kind

/-- A token of a scanned one, over the same range. -/
structure Named (scanned : ScannedToken) (token : Token) : Prop where
  start : token.span.start = scanned.start
  stop : token.span.stop = scanned.stop
  kind : scanned.Becomes token.kind

theorem Named.indentation {scanned : ScannedToken} {token : Token} (h : Named scanned token) :
    isIndentation token.kind = scanned.isIndentation := by
  cases scanned with
  | wordToken =>
    obtain ⟨id, hkind⟩ := h.kind
    rw [hkind]
    rfl
  | readyToken ready => exact congrArg isIndentation h.kind

theorem lexedTokens_named {ids : List Nat} {tokens : List Token} {words : Nat}
    (h : lexedTokens text ids scanned = .ok (tokens, words)) :
    List.Forall₂ Named scanned tokens := by
  have hstep := Except.foldlM_invariant (I := fun passed (state : List Token × Nat) =>
    List.Forall₂ Named passed state.1) (f := lexedToken text ids) ?_ scanned [] ([], 0)
    (tokens, words) .nil h
  · exact hstep
  intro passed x s t hpassed hnext
  cases x with
  | readyToken ready =>
    cases hnext
    exact List.rel_append hpassed (.cons ⟨rfl, rfl, rfl⟩ .nil)
  | wordToken spelling start stop =>
    simp only [lexedToken] at hnext
    split at hnext
    · cases hnext
      exact List.rel_append hpassed (.cons ⟨rfl, rfl, _, rfl⟩ .nil)
    · cases hnext

def LexedProgram.codeTokens (program : LexedProgram) : List Token :=
  program.tokens.filter fun token => !isIndentation token.kind

def Token.range (token : Token) : Range := ⟨token.span.start, token.span.stop⟩

theorem map_range_codeTokens {tokens : List Token} (h : List.Forall₂ Named scanned tokens) :
    (tokens.filter fun token => !isIndentation token.kind).map Token.range =
      (codeTokens scanned).map ScannedToken.range := by
  induction h with
  | nil => rfl
  | @cons first token rest tokens hfirst _ ih =>
    unfold codeTokens at ih ⊢
    rw [List.filter_cons, List.filter_cons, hfirst.indentation]
    split
    · rw [List.map_cons, List.map_cons, ih]
      simp [Token.range, ScannedToken.range, hfirst.start, hfirst.stop]
    · exact ih

/-- **Tokens cover the source.**  The spans of all tokens but Indents and Dedents lie in
the source, in source order and apart, and a byte outside them is in a range of trivia
that no token meets. -/
theorem lex_covers (fuel origin : Nat) (source : Bytes) (names : NameTable) (program : LexedProgram)
    (h : lex fuel origin source names = .ok program) :
    (∀ token ∈ program.codeTokens, token.span.start ≤ token.span.stop ∧
      token.span.stop ≤ source.length) ∧
    program.codeTokens.Pairwise (fun first second => first.span.stop ≤ second.span.start) ∧
    ∀ position < source.length,
      (∃ token ∈ program.codeTokens, token.span.start ≤ position ∧ position < token.span.stop) ∨
      ∃ start stop, Trivia ⟨origin, source⟩ start stop ∧ start ≤ position ∧ position < stop ∧
        ∀ token ∈ program.codeTokens, token.span.stop ≤ start ∨ stop ≤ token.span.start := by
  unfold lex at h
  obtain ⟨first, hfirst, h⟩ := Outcome.peel h
  obtain ⟨last, hlast, h⟩ := Outcome.peel h
  obtain ⟨⟨tokens, words⟩, htokens, h⟩ := Outcome.peel h
  cases h
  have hstart : LineOk ⟨origin, source⟩ (first, emptyLayout) :=
    SourceText.nextCodeLine_found (.nil (Nat.zero_le _)) (.inl rfl) rfl hfirst
  have hscans : Scans ⟨origin, source⟩ 0 (codeTokens last.tokens) source.length := by
    obtain ⟨⟨line, layout⟩, hreaches, hturn⟩ := turns_eq_ok hlast
    have hline : LineOk ⟨origin, source⟩ (line, layout) :=
      hreaches.keeps (fun _ _ hstate hturn => lineTurn_ok hstate hturn) hstart
    obtain ⟨hopened, hend⟩ := lineTurn_done hturn
    have hend : line.margin.stop = source.length := hend
    rw [layOut_codeTokens hopened, ← hend]
    exact hline.1.scans
  have htiles := hscans.tiles
  rw [← map_range_codeTokens (lexedTokens_named (Outcome.liftM_eq_ok.mp htokens))] at htiles
  refine ⟨fun token htoken => ?_, ?_, fun position hposition => ?_⟩
  · obtain ⟨-, hle, hbound⟩ := htiles.within token.range (List.mem_map_of_mem htoken)
    exact ⟨hle, hbound⟩
  · exact List.pairwise_map.mp htiles.ordered
  · rcases htiles.covered (Nat.zero_le _) hposition with ⟨range, hrange, hin⟩ |
      ⟨start, stop, htrivia, -, hfrom, hto, hapart⟩
    · obtain ⟨token, htoken, rfl⟩ := List.mem_map.mp hrange
      exact .inl ⟨token, htoken, hin⟩
    · exact .inr ⟨start, stop, htrivia, hfrom, hto,
        fun token htoken => hapart token.range (List.mem_map_of_mem htoken)⟩

/-- `f(x:`, then `    a)` on the next line. -/
def bracketedBlock : Bytes := [102, 40, 120, 58, 10, 32, 32, 32, 32, 97, 41, 10]

theorem lex_covers_bracketedBlock :
    ∃ program, lex 30 0 bracketedBlock ⟨[]⟩ = .ok program ∧ program.codeTokens.length = 8 ∧
      ∀ token ∈ program.codeTokens, token.span.start ≤ token.span.stop ∧ token.span.stop ≤ 12 := by
  have hlength : (match lex 30 0 bracketedBlock ⟨[]⟩ with
    | .ok program => program.codeTokens.length
    | _ => 0) = 8 := by decide +kernel
  cases h : lex 30 0 bracketedBlock ⟨[]⟩ with rw [h] at hlength
  | ok program => exact ⟨program, rfl, hlength, (lex_covers 30 0 bracketedBlock ⟨[]⟩ program h).1⟩
  | err error => cases hlength
  | timeout => cases hlength

end Blorp.Lex
