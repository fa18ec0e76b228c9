import Blorp.Lex.Source

/-!
# Token and trivia scanners

The scanners of `lex/lex.brp` that read one token, one interpolation hole, one comment or
the lines up to the next code line.  A loop that carries one Result across its turns is a
`turns` loop: its error leaves the loop at once.
-/

namespace Blorp.Lex

open Library (Text)
open SourceText (ErrorText)
open Fuel

/-! ## Error texts -/

def invalidIndentation : ErrorText :=
  ⟨"invalid indentation", "use tabs only, or spaces in groups of four; do not mix tabs and spaces"⟩

def lineEnding : ErrorText :=
  ⟨"only LF line endings are supported", "replace CRLF or CR line endings with LF"⟩

def separatingTab : ErrorText :=
  ⟨"tabs are allowed only in the body indentation",
    "separate tokens with spaces and indent the body deeper than its header"⟩

def commentByte : ErrorText :=
  ⟨"unsupported byte in comment", "use ASCII bytes in single-line comments"⟩

def unsupportedCharacter : ErrorText :=
  ⟨"unsupported character", "use ASCII function declarations and numeric literals, parameter names, or calls; keep -> adjacent"⟩

/-- An operator spelling from another language; the help names Blorp's. -/
def foreignOperator (spelling help : String) : ErrorText :=
  ⟨"'" ++ spelling ++ "' is not an operator", help⟩

/-- A compound assignment such as `+=`; the help writes the assignment out. -/
def compoundAssignment (spelling help : String) : ErrorText :=
  ⟨"'" ++ spelling ++ "' is not supported yet", help⟩

def commentAfterValue : ErrorText :=
  ⟨"'--' directly after a value starts a comment",
    "write a - -1 to subtract a negative number, or add a space before the comment"⟩

def numericSuffix : ErrorText :=
  ⟨"numeric literals cannot have suffixes or separators", "write decimal digits with an optional fractional part or exponent; use no underscores or type suffixes"⟩

def missingExponent : ErrorText :=
  ⟨"expected decimal digits in Float exponent", "write a decimal Float such as 1.0, 0.5 or 1e2; an exponent needs at least one digit"⟩

def missingFraction : ErrorText :=
  ⟨"Float literals need digits after the decimal point",
    "write 1.0; otherwise use a UFCS function call after '.'"⟩

def unterminatedString : ErrorText :=
  ⟨"unterminated String literal", "add a closing double quote on the same line"⟩

def unterminatedEscape : ErrorText :=
  ⟨"unterminated String escape", "complete the escape and close the double quote on the same line"⟩

def charWidth : ErrorText :=
  ⟨"Char literals hold one character",
    "write one character or one escape between single quotes, such as 'a' or '\\n'"⟩

def unterminatedChar : ErrorText :=
  ⟨"unterminated Char literal", "add the closing single quote on the same line"⟩

def charControlByte : ErrorText :=
  ⟨"unsupported raw byte in Char literal",
    "use a printable character or a fixed escape such as '\\t'"⟩

def nestedInterpolation : ErrorText :=
  ⟨"an interpolated String cannot appear inside an interpolation hole", "bind the inner interpolated String before the outer String, then use that binding in the hole"⟩

def unclosedInterpolation : ErrorText :=
  ⟨"unterminated interpolation hole",
    "close the hole with '\x7d' on the same line; each hole holds one expression"⟩

def unclosedHoleString : ErrorText :=
  ⟨"unterminated quoted String in interpolation hole",
    "close the nested quote and then close the hole with '\x7d' on the same line"⟩

def unterminatedDocBlock : ErrorText :=
  ⟨"unterminated documentation block", "close the block with a line holding only --- at column 1"⟩

/-! ## Tokens being scanned -/

/-- Identifier IDs are minted after the scan; until then an identifier keeps its
spelling and byte range. -/
inductive ScannedToken where
  | wordToken (spelling : Text) (start stop : Nat)
  | readyToken (ready : Token)
  deriving DecidableEq, Repr

namespace ScannedToken

def start : ScannedToken → Nat
  | .wordToken _ start _ => start
  | .readyToken ready => ready.span.start

def stop : ScannedToken → Nat
  | .wordToken _ _ stop => stop
  | .readyToken ready => ready.span.stop

end ScannedToken

structure ScannedCode where
  tokens : List ScannedToken
  stop : Nat

/-- Every reserved word stays a keyword token, including unsupported forms. -/
def reservedWords : List (String × TokenKind) :=
  [("func", .keywordToken .functionKeyword), ("pure", .keywordToken .pureKeyword),
    ("void", .keywordToken .voidKeyword), ("var", .keywordToken .varKeyword),
    ("match", .keywordToken .matchKeyword), ("_", .symbolToken .wildcard),
    ("if", .keywordToken .ifKeyword), ("else", .keywordToken .elseKeyword),
    ("while", .keywordToken .whileKeyword), ("for", .keywordToken .forKeyword),
    ("in", .keywordToken .inKeyword), ("break", .keywordToken .breakKeyword),
    ("continue", .keywordToken .continueKeyword), ("import", .keywordToken .importKeyword),
    ("type", .keywordToken .typeKeyword), ("private", .keywordToken .privateKeyword),
    ("record", .keywordToken .recordKeyword), ("union", .keywordToken .unionKeyword),
    ("builtin", .keywordToken .builtinKeyword), ("as", .keywordToken .asKeyword),
    ("opaque", .keywordToken .opaqueKeyword), ("into_opaque", .keywordToken .intoOpaqueKeyword),
    ("from_opaque", .keywordToken .fromOpaqueKeyword), ("alias", .keywordToken .aliasKeyword),
    ("debug", .keywordToken .debugKeyword), ("detach", .keywordToken .detachKeyword),
    ("foreign", .keywordToken .foreignKeyword), ("from", .keywordToken .fromKeyword),
    ("implements", .keywordToken .implementsKeyword), ("resource", .keywordToken .resourceKeyword),
    ("select", .keywordToken .selectKeyword), ("trait", .keywordToken .traitKeyword),
    ("try", .keywordToken .tryKeyword), ("where", .keywordToken .whereKeyword)]

def wordKind (spelling : Text) : Option TokenKind :=
  (reservedWords.find? fun word => word.1.toList == spelling).map (·.2)

def asciiText (bytes : Bytes) : Text := bytes.map fun byte => Char.ofNat byte.toNat

def punctuation (byte : Nat) : Option Symbol :=
  if byte = asciiAtSign then some .atSign
  else if byte = asciiLeftParen then some .leftParen
  else if byte = asciiRightParen then some .rightParen
  else if byte = asciiLeftBrace then some .leftBrace
  else if byte = asciiRightBrace then some .rightBrace
  else if byte = asciiBar then some .bar
  else if byte = asciiLeftBracket then some .leftBracket
  else if byte = asciiRightBracket then some .rightBracket
  else if byte = asciiComma then some .comma
  else if byte = asciiDot then some .dot
  else if byte = asciiColon then some .colon
  else none

namespace SourceText

/-! ## Literals -/

section

variable (text : SourceText)

/-- Validates the character or escape pair at `cursor`, which is not the closing quote, and
returns where the next one starts. -/
def quotedCharacterEnd (start cursor : Nat) : Except Diagnostic Nat :=
  match text.byteAt cursor with
  | none => .error (text.errorAt start cursor unterminatedString)
  | some byte =>
      if byte ≠ asciiBackslash then text.rawCharacterEnd cursor byte
      else
        match text.byteAt (cursor + 1) with
        | none => .error (text.byteError cursor unterminatedEscape)
        | some escapedByte => text.rawCharacterEnd (cursor + 1) escapedByte

def opensHole (cursor : Nat) : Bool :=
  text.byteIs cursor asciiDollar && text.byteIs (cursor + 1) asciiLeftBrace

def holeQuotedTurn (start cursor : Nat) : Outcome Diagnostic (Turn Nat Nat) :=
  if text.byteIs cursor asciiDoubleQuote then .ok (.done cursor)
  else if cursor = text.length ∨ text.byteIs cursor asciiLf then
    .err (text.errorAt start cursor unclosedHoleString)
  else if text.opensHole cursor then .err (text.errorAt cursor (cursor + 2) nestedInterpolation)
  else do
    let next ← text.quotedCharacterEnd start cursor
    .ok (.again next)

/-- A String literal inside an interpolation hole: a single line without nested
interpolation. -/
def holeQuotedToken (fuel start : Nat) : Outcome Diagnostic Token := do
  let closing ← turns (text.holeQuotedTurn start) fuel (start + 1)
  .ok (text.token (.quotedString (text.sliced (start + 1) closing)) start (closing + 1))

/-- The end of the one character or escape pair at `cursor` in a Char literal opened at
`start`. -/
def charContentEnd (start cursor : Nat) : Except Diagnostic Nat :=
  match text.byteAt cursor with
  | none => .error (text.errorAt start cursor unterminatedChar)
  | some byte =>
      let escaped := cursor + 1
      if byte = asciiLf then .error (text.errorAt start cursor unterminatedChar)
      else if byte = asciiSingleQuote then .error (text.errorAt start escaped charWidth)
      else if byte = asciiBackslash then
        if escaped = text.length ∨ text.byteIs escaped asciiLf then
          .error (text.errorAt start escaped unterminatedChar)
        else .ok (escaped + 1)
      else if byte < asciiSpace ∨ byte = asciiDel then
        .error (text.byteError cursor charControlByte)
      else if byte > asciiDel then text.utf8End cursor byte
      else .ok escaped

/-- A Char literal: a quote, one character or escape pair, and the closing quote. -/
def charToken (start : Nat) : Except Diagnostic Token := do
  let contentsEnd ← text.charContentEnd start (start + 1)
  let after := contentsEnd + 1
  if text.byteIs contentsEnd asciiSingleQuote then .ok (text.token .charLiteral start after)
  else if contentsEnd = text.length ∨ text.byteIs contentsEnd asciiLf then
    .error (text.errorAt start contentsEnd unterminatedChar)
  else .error (text.errorAt start after charWidth)

def numericTokenEnd (start stop : Nat) (isFloat : Bool) : Except Diagnostic Token :=
  if text.byteIn stop .identifierStart then
    .error (text.errorAt start (text.runEnd stop .identifierByte) numericSuffix)
  else
    let spelling := text.sliced start stop
    .ok (text.token (if isFloat then .floatLiteral spelling else .integerLiteral spelling) start stop)

/-- Whether a field or function name follows `position` on its line. -/
def nameFollows (position : Nat) : Bool :=
  text.byteIn (text.runEnd position .spaceByte) .identifierStart

def exponentToken (start marker : Nat) : Except Diagnostic Token :=
  let sign := marker + 1
  let digits := if text.byteIs sign asciiPlus || text.byteIs sign asciiMinus then sign + 1 else sign
  if text.byteIn digits .decimalDigit then
    text.numericTokenEnd start (text.runEnd digits .decimalDigit) true
  else .error (text.errorAt start digits missingExponent)

/-- Only a dot followed immediately by a digit belongs to a number; any other dot directly
after an integer, with no name after it, is a Float missing its fraction. -/
def numericToken (start : Nat) : Except Diagnostic Token :=
  let integerEnd := text.runEnd start .decimalDigit
  let afterDot := integerEnd + 1
  let dotted := text.byteIs integerEnd asciiDot && !text.byteIs afterDot asciiDot
  let fraction := dotted && text.byteIn afterDot .decimalDigit
  let mantissaEnd := if fraction then text.runEnd afterDot .decimalDigit else integerEnd
  if text.byteIs mantissaEnd asciiLowerE || text.byteIs mantissaEnd asciiUpperE then
    text.exponentToken start mantissaEnd
  else if dotted && !fraction && !text.nameFollows afterDot then
    .error (text.errorAt start afterDot missingFraction)
  else text.numericTokenEnd start mantissaEnd fraction

end

/-- An operator byte: what it spells with a second byte, in the order they are tried, and
the symbol it is alone. -/
structure OperatorRow where
  first : Nat
  pairs : List (Nat × (Symbol ⊕ ErrorText))
  alone : Symbol

/-- The tokens that start with `=`, `<`, `>` or an arithmetic operator.  The caller has
already taken `--` as a comment. -/
def operatorRows : List OperatorRow :=
  [⟨asciiMinus, [(asciiGreater, .inl .arrow),
      (asciiEquals, .inr (compoundAssignment "-=" "write x = x - 1"))], .minus⟩,
    ⟨asciiPlus, [(asciiEquals, .inr (compoundAssignment "+=" "write x = x + 1"))], .plus⟩,
    ⟨asciiStar, [(asciiEquals, .inr (compoundAssignment "*=" "write x = x * 2")),
      (asciiStar, .inr (foreignOperator "**" "multiply, or call a power function"))], .star⟩,
    ⟨asciiSlash,
      [(asciiEquals, .inr (compoundAssignment "/=" "write x = x / 2, or write != for inequality")),
        (asciiSlash, .inr (foreignOperator "//" "comments start with --; write a / b to divide"))],
      .slash⟩,
    ⟨asciiPercent, [(asciiEquals, .inr (compoundAssignment "%=" "write x = x % 2"))], .percent⟩,
    ⟨asciiEquals, [(asciiEquals, .inl .equalsEquals), (asciiGreater, .inl .fatArrow),
      (asciiLess, .inr (foreignOperator "=<" "write '<='"))], .equals⟩,
    ⟨asciiLess, [(asciiEquals, .inl .lessEquals),
      (asciiGreater, .inr (foreignOperator "<>" "write '!=' for inequality"))], .less⟩,
    ⟨asciiGreater, [(asciiEquals, .inl .greaterEquals)], .greater⟩]

section

variable (text : SourceText)

def operatorToken (cursor : Nat) (row : OperatorRow) : Except Diagnostic Token :=
  match row.pairs.find? fun pair => text.byteIs (cursor + 1) pair.1 with
  | some (_, .inl value) => .ok (text.symbol value cursor (cursor + 2))
  | some (_, .inr error) => .error (text.errorAt cursor (cursor + 2) error)
  | none => .ok (text.symbol row.alone cursor (cursor + 1))

def numberOrPunctuation (cursor : Nat) : Except Diagnostic Token :=
  if text.byteIs cursor asciiExclamation && text.byteIs (cursor + 1) asciiEquals then
    .ok (text.symbol .notEquals cursor (cursor + 2))
  else if text.byteIs cursor asciiQuestion && text.byteIs (cursor + 1) asciiEquals then
    .ok (text.symbol .questionEquals cursor (cursor + 2))
  else if text.byteIn cursor .decimalDigit then text.numericToken cursor
  else if text.byteIs cursor asciiCr then .error (text.byteError cursor lineEnding)
  else if text.byteIs cursor asciiTab then .error (text.byteError cursor separatingTab)
  else
    match (text.byteAt cursor).bind punctuation with
    | some value => .ok (text.symbol value cursor (cursor + 1))
    | none => .error (text.byteError cursor unsupportedCharacter)

def symbolToken (cursor : Nat) : Except Diagnostic Token :=
  if text.byteIs cursor asciiDot && text.byteIs (cursor + 1) asciiDot &&
      text.byteIs (cursor + 2) asciiDot then
    .ok (text.symbol .ellipsis cursor (cursor + 3))
  else if text.byteIs cursor asciiDot && text.byteIs (cursor + 1) asciiDot then
    .ok (text.symbol .dotDot cursor (cursor + 2))
  else
    match operatorRows.find? fun row => text.byteIs cursor row.first with
    | some row => text.operatorToken cursor row
    | none => text.numberOrPunctuation cursor

def literalOrSymbol (fuel cursor : Nat) : Outcome Diagnostic Token :=
  if text.byteIs cursor asciiDoubleQuote then text.holeQuotedToken fuel cursor
  else if text.byteIs cursor asciiSingleQuote then liftM (text.charToken cursor)
  else liftM (text.symbolToken cursor)

/-- Scans the code token at `cursor`; the caller handles spaces, comments and LF. -/
def codeToken (fuel cursor : Nat) : Outcome Diagnostic ScannedToken :=
  if text.byteIn cursor .identifierStart then
    let stop := text.runEnd (cursor + 1) .identifierByte
    let spelling := asciiText (text.sliced cursor stop)
    match wordKind spelling with
    | some kind => .ok (.readyToken (text.token kind cursor stop))
    | none => .ok (.wordToken spelling cursor stop)
  else do
    let scanned ← text.literalOrSymbol fuel cursor
    .ok (.readyToken scanned)

/-! ## Comments -/

def commentContinues (position : Nat) : Bool :=
  match text.byteAt position with
  | some code => code ≤ asciiDel && code != asciiLf && code != asciiCr
  | none => false

def commentStarts (cursor : Nat) : Bool :=
  text.byteIs cursor asciiMinus && text.byteIs (cursor + 1) asciiMinus

/-- A comment holds ASCII bytes other than CR, up to the LF or EOF ending its line. -/
def commentEnd (start : Nat) : Except Diagnostic Nat :=
  let stop := advance (fun position => position < text.length && text.commentContinues position)
    (text.length - (start + 2)) (start + 2)
  if stop = text.length ∨ text.byteIs stop asciiLf then .ok stop
  else if text.byteIs stop asciiCr then .error (text.byteError stop lineEnding)
  else .error (text.byteError stop commentByte)

end

def endsValue : TokenKind → Bool
  | .keywordToken .voidKeyword | .integerLiteral _ | .floatLiteral _ | .quotedString _
  | .stringEnd | .charLiteral | .symbolToken .rightParen | .symbolToken .rightBracket
  | .symbolToken .rightBrace => true
  | _ => false

/-- Whether the last token is a value that ends directly before `cursor`. -/
def afterValue (previous : Option ScannedToken) (cursor : Nat) : Bool :=
  match previous with
  | some (.wordToken _ _ stop) => stop == cursor
  | some (.readyToken ready) => endsValue ready.kind && ready.span.stop == cursor
  | none => false

/-- A comment after code on its line.  `--` directly after a value is rejected, so `a--1`
cannot silently read as `a`. -/
def codeCommentEnd (text : SourceText) (previous : Option ScannedToken) (cursor : Nat) :
    Except Diagnostic Nat :=
  if afterValue previous cursor then .error (text.errorAt cursor (cursor + 2) commentAfterValue)
  else text.commentEnd cursor

/-! ## Interpolated Strings -/

/-- The tokens of a hole so far, the cursor, and the open braces of its expression. -/
structure HoleState where
  tokens : List ScannedToken
  cursor : Nat
  braces : Nat

def bracesAfter (braces : Nat) : ScannedToken → Nat
  | .readyToken ready =>
      match ready.kind with
      | .symbolToken .leftBrace => braces + 1
      | .symbolToken .rightBrace => braces - 1
      | _ => braces
  | .wordToken .. => braces

def interpolationTurn (text : SourceText) (fuel opening : Nat) (state : HoleState) :
    Outcome Diagnostic (Turn HoleState ScannedCode) :=
  let cursor := state.cursor
  if cursor = text.length ∨ text.byteIs cursor asciiLf then
    .err (text.errorAt opening (opening + 2) unclosedInterpolation)
  else if text.byteIs cursor asciiSpace then .ok (.again { state with cursor := cursor + 1 })
  else if text.commentStarts cursor then do
    let stop ← text.codeCommentEnd state.tokens.getLast? cursor
    .ok (.again { state with cursor := stop })
  else if text.byteIs cursor asciiRightBrace ∧ state.braces = 0 then
    .ok (.done ⟨state.tokens ++
      [.readyToken (text.token .interpolationClose cursor (cursor + 1))], cursor + 1⟩)
  else do
    let scanned ← text.codeToken fuel cursor
    .ok (.again ⟨state.tokens ++ [scanned], scanned.stop, bracesAfter state.braces scanned⟩)

/-- Braces belong to record expressions until the hole's own closing brace. -/
def interpolationTokens (text : SourceText) (fuel opening : Nat) : Outcome Diagnostic ScannedCode :=
  turns (text.interpolationTurn fuel opening) fuel
    ⟨[.readyToken (text.token .interpolationOpen opening (opening + 2))], opening + 2, 0⟩

/-- The tokens of an interpolated String so far, where its open segment starts, and the
cursor. -/
structure QuotedState where
  tokens : List ScannedToken
  start : Nat
  cursor : Nat

section

variable (text : SourceText)

/-- The segment from `start` to `cursor`, where there is one. -/
def segment (start cursor : Nat) : List ScannedToken :=
  if start < cursor then
    [.readyToken (text.token (.stringSegment (text.sliced start cursor)) start cursor)]
  else []

def quotedTurn (fuel opening : Nat) (state : QuotedState) :
    Outcome Diagnostic (Turn QuotedState ScannedCode) :=
  let contents := opening + 1
  let cursor := state.cursor
  if text.byteIs cursor asciiDoubleQuote then
    let stop := cursor + 1
    if state.tokens.isEmpty then
      .ok (.done ⟨[.readyToken
        (text.token (.quotedString (text.sliced contents cursor)) opening stop)], stop⟩)
    else
      .ok (.done ⟨state.tokens ++ text.segment state.start cursor ++
        [.readyToken (text.token .stringEnd cursor stop)], stop⟩)
  else if text.opensHole cursor then do
    let opened := if state.tokens.isEmpty then
        [.readyToken (text.token (.stringStart .quotedStringForm) opening contents)]
      else state.tokens
    let hole ← text.interpolationTokens fuel cursor
    .ok (.again ⟨opened ++ text.segment state.start cursor ++ hole.tokens, hole.stop, hole.stop⟩)
  else do
    let next ← text.quotedCharacterEnd opening cursor
    .ok (.again { state with cursor := next })

def quotedTokens (fuel opening : Nat) : Outcome Diagnostic ScannedCode :=
  turns (text.quotedTurn fuel opening) fuel ⟨[], opening + 1, opening + 1⟩

/-! ## Lines -/

/-- Whether a fence line starts at `start`: three dashes, spaces, then LF or EOF. -/
def fenceAt (start : Nat) : Bool :=
  let afterSpaces := text.runEnd (start + docFenceWidth) .spaceByte
  text.byteIs start asciiMinus && text.byteIs (start + 1) asciiMinus &&
    text.byteIs (start + 2) asciiMinus &&
    (afterSpaces == text.length || text.byteIs afterSpaces asciiLf)

/-- The start of the line after the one at `start`, or the end of the source.
Documentation text admits any byte but CR. -/
def nextLineStart (start : Nat) : Except Diagnostic Nat :=
  let stop := advance (fun position => position < text.length &&
    !text.byteIs position asciiLf && !text.byteIs position asciiCr) (text.length - start) start
  if text.byteIs stop asciiCr then .error (text.byteError stop lineEnding)
  else .ok (min (stop + 1) text.length)

def docBlockTurn (line : Nat) : Outcome Diagnostic (Turn Nat Nat) :=
  if line = text.length ∨ text.fenceAt line then .ok (.done line)
  else do
    let next ← text.nextLineStart line
    .ok (.again next)

/-- A documentation block opens at the fence line at `fence` and ends after the next fence
line at column 1; the lines between are trivia. -/
def docBlockEnd (fuel fence : Nat) : Outcome Diagnostic Nat := do
  let first ← text.nextLineStart fence
  let closing ← turns text.docBlockTurn fuel first
  if closing = text.length then
    .err (text.errorAt fence (fence + docFenceWidth) unterminatedDocBlock)
  else liftM (text.nextLineStart closing)

/-- Where the trivia at `start`, which is an LF, EOF or comment, ends. -/
def triviaEnd (start : Nat) : Except Diagnostic Nat :=
  if text.byteIs start asciiMinus then text.commentEnd start else .ok start

end

structure LinePrefix where
  start : Nat
  stop : Nat

/-- A code line's indentation and level.  At the end of the source it is an empty line at
level 0, which closes every open level. -/
structure CodeLine where
  margin : LinePrefix
  level : Nat

def indentationLevel (text : SourceText) (margin : LinePrefix) : Except Diagnostic Nat :=
  let width := margin.stop - margin.start
  if text.runEnd margin.start .tabByte = margin.stop then .ok width
  else if text.runEnd margin.start .spaceByte = margin.stop ∧ width % spaceIndentWidth = 0 then
    .ok (width / spaceIndentWidth)
  else .error (text.errorAt margin.start margin.stop invalidIndentation)

def linePrefix (text : SourceText) (start : Nat) : LinePrefix :=
  ⟨start, text.runEnd start .indentationByte⟩

def codeLineTurn (text : SourceText) (fuel : Nat) (line : LinePrefix) :
    Outcome Diagnostic (Turn LinePrefix LinePrefix) :=
  if line.stop = text.length ∨ ¬ (text.byteIs line.stop asciiLf || text.commentStarts line.stop) then
    .ok (.done line)
  else if line.start = line.stop ∧ text.fenceAt line.stop then do
    let afterBlock ← text.docBlockEnd fuel line.stop
    .ok (.again (text.linePrefix afterBlock))
  else do
    let stop ← text.triviaEnd line.stop
    .ok (.again (text.linePrefix (min (stop + 1) text.length)))

/-- Skips blank, whitespace-only and comment-only lines from the line at `start` to the
next code line, with its indentation level. -/
def nextCodeLine (text : SourceText) (fuel start : Nat) : Outcome Diagnostic CodeLine := do
  let margin ← turns (text.codeLineTurn fuel) fuel (text.linePrefix start)
  if margin.stop = text.length then .ok ⟨⟨text.length, text.length⟩, 0⟩
  else do
    let level ← text.indentationLevel margin
    .ok ⟨margin, level⟩

/-! ## Pipe Strings -/

/-- A pipe scan stops at an interpolation opener; a raw block keeps every byte. -/
inductive PipeForm where
  | pipeMarkers
  | rawText
  deriving DecidableEq

/-- A pipe line's text byte: a tab, a printable byte or a UTF-8 scalar. -/
def pipeByteEnd (text : SourceText) (position byte : Nat) : Except Diagnostic Nat :=
  if byte = asciiTab then .ok (position + 1) else text.rawCharacterEnd position byte

def pipeLineTurn (text : SourceText) (form : PipeForm) (cursor : Nat) :
    Outcome Diagnostic (Turn Nat Nat) :=
  match text.byteAt cursor with
  | none => .ok (.done cursor)
  | some byte =>
      if byte = asciiLf then .ok (.done cursor)
      else if form = .pipeMarkers ∧ text.opensHole cursor then .ok (.done cursor)
      else do
        let next ← text.pipeByteEnd cursor byte
        .ok (.again next)

/-- The end of the pipe line text starting at `start`: its LF, the end of the source or an
interpolation opener. -/
def pipeLineEnd (text : SourceText) (fuel start : Nat) (form : PipeForm) : Outcome Diagnostic Nat :=
  turns (text.pipeLineTurn form) fuel start

/-- Whether the line starting at `lineStart` begins with exactly the bytes of the
indentation `first`. -/
def sameIndentation (text : SourceText) (first : LinePrefix) (lineStart : Nat) : Bool :=
  (List.range (first.stop - first.start)).all fun offset =>
    match text.byteAt (first.start + offset) with
    | some expected => text.byteIs (lineStart + offset) expected
    | none => false

/-- The marker of the next line when it continues the block: the line after the LF at
`lineEnd` starts with the first marker's indentation bytes and then `|`. -/
def continuingMarker (text : SourceText) (lineEnd : Nat) (first : LinePrefix) : Option Nat :=
  let lineStart := lineEnd + 1
  let marker := lineStart + (first.stop - first.start)
  if text.byteIs lineEnd asciiLf && text.sameIndentation first lineStart &&
      text.byteIs marker asciiBar then
    some marker
  else none

structure PipeBlock where
  value : Bytes
  stop : Nat

/-- The value so far and the marker of the line to read. -/
def pipeBlockTurn (text : SourceText) (fuel : Nat) (first : LinePrefix) (form : PipeForm)
    (state : Bytes × Nat) : Outcome Diagnostic (Turn (Bytes × Nat) PipeBlock) := do
  let textStart := state.2 + 1
  let lineEnd ← text.pipeLineEnd fuel textStart form
  let value := state.1 ++ text.sliced textStart lineEnd
  match text.continuingMarker lineEnd first with
  | some next => .ok (.again (value ++ [10], next))
  | none => .ok (.done ⟨value, lineEnd⟩)

/-- Reads the block whose first marker ends the indentation `first`, joining the lines'
text with LF. -/
def pipeBlock (text : SourceText) (fuel : Nat) (first : LinePrefix) (form : PipeForm) :
    Outcome Diagnostic PipeBlock :=
  turns (text.pipeBlockTurn fuel first form) fuel ([], first.stop)

/-- The joined text before the first hole, the tokens from the first hole on, and where
the next text starts. -/
structure PipeState where
  joined : List Bytes
  tokens : List ScannedToken
  start : Nat

section

variable (text : SourceText)

/-- The text of a line up to `stop`: joined, or a segment once a hole has occurred. -/
def pipeText (state : PipeState) (stop : Nat) : PipeState :=
  if state.tokens.isEmpty then
    { state with joined := state.joined ++ [text.sliced state.start stop] }
  else { state with tokens := state.tokens ++ text.segment state.start stop }

def pipeOpened (first : LinePrefix) (state : PipeState) (stop : Nat) : List ScannedToken :=
  if state.tokens.isEmpty then
    let contents := first.stop + 1
    [.readyToken (text.token (.stringStart .pipeStringForm) first.stop contents)] ++
      if state.joined.isEmpty then []
      else [.readyToken (text.token (.stringSegment state.joined.flatten) contents stop)]
  else state.tokens

def pipeTurn (fuel : Nat) (first : LinePrefix) (state : PipeState) :
    Outcome Diagnostic (Turn PipeState ScannedCode) := do
  let stop ← text.pipeLineEnd fuel state.start .pipeMarkers
  let read := text.pipeText state stop
  if text.byteIs stop asciiDollar then do
    let opened := text.pipeOpened first read stop
    let hole ← text.interpolationTokens fuel stop
    .ok (.again ⟨if read.tokens.isEmpty then [] else read.joined, opened ++ hole.tokens, hole.stop⟩)
  else
    match text.continuingMarker stop first with
    | none =>
        if read.tokens.isEmpty then
          .ok (.done ⟨[.readyToken (text.token (.pipeString read.joined.flatten) first.stop stop)],
            stop⟩)
        else
          .ok (.done ⟨read.tokens ++ [.readyToken (text.token .stringEnd stop stop)], stop⟩)
    | some marker =>
        if read.tokens.isEmpty then
          .ok (.again { read with joined := read.joined ++ [[10]], start := marker + 1 })
        else
          .ok (.again { read with
            tokens := read.tokens ++
              [.readyToken (text.token (.stringSegment [10]) stop (stop + 1))],
            start := marker + 1 })

/-- A no-hole pipe is one joined token.  Once a hole occurs, text and code tokens retain
original source offsets rather than joined offsets. -/
def pipeTokens (fuel : Nat) (first : LinePrefix) : Outcome Diagnostic ScannedCode :=
  turns (text.pipeTurn fuel first) fuel ⟨[], [], first.stop + 1⟩

/-- The indentation of the marker line that opens a raw block when the code at `start` is
the word `raw`, trailing spaces, a LF and then that indented marker line. -/
def rawBlockMarkerLine (start : Nat) : Option LinePrefix :=
  let wordEnd := text.runEnd start .identifierByte
  let lineEnd := text.runEnd wordEnd .spaceByte
  let markerLine := text.linePrefix (lineEnd + 1)
  let isRawWord := wordEnd == start + 3 && text.byteIs start asciiLowerR &&
    text.byteIs (start + 1) asciiLowerA && text.byteIs (start + 2) asciiLowerW
  if isRawWord && text.byteIs lineEnd asciiLf && text.byteIs markerLine.stop asciiBar then
    some markerLine
  else none

/-- The pipe String or raw block a line starts with after its indentation; `none` for
ordinary code. -/
def lineCode (fuel : Nat) (margin : LinePrefix) : Outcome Diagnostic (Option ScannedCode) :=
  if text.byteIs margin.stop asciiBar then do
    let block ← text.pipeTokens fuel margin
    .ok (some block)
  else
    match text.rawBlockMarkerLine margin.stop with
    | some markerLine => do
        let block ← text.pipeBlock fuel markerLine .rawText
        .ok (some ⟨[.readyToken (text.token (.pipeString block.value) margin.stop block.stop)],
          block.stop⟩)
    | none => .ok none

end

end SourceText

end Blorp.Lex
