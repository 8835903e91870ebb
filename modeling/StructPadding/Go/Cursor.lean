import StructPadding.Go.Token
import StructPadding.Text.Blank

/-!
# Cursors

A cursor stands between two tokens of a source. What is expected there and missing is reported with
the token that stands there instead, and on its line.
-/

namespace StructPadding.Go

/-- Why tokens do not form declarations. -/
inductive SyntaxCause where
  | punctExpected (c : Char) (found : Option TokenKind)
  | nameExpected (found : Option TokenKind)
  | typeExpected (found : Option TokenKind)
  | lengthExpected
  | lengthUnsupported
  | chanExpected (found : String)
  | groupUnterminated
  | structUnterminated
  | afterField (found : TokenKind)
  | embeddedInvalid (text : String)
  | unbalanced (opening : Char)
deriving DecidableEq

namespace SyntaxCause

/-- The token that was found instead, if any. -/
def found : Option TokenKind → String
  | some kind => ", found " ++ kind.describe
  | none => ""

def message : SyntaxCause → String
  | punctExpected c kind => s!"expected `{c}`" ++ found kind
  | nameExpected kind => "expected identifier" ++ found kind
  | typeExpected (some kind) => "expected type" ++ found (some kind)
  | typeExpected none => "expected type, found end of file"
  | lengthExpected => "expected array length"
  | lengthUnsupported => "unsupported array length"
  | chanExpected name => s!"expected chan after <-, found {name}"
  | groupUnterminated => "unterminated type group"
  | structUnterminated => "unterminated struct"
  | afterField kind => s!"unexpected {kind.describe} after field"
  | embeddedInvalid text => s!"invalid embedded field {text}"
  | unbalanced opening => s!"unbalanced {opening}"

end SyntaxCause

/-- What is wrong, and on which line. -/
structure SyntaxError where
  line : Nat
  cause : SyntaxCause
deriving DecidableEq

/-- A place among the tokens of a source: the token before it and those after it. -/
structure Cursor where
  last : Option Token
  rest : List Token
deriving DecidableEq

namespace Cursor

/-- The cursor at the start of some tokens. -/
def start (tokens : List Token) : Cursor :=
  ⟨none, tokens⟩

/-- The kind of the next token. -/
def peek (c : Cursor) : Option TokenKind :=
  c.rest.head?.map Token.kind

/-- The line of the token before the cursor. -/
def lastLine (c : Cursor) : Nat :=
  match c.last with
  | some t => t.line
  | none => 1

/-- The line of the token after the cursor, or of the one before it at the end. -/
def line (c : Cursor) : Nat :=
  match c.rest with
  | t :: _ => t.line
  | [] => c.lastLine

/-- The cursor one token further. -/
def advance (c : Cursor) : Cursor :=
  match c.rest with
  | t :: rest => ⟨some t, rest⟩
  | [] => c

def fail {α : Type} (c : Cursor) (cause : SyntaxCause) : Except SyntaxError α :=
  .error ⟨c.line, cause⟩

/-- Whether the next token is this punctuation. -/
def atPunct (c : Cursor) (p : Char) : Bool :=
  c.peek == some (.punct p)

/-- Moves past punctuation if it is there. -/
def skipPunct (c : Cursor) (p : Char) : Cursor :=
  if c.atPunct p then c.advance else c

/-- Moves past punctuation that has to be there. -/
def expectPunct (c : Cursor) (p : Char) : Except SyntaxError Cursor :=
  if c.atPunct p then .ok c.advance else c.fail (.punctExpected p c.peek)

/-- Reads a name. -/
def expectName (c : Cursor) : Except SyntaxError (String × Cursor) :=
  match c.peek with
  | some (.ident name) => .ok (name, c.advance)
  | kind => c.fail (.nameExpected kind)

/-- Moves over tokens for as long as they are of certain kinds. -/
def skipWhile (p : TokenKind → Bool) (last : Option Token) : List Token → Cursor
  | [] => ⟨last, []⟩
  | t :: rest => if p t.kind then skipWhile p (some t) rest else ⟨last, t :: rest⟩

def skipSeparators (c : Cursor) : Cursor :=
  skipWhile TokenKind.isSeparator c.last c.rest

def skipNewlines (c : Cursor) : Cursor :=
  skipWhile (· == .newline) c.last c.rest

/-- Moves past the bracket that closes `depth` opened ones. -/
def closeBrackets (opening closing : Char) : Nat → Option Token → List Token → Option Cursor
  | 0, last, rest => some ⟨last, rest⟩
  | _ + 1, _, [] => none
  | depth + 1, _, t :: rest =>
    if t.kind = .punct opening then closeBrackets opening closing (depth + 2) (some t) rest
    else if t.kind = .punct closing then closeBrackets opening closing depth (some t) rest
    else closeBrackets opening closing (depth + 1) (some t) rest

/-- Moves past brackets and what stands between them. -/
def skipBalanced (c : Cursor) (opening closing : Char) : Except SyntaxError Cursor := do
  let inside ← c.expectPunct opening
  match closeBrackets opening closing 1 inside.last inside.rest with
  | some after => return after
  | none => c.fail (.unbalanced opening)

end Cursor

/-- The characters after the first `n` bytes. -/
def dropBytes : Nat → List Char → List Char
  | _, [] => []
  | n, c :: cs => if n = 0 then c :: cs else dropBytes (n - c.utf8Size) cs

/-- The characters of the first `n` bytes. -/
def takeBytes : Nat → List Char → List Char
  | _, [] => []
  | n, c :: cs => if n = 0 then [] else c :: takeBytes (n - c.utf8Size) cs

/-- Drops the separator right after an opening brace. -/
def tightenOpening : List Char → List Char
  | '\x7b' :: ';' :: ' ' :: cs => '\x7b' :: tightenOpening cs
  | c :: cs => c :: tightenOpening cs
  | [] => []

/-- Drops the separator right before a closing brace. -/
def tightenClosing : List Char → List Char
  | ';' :: ' ' :: '\x7d' :: cs => '\x7d' :: tightenClosing cs
  | c :: cs => c :: tightenClosing cs
  | [] => []

/-- Text on one line: lines are trimmed, empty ones left out, and the others joined by semicolons,
but none next to a brace. -/
def oneLine (cs : List Char) : List Char :=
  let lines := (cs.splitOn '\n').map Text.trim
  let joined := [';', ' '].intercalate (lines.filter (!·.isEmpty))
  tightenClosing (tightenOpening joined)

/-- The source from a byte up to the token before the cursor, on one line. -/
def sourceText (source : List Char) (start : Nat) (c : Cursor) : String :=
  let stop := (c.last.map Token.stop).getD start
  String.ofList (oneLine (takeBytes (stop - start) (dropBytes start source)))

end StructPadding.Go
