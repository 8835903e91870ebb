import StructPadding.Go.Numeral
import StructPadding.Text.Letter
import StructPadding.Text.Quoted
import StructPadding.Text.Utf8

/-!
# Go tokens

A Go source is cut into pieces, each a token or something to skip: blanks and comments. The pieces
put together are the source again. A comment over several lines counts as one line break, which ends
a declaration just as a line break does.
-/

namespace StructPadding.Go

/-- What a token is. -/
inductive TokenKind where
  | ident (name : String)
  /-- A number, and its value if it is an integer that fits 64 bits. -/
  | number (value : Option Nat)
  /-- A string or character literal; what it says does not matter here. -/
  | str
  /-- The arrow `<-`. -/
  | arrow
  /-- Three dots. -/
  | ellipsis
  | newline
  | punct (c : Char)
deriving DecidableEq

namespace TokenKind

/-- A token as complaints name it. -/
def describe : TokenKind → String
  | ident name => "Ident(" ++ Text.quoted name ++ ")"
  | number (some value) => s!"Number(Some({value}))"
  | number none => "Number(None)"
  | str => "Str"
  | arrow => "Arrow"
  | ellipsis => "Ellipsis"
  | newline => "Newline"
  | punct c => "Punct(" ++ Text.quotedChar c ++ ")"

/-- Line breaks and semicolons end a field or a declaration. -/
def isSeparator : TokenKind → Bool
  | newline => true
  | punct c => c == ';'
  | _ => false

end TokenKind

/-- A token in a source: its line, counted from 1, and the bytes from `start` up to `stop`. -/
structure Token where
  kind : TokenKind
  line : Nat
  start : Nat
  stop : Nat
deriving DecidableEq

/-- Why a source cannot be cut into tokens. -/
inductive ScanCause where
  | unterminatedComment
  | unterminatedLiteral
  | unterminatedRaw
deriving DecidableEq

def ScanCause.message : ScanCause → String
  | unterminatedComment => "unterminated comment"
  | unterminatedLiteral => "unterminated literal"
  | unterminatedRaw => "unterminated raw string"

/-- What could not be scanned, and the line where it starts. -/
structure ScanError where
  line : Nat
  cause : ScanCause
deriving DecidableEq

/-- A piece of a source; a piece without a kind is skipped. -/
structure Piece where
  text : List Char
  kind : Option TokenKind

namespace Piece

/-- How many lines the piece goes on for. -/
def breaks (p : Piece) : Nat :=
  p.text.count '\n'

/-- The piece as a token that starts at a line and a byte. -/
def token? (p : Piece) (line start : Nat) : Option Token :=
  p.kind.map fun kind => ⟨kind, line, start, start + Text.Utf8.size p.text⟩

end Piece

/-- The rest of a block comment with its end, and what follows. -/
def closeComment : List Char → Option (List Char × List Char)
  | [] => none
  | '*' :: '/' :: rest => some (['*', '/'], rest)
  | c :: rest => (closeComment rest).map fun (body, after) => (c :: body, after)

/-- The rest of a literal with its closing quote, and what follows. A backslash takes the next
character with it; a literal ends on the line it starts on. -/
def closeLiteral (quote : Char) : List Char → Option (List Char × List Char)
  | [] => none
  | '\\' :: c :: rest =>
    if c = '\n' then none
    else (closeLiteral quote rest).map fun (body, after) => ('\\' :: c :: body, after)
  | c :: rest =>
    if c = '\n' then none
    else if c = quote then some ([c], rest)
    else (closeLiteral quote rest).map fun (body, after) => (c :: body, after)

/-- The rest of a raw string with its closing quote, and what follows. -/
def closeRaw : List Char → Option (List Char × List Char)
  | [] => none
  | c :: rest =>
    if c = '\x60' then some ([c], rest)
    else (closeRaw rest).map fun (body, after) => (c :: body, after)

/-- The letters a name may start with. -/
def startsName (c : Char) : Bool :=
  c == '_' || Text.isAlphabetic c

/-- The characters a name may go on with. -/
def continuesName (c : Char) : Bool :=
  c == '_' || Text.isAlphanumeric c

/-- The characters a number may go on with. -/
def continuesNumber (c : Char) : Bool :=
  c.isAlphanum || c == '_' || c == '.'

/-- The first piece of a source that starts with `c`, and the source after it. -/
def firstPiece (c : Char) (cs : List Char) : Except ScanCause (Piece × List Char) :=
  let single (kind : Option TokenKind) : Except ScanCause (Piece × List Char) :=
    .ok (⟨[c], kind⟩, cs)
  let closed (opening : List Char) (found : Option (List Char × List Char)) (cause : ScanCause)
      (kind : List Char → Option TokenKind) : Except ScanCause (Piece × List Char) :=
    match found with
    | some (body, rest) => .ok (⟨opening ++ body, kind body⟩, rest)
    | none => .error cause
  if c = '\n' then single (some .newline)
  else if c = ' ' ∨ c = '\t' ∨ c = '\r' then single none
  else if c = '/' then
    match cs with
    | '/' :: rest =>
      .ok (⟨c :: '/' :: rest.takeWhile (· ≠ '\n'), none⟩, rest.dropWhile (· ≠ '\n'))
    | '*' :: rest =>
      closed [c, '*'] (closeComment rest) .unterminatedComment fun body =>
        if body.contains '\n' then some .newline else none
    | _ => single (some (.punct c))
  else if c = '"' ∨ c = '\'' then
    closed [c] (closeLiteral c cs) .unterminatedLiteral fun _ => some .str
  else if c = '\x60' then closed [c] (closeRaw cs) .unterminatedRaw fun _ => some .str
  else if c.isDigit then
    let text := c :: cs.takeWhile continuesNumber
    .ok (⟨text, some (.number (Numeral.value? text))⟩, cs.dropWhile continuesNumber)
  else if c = '<' ∧ cs.head? = some '-' then .ok (⟨[c, '-'], some .arrow⟩, cs.drop 1)
  else if c = '.' ∧ cs.take 2 = ['.', '.'] then .ok (⟨[c, '.', '.'], some .ellipsis⟩, cs.drop 2)
  else if startsName c then
    let text := c :: cs.takeWhile continuesName
    .ok (⟨text, some (.ident (String.ofList text))⟩, cs.dropWhile continuesName)
  else single (some (.punct c))

theorem closeComment_append {cs body rest : List Char} (h : closeComment cs = some (body, rest)) :
    body ++ rest = cs := by
  fun_induction closeComment cs generalizing body rest with
  | case1 => simp at h
  | case2 =>
    obtain ⟨rfl, rfl⟩ := Prod.mk.inj (Option.some.inj h)
    rfl
  | case3 c cs _ ih =>
    obtain ⟨⟨b, r⟩, hb, he⟩ := Option.map_eq_some_iff.1 h
    obtain ⟨rfl, rfl⟩ := Prod.mk.inj he
    simp [ih hb]

theorem closeLiteral_append {quote : Char} {cs body rest : List Char}
    (h : closeLiteral quote cs = some (body, rest)) : body ++ rest = cs := by
  fun_induction closeLiteral quote cs generalizing body rest with
  | case1 => simp at h
  | case2 => simp at h
  | case3 c cs _ ih =>
    obtain ⟨⟨b, r⟩, hb, he⟩ := Option.map_eq_some_iff.1 h
    obtain ⟨rfl, rfl⟩ := Prod.mk.inj he
    simp [ih hb]
  | case4 => simp at h
  | case5 =>
    obtain ⟨rfl, rfl⟩ := Prod.mk.inj (Option.some.inj h)
    rfl
  | case6 c cs _ _ _ ih =>
    obtain ⟨⟨b, r⟩, hb, he⟩ := Option.map_eq_some_iff.1 h
    obtain ⟨rfl, rfl⟩ := Prod.mk.inj he
    simp [ih hb]

theorem closeRaw_append {cs body rest : List Char} (h : closeRaw cs = some (body, rest)) :
    body ++ rest = cs := by
  fun_induction closeRaw cs generalizing body rest with
  | case1 => simp at h
  | case2 =>
    obtain ⟨rfl, rfl⟩ := Prod.mk.inj (Option.some.inj h)
    rfl
  | case3 c cs _ ih =>
    obtain ⟨⟨b, r⟩, hb, he⟩ := Option.map_eq_some_iff.1 h
    obtain ⟨rfl, rfl⟩ := Prod.mk.inj he
    simp [ih hb]

/-- A piece and what follows it make up the source. -/
theorem firstPiece_append {c : Char} {cs rest : List Char} {p : Piece}
    (h : firstPiece c cs = .ok (p, rest)) : p.text ++ rest = c :: cs := by
  simp only [firstPiece] at h
  split at h
  · obtain ⟨rfl, rfl⟩ := Prod.mk.inj (Except.ok.inj h)
    rfl
  split at h
  · obtain ⟨rfl, rfl⟩ := Prod.mk.inj (Except.ok.inj h)
    rfl
  split at h
  · split at h
    · obtain ⟨rfl, rfl⟩ := Prod.mk.inj (Except.ok.inj h)
      simp
    · split at h
      · next hb =>
        obtain ⟨rfl, rfl⟩ := Prod.mk.inj (Except.ok.inj h)
        simp [closeComment_append hb]
      · simp at h
    · obtain ⟨rfl, rfl⟩ := Prod.mk.inj (Except.ok.inj h)
      rfl
  split at h
  · split at h
    · next hb =>
      obtain ⟨rfl, rfl⟩ := Prod.mk.inj (Except.ok.inj h)
      simp [closeLiteral_append hb]
    · simp at h
  split at h
  · split at h
    · next hb =>
      obtain ⟨rfl, rfl⟩ := Prod.mk.inj (Except.ok.inj h)
      simp [closeRaw_append hb]
    · simp at h
  split at h
  · obtain ⟨rfl, rfl⟩ := Prod.mk.inj (Except.ok.inj h)
    simp
  split at h
  · next hc =>
    obtain ⟨rfl, rfl⟩ := Prod.mk.inj (Except.ok.inj h)
    obtain ⟨ds, rfl⟩ := List.head?_eq_some_iff.1 hc.2
    rfl
  split at h
  · next hc =>
    obtain ⟨rfl, rfl⟩ := Prod.mk.inj (Except.ok.inj h)
    have := List.take_append_drop 2 cs
    rw [hc.2] at this
    simpa using this
  split at h
  · obtain ⟨rfl, rfl⟩ := Prod.mk.inj (Except.ok.inj h)
    simp
  · obtain ⟨rfl, rfl⟩ := Prod.mk.inj (Except.ok.inj h)
    rfl

/-- A piece is not empty. -/
theorem firstPiece_text_ne_nil {c : Char} {cs rest : List Char} {p : Piece}
    (h : firstPiece c cs = .ok (p, rest)) : p.text ≠ [] := by
  simp only [firstPiece] at h
  repeat' split at h
  all_goals cases h <;> simp

theorem firstPiece_rest_lt {c : Char} {cs rest : List Char} {p : Piece}
    (h : firstPiece c cs = .ok (p, rest)) : rest.length < (c :: cs).length := by
  have happ := congrArg List.length (firstPiece_append h)
  have hne := List.length_pos_iff.2 (firstPiece_text_ne_nil h)
  simp only [List.length_append] at happ
  omega

/-- The tokens of a source that goes on at a line and a byte. -/
def tokensFrom (line start : Nat) (cs : List Char) : Except ScanError (List Token) :=
  match cs with
  | [] => .ok []
  | c :: cs =>
    match h : firstPiece c cs with
    | .error cause => .error ⟨line, cause⟩
    | .ok (p, rest) =>
      have := firstPiece_rest_lt h
      (tokensFrom (line + p.breaks) (start + Text.Utf8.size p.text) rest).map
        ((p.token? line start).toList ++ ·)
termination_by cs.length
decreasing_by exact this

/-- The tokens of a source. -/
def tokens (source : List Char) : Except ScanError (List Token) :=
  tokensFrom 1 0 source

end StructPadding.Go
