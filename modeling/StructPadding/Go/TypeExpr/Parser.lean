import StructPadding.Go.Cursor
import StructPadding.Go.TypeExpr

/-!
# Parsing type expressions

A type is read from tokens by recursive descent. Of a signature, an interface and an instantiated
type only the extent is found. What follows the type is not looked at.
-/

namespace StructPadding.Go.TypeExpr

/-- The names after the first one that share a type: each after a comma and any line breaks. -/
def moreNames : Nat → Cursor → Except SyntaxError (List String × Cursor)
  | 0, c => .ok ([], c)
  | steps + 1, c =>
    if c.atPunct ',' then do
      let (name, c) ← c.advance.skipNewlines.expectName
      let (names, c) ← moreNames steps c
      return (name :: names, c)
    else .ok ([], c)

/-- Whether the tokens of a field are a type alone: a pointer, a selected name, or a name that ends
the field. -/
def startsEmbedded (c : Cursor) : Bool :=
  match c.peek, c.advance.peek with
  | some (.punct p), _ => p == '*'
  | some (.ident _), none => true
  | some (.ident _), some (.punct p) => p == '.' || p == ';' || p == '\x7d'
  | some (.ident _), some kind => kind == .newline || kind == .str
  | _, _ => false

/-- Moves past a literal, if there is one. -/
def skipTag (c : Cursor) : Cursor :=
  if c.peek = some .str then c.advance else c

/-- A field has to be followed by a separator or by the end of its struct. -/
def checkFieldEnd (c : Cursor) : Except SyntaxError Unit :=
  match c.peek with
  | some kind =>
    if kind.isSeparator || kind == .punct '\x7d' then .ok () else c.fail (.afterField kind)
  | none => c.fail .structUnterminated

mutual

/-- Reads a type. A step is taken for each type and for each field. -/
def parseWith (source : List Char) : Nat → Cursor → Except SyntaxError (TypeExpr × Cursor)
  | 0, c => c.fail (.typeExpected none)
  | steps + 1, c =>
    match c.rest with
    | [] => c.fail (.typeExpected none)
    | t :: _ =>
      match t.kind with
      | .ident "struct" => do
        let inside ← c.advance.expectPunct '\x7b'
        let (fields, after) ← fieldsWith source steps inside
        return (.struct fields, after)
      | .ident "interface" => do
        let after ← c.advance.skipBalanced '\x7b' '\x7d'
        return (.interface (sourceText source t.start after), after)
      | .ident "map" => do
        let inside ← c.advance.expectPunct '['
        let (key, inside) ← parseWith source steps inside
        let after ← inside.expectPunct ']'
        let (value, after) ← parseWith source steps after
        return (.map key value, after)
      | .ident "chan" =>
        if c.advance.peek = some .arrow then do
          let (elem, after) ← parseWith source steps c.advance.advance
          return (.chan .send elem, after)
        else do
          let (elem, after) ← parseWith source steps c.advance
          return (.chan .both elem, after)
      | .ident "func" => do
        let after ← c.advance.skipBalanced '(' ')'
        let after ← resultsWith source steps after
        return (.func (sourceText source t.start after), after)
      | .ident name =>
        if c.advance.atPunct '.' then do
          let (selected, after) ← c.advance.advance.expectName
          return (.qualified name selected, after)
        else if c.advance.atPunct '[' then do
          let after ← c.advance.skipBalanced '[' ']'
          return (.instantiated (sourceText source t.start after), after)
        else .ok (.named name, c.advance)
      | .punct '*' => do
        let (elem, after) ← parseWith source steps c.advance
        return (.pointer elem, after)
      | .punct '(' => do
        let (inner, inside) ← parseWith source steps c.advance
        let after ← inside.expectPunct ')'
        return (inner, after)
      | .punct '[' =>
        if c.advance.atPunct ']' then do
          let (elem, after) ← parseWith source steps c.advance.advance
          return (.slice elem, after)
        else
          match c.advance.peek with
          | none => c.advance.fail .lengthExpected
          | some (.number (some length)) => do
            let after ← c.advance.advance.expectPunct ']'
            let (elem, after) ← parseWith source steps after
            return (.array length elem, after)
          | some (.ident length) => do
            let after ← c.advance.advance.expectPunct ']'
            let (elem, after) ← parseWith source steps after
            return (.symbolicArray length elem, after)
          | some _ => c.advance.fail .lengthUnsupported
      | .arrow => do
        let (word, after) ← c.advance.expectName
        if word = "chan" then do
          let (elem, after) ← parseWith source steps after
          return (.chan .recv elem, after)
        else c.fail (.chanExpected word)
      | kind => c.fail (.typeExpected (some kind))

/-- Moves past the results of a signature. -/
def resultsWith (source : List Char) : Nat → Cursor → Except SyntaxError Cursor
  | 0, c => c.fail (.typeExpected none)
  | steps + 1, c =>
    match c.peek with
    | some (.punct '(') => c.skipBalanced '(' ')'
    | some (.ident _) | some (.punct '*') | some (.punct '[') | some .arrow => do
      let (_, after) ← parseWith source steps c
      return after
    | _ => .ok c

/-- Reads the fields of a struct that are left, and its closing brace. -/
def fieldsWith (source : List Char) :
    Nat → Cursor → Except SyntaxError (List (FieldDecl TypeExpr) × Cursor)
  | 0, c => c.fail .structUnterminated
  | steps + 1, c =>
    let c := c.skipSeparators
    if c.rest.isEmpty then c.fail .structUnterminated
    else if c.atPunct '\x7d' then .ok ([], c.advance)
    else do
      let (field, c) ← fieldWith source steps c
      let c := skipTag c
      checkFieldEnd c
      let (fields, c) ← fieldsWith source steps c
      return (field ++ fields, c)

/-- Reads a field, or several that share a type. -/
def fieldWith (source : List Char) :
    Nat → Cursor → Except SyntaxError (List (FieldDecl TypeExpr) × Cursor)
  | 0, c => c.fail .structUnterminated
  | steps + 1, c =>
    if startsEmbedded c then do
      let (type, after) ← parseWith source steps c
      match type.embeddedName? with
      | some name => return ([⟨name, type, true⟩], after)
      | none => c.fail (.embeddedInvalid type.text)
    else do
      let (name, after) ← c.expectName
      let (names, after) ← moreNames after.rest.length after
      let (type, after) ← parseWith source steps after
      return ((name :: names).map fun name => ⟨name, type, false⟩, after)

end

/-- Steps that are enough for what the cursor has before it: between two tokens that are read there
are never more than three steps. -/
def enough (c : Cursor) : Nat :=
  3 * c.rest.length + 3

/-- Reads the type that the cursor stands at. -/
def parse (source : List Char) (c : Cursor) : Except SyntaxError (TypeExpr × Cursor) :=
  parseWith source (enough c) c

end StructPadding.Go.TypeExpr
