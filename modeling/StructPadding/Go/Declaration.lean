import StructPadding.Go.TypeExpr.Parser
import StructPadding.Layout

/-!
# Go type declarations

The type declarations at the top level of a Go source. Everything else there is passed over: only
brackets are counted, so that a declaration inside a function is not taken for one of the file.
-/

namespace StructPadding.Go

/-- A declaration of a type, from the line of its name to the line its type ends on. -/
structure TypeDecl where
  name : String
  type : TypeExpr
  generic : Bool
  lines : LineRange

namespace TypeDecl

/-- Whether the bracket after a declared name opens type parameters, and not the length of an array
or a slice. -/
def startsParams (c : Cursor) : Bool :=
  match c.advance.peek, c.advance.advance.peek with
  | some (.punct ']'), _ => false
  | some (.number _), _ => false
  | some (.ident _), some (.punct ']') => false
  | _, _ => true

/-- Reads one declaration after the word `type`. -/
def parse (source : List Char) (c : Cursor) : Except SyntaxError (TypeDecl × Cursor) := do
  let (name, after) ← c.expectName
  let generic := after.atPunct '[' && startsParams after
  let after ← if generic then after.skipBalanced '[' ']' else .ok after
  let (type, after) ← TypeExpr.parse source (after.skipPunct '=')
  return (⟨name, type, generic, ⟨c.line, after.lastLine⟩⟩, after)

/-- Reads the declarations of a group that are left, and its closing bracket. -/
def parseGroup (source : List Char) : Nat → Cursor → Except SyntaxError (List TypeDecl × Cursor)
  | 0, c => c.fail .groupUnterminated
  | steps + 1, c =>
    let c := c.skipSeparators
    if c.rest.isEmpty then c.fail .groupUnterminated
    else if c.atPunct ')' then .ok ([], c.advance)
    else do
      let (decl, c) ← parse source c
      let (decls, c) ← parseGroup source steps c
      return (decl :: decls, c)

/-- Reads one declaration or a group of them after the word `type`. -/
def parseDecls (source : List Char) (c : Cursor) : Except SyntaxError (List TypeDecl × Cursor) :=
  if c.atPunct '(' then parseGroup source (c.rest.length + 1) c.advance
  else do
    let (decl, c) ← parse source c
    return ([decl], c)

/-- How a token changes the number of brackets that are open. A closing bracket too many is ignored.
-/
def bracketDepth (depth : Nat) : TokenKind → Nat
  | .punct c =>
    if c = '\x7b' ∨ c = '(' ∨ c = '[' then depth + 1
    else if c = '\x7d' ∨ c = ')' ∨ c = ']' then depth - 1
    else depth
  | _ => depth

/-- Reads the declarations that are left while `depth` brackets are open. -/
def parseFrom (source : List Char) : Nat → Nat → Cursor → Except SyntaxError (List TypeDecl)
  | 0, _, _ => .ok []
  | steps + 1, depth, c =>
    match c.peek with
    | none => .ok []
    | some kind =>
      if depth = 0 ∧ kind = .ident "type" then do
        let (decls, after) ← parseDecls source c.advance
        let more ← parseFrom source steps 0 after
        return decls ++ more
      else parseFrom source steps (bracketDepth depth kind) c.advance

/-- The declarations of a source that was cut into tokens. -/
def parseAll (source : List Char) (tokens : List Token) : Except SyntaxError (List TypeDecl) :=
  parseFrom source (tokens.length + 1) 0 (.start tokens)

end TypeDecl

end StructPadding.Go
