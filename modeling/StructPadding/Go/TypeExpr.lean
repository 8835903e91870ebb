/-!
# Go type expressions

A type as it is written in a source, and its text. Signatures, interfaces and instantiated types are
kept as the text they have; everything else is a tree.
-/

namespace StructPadding.Go

/-- Which way a channel can be used. -/
inductive ChanDir where
  | both
  | send
  | recv
deriving DecidableEq

/-- A field in the declaration of a struct; an embedded field has the name of its type. -/
structure FieldDecl (τ : Type) where
  name : String
  type : τ
  embedded : Bool

inductive TypeExpr where
  | named (name : String)
  | qualified (package name : String)
  /-- An instance of a generic type. -/
  | instantiated (text : String)
  | pointer (elem : TypeExpr)
  | slice (elem : TypeExpr)
  | array (length : Nat) (elem : TypeExpr)
  /-- An array whose length is a named constant. -/
  | symbolicArray (length : String) (elem : TypeExpr)
  | map (key value : TypeExpr)
  | chan (dir : ChanDir) (elem : TypeExpr)
  | func (text : String)
  | interface (text : String)
  | struct (fields : List (FieldDecl TypeExpr))

namespace TypeExpr

/-- The name of a field that embeds a type. -/
def embeddedName? : TypeExpr → Option String
  | named name => some name
  | qualified _ name => some name
  | pointer elem => elem.embeddedName?
  | instantiated text => some (String.ofList (text.toList.takeWhile (· ≠ '[')))
  | _ => none

mutual

/-- The text of a type. -/
def text : TypeExpr → String
  | named name => name
  | qualified package name => package ++ "." ++ name
  | instantiated text => text
  | pointer elem => "*" ++ elem.text
  | slice elem => "[]" ++ elem.text
  | array length elem => "[" ++ toString length ++ "]" ++ elem.text
  | symbolicArray length elem => "[" ++ length ++ "]" ++ elem.text
  | map key value => "map[" ++ key.text ++ "]" ++ value.text
  | chan .both elem => "chan " ++ elem.text
  | chan .send elem => "chan<- " ++ elem.text
  | chan .recv elem => "<-chan " ++ elem.text
  | func text => text
  | interface text => text
  | struct fields => "struct\x7b" ++ "; ".intercalate (fieldTexts fields) ++ "\x7d"

def fieldTexts : List (FieldDecl TypeExpr) → List String
  | [] => []
  | ⟨name, type, embedded⟩ :: fields =>
    (if embedded then type.text else name ++ " " ++ type.text) :: fieldTexts fields

end

end TypeExpr

end StructPadding.Go
