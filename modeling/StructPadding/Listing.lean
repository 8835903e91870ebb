import StructPadding.Layout
import StructPadding.Text.Column

/-!
# Listings

A listing shows a layout on the terminal: a head line for the record and a line for each field, the
offset first.
-/

namespace StructPadding

/-- How a listing looks. -/
structure Listing where
  hexOffsets : Bool := false
  showPadding : Bool := true

namespace Listing

/-- Names beyond this many characters are cut. -/
def maxNameWidth : Nat :=
  32

/-- Names are filled up to this many characters. -/
def nameColumn : Nat :=
  16

/-- An offset in at least four hexadecimal digits, or in decimal filled up to five characters. -/
def offset (o : Listing) (n : UInt64) : String :=
  if o.hexOffsets then
    let digits := Nat.toDigits 16 n.toNat
    "+0x" ++ String.ofList (List.replicate (4 - digits.length) '0' ++ digits)
  else "+" ++ Text.padRight 5 (toString n)

/-- A name cut to the widest one shown. -/
def shownName (name : String) : String :=
  if maxNameWidth < name.length then String.ofList (name.toList.take (maxNameWidth - 3)) ++ "..."
  else name

def indent (depth : Nat) : String :=
  String.ofList (List.replicate (4 * depth) ' ')

/-- The line of a field that is not padding. -/
def line (o : Listing) (depth : Nat) (f : Field) : String :=
  s!"{indent depth}/* {o.offset f.start} */ {Text.padRight nameColumn (shownName f.name)} " ++
    f.typeName ++ s!";  // {f.size} bytes, align {f.alignBytes}"

mutual

/-- The lines of a field, those of its own fields further in. -/
def fieldLines (o : Listing) (depth : Nat) : Field → List String
  | .padding start size =>
    if o.showPadding then [s!"{indent depth}/* {o.offset start} */ // {size} bytes padding"] else []
  | .leaf name typeName start size declared align =>
    [line o depth (.leaf name typeName start size declared align)]
  | .record name typeName start align widened children =>
    line o depth (.record name typeName start align widened children) ::
      allLines o (depth + 1) children

def allLines (o : Listing) (depth : Nat) : List Field → List String
  | [] => []
  | f :: fs => fieldLines o depth f ++ allLines o depth fs

end

/-- The listing of one layout. -/
def render (o : Listing) (l : Layout) : String :=
  let range := s!"// lines {l.lines.first}-{l.lines.last}, size: {l.size}, padding: {l.padding}"
  let head := "struct " ++ l.name ++ " \x7b  " ++ range
  "\n".intercalate (head :: allLines o 1 l.fields ++ ["\x7d;"])

/-- The listings of several layouts, an empty line after each. -/
def renderAll (o : Listing) (ls : List Layout) : String :=
  "\n".intercalate (ls.flatMap fun l => [o.render l, ""])

end Listing

end StructPadding
