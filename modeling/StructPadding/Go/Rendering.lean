import StructPadding.Layout
import StructPadding.Text.Column

/-!
# Rendered declarations

A layout is shown as the Go declaration it came from: names in one column, inline records written
out, every other type by its name. Padding is not shown, since the compiler puts it there. A
declaration with names too long for a column is not shown.
-/

namespace StructPadding.Go

def tabs (depth : Nat) : String :=
  String.ofList (List.replicate depth '\t')

/-- The width of the longest name among fields that are shown. -/
def nameWidth (fields : List Field) : Nat :=
  ((fields.filter fun f => !f.isPadding).map fun f => f.name.length).foldl max 0

mutual

/-- The type of a field, as it is written at a depth. -/
def typeText (depth : Nat) : Field → String
  | .padding .. => ""
  | .leaf _ typeName .. => typeName
  | .record name typeName start align widened children =>
    if (Field.record name typeName start align widened children).isInlineRecord then
      "struct \x7b\n" ++ "\n".intercalate (fieldLines (depth + 1) (nameWidth children) children) ++
        "\n" ++ tabs depth ++ "\x7d"
    else typeName

/-- The lines of the fields that are shown, names filled up to `width`. -/
def fieldLines (depth width : Nat) : List Field → List String
  | [] => []
  | f :: fs =>
    if f.isPadding then fieldLines depth width fs
    else
      (tabs depth ++ Text.padRight width f.name ++ " " ++ typeText depth f) ::
        fieldLines depth width fs

end

/-- The text of the declaration of a layout. -/
def declarationText (l : Layout) : String :=
  if l.fields.all Field.isPadding then "type " ++ l.name ++ " struct\x7b\x7d"
  else
    "type " ++ l.name ++ " struct \x7b\n" ++
      "\n".intercalate (fieldLines 1 (nameWidth l.fields) l.fields) ++ "\n\x7d"

mutual

/-- Checks the columns of names in the type of a field. -/
def checkColumns : Field → Except Text.TooWide Unit
  | .padding .. => .ok ()
  | .leaf .. => .ok ()
  | .record name typeName start align widened children =>
    if (Field.record name typeName start align widened children).isInlineRecord then
      checkAllColumns (nameWidth children) children
    else .ok ()

/-- Checks the column of names of the fields that are shown, and those in their types. -/
def checkAllColumns (width : Nat) : List Field → Except Text.TooWide Unit
  | [] => .ok ()
  | f :: fs =>
    if f.isPadding then checkAllColumns width fs
    else do
      checkColumns f
      Text.checkWidth width
      checkAllColumns width fs

end

/-- The declaration of a layout. -/
def render (l : Layout) : Except Text.TooWide String := do
  checkAllColumns (nameWidth l.fields) l.fields
  return declarationText l

/-- The word that marks a code block of declarations. -/
def fence : String :=
  "go"

end StructPadding.Go
