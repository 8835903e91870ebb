import StructPadding.Json.Value
import StructPadding.Layout

/-!
# Layouts in JSON

A layout is reported with its lines, size and padding, and each of its fields with its span.
-/

namespace StructPadding

namespace Field

/-- What is reported of every field. -/
def summary (f : Field) : List (String × Json) :=
  [("name", .string f.name), ("type", .string f.typeName), ("start", .int f.start.toNat),
    ("end", .int f.stop.toNat), ("size", .int f.size.toNat), ("align", .int f.alignBytes),
    ("is_padding", .bool f.isPadding)]

mutual

def toJson : Field → Json
  | padding start size =>
    .object (summary (padding start size))
  | leaf name typeName start size declared align =>
    .object (summary (leaf name typeName start size declared align))
  | record name typeName start align widened children =>
    let nested := if children.isEmpty then [] else [("children", .array (toJsons children))]
    .object (summary (record name typeName start align widened children) ++ nested)

def toJsons : List Field → List Json
  | [] => []
  | f :: fs => f.toJson :: toJsons fs

end

end Field

namespace Layout

def toJson (l : Layout) : Json :=
  .object [("name", .string l.name), ("start_line", .int l.lines.first),
    ("end_line", .int l.lines.last), ("size", .int l.size.toNat), ("padding", .int l.padding.toNat),
    ("fields", .array (Field.toJsons l.fields))]

end Layout

end StructPadding
