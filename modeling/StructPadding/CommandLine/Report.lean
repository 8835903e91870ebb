import StructPadding.CommandLine.Style
import StructPadding.Layout.Json
import StructPadding.Listing
import StructPadding.Review.Comment

/-!
# Reports

What the commands print: for people, with a mark in colour on the lines that sum up, or in JSON.
-/

namespace StructPadding.CommandLine

/-- A number of things, by the word for one or the word for several. -/
def counted (n : Nat) (one several : String) : String :=
  let word := if n = 1 then one else several
  s!"{n} {word}"

/-- The sum of sizes, which wraps around as sizes do. -/
def total (sizes : List UInt64) : UInt64 :=
  sizes.foldl (· + ·) 0

/-- How a report looks. -/
structure Report where
  json : Bool
  coloured : Bool

namespace Report

/-- A line with a green mark. -/
def good (r : Report) (text : String) : String :=
  Style.green.paint r.coloured "[+]" ++ " " ++ text ++ "\n"

/-- A list in JSON. -/
def list (items : List Json) : String :=
  (Json.array items).pretty ++ "\n"

/-- The layouts of a file. -/
def layouts (r : Report) (listing : Listing) (ls : List Layout) : String :=
  if r.json then list (ls.map Layout.toJson)
  else
    let padding := total (ls.map Layout.padding)
    let structs := counted ls.length "struct" "structs"
    listing.renderAll ls ++ "\n" ++
      r.good (structs ++ ", " ++ counted padding.toNat "byte" "bytes" ++ " of padding")

/-- One suggestion. -/
def suggestion (r : Report) (s : Review.Suggestion) : String :=
  let mark := Style.blue.paint r.coloured "[*]"
  let name := Style.bold.paint r.coloured s.name
  s!"{mark} {name} (line {s.line}): " ++
    s!"padding {s.currentPadding} -> {s.proposedPadding}\n{s.proposed}\n\n"

/-- The suggestions for a file. -/
def suggestions (r : Report) (ss : List Review.Suggestion) : String :=
  if r.json then list (ss.map Review.Suggestion.toJson)
  else if ss.isEmpty then r.good "No struct can lose padding by reordering"
  else
    let saved := total (ss.map Review.Suggestion.saved)
    String.join (ss.map r.suggestion) ++ r.good (counted saved.toNat "byte" "bytes" ++ " saved")

/-- One comment. -/
def comment (r : Report) (c : Review.Comment) : String :=
  let mark := Style.yellow.paint r.coloured "[!]"
  s!"{mark} {c.file}:{c.line}\n{c.text}\n\n"

/-- The comments on a change. -/
def comments (r : Report) (cs : List Review.Comment) : String :=
  if r.json then list (cs.map Review.Comment.toJson)
  else if cs.isEmpty then r.good "No padding issues in changed structs"
  else String.join (cs.map r.comment)

end Report

end StructPadding.CommandLine
