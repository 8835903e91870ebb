/-!
# Styles

Colours and bold type on a terminal, by escape sequences.
-/

namespace StructPadding.CommandLine

inductive Style where
  | bold
  | red
  | green
  | yellow
  | blue

namespace Style

/-- The sequence that starts a style. -/
def start : Style → String
  | bold => "\x1b[1m"
  | red => "\x1b[31m"
  | green => "\x1b[32m"
  | yellow => "\x1b[33m"
  | blue => "\x1b[34m"

/-- The sequence that ends every style. -/
def reset : String :=
  "\x1b[0m"

/-- A text in a style, if styles are shown. Where the text itself ends every style, this one is
started again. -/
def paint (s : Style) (shown : Bool) (text : String) : String :=
  if shown then s.start ++ text.replace reset (reset ++ s.start) ++ reset else text

end Style

end StructPadding.CommandLine
