/-!
# Lines

A line feed ends a line, and a carriage return right before it belongs to the end of the line.
-/

namespace Substrate.Text

/-- A line from its characters, the last one first. -/
def closeLine : List Char → String
  | '\r' :: line => String.ofList line.reverse
  | line => String.ofList line.reverse

/-- Cuts characters into lines; `line` is what was read of the first one, the last character
first. -/
def linesFrom (line : List Char) : List Char → List String
  | [] => [closeLine line]
  | c :: rest => if c = '\n' then closeLine line :: linesFrom [] rest else linesFrom (c :: line) rest

/-- The lines of a text whose last line is ended like the others, right behind the text. -/
def lines (text : String) : List String :=
  linesFrom [] text.toList

end Substrate.Text
