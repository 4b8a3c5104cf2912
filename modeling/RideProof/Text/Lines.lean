/-!
# Lines of a text

A line ends at a line feed; a carriage return before the line feed belongs to the end of the line.
What follows the last line feed is a line without an end, if there is anything.
-/

namespace RideProof.Text

/-- The line whose characters before a line feed are given back to front. -/
def endLine : (begun : List Char) → List Char
  | [] => []
  | c :: begun => if c = '\r' then begun.reverse else (c :: begun).reverse

/-- The lines of a text that goes on with a line whose start is given back to front. -/
def linesFrom : (text begun : List Char) → List (List Char)
  | [], [] => []
  | [], c :: begun => [(c :: begun).reverse]
  | c :: text, begun =>
    if c = '\n' then endLine begun :: linesFrom text [] else linesFrom text (c :: begun)

/-- The lines of a text, without their ends. -/
def lines (text : List Char) : List (List Char) := linesFrom text []

end RideProof.Text
