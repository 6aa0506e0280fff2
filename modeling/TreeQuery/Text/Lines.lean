/-!
# Lines

A line ends with a line feed, or where the text does. Behind the last line feed there is no line
unless some text is left.
-/

namespace TreeQuery.Text

/-- The lines of a text behind the start of a line, given in reverse order, and behind other lines,
in reverse order too. -/
def linesFrom (before : List (List Char)) (line : List Char) : List Char → List (List Char)
  | [] => (if line.isEmpty then before else line.reverse :: before).reverse
  | c :: cs =>
    if c = '\n' then linesFrom (line.reverse :: before) [] cs else linesFrom before (c :: line) cs

/-- The lines of a text, without the line feeds at their ends. -/
def lines (text : String) : List String := (linesFrom [] [] text.toList).map String.ofList

end TreeQuery.Text
