/-!
# Lines of text

A line ends behind its line feed; the last one may lack it.
-/

namespace ZMachine.Text

/-- The lines of a text, each with its line end; `before` is the part of the first line that has
been read already, last character first. -/
def linesFrom (before : List Char) : List Char → List (List Char)
  | [] => if before = [] then [] else [before.reverse]
  | c :: rest =>
    if c = '\n' then (c :: before).reverse :: linesFrom [] rest else linesFrom (c :: before) rest

/-- The lines of a text, each with its line end. -/
def lines (text : List Char) : List (List Char) :=
  linesFrom [] text

/-- The line without any line feeds and carriage returns at its end. -/
def withoutEnd (line : List Char) : List Char :=
  (line.reverse.dropWhile fun c => c = '\n' ∨ c = '\r').reverse

end ZMachine.Text
