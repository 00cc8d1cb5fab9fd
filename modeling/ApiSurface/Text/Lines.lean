/-
The lines of a text: a line feed, or a carriage return and a line feed, ends a line, and the last line need not end.
-/
namespace ApiSurface.Text

/-- a line without the carriage return before its line feed -/
def withoutReturn (line : List Char) : List Char :=
  match line.reverse with
  | '\r' :: rest => rest.reverse
  | _ => line

/-- the lines of a text, given the beginning of the first one, last character first -/
def linesAfter (begun : List Char) : List Char → List (List Char)
  | [] => if begun.isEmpty then [] else [begun.reverse]
  | c :: rest =>
    if c = '\n' then withoutReturn begun.reverse :: linesAfter [] rest else linesAfter (c :: begun) rest

def lines (s : String) : List String := (linesAfter [] s.toList).map String.ofList

end ApiSurface.Text
