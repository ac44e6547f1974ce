/-!
# Lines

A text as lines: each newline ends one, and a carriage return right before it goes with it.
-/

namespace Switchyard.Text

private def withoutReturn (cs : List Char) : String :=
  match cs with
  | '\r' :: rest => String.ofList rest.reverse
  | _ => String.ofList cs.reverse

/-- Lines of a text whose first line starts with `acc`, read backwards. -/
def linesFrom : List Char → List Char → List String
  | [], [] => []
  | acc, [] => [String.ofList acc.reverse]
  | acc, '\n' :: rest => withoutReturn acc :: linesFrom [] rest
  | acc, c :: rest => linesFrom (c :: acc) rest

def lines (s : String) : List String := linesFrom [] s.toList

end Switchyard.Text
