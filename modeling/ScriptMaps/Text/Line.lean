
namespace ScriptMaps.Text

-- The line is given backwards. One carriage return right before the line feed belongs to the line's end.
def finishLine : List Char → List Char
  | '\r' :: cs => cs.reverse
  | cs => cs.reverse

def linesFrom (current : List Char) : List Char → List (List Char)
  | [] => if current.isEmpty then [] else [current.reverse]
  | c :: cs => if c = '\n' then finishLine current :: linesFrom [] cs else linesFrom (c :: current) cs

-- What follows the last line feed is a line unless it is empty.
def lines (cs : List Char) : List (List Char) :=
  linesFrom [] cs

end ScriptMaps.Text
