import ScriptMaps.Text.Blank
import ScriptMaps.Text.Word

-- Each reader takes what it recognises off the front of a text and gives the rest, or `none` when the text
-- starts otherwise.

namespace ScriptMaps.Text

def afterChar? (d : Char) : List Char → Option (List Char)
  | c :: cs => if c = d then some cs else none
  | [] => none

def afterBlanks? : List Char → Option (List Char)
  | c :: cs => if isBlank c then some (trimStart cs) else none
  | [] => none

def word? (cs : List Char) : Option (List Char × List Char) :=
  match cs.takeWhile isWord with
  | [] => none
  | word => some (word, cs.dropWhile isWord)

def until? (d : Char) (cs : List Char) : Option (List Char × List Char) :=
  match cs.dropWhile (· != d) with
  | [] => none
  | _ :: rest => some (cs.takeWhile (· != d), rest)

-- Every run is tried, the longest first, because what `p` reads may itself begin with blanks.
def pastBlanks? {α : Type} (p : List Char → Option α) : List Char → Option α
  | [] => p []
  | c :: cs => if isBlank c then (pastBlanks? p cs).or (p (c :: cs)) else p (c :: cs)

end ScriptMaps.Text
