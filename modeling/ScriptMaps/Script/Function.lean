import ScriptMaps.Script.CodeLine
import ScriptMaps.Text.Scan

namespace ScriptMaps
open Text

structure Parameter where
  name  : String
  byRef : Bool
  deriving DecidableEq, Repr

structure Function where
  name       : String
  parameters : List Parameter
  line       : Nat
  endLine    : Nat
  deriving DecidableEq, Repr

namespace Parameter

-- The text before the variable is given backwards.
def findVariable? (before : List Char) : List Char → Option (List Char × List Char)
  | [] => none
  | c :: cs =>
    match if c = '$' then word? cs else none with
    | some (word, _) => some (before.reverse, '$' :: word)
    | none => findVariable? (c :: before) cs

-- Other words may stand before the name; a `ByRef` among them passes the parameter by reference.
def ofPiece? (piece : List Char) : Option Parameter :=
  (findVariable? [] piece).map fun (before, name) =>
    ⟨String.ofList name, (blankSeparated before).any (sameAscii "byref".toList)⟩

def ofList (list : List Char) : List Parameter :=
  (list.splitOn ',').filterMap ofPiece?

end Parameter

namespace Function

def contains (f : Function) (line : Nat) : Bool :=
  f.line ≤ line && line ≤ f.endLine

def readHeader? (cs : List Char) : Option (List Char × List Char) := do
  let cs ← afterKeyword? "func".toList cs
  let cs ← afterBlanks? cs
  let (name, cs) ← word? cs
  let cs ← afterChar? '(' (trimStart cs)
  let (list, _) ← until? ')' cs
  return (name, list)

def header? (line : List Char) : Option (List Char × List Char) :=
  let cs := trimStart line
  (((afterKeyword? "volatile".toList cs).bind afterBlanks?).bind readHeader?).or (readHeader? cs)

def isEnd (line : List Char) : Bool :=
  match afterKeyword? "endfunc".toList (trimStart line) with
  | none => false
  | some rest => !rest.head?.any isWord

def ofHeader? (line : CodeLine) : Option Function :=
  (header? line.text).map fun (name, list) =>
    ⟨String.ofList name, Parameter.ofList list, line.number, line.number⟩

-- `current` is the block still open, and `last` the number of the last line seen. A header ends a block that
-- is still open on the line before it, and a block that no line ends runs to the last line of code.
def ofLinesFrom (current : Option Function) (last : Nat) : List CodeLine → List Function
  | [] => (current.map fun f => { f with endLine := max last f.line }).toList
  | line :: rest =>
    match ofHeader? line with
    | some f =>
      (current.map fun g => { g with endLine := line.number - 1 }).toList ++
        ofLinesFrom (some f) line.number rest
    | none =>
      if isEnd line.text then
        (current.map fun g => { g with endLine := line.number }).toList ++
          ofLinesFrom none line.number rest
      else ofLinesFrom current line.number rest

def ofLines (lines : List CodeLine) : List Function :=
  ofLinesFrom none 0 lines

end Function

end ScriptMaps
