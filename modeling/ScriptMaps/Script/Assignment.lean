import ScriptMaps.Script.CodeLine
import ScriptMaps.Text.Scan

namespace ScriptMaps
open Text

inductive KeyForm
  | dot
  | bracket
  deriving DecidableEq, Repr

structure Assignment where
  key  : String
  line : Nat
  form : KeyForm
  deriving DecidableEq, Repr

namespace Assignment

-- An equals sign, alone or after one of `- + * / &`, that no second equals sign follows.
def startsOperator (cs : List Char) : Bool :=
  let cs := match cs with
    | c :: rest => if c ∈ ['-', '+', '*', '/', '&'] then rest else c :: rest
    | [] => []
  match cs with
  | '=' :: '=' :: _ => false
  | '=' :: _ => true
  | _ => false

def readDot? (cs : List Char) : Option (List Char) := do
  let cs ← afterChar? '.' cs
  let (key, cs) ← word? cs
  if startsOperator (trimStart cs) then return key else none

def readQuoted? : List Char → Option (List Char × List Char)
  | '"' :: cs => until? '"' cs
  | '\'' :: cs => until? '\'' cs
  | _ => none

def readBracket? (cs : List Char) : Option (List Char) := do
  let cs ← afterChar? '[' cs
  let (key, cs) ← readQuoted? (trimStart cs)
  let cs ← afterChar? ']' (trimStart cs)
  if startsOperator (trimStart cs) then return key else none

def dotKey? (map : List Char) (line : List Char) : Option (List Char) :=
  pastBlanks? (fun cs => (afterFolded? map cs).bind readDot?) line

def bracketKey? (map : List Char) (line : List Char) : Option (List Char) :=
  pastBlanks? (fun cs => (afterFolded? map cs).bind readBracket?) line

-- The name is compared up to case folding, and it may be of any length: that the size of a search pattern is
-- limited is left out. An empty key is no key.
def ofLine? (map : List Char) (line : CodeLine) : Option Assignment :=
  match dotKey? map line.text with
  | some key => some ⟨String.ofList key, line.number, .dot⟩
  | none =>
    match bracketKey? map line.text with
    | some (c :: key) => some ⟨String.ofList (c :: key), line.number, .bracket⟩
    | _ => none

end Assignment

end ScriptMaps
