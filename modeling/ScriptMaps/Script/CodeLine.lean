import ScriptMaps.Text.Blank
import ScriptMaps.Text.Fold
import ScriptMaps.Text.Line

namespace ScriptMaps
open Text

-- Lines are counted from 0, and their numbers are not cut to 32 bits.
structure CodeLine where
  number : Nat
  text   : List Char
  deriving DecidableEq, Repr

inductive BlockMark
  | opening
  | closing
  deriving DecidableEq, Repr

def isDirectiveChar (c : Char) : Bool :=
  c.isAlphanum || c == '-' || c == '_'

def directive? (line : List Char) : Option (List Char) :=
  match trimStart line with
  | '#' :: rest =>
    match rest.takeWhile isDirectiveChar with
    | [] => none
    | word => some (lowerAscii word)
  | _ => none

def blockMark? (line : List Char) : Option BlockMark :=
  match directive? line with
  | none => none
  | some word =>
    if word = "cs".toList ∨ word = "comments-start".toList then some .opening
    else if word = "ce".toList ∨ word = "comments-end".toList then some .closing
    else none

-- Block comments nest, and one that is not closed runs to the end. A closing directive outside every block is
-- an ordinary line.
def codeLinesFrom (number depth : Nat) : List (List Char) → List CodeLine
  | [] => []
  | line :: rest =>
    match blockMark? line, depth with
    | some .opening, depth => codeLinesFrom (number + 1) (depth + 1) rest
    | some .closing, depth + 1 => codeLinesFrom (number + 1) depth rest
    | _, depth + 1 => codeLinesFrom (number + 1) (depth + 1) rest
    | _, 0 => ⟨number, line⟩ :: codeLinesFrom (number + 1) 0 rest

def withoutMark : List Char → List Char
  | '\uFEFF' :: cs => cs
  | cs => cs

def codeLines (text : List Char) : List CodeLine :=
  codeLinesFrom 0 0 (lines (withoutMark text))

def isComment (line : List Char) : Bool :=
  (trimStart line).head? == some ';'

-- What stands before the first semicolon outside string literals. `quote` is the quote character of the
-- literal that the line starts in.
def beforeComment (quote : Option Char) : List Char → List Char
  | [] => []
  | c :: cs =>
    match quote with
    | some q => c :: beforeComment (if c = q then none else some q) cs
    | none =>
      if c = ';' then []
      else c :: beforeComment (if c = '"' ∨ c = '\'' then some c else none) cs

end ScriptMaps
