import ScriptMaps.Script.CodeLine
import ScriptMaps.Text.Scan

namespace ScriptMaps
open Text

inductive Scope
  | localVar
  | globalVar
  | dimVar
  | staticVar
  deriving DecidableEq, Repr

namespace Scope

-- In the order in which their keywords are tried.
def all : List Scope :=
  [.localVar, .globalVar, .dimVar, .staticVar]

def name : Scope → String
  | .localVar  => "Local"
  | .globalVar => "Global"
  | .dimVar    => "Dim"
  | .staticVar => "Static"

def ofKeyword? (keyword : String) : Option Scope :=
  all.find? fun scope => sameName scope.name keyword

-- The keyword that a text starts with, as it is written, and what follows. Keywords are read up to case
-- folding, so that one may be read that is the keyword of no scope.
def read? (cs : List Char) : Option (List Char × List Char) :=
  all.findSome? fun scope => readFolded? scope.name.toList cs

end Scope

-- The name of the Map has its leading `$`.
structure Declaration where
  name  : String
  scope : Scope
  line  : Nat
  deriving DecidableEq, Repr

namespace Declaration

-- The keyword and the name of a declaration such as `Local $m[]`, which the text starts with.
def read? (cs : List Char) : Option (List Char × List Char) := do
  let (keyword, cs) ← Scope.read? cs
  let cs ← afterBlanks? cs
  let cs ← afterChar? '$' cs
  let (word, cs) ← word? cs
  let cs ← afterChar? '[' (trimStart cs)
  let _ ← afterChar? ']' (trimStart cs)
  return (keyword, '$' :: word)

-- What follows a `Local` or `Global` that stands before the keyword of the declaration.
def afterModifier? (cs : List Char) : Option (List Char) :=
  ((afterFolded? Scope.localVar.name.toList cs).or (afterFolded? Scope.globalVar.name.toList cs)).bind
    afterBlanks?

def ofLine? (line : CodeLine) : Option Declaration := do
  let cs := trimStart line.text
  let (keyword, name) ← ((afterModifier? cs).bind read?).or (read? cs)
  let scope ← Scope.ofKeyword? (String.ofList keyword)
  return ⟨String.ofList name, scope, line.number⟩

end Declaration

end ScriptMaps
