import ScriptMaps.Script.CodeLine
import ScriptMaps.Text.Scan

namespace ScriptMaps
open Text

-- A relative file is looked for next to the including file and then at the workspace root, one of a library in
-- the library directories.
inductive IncludeKind
  | relative
  | library
  deriving DecidableEq, Repr

structure Include where
  kind : IncludeKind
  path : String
  line : Nat
  deriving DecidableEq, Repr

namespace Include

def readTarget? : List Char → Option (IncludeKind × List Char)
  | '"' :: cs => (until? '"' cs).map fun (target, _) => (.relative, target)
  | '\'' :: cs => (until? '\'' cs).map fun (target, _) => (.relative, target)
  | '<' :: cs => (until? '>' cs).map fun (target, _) => (.library, target)
  | _ => none

-- Blanks around the path do not belong to it, and a directive without a path is none.
def ofLine? (line : CodeLine) : Option Include := do
  let cs ← afterKeyword? "#include".toList (trimStart line.text)
  let (kind, target) ← readTarget? (trimStart cs)
  match trim target with
  | [] => none
  | path => some ⟨kind, String.ofList path, line.number⟩

def ofText (text : String) : List Include :=
  (codeLines text.toList).filterMap ofLine?

end Include

end ScriptMaps
