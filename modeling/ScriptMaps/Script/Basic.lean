import ScriptMaps.Script.Assignment
import ScriptMaps.Script.Call
import ScriptMaps.Script.Declaration

namespace ScriptMaps

-- Declarations and functions do not depend on a Map's name and are kept; assignments and calls are looked up
-- for one Map at a time.
structure Script where
  source       : String
  lines        : List CodeLine
  declarations : List Declaration
  functions    : List Function
  lines_eq        : lines = codeLines source.toList
  declarations_eq : declarations = lines.filterMap Declaration.ofLine?
  functions_eq    : functions = Function.ofLines lines

namespace Script

def ofText (source : String) : Script :=
  let lines := codeLines source.toList
  { source
    lines
    declarations    := lines.filterMap Declaration.ofLine?
    functions       := Function.ofLines lines
    lines_eq        := rfl
    declarations_eq := rfl
    functions_eq    := rfl }

def assignments (s : Script) (map : String) : List Assignment :=
  s.lines.filterMap (Assignment.ofLine? map.toList)

def calls (s : Script) (map : String) : List Call :=
  s.lines.flatMap (Call.ofLine map.toList)

@[simp]
theorem source_ofText (source : String) : (ofText source).source = source :=
  rfl

@[ext]
theorem ext {s t : Script} (h : s.source = t.source) : s = t := by
  cases s; cases t
  simp_all

@[simp]
theorem ofText_source (s : Script) : ofText s.source = s :=
  Script.ext rfl

end Script

end ScriptMaps
