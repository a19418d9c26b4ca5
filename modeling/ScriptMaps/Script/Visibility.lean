import ScriptMaps.Script.Basic

-- A function binds a Map's name if it has a parameter of that name or declares the Map with a keyword other
-- than `Global`. Inside a function that binds the name only the function's own lines count; from anywhere else
-- the lines of such functions do not. In both cases nothing before the last governing declaration counts, and
-- nothing after the line asked about.

namespace ScriptMaps
open Text

inductive QueryPoint
  | line (number : Nat)
  | everywhere
  deriving DecidableEq, Repr

inductive Visibility
  | all
  | within (first last : Nat)
  | outside (first last : Nat) (hidden : List Function)

namespace Visibility

def contains (v : Visibility) (line : Nat) : Bool :=
  match v with
  | .all => true
  | .within first last => first ≤ line && line ≤ last
  | .outside first last hidden => first ≤ line && line ≤ last && !hidden.any (·.contains line)

end Visibility

namespace Script

def localDeclarations (s : Script) (f : Function) (map : String) : List Declaration :=
  s.declarations.filter fun d =>
    d.scope != .globalVar && f.contains d.line && sameName d.name map

def fileDeclarations (s : Script) (map : String) : List Declaration :=
  s.declarations.filter fun d =>
    sameName d.name map && (d.scope == .globalVar || !s.functions.any (·.contains d.line))

def binds (s : Script) (f : Function) (map : String) : Bool :=
  f.parameters.any (fun p => sameName p.name map) || !(s.localDeclarations f map).isEmpty

def lastLineUpTo? (last : Nat) (declarations : List Declaration) : Option Nat :=
  ((declarations.filter (·.line ≤ last)).getLast?).map (·.line)

def visibility (s : Script) (map : String) (point : QueryPoint) : Visibility :=
  match point with
  | .everywhere => .all
  | .line last =>
    match (s.functions.find? (·.contains last)).filter (s.binds · map) with
    | some f => .within ((lastLineUpTo? last (s.localDeclarations f map)).getD f.line) last
    | none =>
      .outside ((lastLineUpTo? last (s.fileDeclarations map)).getD 0) last
        (s.functions.filter (s.binds · map))

end Script

end ScriptMaps
