import ScriptMaps.Include.Directive
import ScriptMaps.Include.Sources

namespace ScriptMaps

inductive Resolution
  | found (path : Path)
  | missing (searched : List Path)

-- Relative paths of files are taken from the workspace root, or from the working directory if there is none.
structure Resolver where
  workingDir    : Path
  workspaceRoot : Option Path
  includePaths  : List Path
  maxDepth      : Nat

namespace Resolver

def absolutize (r : Resolver) (p : Path) : Path :=
  Path.absolutize (r.workspaceRoot.getD r.workingDir) p

-- Where an include directive of `file` may find its target, in order.
def candidates (r : Resolver) (file : Path) (directive : Include) : List Path :=
  let target := Path.ofWritten directive.path
  if target.isAbsolute then [target]
  else match directive.kind with
    | .relative => file.directory.join target :: (r.workspaceRoot.map (·.join target)).toList
    | .library => r.includePaths.map (·.join target)

-- Where the target of a directive is looked for, in order and once each.
def places (r : Resolver) (file : Path) (directive : Include) : List Path :=
  ((r.candidates file directive).filterMap Path.normalize?).eraseDups

-- Candidates are tried until one is a file. Those without a normal form and those that have been searched
-- under another spelling are passed over.
def probe (sources : Sources) (searched : List Path) : List Path → Resolution
  | [] => .missing searched
  | candidate :: rest =>
    match candidate.normalize? with
    | none => probe sources searched rest
    | some place =>
      if searched.contains place then probe sources searched rest
      else if sources.isFile place then .found place
      else probe sources (searched ++ [place]) rest

def resolve (r : Resolver) (sources : Sources) (file : Path) (directive : Include) : Resolution :=
  probe sources [] (r.candidates file directive)

def resolveFrom (r : Resolver) (sources : Sources) (file : Path) (directive : Include) : Resolution :=
  r.resolve sources (r.absolutize file) directive

end Resolver

end ScriptMaps
