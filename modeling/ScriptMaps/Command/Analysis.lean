import ScriptMaps.Command.Options
import ScriptMaps.Report.Phases
import ScriptMaps.Tracker

namespace ScriptMaps

inductive Phase
  | scan
  | parse
  | includes
  | keys
  deriving DecidableEq, Repr

namespace Phase

def all : List Phase :=
  [.scan, .parse, .includes, .keys]

def name : Phase → String
  | .scan     => "scan"
  | .parse    => "parse"
  | .includes => "includes"
  | .keys     => "keys"

def ofName? (name : String) : Option Phase :=
  all.find? (·.name == name)

end Phase

structure AnalysisCommand where
  root    : Path
  csv     : Bool
  only    : Option Phase
  options : Options

namespace AnalysisCommand

-- What has been read of the arguments.
structure Draft where
  root    : Option Path := none
  csv     : Bool := false
  only    : Option Phase := none
  options : Options := {}

namespace Draft

def push (d : Draft) (argument : Argument) : Except UsageError Draft := do
  match ← d.options.accept argument with
  | some options => return { d with options }
  | none =>
    match argument with
    | .valued _ none => .error .missingPhase
    | .valued _ (some value) =>
      match Phase.ofName? value with
      | some phase => return { d with only := some phase }
      | none => .error (.unknownPhase value)
    | .plain text =>
      if text = "--csv" then return { d with csv := true }
      else if text.toList.head? = some '-' then .error (.unknownAnalysisFlag text)
      else if d.root.isSome then .error .severalDirectories
      else return { d with root := some (Path.ofText text) }

end Draft

def takesValue (flag : String) : Bool :=
  Options.takesValue flag || flag == "--only"

def read (env : Environment) (args : List String) : Except UsageError AnalysisCommand := do
  let d ← (Argument.group takesValue args).foldlM Draft.push {}
  match d.root with
  | none => .error .missingDirectory
  | some root =>
    if env.isDirectory root then return ⟨root, d.csv, d.only, d.options⟩
    else .error (.notDirectory root)

def selects (c : AnalysisCommand) (phase : Phase) : Bool :=
  c.only.all (· == phase)

end AnalysisCommand

-- An analysis under way. The phases share the tracker, and each one goes on with the scripts that the
-- others have left in it.
structure Analysis where
  files    : List (Path × String) := []
  tracker  : Tracker
  findings : List (Phase × String) := []

namespace Analysis

def report (a : Analysis) (phase : Phase) (detail : String) : Analysis :=
  { a with findings := a.findings ++ [(phase, detail)] }

structure Parsed where
  tracker      : Tracker
  declarations : Nat := 0
  functions    : Nat := 0

namespace Parsed

-- A script is counted as soon as it is tracked.
def add (s : Parsed) : Path × String → Parsed
  | (p, text) =>
    let tracker := s.tracker.update p text
    match tracker.script? p with
    | some script =>
      ⟨tracker, s.declarations + script.declarations.length, s.functions + script.functions.length⟩
    | none => { s with tracker }

def detail (s : Parsed) (files : Nat) : String :=
  toString files ++ " files, " ++ toString s.declarations ++ " Map declarations, " ++
    toString s.functions ++ " functions"

end Parsed

structure Followed where
  edges      : Nat := 0
  unresolved : Nat := 0
  truncated  : Nat := 0

namespace Followed

def add (sources : Sources) (t : Tracker) (s : Followed) : Path × String → Followed
  | (p, _) =>
    let traversal := t.traverse sources p
    ⟨s.edges + traversal.edges.length, s.unresolved + traversal.unresolved.length,
      s.truncated + traversal.truncated⟩

def detail (s : Followed) : String :=
  toString s.edges ++ " edges followed, " ++ toString s.unresolved ++ " unresolved, " ++
    toString s.truncated ++ " beyond depth limit"

end Followed

structure Asked where
  tracker : Tracker
  queries : Nat := 0
  keys    : Nat := 0

namespace Asked

def ask (sources : Sources) (p : Path) (s : Asked) (map : String) : Asked :=
  let (tracker, found) := s.tracker.keysWithIncludes sources p map .everywhere
  ⟨tracker, s.queries + 1, s.keys + (found.directKeys.length + found.functionKeys.length)⟩

-- The Maps to ask for are those of the script as it is tracked after the questions so far.
def add (sources : Sources) (s : Asked) : Path × String → Asked
  | (p, _) =>
    let names := ((s.tracker.script? p).map fun script => script.declarations.map (·.name)).getD []
    names.foldl (ask sources p) s

def detail (s : Asked) : String :=
  toString s.queries ++ " Map queries, " ++ toString s.keys ++ " keys"

end Asked

-- The scripts are found for all other phases, and tracked for those that follow. What a phase finds is only
-- reported if it is selected.
def advance (env : Environment) (c : AnalysisCommand) (a : Analysis) : Phase → Analysis
  | .scan =>
    let a := { a with files := env.scripts c.root }
    if c.selects .scan then a.report .scan (toString a.files.length ++ " files") else a
  | .parse =>
    if c.selects .parse || c.selects .includes || c.selects .keys then
      let parsed := a.files.foldl Parsed.add { tracker := a.tracker }
      let a := { a with tracker := parsed.tracker }
      if c.selects .parse then a.report .parse (parsed.detail a.files.length) else a
    else a
  | .includes =>
    if c.selects .includes then
      a.report .includes (a.files.foldl (Followed.add env.sources a.tracker) {}).detail
    else a
  | .keys =>
    if c.selects .keys then
      let asked := a.files.foldl (Asked.add env.sources) { tracker := a.tracker }
      report { a with tracker := asked.tracker } .keys asked.detail
    else a

end Analysis

namespace AnalysisCommand

-- The phases in their order, each of them left to `perform`.
def run {m : Type → Type} [Monad m] (perform : Phase → (Unit → Analysis) → m Analysis) (env : Environment)
    (c : AnalysisCommand) (config : Config) : m Analysis :=
  Phase.all.foldlM (fun a phase => perform phase fun _ => a.advance env c phase)
    { tracker := Tracker.create env.workingDir config }

def findings (env : Environment) (c : AnalysisCommand) : Except RunError (List (Phase × String)) := do
  let config ← c.options.trackingConfig env c.root
  return (c.run (m := Id) (fun _ phase => phase ()) env config).run.findings

end AnalysisCommand

end ScriptMaps
