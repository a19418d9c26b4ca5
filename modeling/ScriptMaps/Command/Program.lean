import ScriptMaps.Command.Analysis
import ScriptMaps.Command.Query

namespace ScriptMaps

def version : String :=
  "au3lens 0.1.0"

def usage : String :=
  version ++ ", AutoIt Map key tracking across #include graphs.\n" ++
  "\n" ++
  "Usage: au3lens <COMMAND> [OPTIONS]\n" ++
  "\n" ++
  "Commands:\n" ++
  "\n" ++
  "keys <file> <map>            List keys assigned to a Map variable\n" ++
  "    --line <N>               Only keys visible at 1-based line N\n" ++
  "    --no-includes            Ignore included files\n" ++
  "includes <file>              Show the flattened include graph of a file\n" ++
  "maps <file>                  List Map declarations in a file\n" ++
  "analysis-stats <dir>         Time each analysis phase over a workspace\n" ++
  "    --csv                    CSV output\n" ++
  "    --only <phase>           scan, parse, includes or keys\n" ++
  "\n" ++
  "Options:\n" ++
  "\n" ++
  "--config <file.json>         Editor settings with autoit / mapTracking sections\n" ++
  "--workspace <dir>            Workspace root for relative includes\n" ++
  "--include-dir <dir>          Library include directory (repeatable, in order)\n" ++
  "--max-depth <N>              Include nesting limit, positive (default 3)\n" ++
  "--json                       JSON output\n" ++
  "--version                    Print the version\n" ++
  "--help                       Print this help message\n" ++
  "\n" ++
  "Set RUST_LOG for diagnostics and AU3LENS_PERF=1 for phase timings.\n" ++
  "\n"

inductive Command
  | help
  | version
  | query (command : QueryCommand)
  | analysis (command : AnalysisCommand)

def Command.read (env : Environment) : List String → Except UsageError Command
  | [] => .ok .help
  | command :: args =>
    if command = "--version" then .ok .version
    else if command = "--help" ∨ command = "help" then .ok .help
    else if command = "keys" ∨ command = "includes" ∨ command = "maps" then
      (QueryCommand.read command args).map .query
    else if command = "analysis-stats" then (AnalysisCommand.read env args).map .analysis
    else .error (.unknownCommand command)

structure Outcome where
  exitCode : Nat
  stdout   : String
  stderr   : String

namespace Outcome

def ofText (text : String) : Outcome :=
  ⟨0, text, ""⟩

def ofFailure (failure : Failure) : Outcome :=
  ⟨1, "", "Error: " ++ failure.message ++ "\n"⟩

end Outcome

structure Measurement where
  duration   : Duration
  peakMemory : Option Nat

def AnalysisCommand.report (c : AnalysisCommand) (measure : Phase → Measurement)
    (findings : List (Phase × String)) : String :=
  let results : List PhaseResult := findings.map fun (phase, detail) =>
    ⟨phase.name, (measure phase).duration, (measure phase).peakMemory, detail⟩
  if c.csv then PhaseResult.csv results else PhaseResult.table results ++ "\n"

-- The durations and memory sizes that an analysis reports come from `measure`.
def Command.run (env : Environment) (measure : Phase → Measurement) :
    Command → Except RunError String
  | .help => .ok usage
  | .version => .ok (ScriptMaps.version ++ "\n")
  | .query command => command.answer env
  | .analysis command => (command.findings env).map (command.report measure)

def runProgram (env : Environment) (measure : Phase → Measurement) (args : List String) : Outcome :=
  match Command.read env args with
  | .error e => .ofFailure (.usage e)
  | .ok command =>
    match command.run env measure with
    | .ok text => .ofText text
    | .error e => .ofFailure (.run e)

end ScriptMaps
