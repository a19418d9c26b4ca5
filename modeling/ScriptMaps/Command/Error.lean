import ScriptMaps.Path.Basic

namespace ScriptMaps

inductive UsageError
  | missingValue (flag : String)
  | badDepth (value : String)
  | badLine (value : String)
  | unknownFlag (command flag : String)
  | wrongCount (command : String) (count : Nat)
  | unknownQuery (command : String)
  | missingPhase
  | unknownPhase (value : String)
  | unknownAnalysisFlag (flag : String)
  | severalDirectories
  | missingDirectory
  | notDirectory (path : Path)
  | unknownCommand (command : String)

def UsageError.message : UsageError → String
  | .missingValue flag => flag ++ " requires a value"
  | .badDepth value => "--max-depth expects a positive integer, got '" ++ value ++ "'"
  | .badLine value => "--line expects a positive line number, got '" ++ value ++ "'"
  | .unknownFlag command flag => "Unknown flag for '" ++ command ++ "': '" ++ flag ++ "'"
  | .wrongCount command count =>
    "'" ++ command ++ "' expects " ++ (if command = "keys" then "<file> <map>" else "<file>") ++
      ", got " ++ toString count ++ " positional argument(s)"
  | .unknownQuery command => "Unknown command: '" ++ command ++ "'"
  | .missingPhase => "--only requires a phase name"
  | .unknownPhase value =>
    "Unknown phase '" ++ value ++ "'. Valid phases: scan, parse, includes, keys"
  | .unknownAnalysisFlag flag => "Unknown flag: '" ++ flag ++ "'"
  | .severalDirectories => "Multiple paths provided; expected exactly one"
  | .missingDirectory => "Missing required <dir> argument"
  | .notDirectory path => "Not a directory: " ++ path.text
  | .unknownCommand command => "Unknown command: '" ++ command ++ "'. Try --help"

inductive RunError
  | unreadableConfig (path : Path)
  | invalidConfig (path : Path)
  | unreadableScript (path : Path)

def RunError.message : RunError → String
  | .unreadableConfig path => "Failed to read config file " ++ path.text
  | .invalidConfig path => "Invalid JSON in " ++ path.text
  | .unreadableScript path => "Failed to read " ++ path.text

inductive Failure
  | usage (error : UsageError)
  | run (error : RunError)

def Failure.message : Failure → String
  | .usage error => error.message
  | .run error => error.message

end ScriptMaps
