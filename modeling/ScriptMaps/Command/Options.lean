import ScriptMaps.Command.Error
import ScriptMaps.Config.Settings
import ScriptMaps.Disk.Script
import ScriptMaps.Text.Number

namespace ScriptMaps
open Text

-- The value of a flag that stands last is missing.
inductive Argument
  | plain (text : String)
  | valued (flag : String) (value : Option String)
  deriving DecidableEq, Repr

-- What follows a flag that takes a value is its value, whatever it looks like.
def Argument.group (takesValue : String → Bool) : List String → List Argument
  | [] => []
  | text :: rest =>
    if takesValue text then
      match rest with
      | [] => [.valued text none]
      | value :: rest => .valued text (some value) :: group takesValue rest
    else .plain text :: group takesValue rest

structure Options where
  config      : Option Path := none
  workspace   : Option Path := none
  includeDirs : List Path := []
  maxDepth    : Option Nat := none
  json        : Bool := false

namespace Options

def depthLimit : Nat :=
  18446744073709551615

def takesValue (flag : String) : Bool :=
  ["--config", "--workspace", "--include-dir", "--max-depth"].contains flag

def set (o : Options) (flag value : String) : Except UsageError (Option Options) :=
  match flag with
  | "--config" => .ok (some { o with config := some (Path.ofText value) })
  | "--workspace" => .ok (some { o with workspace := some (Path.ofText value) })
  | "--include-dir" => .ok (some { o with includeDirs := o.includeDirs ++ [Path.ofText value] })
  | "--max-depth" =>
    match (number? depthLimit value).filter (0 < ·) with
    | some depth => .ok (some { o with maxDepth := some depth })
    | none => .error (.badDepth value)
  | _ => .ok none

-- The options after one more argument; `none` if it is not a shared option.
def accept (o : Options) : Argument → Except UsageError (Option Options)
  | .plain text => .ok (if text = "--json" then some { o with json := true } else none)
  | .valued flag (some value) => o.set flag value
  | .valued flag none => if takesValue flag then .error (.missingValue flag) else .ok none

def acceptAll (args : List String) : Except UsageError (Options × List String) :=
  (Argument.group takesValue args).foldlM (fun (o, rejected) argument => do
    match ← o.accept argument, argument with
    | some o, _ => return (o, rejected)
    | none, .plain text => return (o, rejected ++ [text])
    | none, .valued flag value => return (o, rejected ++ flag :: value.toList)) ({}, [])

end Options

-- A settings file with neither section gives the usual configuration.
def Environment.readConfig (env : Environment) (p : Path) : Except RunError Config :=
  match env.bytes p with
  | .error _ => .error (.unreadableConfig p)
  | .ok bytes =>
    match Utf8.decode? bytes with
    | none => .error (.unreadableConfig p)
    | some text =>
      match Json.ofText? text with
      | none => .error (.invalidConfig p)
      | some settings => .ok ((Config.ofSettings? settings).getD {})

namespace Options

def override (o : Options) (defaultRoot : Path) (config : Config) : Config where
  workspaceRoot := some ((o.workspace.or config.workspaceRoot).getD defaultRoot)
  includePaths  := if o.includeDirs.isEmpty then config.includePaths else o.includeDirs
  maxDepth      := o.maxDepth.getD config.maxDepth

-- The settings of the options are put over those of the settings file.
def trackingConfig (o : Options) (env : Environment) (defaultRoot : Path) : Except RunError Config := do
  let config ← match o.config with
    | some p => env.readConfig p
    | none => .ok {}
  return o.override defaultRoot config

end Options

end ScriptMaps
