import ScriptMaps.Command.Options
import ScriptMaps.Report.Answer
import ScriptMaps.Tracker

namespace ScriptMaps
open Text

-- Lines are counted from 1.
inductive Query
  | keys (file : Path) (map : String) (line : Option Nat) (noIncludes : Bool)
  | includes (file : Path)
  | maps (file : Path)

structure QueryCommand where
  query   : Query
  options : Options

namespace QueryCommand

structure Draft where
  options    : Options := {}
  positional : List String := []
  line       : Option Nat := none
  noIncludes : Bool := false

def lineLimit : Nat :=
  4294967295

namespace Draft

-- Only the command `keys` has flags of its own.
def push (command : String) (d : Draft) (argument : Argument) : Except UsageError Draft := do
  match ← d.options.accept argument with
  | some options => return { d with options }
  | none =>
    match argument with
    | .valued flag none => .error (.missingValue flag)
    | .valued _ (some value) =>
      match (number? lineLimit value).filter (0 < ·) with
      | some line => return { d with line := some line }
      | none => .error (.badLine value)
    | .plain text =>
      if command = "keys" ∧ text = "--no-includes" then return { d with noIncludes := true }
      else if "--".toList.isPrefixOf text.toList then .error (.unknownFlag command text)
      else return { d with positional := d.positional ++ [text] }

end Draft

def takesValue (command flag : String) : Bool :=
  Options.takesValue flag || (command == "keys" && flag == "--line")

-- The leading `$` may be left out.
def mapName (name : String) : String :=
  if name.toList.head? = some '$' then name else "$" ++ name

def ofDraft (command : String) (d : Draft) : Except UsageError QueryCommand :=
  match command, d.positional with
  | "keys", [file, map] =>
    .ok ⟨.keys (Path.ofText file) (mapName map) d.line d.noIncludes, d.options⟩
  | "keys", positional => .error (.wrongCount command positional.length)
  | "includes", [file] => .ok ⟨.includes (Path.ofText file), d.options⟩
  | "maps", [file] => .ok ⟨.maps (Path.ofText file), d.options⟩
  | _, [_] => .error (.unknownQuery command)
  | _, positional => .error (.wrongCount command positional.length)

def read (command : String) (args : List String) : Except UsageError QueryCommand := do
  ofDraft command (← (Argument.group (takesValue command) args).foldlM (Draft.push command) {})

end QueryCommand

def Environment.script (env : Environment) (file : Path) : Except RunError String :=
  match env.readScript file with
  | .ok text => .ok text
  | .error _ => .error (.unreadableScript file)

namespace QueryCommand

def tracking (env : Environment) (options : Options) (file : Path) : Except RunError Tracker := do
  let config ← options.trackingConfig env env.workingDir
  let text ← env.script file
  return (Tracker.create env.workingDir config).update file text

def answer (env : Environment) (c : QueryCommand) : Except RunError String :=
  match c.query with
  | .keys file map line noIncludes => do
    let tracker ← tracking env c.options file
    let point := match line with
      | some n => .line (n - 1)
      | none => .everywhere
    let keys :=
      if noIncludes then tracker.keys file map point
      else (tracker.keysWithIncludes env.sources file map point).2
    return if c.options.json then keys.json.render else keys.text map
  | .includes file => do
    let tracker ← tracking env c.options file
    let traversal := tracker.traverse env.sources file
    return if c.options.json then traversal.json.render else traversal.text
  | .maps file => do
    let declarations := (Script.ofText (← env.script file)).declarations
    return if c.options.json then (Json.array (declarations.map Declaration.json)).render
      else Declaration.listing file declarations

end QueryCommand

end ScriptMaps
