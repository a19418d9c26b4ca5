import ScriptMaps.Command.Program

-- What a command can reach is read first, and the command is then run on that picture of the file system.

namespace ScriptMaps

-- Puts a node where the text of a path leads. A directory that is already there stays.
def Environment.place (env : Environment) (p : Path) (node : Node) : Environment :=
  let names := (env.workingDir.join p).identity.components.filterMap fun
    | .name text => some text
    | _ => none
  match env.disk.get? names, node with
  | some (.directory _), .directory [] => env
  | _, _ => { env with disk := env.disk.put names node }

namespace Main

def content (path : String) : IO (Except SystemFault (List UInt8)) := do
  try
    return .ok (← IO.FS.readBinFile path).toList
  catch
    | .permissionDenied .. => return .error .denied
    | .noFileOrDirectory .. => return .error .noEntry
    | _ => return .error .inputOutput

def nodeAt? (path : String) : IO (Option Node) := do
  try
    match (← (← IO.FS.realPath path).metadata).type with
    | .dir => return some .empty
    | .file => return some (.file false (← content path))
    | _ => return none
  catch _ => return none

partial def load (env : Environment) (p : Path) : IO Environment := do
  if p.text.isEmpty then return env
  let env ← match p.parent? with
    | some q => load env q
    | none => pure env
  match ← nodeAt? p.text with
  | some node => return env.place p node
  | none => return env

partial def tree (path : String) : IO Node := do
  try
    let mut entries := #[]
    for entry in ← (← IO.FS.realPath path).readDir do
      let below := entry.path.toString
      match (← entry.path.symlinkMetadata).type with
      | .dir => entries := entries.push (entry.fileName, ← tree below)
      | .file => entries := entries.push (entry.fileName, .file false (← content below))
      | .symlink =>
        if let some (.file _ bytes) ← nodeAt? below then
          entries := entries.push (entry.fileName, .file true bytes)
      | .other => pure ()
    return .directory entries.toList
  catch _ => return .empty

partial def explore (env : Environment) (r : Resolver) :
    (pending : List (Path × String)) → IO Environment
  | [] => return env
  | (file, text) :: rest => do
    let mut env := env
    let mut pending := rest
    for place in (Include.ofText text).flatMap (r.places file) do
      unless env.isFile place do
        env ← load env place
        if let .ok text := env.readScript place then
          pending := (place, text) :: pending
    explore env r pending

def gather (env : Environment) (args : List String) : IO Environment := do
  let mut env := env
  for arg in args do
    env ← load env (Path.ofText arg)
  match Command.read env args with
  | .ok (.query c) =>
    let file := match c.query with
      | .keys file .. => file
      | .includes file => file
      | .maps file => file
    match c.options.trackingConfig env env.workingDir, env.readScript file with
    | .ok config, .ok text =>
      let r := Resolver.ofConfig env.workingDir config
      explore env r [(r.absolutize file, text)]
    | _, _ => return env
  | .ok (.analysis c) =>
    env := env.place c.root (← tree c.root.text)
    match c.options.trackingConfig env c.root with
    | .ok config =>
      let r := Resolver.ofConfig env.workingDir config
      explore env r ((env.scripts c.root).map fun (p, text) => (r.absolutize p, text))
    | .error _ => return env
  | _ => return env

def peakMemory : IO (Option Nat) := do
  try
    let status ← IO.FS.readFile "/proc/self/status"
    let line := (status.splitOn "\n").find? fun line => "VmHWM:".toList.isPrefixOf line.toList
    return (line.bind fun line => Text.number? Options.depthLimit
      (String.ofList (line.toList.filter Char.isDigit))).map (1024 * ·)
  catch _ => return none

def measured (measurements : IO.Ref (List (Phase × Measurement))) (phase : Phase) (step : Unit → Analysis) :
    IO Analysis := do
  let start ← IO.monoNanosNow
  let a ← IO.lazyPure step
  let stop ← IO.monoNanosNow
  let memory ← peakMemory
  measurements.modify ((phase, ⟨⟨stop - start⟩, memory⟩) :: ·)
  return a

def analyse (env : Environment) (c : AnalysisCommand) : IO Outcome := do
  match c.options.trackingConfig env c.root with
  | .error e => return .ofFailure (.run e)
  | .ok config =>
    let measurements ← IO.mkRef []
    let a ← c.run (measured measurements) env config
    let known ← measurements.get
    return .ofText (c.report (fun phase => (known.lookup phase).getD ⟨⟨0⟩, none⟩) a.findings)

end Main

end ScriptMaps

open ScriptMaps in
def main (args : List String) : IO UInt32 := do
  let workingDir := Path.ofText (← IO.currentDir).toString
  let env ← Main.gather ⟨.empty, workingDir⟩ args
  let outcome ← match Command.read env args with
    | .ok (.analysis c) => Main.analyse env c
    | _ => pure (runProgram env (fun _ => ⟨⟨0⟩, none⟩) args)
  IO.print outcome.stdout
  IO.eprint outcome.stderr
  return outcome.exitCode.toUInt32
