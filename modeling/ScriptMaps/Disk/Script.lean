import ScriptMaps.Disk.Node
import ScriptMaps.Text.Utf8

namespace ScriptMaps
open Text

namespace Environment

-- Bytes that are no UTF-8 do not keep a script from being read.
def readScript (env : Environment) (p : Path) : Except SystemFault String :=
  (env.bytes p).map Utf8.decodeLossy

def sources (env : Environment) : Sources where
  isFile := env.isFile
  read p :=
    match env.readScript p with
    | .ok text => .ok text
    | .error fault => .error (.system fault)

end Environment

-- A leading point starts no extension.
def isScriptName (name : String) : Bool :=
  let (extension, before) := name.toList.reverse.span (· != '.')
  match before with
  | _ :: _ :: _ => sameAscii extension.reverse "au3".toList
  | _ => false

def isSkippedDirectory (name : String) : Bool :=
  [".git", ".svn", ".hg", "node_modules", ".vscode", ".idea", "target"].contains name ||
    ".backup".toList.isSuffixOf name.toList

namespace Node

mutual

-- Links are not followed, and files that cannot be read are passed over, those whose path is too long
-- included.
def scriptsAt (p : Path) (name : String) : Node → List (Path × String)
  | .file linked content =>
    if !linked && isScriptName name && !p.isTooLong then
      match content with
      | .ok bytes => [(p, Utf8.decodeLossy bytes)]
      | .error _ => []
    else []
  | .directory entries => if isSkippedDirectory name then [] else scriptsIn p entries

def scriptsIn (p : Path) : List (String × Node) → List (Path × String)
  | [] => []
  | (name, node) :: rest =>
    scriptsAt (p.join (Path.ofText name)) name node ++ scriptsIn p rest

end

end Node

-- The scripts below a directory, whatever its own name, in the order of their paths.
def Environment.scripts (env : Environment) (root : Path) : List (Path × String) :=
  match env.locate root with
  | .ok node => (Node.scriptsIn root node.entries).mergeSort fun a b => a.1.precedes b.1
  | .error _ => []

end ScriptMaps
