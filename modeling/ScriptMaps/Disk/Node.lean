import ScriptMaps.Include.Sources

namespace ScriptMaps

-- Links are only to files; what a link leads to has the link's content. All names are Unicode text: file
-- systems with other names are left out.
inductive Node
  | file (linked : Bool) (content : Except SystemFault (List UInt8))
  | directory (entries : List (String × Node))

namespace Node

def empty : Node :=
  .directory []

def entries : Node → List (String × Node)
  | .file _ _ => []
  | .directory entries => entries

def setEntry (name : String) (node : Node) : List (String × Node) → List (String × Node)
  | [] => [(name, node)]
  | (n, old) :: rest => if n = name then (name, node) :: rest else (n, old) :: setEntry name node rest

-- Directories on the way are made as needed.
def put : (tree : Node) → (names : List String) → (node : Node) → Node
  | _, [], node => node
  | tree, name :: names, node =>
    let below := (tree.entries.lookup name).getD empty
    .directory (setEntry name (put below names node) tree.entries)

def get? : (tree : Node) → (names : List String) → Option Node
  | tree, [] => some tree
  | tree, name :: names => (tree.entries.lookup name).bind (get? · names)

def maxNameSize : Nat :=
  255

-- Goes along one segment of a path from a node, whose ancestors are given innermost first. Only directories
-- can be gone through, also by segments that stay.
def go (segment : List Char) : Node × List Node → Except SystemFault (Node × List Node)
  | (.file _ _, _) => .error .notDirectory
  | (.directory entries, above) =>
    if Path.isIdle segment then .ok (.directory entries, above)
    else if segment = ['.', '.'] then
      match above with
      | [] => .ok (.directory entries, [])
      | parent :: above => .ok (parent, above)
    else if maxNameSize < (String.ofList segment).utf8ByteSize then .error .nameTooLong
    else match entries.lookup (String.ofList segment) with
      | some node => .ok (node, .directory entries :: above)
      | none => .error .noEntry

def locate (tree : Node) (p : Path) : Except SystemFault Node :=
  ((p.text.toList.splitOn '/').foldlM (fun place segment => go segment place) (tree, [])).map (·.1)

end Node

def Path.maxSize : Nat :=
  4095

def Path.isTooLong (p : Path) : Bool :=
  maxSize < p.text.utf8ByteSize

structure Environment where
  disk       : Node
  workingDir : Path

namespace Environment

-- An empty path leads nowhere, no path holds a NUL character, and a path that is too long as it is written is
-- refused, wherever it would lead.
def locate (env : Environment) (p : Path) : Except SystemFault Node :=
  if p.text.isEmpty then .error .noEntry
  else if p.text.toList.contains '\x00' then .error .invalid
  else if p.isTooLong then .error .nameTooLong
  else env.disk.locate (env.workingDir.join p)

def isFile (env : Environment) (p : Path) : Bool :=
  match env.locate p with
  | .ok (.file _ _) => true
  | _ => false

def isDirectory (env : Environment) (p : Path) : Bool :=
  match env.locate p with
  | .ok (.directory _) => true
  | _ => false

def bytes (env : Environment) (p : Path) : Except SystemFault (List UInt8) := do
  match ← env.locate p with
  | .file _ content => content
  | .directory _ => .error .isDirectory

end Environment

end ScriptMaps
