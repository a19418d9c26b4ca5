import ScriptMaps.Path.Normal
import ScriptMaps.Path.Table
import ScriptMaps.Script.Basic

namespace ScriptMaps

inductive SystemFault
  | inputOutput
  | noEntry
  | denied
  | notDirectory
  | isDirectory
  | invalid
  | nameTooLong
  deriving DecidableEq, Repr

def SystemFault.message : SystemFault → String
  | .noEntry      => "No such file or directory (os error 2)"
  | .inputOutput  => "Input/output error (os error 5)"
  | .denied       => "Permission denied (os error 13)"
  | .notDirectory => "Not a directory (os error 20)"
  | .isDirectory  => "Is a directory (os error 21)"
  | .invalid      => "Invalid argument (os error 22)"
  | .nameTooLong  => "File name too long (os error 36)"

inductive ReadError
  | missing (path : Path)
  | locked
  | system (fault : SystemFault)

def ReadError.message : ReadError → String
  | .missing path => path.text
  | .locked       => "locked"
  | .system fault => fault.message

structure Sources where
  isFile : Path → Bool
  read   : Path → Except ReadError String

-- Files in memory, by the identity of their paths. A locked path counts as a file that cannot be read, whether
-- or not there is a text for it.
structure MemoryFiles where
  texts  : PathTable String := {}
  locked : List Path := []

namespace MemoryFiles

def write (m : MemoryFiles) (p : Path) (text : String) : MemoryFiles :=
  { m with texts := m.texts.insert p.identity text }

def remove (m : MemoryFiles) (p : Path) : MemoryFiles :=
  { m with texts := m.texts.erase p.identity }

def lock (m : MemoryFiles) (p : Path) : MemoryFiles :=
  { m with locked := p.identity :: m.locked }

def unlock (m : MemoryFiles) (p : Path) : MemoryFiles :=
  { m with locked := m.locked.filter fun q => !(q == p.identity) }

def isLocked (m : MemoryFiles) (p : Path) : Bool :=
  m.locked.contains p.identity

def sources (m : MemoryFiles) : Sources where
  isFile p := m.isLocked p || m.texts.contains p.identity
  read p :=
    if m.isLocked p then .error .locked
    else match m.texts.find? p.identity with
      | some text => .ok text
      | none => .error (.missing p)

end MemoryFiles

namespace Sources

-- A script of the layer is read from there, whatever the file below it holds and whether or not there is one.
def under (s : Sources) (layer : PathTable Script) : Sources where
  isFile p := layer.contains p.identity || s.isFile p
  read p :=
    match layer.find? p.identity with
    | some script => .ok script.source
    | none => s.read p

end Sources

end ScriptMaps
