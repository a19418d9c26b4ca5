import ScriptMaps.Path.Basic

-- Paths are compared by their components, and a table keeps the path that an entry was first made with.

namespace ScriptMaps

structure PathTable (α : Type) where
  entries : List (Path × α) := []

namespace PathTable

variable {α : Type}

def find? (t : PathTable α) (p : Path) : Option α :=
  (t.entries.find? (·.1 == p)).map (·.2)

def contains (t : PathTable α) (p : Path) : Bool :=
  (t.find? p).isSome

def insert (t : PathTable α) (p : Path) (a : α) : PathTable α where
  entries :=
    if t.contains p then t.entries.map fun e => if e.1 == p then (e.1, a) else e
    else t.entries ++ [(p, a)]

def erase (t : PathTable α) (p : Path) : PathTable α where
  entries := t.entries.filter fun e => !(e.1 == p)

def paths (t : PathTable α) : List Path :=
  (t.entries.map (·.1)).mergeSort Path.precedes

end PathTable

end ScriptMaps
