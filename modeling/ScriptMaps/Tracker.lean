import ScriptMaps.Config.Basic
import ScriptMaps.Include.Traversal
import ScriptMaps.Script.Keys

-- A tracked script counts instead of the file at its path. Files that a question about includes reaches become
-- tracked on the way, with the text they have then; only an update changes that text again.

namespace ScriptMaps

structure Tracker where
  config   : Config
  resolver : Resolver
  scripts  : PathTable Script := {}

namespace Tracker

-- A depth of zero is replaced by the usual one.
def create (workingDir : Path) (config : Config) : Tracker :=
  let config := config.withPositiveDepth defaultDepth
  { config, resolver := Resolver.ofConfig workingDir config }

-- A depth of zero is replaced by the current one, and a configuration that makes no difference is not taken
-- over.
def reconfigure (t : Tracker) (config : Config) : Tracker :=
  let config := config.withPositiveDepth t.config.maxDepth
  if t.config.differs config then
    { t with config, resolver := Resolver.ofConfig t.resolver.workingDir config }
  else t

def key (t : Tracker) (p : Path) : Path :=
  (t.resolver.absolutize p).identity

def update (t : Tracker) (p : Path) (text : String) : Tracker :=
  { t with scripts := t.scripts.insert (t.key p) (Script.ofText text) }

def remove (t : Tracker) (p : Path) : Tracker :=
  { t with scripts := t.scripts.erase (t.key p) }

def clear (t : Tracker) : Tracker :=
  { t with scripts := {} }

def script? (t : Tracker) (p : Path) : Option Script :=
  t.scripts.find? (t.key p)

def isTracked (t : Tracker) (p : Path) : Bool :=
  (t.script? p).isSome

def tracked (t : Tracker) : List Path :=
  t.scripts.paths

def keys (t : Tracker) (p : Path) (map : String) (point : QueryPoint) : MapKeys :=
  match t.script? p with
  | some script => script.keysAt map point
  | none => {}

def traverse (t : Tracker) (sources : Sources) (p : Path) : Traversal :=
  t.resolver.traverse (sources.under t.scripts) p

def track? (t : Tracker) (sources : Sources) (file : Path) : Option Tracker :=
  if t.isTracked file then some t
  else match sources.read file with
    | .ok text => some (t.update file text)
    | .error _ => none

-- Files that cannot be read are passed over.
def collect (sources : Sources) (map : String) :
    List Path → Tracker × MapKeys → Tracker × MapKeys
  | [], found => found
  | file :: rest, (t, found) =>
    match t.track? sources file with
    | some t => collect sources map rest (t, found.append (t.keys file map .everywhere))
    | none => collect sources map rest (t, found)

def keysWithIncludes (t : Tracker) (sources : Sources) (p : Path) (map : String)
    (point : QueryPoint) : Tracker × MapKeys :=
  collect sources map (t.traverse sources p).files (t, t.keys p map point)

end Tracker

end ScriptMaps
