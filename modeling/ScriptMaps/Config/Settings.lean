import ScriptMaps.Config.Basic
import ScriptMaps.Json.Reader

-- The section `autoit` gives the library directories and the workspace, the section `mapTracking` the depth.
-- What is not of the expected kind is passed over.

namespace ScriptMaps.Config

-- A string that is not empty and holds no NUL character.
def settingPath? (value : Json) : Option Path :=
  match value.string? with
  | some text => if text.isEmpty || text.toList.contains '\x00' then none else some (Path.ofText text)
  | none => none

def settingIncludePaths (part : Option Json) : List Path :=
  match (part.bind (Json.field? "includePaths")).bind Json.items? with
  | some items => items.filterMap settingPath?
  | none => []

def settingWorkspace? (part : Option Json) : Option Path :=
  (part.bind (Json.field? "workspaceRoot")).bind settingPath?

def settingDepth? (part : Option Json) : Option Nat :=
  ((part.bind (Json.field? "maxIncludeDepth")).bind Json.natural?).filter (0 < ·)

def ofSettings? (settings : Json) : Option Config :=
  let autoit := settings.field? "autoit"
  let tracking := settings.field? "mapTracking"
  if autoit.isNone && tracking.isNone then none
  else some
    { workspaceRoot := settingWorkspace? autoit
      includePaths  := settingIncludePaths autoit
      maxDepth      := (settingDepth? tracking).getD defaultDepth }

end ScriptMaps.Config
