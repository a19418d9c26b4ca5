import ScriptMaps.Include.Resolver

namespace ScriptMaps

def defaultDepth : Nat :=
  3

structure Config where
  workspaceRoot : Option Path := none
  includePaths  : List Path := []
  maxDepth      : Nat := defaultDepth

namespace Config

def differs (a b : Config) : Bool :=
  a.workspaceRoot != b.workspaceRoot || a.includePaths != b.includePaths || a.maxDepth != b.maxDepth

def withPositiveDepth (config : Config) (fallback : Nat) : Config :=
  if config.maxDepth = 0 then { config with maxDepth := fallback } else config

end Config

def Resolver.ofConfig (workingDir : Path) (config : Config) : Resolver where
  workingDir    := workingDir
  workspaceRoot := config.workspaceRoot
  includePaths  := config.includePaths
  maxDepth      := config.maxDepth

end ScriptMaps
