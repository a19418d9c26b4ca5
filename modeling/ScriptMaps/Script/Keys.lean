import ScriptMaps.Script.Visibility

namespace ScriptMaps
open Text

structure FunctionKey where
  key            : String
  function       : String
  parameter      : String
  callLine       : Nat
  definitionLine : Nat
  byRef          : Bool
  deriving DecidableEq, Repr

-- Direct keys are listed once each, in the order of their first appearance.
structure MapKeys where
  directKeys   : List String := []
  functionKeys : List FunctionKey := []
  deriving DecidableEq, Repr

namespace MapKeys

def isEmpty (keys : MapKeys) : Bool :=
  keys.directKeys.isEmpty && keys.functionKeys.isEmpty

def append (a b : MapKeys) : MapKeys where
  directKeys   := (a.directKeys ++ b.directKeys).eraseDups
  functionKeys := a.functionKeys ++ b.functionKeys

end MapKeys

namespace Script

def keysThrough (s : Script) (call : Call) (f : Function) : List FunctionKey :=
  match f.parameters[call.position]? with
  | none => []
  | some parameter =>
    let inBody := (s.assignments parameter.name).filter fun a => f.line < a.line && f.contains a.line
    inBody.map fun a =>
      { key            := a.key
        function       := f.name
        parameter      := parameter.name
        callLine       := call.line
        definitionLine := f.line
        byRef          := parameter.byRef }

def keysOfCall (s : Script) (call : Call) : List FunctionKey :=
  (s.functions.filter fun f => sameName f.name call.function).flatMap (s.keysThrough call)

def keysAt (s : Script) (map : String) (point : QueryPoint) : MapKeys :=
  let visible := s.visibility map point
  { directKeys   := (((s.assignments map).filter (visible.contains ·.line)).map (·.key)).eraseDups
    functionKeys := ((s.calls map).filter (visible.contains ·.line)).flatMap s.keysOfCall }

end Script

end ScriptMaps
