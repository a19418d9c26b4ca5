import ScriptMaps.Include.Traversal
import ScriptMaps.Json.Printer
import ScriptMaps.Script.Keys

-- Text counts lines from 1, JSON from 0.

namespace ScriptMaps
open Text

def textLine (parts : List String) : String :=
  String.join parts ++ "\n"

namespace MapKeys

def functionKeyLine (k : FunctionKey) : String :=
  textLine ["  ", flushLeft 20 k.key, " ", k.function, "(", if k.byRef then "ByRef " else "", k.parameter,
    ") called at line ", toString (k.callLine + 1), ", defined at line ",
    toString (k.definitionLine + 1)]

def text (map : String) (keys : MapKeys) : String :=
  if keys.isEmpty then textLine ["No keys found for ", map]
  else
    let direct :=
      textLine [toString keys.directKeys.length, " direct key(s) for ", map, ":"] ++
        String.join (keys.directKeys.map fun key => textLine ["  ", key])
    let throughCalls :=
      if keys.functionKeys.isEmpty then ""
      else
        textLine [toString keys.functionKeys.length, " key(s) assigned through functions:"] ++
          String.join (keys.functionKeys.map functionKeyLine)
    direct ++ throughCalls

def functionKeyJson (k : FunctionKey) : Json :=
  .object
    [("key", .string k.key), ("function", .string k.function), ("parameter", .string k.parameter),
      ("call_line", .ofNat k.callLine), ("definition_line", .ofNat k.definitionLine),
      ("by_ref", .bool k.byRef)]

def json (keys : MapKeys) : Json :=
  .object
    [("directKeys", .array (keys.directKeys.map .string)),
      ("functionKeys", .array (keys.functionKeys.map functionKeyJson))]

end MapKeys

namespace Include

def target (directive : Include) : String :=
  match directive.kind with
  | .relative => "\"" ++ directive.path ++ "\""
  | .library => "<" ++ directive.path ++ ">"

def json (directive : Include) : Json :=
  let kind := match directive.kind with
    | .relative => "relative"
    | .library => "library"
  .object
    [("kind", .string kind), ("path", .string directive.path), ("line", .ofNat directive.line)]

end Include

def Path.json (p : Path) : Json :=
  .string p.text

namespace Traversal

def unresolvedLine (u : UnresolvedInclude) : String :=
  textLine ["  ", u.source.text, ":", toString (u.directive.line + 1), ": #include ",
    u.directive.target, " (", toString u.searched.length, " location(s) searched)"]

def failureLine (f : ReadFailure) : String :=
  textLine ["  ", f.path.text, ": ", f.reason]

def listed {α : Type} (heading : String) (line : α → String) (items : List α) : String :=
  if items.isEmpty then "" else textLine [heading] ++ String.join (items.map line)

def text (t : Traversal) : String :=
  let skipped :=
    if 0 < t.revisited || 0 < t.truncated then
      textLine [toString t.revisited, " edge(s) to already included files, ", toString t.truncated,
        " beyond the depth limit"]
    else ""
  textLine [t.root.text, " includes ", toString t.files.length, " file(s):"] ++
    String.join (t.files.map fun file => textLine ["  ", file.text]) ++
    listed "Unresolved:" unresolvedLine t.unresolved ++
    listed "Unreadable:" failureLine t.readFailures ++ skipped

def edgeJson (e : IncludeEdge) : Json :=
  .object [("from", e.source.json), ("to", e.target.json), ("edge", e.directive.json)]

def unresolvedJson (u : UnresolvedInclude) : Json :=
  .object
    [("from", u.source.json), ("edge", u.directive.json),
      ("searched", .array (u.searched.map Path.json))]

def failureJson (f : ReadFailure) : Json :=
  .object [("path", f.path.json), ("reason", .string f.reason)]

def json (t : Traversal) : Json :=
  .object
    [("root", t.root.json), ("files", .array (t.files.map Path.json)),
      ("edges", .array (t.edges.map edgeJson)),
      ("unresolved", .array (t.unresolved.map unresolvedJson)),
      ("read_failures", .array (t.readFailures.map failureJson)),
      ("revisited", .ofNat t.revisited), ("truncated", .ofNat t.truncated)]

end Traversal

namespace Declaration

def row (d : Declaration) : String :=
  textLine ["  ", flushRight 5 (toString (d.line + 1)), "  ", flushLeft 7 d.scope.name, " ", d.name]

def listing (file : Path) (declarations : List Declaration) : String :=
  textLine [toString declarations.length, " Map declaration(s) in ", file.text, ":"] ++
    String.join (declarations.map row)

def json (d : Declaration) : Json :=
  .object [("name", .string d.name), ("scope", .string d.scope.name), ("line", .ofNat d.line)]

end Declaration

end ScriptMaps
