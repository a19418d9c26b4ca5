import ScriptMaps.Json.Basic
import ScriptMaps.Text.Column

namespace ScriptMaps.Json
open Text

def escape (c : Char) : List Char :=
  match c with
  | '"'    => ['\\', '"']
  | '\\'   => ['\\', '\\']
  | '\x08' => ['\\', 'b']
  | '\x0c' => ['\\', 'f']
  | '\n'   => ['\\', 'n']
  | '\r'   => ['\\', 'r']
  | '\t'   => ['\\', 't']
  | c      =>
    if c.toNat < 0x20 then
      ['\\', 'u', '0', '0', Nat.digitChar (c.toNat / 16), Nat.digitChar (c.toNat % 16)]
    else [c]

def quote (text : String) : String :=
  "\"" ++ String.ofList (text.toList.flatMap escape) ++ "\""

def numberText : JsonNumber → String
  | .natural n => toString n
  | .literal text => text

def newLine (level : Nat) : String :=
  "\n" ++ spaces (2 * level)

def enclose (level : Nat) (opening closing : String) (parts : List String) : String :=
  if parts.isEmpty then opening ++ closing
  else opening ++ newLine (level + 1) ++ (("," ++ newLine (level + 1)).intercalate parts) ++
    newLine level ++ closing

mutual

def renderAt (level : Nat) : Json → String
  | .null => "null"
  | .bool value => if value then "true" else "false"
  | .number value => numberText value
  | .string value => quote value
  | .array items => enclose level "[" "]" (renderItems (level + 1) items)
  | .object fields => enclose level "\x7b" "\x7d" (renderFields (level + 1) fields)

def renderItems (level : Nat) : List Json → List String
  | [] => []
  | item :: rest => renderAt level item :: renderItems level rest

def renderFields (level : Nat) : List (String × Json) → List String
  | [] => []
  | (name, value) :: rest => (quote name ++ ": " ++ renderAt level value) :: renderFields level rest

end

def render (value : Json) : String :=
  renderAt 0 value

end ScriptMaps.Json
