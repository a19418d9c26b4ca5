
namespace ScriptMaps

-- An integer from 0 to 2^64 - 1 that is written without sign, point and exponent, or any other number by its
-- text.
inductive JsonNumber
  | natural (n : Nat)
  | literal (text : String)
  deriving DecidableEq, Repr

-- The fields of an object are kept in the order in which they are written, repeated names included.
inductive Json
  | null
  | bool (value : Bool)
  | number (value : JsonNumber)
  | string (value : String)
  | array (items : List Json)
  | object (fields : List (String × Json))
  deriving Repr

namespace Json

-- The last field of a name counts.
def field? (name : String) : Json → Option Json
  | .object fields => (fields.reverse.find? (·.1 == name)).map (·.2)
  | _ => none

def items? : Json → Option (List Json)
  | .array items => some items
  | _ => none

def string? : Json → Option String
  | .string value => some value
  | _ => none

def natural? : Json → Option Nat
  | .number (.natural n) => some n
  | _ => none

def ofNat (n : Nat) : Json :=
  .number (.natural n)

end Json

end ScriptMaps
