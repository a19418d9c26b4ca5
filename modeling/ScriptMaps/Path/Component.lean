
namespace ScriptMaps

-- What is left of a path's text when repeated and trailing separators and inner `.` segments are ignored.
-- `here` is a leading `.`, and `up` is `..`.
inductive Component
  | root
  | here
  | up
  | name (text : String)
  deriving DecidableEq, Repr

namespace Component

def ofSegment? : List Char → Option Component
  | [] => none
  | ['.'] => none
  | ['.', '.'] => some .up
  | segment => some (.name (String.ofList segment))

def ofFront? : List Char → Option Component
  | '/' :: _ => some .root
  | ['.'] => some .here
  | '.' :: '/' :: _ => some .here
  | _ => none

def ofText (text : List Char) : List Component :=
  (ofFront? text).toList ++ (text.splitOn '/').filterMap ofSegment?

def text : Component → String
  | .root => "/"
  | .here => "."
  | .up => ".."
  | .name text => text

def rank : Component → Nat
  | .root   => 0
  | .here   => 1
  | .up     => 2
  | .name _ => 3

-- By kind, and names among themselves by their characters.
instance : LT Component :=
  ⟨fun a b => a.rank < b.rank ∨ a.rank = b.rank ∧ a.text < b.text⟩

instance (a b : Component) : Decidable (a < b) :=
  inferInstanceAs (Decidable (_ ∨ _))

end Component

end ScriptMaps
