import ScriptMaps.Path.Basic

-- Normal forms are found in the text alone: `.` disappears and `..` takes away the name before it. What has no
-- name before it is not climbed over, so `..` at the root or at the start of a relative path disappears too. A
-- path of which nothing is left has no normal form.

namespace ScriptMaps.Path

-- The components so far are given last one first.
def settle : List Component → Component → List Component
  | .name _ :: rest, .up => rest
  | settled, .up => settled
  | settled, .here => settled
  | settled, c => c :: settled

def settled (components : List Component) : List Component :=
  (components.foldl settle []).reverse

def ofComponents : List Component → Path
  | .root :: rest => ofText ("/" ++ "/".intercalate (rest.map (·.text)))
  | components => ofText ("/".intercalate (components.map (·.text)))

def normalize? (p : Path) : Option Path :=
  match settled p.components with
  | [] => none
  | components => some (ofComponents components)

def identity (p : Path) : Path :=
  p.normalize?.getD p

def absolutize (base p : Path) : Path :=
  (base.join p).identity

end ScriptMaps.Path
