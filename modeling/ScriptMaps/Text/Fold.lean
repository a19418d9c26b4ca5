import ScriptMaps.Text.FoldRuns

namespace ScriptMaps.Text

def lowerAscii (cs : List Char) : List Char :=
  cs.map Char.toLower

def sameAscii (a b : List Char) : Bool :=
  lowerAscii a == lowerAscii b

def sameName (a b : String) : Bool :=
  sameAscii a.toList b.toList

def FoldRun.covers (r : FoldRun) (n : Nat) : Bool :=
  r.first ≤ n && n ≤ r.last && (n - r.first) % r.stride == 0

-- Simple case folding: `k`, `K` and the Kelvin sign all fold to `k`.
def fold (c : Char) : Char :=
  if c.toNat < 0x80 then c.toLower
  else match foldRuns.find? (·.covers c.toNat) with
    | some r => Char.ofNat (r.target + (c.toNat - r.first))
    | none => c

-- What follows `word` at the front of a text, up to the case of ASCII letters.
def afterKeyword? : (word : List Char) → List Char → Option (List Char)
  | [], cs => some cs
  | _ :: _, [] => none
  | w :: ws, c :: cs => if w.toLower = c.toLower then afterKeyword? ws cs else none

-- What follows `name` at the front of a text, up to case folding.
def afterFolded? : (name : List Char) → List Char → Option (List Char)
  | [], cs => some cs
  | _ :: _, [] => none
  | n :: ns, c :: cs => if fold n = fold c then afterFolded? ns cs else none

-- How `name` is written at the front of a text, and what follows.
def readFolded? (name cs : List Char) : Option (List Char × List Char) :=
  (afterFolded? name cs).map (cs.take name.length, ·)

end ScriptMaps.Text
