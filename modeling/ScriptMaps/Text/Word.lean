import ScriptMaps.Text.WordRanges

namespace ScriptMaps.Text

-- Letters, marks, decimal digits, connector punctuation and the two joiners. ASCII is decided without the
-- table.
def isWord (c : Char) : Bool :=
  if c.toNat < 0x80 then c.isAlphanum || c == '_'
  else wordRanges.any fun r => r.1 ≤ c.toNat && c.toNat ≤ r.2

end ScriptMaps.Text
