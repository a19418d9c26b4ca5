
namespace ScriptMaps.Text

def ofDigits (digits : List Char) : Nat :=
  digits.foldl (fun n c => 10 * n + (c.toNat - '0'.toNat)) 0

def withoutPlus : List Char → List Char
  | '+' :: cs => cs
  | cs => cs

-- ASCII digits, at least one, after at most one plus sign.
def number? (limit : Nat) (text : String) : Option Nat :=
  let digits := withoutPlus text.toList
  if digits.isEmpty || !digits.all Char.isDigit then none
  else
    let n := ofDigits digits
    if n ≤ limit then some n else none

end ScriptMaps.Text
