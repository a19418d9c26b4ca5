import ScriptMaps.Numeric.Binary64

namespace ScriptMaps
open Numeric

-- Spans of time.
structure Duration where
  nanos : Nat
  deriving DecidableEq, Repr

namespace Duration

def second : Nat :=
  1000000000

def ofParts (seconds nanos : Nat) : Duration :=
  ⟨seconds * second + nanos⟩

def add (a b : Duration) : Duration :=
  ⟨a.nanos + b.nanos⟩

def total (durations : List Duration) : Duration :=
  durations.foldl add ⟨0⟩

def unit (d : Duration) : Nat × String :=
  if second ≤ d.nanos then (second, "s")
  else if 1000000 ≤ d.nanos then (1000000, "ms")
  else if 1000 ≤ d.nanos then (1000, "µs")
  else (1, "ns")

def text (d : Duration) : String :=
  (Fraction.mk d.nanos d.unit.1).fixed 2 ++ d.unit.2

-- The whole seconds, the part of a second, their sum and the product with a thousand are each rounded to a
-- 64-bit floating-point number.
def milliseconds (d : Duration) : String :=
  let whole := (Fraction.ofNat (d.nanos / second)).round
  let part := (Fraction.mk (d.nanos % second) second).round
  ((whole.add part).round.mul (Fraction.ofNat 1000)).round.fixed 3

end Duration

end ScriptMaps
