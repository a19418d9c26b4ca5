import ScriptMaps.Report.Duration
import ScriptMaps.Text.Column

namespace ScriptMaps
open Text Numeric

structure PhaseResult where
  name       : String
  duration   : Duration
  peakMemory : Option Nat
  detail     : String
  deriving DecidableEq, Repr

def memoryUnits : List String :=
  ["KB", "MB", "GB"]

-- In the first unit in which the memory is below 1024, or in the last.
def scaledMemory (bytes : Fraction) : (divisor : Nat) → List String → String
  | _, [] => ""
  | divisor, [unit] => (Fraction.mk bytes.num (bytes.den * divisor)).fixed 1 ++ " " ++ unit
  | divisor, unit :: units =>
    if bytes.num < 1024 * divisor * bytes.den then
      (Fraction.mk bytes.num (bytes.den * divisor)).fixed 1 ++ " " ++ unit
    else scaledMemory bytes (1024 * divisor) units

def memoryText (bytes : Nat) : String :=
  if bytes < 1024 then toString bytes ++ " B"
  else scaledMemory (Fraction.ofNat bytes).round 1024 memoryUnits

namespace PhaseResult

def row (r : PhaseResult) : String :=
  let memory := (r.peakMemory.map memoryText).getD "N/A"
  "  " ++ flushLeft 10 r.name ++ " " ++ flushRight 10 r.duration.text ++
    "   RSS: " ++ flushLeft 10 memory ++ "  (" ++ r.detail ++ ")\n"

def table (results : List PhaseResult) : String :=
  let rows := String.join (results.map row)
  let total :=
    if 1 < results.length then
      "\n  " ++ flushLeft 10 "TOTAL" ++ " " ++
        flushRight 10 (Duration.total (results.map (·.duration))).text ++ "\n"
    else ""
  "=== au3lens Analysis Stats ===\n\n" ++ rows ++ total

def quoted (text : String) : String :=
  "\"" ++ String.ofList (text.toList.flatMap fun c => if c = '"' then ['"', '"'] else [c]) ++ "\""

def csvRow (r : PhaseResult) : String :=
  r.name ++ "," ++ r.duration.milliseconds ++ "," ++ (r.peakMemory.map toString).getD "" ++ "," ++
    quoted r.detail ++ "\n"

def csv (results : List PhaseResult) : String :=
  "phase,duration_ms,peak_rss_bytes,detail\n" ++ String.join (results.map csvRow)

end PhaseResult

end ScriptMaps
