import ScriptMaps.Json.Basic
import ScriptMaps.Numeric.Binary64
import ScriptMaps.Text.Number

namespace ScriptMaps.Json
open Text Numeric

inductive Token
  | openArray
  | closeArray
  | openObject
  | closeObject
  | colon
  | comma
  | scalar (value : Json)

namespace Token

def isSpace (c : Char) : Bool :=
  c == ' ' || c == '\n' || c == '\t' || c == '\r'

def hexDigit? (c : Char) : Option Nat :=
  if '0' ≤ c ∧ c ≤ '9' then some (c.toNat - '0'.toNat)
  else if 'a' ≤ c ∧ c ≤ 'f' then some (c.toNat - 'a'.toNat + 10)
  else if 'A' ≤ c ∧ c ≤ 'F' then some (c.toNat - 'A'.toNat + 10)
  else none

def hex4? (a b c d : Char) : Option Nat := do
  return (((← hexDigit? a) * 16 + (← hexDigit? b)) * 16 + (← hexDigit? c)) * 16 + (← hexDigit? d)

def escape? : Char → Option Char
  | '"'  => some '"'
  | '\\' => some '\\'
  | '/'  => some '/'
  | 'b'  => some '\x08'
  | 'f'  => some '\x0c'
  | 'n'  => some '\n'
  | 'r'  => some '\r'
  | 't'  => some '\t'
  | _    => none

def ofSurrogates? (high low : Nat) : Option Char :=
  if 0xD800 ≤ high ∧ high ≤ 0xDBFF ∧ 0xDC00 ≤ low ∧ low ≤ 0xDFFF then
    some (Char.ofNat (0x10000 + (high - 0xD800) * 0x400 + (low - 0xDC00)))
  else none

-- The characters so far are given backwards. Control characters must be escaped, and surrogates come in pairs.
def string? (read : List Char) : List Char → Option (String × List Char)
  | [] => none
  | '"' :: cs => some (String.ofList read.reverse, cs)
  | '\\' :: 'u' :: a :: b :: c :: d :: cs =>
    match hex4? a b c d with
    | none => none
    | some unit =>
      if unit < 0xD800 ∨ 0xDFFF < unit then string? (Char.ofNat unit :: read) cs
      else match cs with
        | '\\' :: 'u' :: e :: f :: g :: h :: cs' =>
          match (hex4? e f g h).bind (ofSurrogates? unit) with
          | none => none
          | some char => string? (char :: read) cs'
        | _ => none
  | '\\' :: c :: cs =>
    match escape? c with
    | none => none
    | some char => string? (char :: read) cs
  | c :: cs => if c.toNat < 0x20 then none else string? (c :: read) cs

structure Literal where
  negative : Bool
  whole    : List Char
  decimals : Option (List Char)
  exponent : Option Int

def digits? (cs : List Char) : Option (List Char × List Char) :=
  match cs.takeWhile Char.isDigit with
  | [] => none
  | digits => some (digits, cs.dropWhile Char.isDigit)

def exponent? : List Char → Option (Int × List Char)
  | '-' :: cs => (digits? cs).map fun (digits, cs) => (-(ofDigits digits : Int), cs)
  | '+' :: cs => (digits? cs).map fun (digits, cs) => ((ofDigits digits : Int), cs)
  | cs => (digits? cs).map fun (digits, cs) => ((ofDigits digits : Int), cs)

-- Digits before the point have no leading zero.
def literal? (cs : List Char) : Option (Literal × List Char) := do
  let (negative, cs) := match cs with
    | '-' :: cs => (true, cs)
    | cs => (false, cs)
  let (whole, cs) ← digits? cs
  if whole.head? = some '0' ∧ whole.length ≠ 1 then none
  let (decimals, cs) ← match cs with
    | '.' :: cs => (digits? cs).map fun (digits, cs) => (some digits, cs)
    | cs => some (none, cs)
  let (exponent, cs) ← match cs with
    | c :: cs =>
      if c = 'e' ∨ c = 'E' then (exponent? cs).map fun (exponent, cs) => (some exponent, cs)
      else some (none, c :: cs)
    | [] => some (none, [])
  return (⟨negative, whole, decimals, exponent⟩, cs)

namespace Literal

def maxSignificand : Nat :=
  18446744073709551615

def extend? (significand : Nat) (digit : Char) : Option Nat :=
  let next := 10 * significand + (digit.toNat - '0'.toNat)
  if next ≤ maxSignificand then some next else none

def significandOf (significand : Nat) : List Char → Nat × Nat
  | [] => (significand, 0)
  | digit :: rest =>
    match extend? significand digit with
    | some next => significandOf next rest
    | none => (significand, (digit :: rest).length)

-- Whether a number is small enough for a 64-bit floating-point format. The significand is cut to 64 bits
-- first, then rounded, and the power of ten is rounded before it is multiplied.
def inRange (l : Literal) : Bool :=
  let (significand, dropped) := significandOf 0 l.whole
  let decimals := l.decimals.getD []
  let (significand, unread) := significandOf significand decimals
  let exponent : Int := dropped - (decimals.length - unread : Nat) + l.exponent.getD 0
  significand = 0 || exponent < 0 ||
    (exponent ≤ 308 && !((Fraction.ofNat significand).round.mul
      (Fraction.ofNat (Nat.pow 10 exponent.toNat)).round).overflows)

def number (l : Literal) (text : List Char) : JsonNumber :=
  let n := ofDigits l.whole
  if !l.negative && l.decimals.isNone && l.exponent.isNone && n ≤ maxSignificand then .natural n
  else .literal (String.ofList text)

end Literal

def number? (cs : List Char) : Option (JsonNumber × List Char) := do
  let (literal, rest) ← literal? cs
  if literal.inRange then return (literal.number (cs.take (cs.length - rest.length)), rest) else none

def after? (word cs : List Char) : Option (List Char) :=
  if word.isPrefixOf cs then some (cs.drop word.length) else none

def read? : List Char → Option (Token × List Char)
  | [] => none
  | '[' :: cs => some (.openArray, cs)
  | ']' :: cs => some (.closeArray, cs)
  | '\x7b' :: cs => some (.openObject, cs)
  | '\x7d' :: cs => some (.closeObject, cs)
  | ':' :: cs => some (.colon, cs)
  | ',' :: cs => some (.comma, cs)
  | '"' :: cs => (string? [] cs).map fun (text, cs) => (.scalar (.string text), cs)
  | 'n' :: cs => (after? "ull".toList cs).map fun cs => (.scalar .null, cs)
  | 't' :: cs => (after? "rue".toList cs).map fun cs => (.scalar (.bool true), cs)
  | 'f' :: cs => (after? "alse".toList cs).map fun cs => (.scalar (.bool false), cs)
  | cs => (number? cs).map fun (n, cs) => (.scalar (.number n), cs)

-- Every token takes at least one character, so `fuel` beyond the length of the text is never used up.
def allFrom? (read : List Token) : (fuel : Nat) → List Char → Option (List Token)
  | 0, _ => none
  | fuel + 1, cs =>
    match cs.dropWhile isSpace with
    | [] => some read.reverse
    | cs =>
      match read? cs with
      | none => none
      | some (token, cs) => allFrom? (token :: read) fuel cs

def all? (cs : List Char) : Option (List Token) :=
  allFrom? [] (cs.length + 1) cs

end Token

end ScriptMaps.Json
