import ScriptMaps.Script.Function

namespace ScriptMaps
open Text

-- A call that passes a Map, with the position of the argument.
structure Call where
  function : String
  position : Nat
  line     : Nat
  deriving DecidableEq, Repr

namespace Call

-- What stands between a parenthesis just opened and its partner, if no other parenthesis comes first.
def arguments? (cs : List Char) : Option (List Char) :=
  match cs.dropWhile (fun c => c != '(' && c != ')') with
  | ')' :: _ => some (cs.takeWhile (fun c => c != '(' && c != ')'))
  | _ => none

-- The called word that a text starts with and its argument text, and what follows.
def readGroup? (cs : List Char) : Option ((List Char × List Char) × List Char) := do
  let (function, cs) ← word? cs
  let cs ← afterChar? '(' (trimStart cs)
  let arguments ← arguments? cs
  return ((function, arguments), cs.drop (arguments.length + 1))

theorem length_of_readGroup? {cs rest : List Char} {group : List Char × List Char}
    (h : readGroup? cs = some (group, rest)) : rest.length < cs.length := by
  simp only [readGroup?, Option.bind_eq_bind, Option.bind_eq_some_iff] at h
  obtain ⟨⟨function, after⟩, hw, opened, ho, arguments, ha, h⟩ := h
  cases h
  have hword : after <:+ cs := by
    rw [word?] at hw
    split at hw <;> cases hw
    exact List.dropWhile_suffix _
  have hopened : opened.length < after.length := by
    have ht : trimStart after <:+ after := List.dropWhile_suffix _
    generalize trimStart after = text at ho ht
    cases text
    case nil => cases ho
    case cons =>
      rw [afterChar?] at ho
      split at ho <;> cases ho
      exact ht.length_le
  calc
    (opened.drop (arguments.length + 1)).length ≤ opened.length := List.length_drop ▸ Nat.sub_le ..
    _ < after.length := hopened
    _ ≤ cs.length := hword.length_le

-- The groups of a code text as called word and argument text, from left to right. The scan goes on behind a
-- group, or else at the next character.
def groups : List Char → List (List Char × List Char)
  | [] => []
  | c :: cs =>
    match _h : readGroup? (c :: cs) with
    | some (group, rest) => group :: groups rest
    | none => groups cs
termination_by cs => cs.length
decreasing_by
  exact length_of_readGroup? _h
  exact Nat.lt_add_one cs.length

-- The positions at which the Map is an argument, counted from `position` on.
def positionsFrom (map : List Char) (position : Nat) : List (List Char) → List Nat
  | [] => []
  | piece :: rest =>
    if sameAscii (trim piece) map then position :: positionsFrom map (position + 1) rest
    else positionsFrom map (position + 1) rest

def positions (map arguments : List Char) : List Nat :=
  positionsFrom map 0 (arguments.splitOn ',')

def ofLine (map : List Char) (line : CodeLine) : List Call :=
  if isComment line.text || (Function.header? line.text).isSome then []
  else (groups (beforeComment none line.text)).flatMap fun (function, arguments) =>
    (positions map arguments).map fun position => ⟨String.ofList function, position, line.number⟩

end Call

end ScriptMaps
