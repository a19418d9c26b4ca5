import ScriptMaps.Json.Token

namespace ScriptMaps.Json

def maxNesting : Nat :=
  127

-- An array or object whose next value is being read. What it has so far is kept backwards.
inductive Container
  | array (items : List Json)
  | object (fields : List (String × Json)) (name : String)

inductive Stage
  | beforeValue
  | arrayStart
  | objectStart
  | beforeName (fields : List (String × Json))
  | afterName (fields : List (String × Json)) (name : String)
  | afterValue (value : Json)

structure Reader where
  stack : List Container := []
  stage : Stage := .beforeValue

namespace Reader

def startValue (r : Reader) : Token → Option Reader
  | .scalar value => some { r with stage := .afterValue value }
  | .openArray =>
    if r.stack.length < maxNesting then some ⟨.array [] :: r.stack, .arrayStart⟩ else none
  | .openObject =>
    if r.stack.length < maxNesting then some ⟨r.stack, .objectStart⟩ else none
  | _ => none

def startField (r : Reader) (fields : List (String × Json)) : Token → Option Reader
  | .scalar (.string name) => some { r with stage := .afterName fields name }
  | _ => none

def endValue (value : Json) : List Container → Token → Option Reader
  | .array items :: stack, .comma => some ⟨.array (value :: items) :: stack, .beforeValue⟩
  | .array items :: stack, .closeArray =>
    some ⟨stack, .afterValue (.array (value :: items).reverse)⟩
  | .object fields name :: stack, .comma => some ⟨stack, .beforeName ((name, value) :: fields)⟩
  | .object fields name :: stack, .closeObject =>
    some ⟨stack, .afterValue (.object ((name, value) :: fields).reverse)⟩
  | _, _ => none

def push (r : Reader) (token : Token) : Option Reader :=
  match r.stage, token, r.stack with
  | .arrayStart, .closeArray, _ :: stack => some ⟨stack, .afterValue (.array [])⟩
  | .arrayStart, token, _ => r.startValue token
  | .beforeValue, token, _ => r.startValue token
  | .objectStart, .closeObject, stack => some ⟨stack, .afterValue (.object [])⟩
  | .objectStart, token, _ => r.startField [] token
  | .beforeName fields, token, _ => r.startField fields token
  | .afterName fields name, .colon, stack => some ⟨.object fields name :: stack, .beforeValue⟩
  | .afterName _ _, _, _ => none
  | .afterValue value, token, stack => endValue value stack token

def result? : Reader → Option Json
  | ⟨[], .afterValue value⟩ => some value
  | _ => none

end Reader

def ofText? (text : String) : Option Json := do
  let tokens ← Token.all? text.toList
  (← tokens.foldlM Reader.push {}).result?

end ScriptMaps.Json
