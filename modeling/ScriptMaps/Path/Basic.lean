import ScriptMaps.Path.Component

namespace ScriptMaps

-- A path is Unicode text. It keeps the text it was written with, but two paths are the same when their
-- components are: `a//b/` and `a/./b` are equal and print differently.
structure Path where
  text       : String
  components : List Component
  components_eq : components = Component.ofText text.toList

namespace Path

def ofText (text : String) : Path :=
  { text, components := Component.ofText text.toList, components_eq := rfl }

@[simp]
theorem text_ofText (text : String) : (ofText text).text = text :=
  rfl

@[ext]
theorem ext {p q : Path} (h : p.text = q.text) : p = q := by
  cases p; cases q
  simp_all

instance : BEq Path :=
  ⟨fun p q => p.components == q.components⟩

theorem beq_iff {p q : Path} : (p == q) = true ↔ p.components = q.components :=
  beq_iff_eq (α := List Component)

def precedes (p q : Path) : Bool :=
  !decide (q.components < p.components)

def isAbsolute (p : Path) : Bool :=
  p.text.toList.head? == some '/'

-- An absolute `q` stays as it is.
def join (p q : Path) : Path :=
  if q.isAbsolute then q
  else if p.text.toList.getLast?.all (· == '/') then ofText (p.text ++ q.text)
  else ofText (p.text ++ "/" ++ q.text)

def isIdle (segment : List Char) : Bool :=
  segment == [] || segment == ['.']

def front : List Char → List Char × List Char
  | '/' :: rest => (['/'], rest)
  | ['.'] => (['.'], [])
  | '.' :: '/' :: rest => (['.'], '/' :: rest)
  | rest => ([], rest)

-- The remaining components keep the text they were written with. The root and the empty path have no parent.
def parent? (p : Path) : Option Path :=
  let (start, body) := front p.text.toList
  match ((body.splitOn '/').reverse).dropWhile isIdle with
  | [] => if start = ['.'] then some (ofText "") else none
  | _ :: rest =>
    some (ofText (String.ofList (start ++ ['/'].intercalate (rest.dropWhile isIdle).reverse)))

def directory (p : Path) : Path :=
  p.parent?.getD p

-- Scripts write `\` or `/` as separators.
def ofWritten (text : String) : Path :=
  ofText (String.ofList (text.toList.map fun c => if c = '\\' then '/' else c))

def fileName? (p : Path) : Option String :=
  match p.components.getLast? with
  | some (.name text) => some text
  | _ => none

end Path

end ScriptMaps
