import ScriptMaps.Fixture
import ScriptMaps.Proofs.Include.Directive
import ScriptMaps.Proofs.Script.Written

-- Whatever numbers stand in its names, a statement is read as what it was written for.

namespace ScriptMaps
open Text

namespace Fixture

-- The variables of made-up files.
inductive Variable
  | shared
  | config (file map : Nat)
  | target
  deriving DecidableEq

namespace Variable

def name : Variable → String
  | shared     => sharedMap
  | config i m => mapName i m
  | target     => "$mTarget"

-- The name without its `$`.
def word : Variable → List Char
  | shared     => ['m', 'S', 'h', 'a', 'r', 'e', 'd']
  | config i m => ['m', 'C', 'o', 'n', 'f', 'i', 'g', '_'] ++ numbers i m
  | target     => ['m', 'T', 'a', 'r', 'g', 'e', 't']

theorem toList_name (v : Variable) : v.name.toList = '$' :: v.word := by
  cases v
  case config i m =>
    simp only [name, mapName, String.toList_append, toList_toString, List.append_assoc]
    rfl
  all_goals rfl

theorem ofList_word (v : Variable) : String.ofList ('$' :: v.word) = v.name := by
  rw [← v.toList_name, String.ofList_toList]

theorem word_ne_nil (v : Variable) : v.word ≠ [] := by
  cases v <;> simp [word]

theorem isPlain_word (v : Variable) : ∀ c ∈ v.word, isPlain c := by
  cases v
  case config i m => exact List.forall_mem_append.mpr ⟨List.all_eq_true.mp (by decide), isPlain_numbers i m⟩
  all_goals exact List.all_eq_true.mp (by decide)

-- No name is another one in other letters, though one may begin with another.
theorem sameAscii_word (v w : Variable) : sameAscii v.word w.word = decide (v = w) := by
  cases v <;> cases w
  case config.config i m j n =>
    rw [word, word, sameAscii_append_left, Bool.eq_iff_iff, sameAscii_numbers_iff, decide_eq_true_iff,
      config.injEq]
  all_goals simp [word, sameAscii, lowerAscii]

end Variable

def functionWord (i f : Nat) : List Char :=
  ['S', 'e', 't', 'u', 'p', '_'] ++ numbers i f

theorem toList_functionName (i f : Nat) : (functionName i f).toList = functionWord i f := by
  simp only [functionName, String.toList_append, toList_toString, List.append_assoc]
  rfl

theorem ofList_functionWord (i f : Nat) : String.ofList (functionWord i f) = functionName i f := by
  rw [← toList_functionName, String.ofList_toList]

theorem isPlain_functionWord (i f : Nat) : ∀ c ∈ functionWord i f, isPlain c :=
  List.forall_mem_append.mpr ⟨List.all_eq_true.mp (by decide), isPlain_numbers i f⟩

theorem sameName_functionName_iff {i f j g : Nat} :
    sameName (functionName i f) (functionName j g) ↔ i = j ∧ f = g := by
  rw [sameName, toList_functionName, toList_functionName, functionWord, functionWord, sameAscii_append_left,
    sameAscii_numbers_iff]

theorem toList_fileName (i : Nat) :
    (fileName i).toList = ['f', 'i', 'l', 'e', '_'] ++ (digits i ++ ['.', 'a', 'u', '3']) := by
  simp only [fileName, String.toList_append, toList_toString, List.append_assoc]
  rfl

theorem toList_libraryName (n : Nat) :
    (libraryName n).toList = ['U', 'd', 'f', '_'] ++ (digits n ++ ['.', 'a', 'u', '3']) := by
  simp only [libraryName, String.toList_append, toList_toString, List.append_assoc]
  rfl

theorem fileName_inj {i j : Nat} : fileName i = fileName j ↔ i = j := by
  rw [← String.toList_inj, toList_fileName, toList_fileName, List.append_right_inj, List.append_left_inj,
    digits_inj]

theorem libraryName_inj {m n : Nat} : libraryName m = libraryName n ↔ m = n := by
  rw [← String.toList_inj, toList_libraryName, toList_libraryName, List.append_right_inj,
    List.append_left_inj, digits_inj]

inductive Statement
  | blank
  | once
  | chain (file : Nat)
  | library (number : Nat)
  | declare (v : Variable)
  -- The assignments to the shared Map, to a Map of the file and to the parameter of a function.
  | share (file : Nat)
  | fill (file map key : Nat)
  | option (function : Nat)
  | header (file function : Nat)
  | note (function : Nat)
  | handBack
  | close
  | call (file function : Nat)

namespace Statement

open Assignment (Key Parts)

def indent : List Char :=
  [' ', ' ', ' ', ' ']

def setting (margin : List Char) (v : Variable) (key : Key) (value : List Char) : Parts where
  margin   := margin
  name     := '$' :: v.word
  key      := key
  gap      := [' ']
  operator := ['=']
  rest     := ' ' :: value

def sharing (i : Nat) : Parts :=
  setting [] .shared (.dot (['f', 'i', 'l', 'e', '_'] ++ digits i)) (digits i)

def keyWord (k : Nat) : List Char :=
  ['k', 'e', 'y', '_'] ++ digits k

-- Keys are written by turns in dot and in bracket form.
def mapKey (k : Nat) : Key :=
  if k % 2 = 0 then .dot (keyWord k) else .bracket [] '"' (keyWord k) []

def mapValue (k : Nat) : List Char :=
  if k % 2 = 0 then digits k else '"' :: 'v' :: (digits k ++ ['"'])

def filling (i m k : Nat) : Parts :=
  setting [] (.config i m) (mapKey k) (mapValue k)

def opting (f : Nat) : Parts :=
  setting indent .target (.dot (['o', 'p', 't', '_'] ++ digits f)) ['T', 'r', 'u', 'e']

def parameterList : List Char :=
  ['B', 'y', 'R', 'e', 'f', ' ', '$', 'm', 'T', 'a', 'r', 'g', 'e', 't']

def text : Statement → List Char
  | blank      => []
  | once       => ['#', 'i', 'n', 'c', 'l', 'u', 'd', 'e', '-', 'o', 'n', 'c', 'e']
  | chain i    => Include.written .double (fileName i).toList
  | library n  => Include.written .angle (libraryName n).toList
  | declare v  => ['G', 'l', 'o', 'b', 'a', 'l'] ++ ' ' :: '$' :: (v.word ++ ['[', ']'])
  | share i    => (sharing i).text
  | fill i m k => (filling i m k).text
  | option f   => (opting f).text
  | header i f => ['F', 'u', 'n', 'c', ' '] ++ (functionWord i f ++ '(' :: (parameterList ++ [')']))
  | note f     =>
    indent ++ ([';', ' ', 'f', 'i', 'l', 'l', 's', ' ', 'o', 'p', 't', 'i', 'o', 'n', ' '] ++ digits f)
  | handBack   => indent ++ ['R', 'e', 't', 'u', 'r', 'n', ' ', '$', 'm', 'T', 'a', 'r', 'g', 'e', 't']
  | close      => ['E', 'n', 'd', 'F', 'u', 'n', 'c']
  | call i f   => functionWord i f ++ '(' :: ('$' :: (Variable.config i 0).word ++ [')'])

def included? : Statement → Option (IncludeKind × String)
  | chain i   => some (.relative, fileName i)
  | library n => some (.library, libraryName n)
  | _         => none

def declared? : Statement → Option Variable
  | declare v => some v
  | _         => none

def assigned? : Statement → Option (Variable × Parts)
  | share i    => some (.shared, sharing i)
  | fill i m k => some (.config i m, filling i m k)
  | option f   => some (.target, opting f)
  | _          => none

def opened? : Statement → Option (Nat × Nat)
  | header i f => some (i, f)
  | _          => none

def called? : Statement → Option (Nat × Nat)
  | call i f => some (i, f)
  | _        => none

-- A statement that includes, declares, assigns and opens nothing.
def isSilent : Statement → Bool
  | blank | once | note _ | handBack | close | call .. => true
  | _                                                  => false

def hasParentheses : Statement → Bool
  | header .. | call .. => true
  | _                   => false

-- A character that ends no line, and ends no call either unless parentheses are allowed.
def isPrinted (parentheses : Bool) (c : Char) : Bool :=
  0x20 ≤ c.toNat && (parentheses || c != ')')

variable {st : Statement} {v w : Variable} {p : Parts}

theorem of_isSilent (h : st.isSilent) :
    st.included? = none ∧ st.declared? = none ∧ st.assigned? = none := by
  cases st
  case blank | once | note | handBack | close | call => exact ⟨rfl, rfl, rfl⟩
  all_goals cases h

theorem all_isPrinted (b : Bool) {cs : List Char} (h : ∀ c ∈ cs, isPlain c) : cs.all (isPrinted b) := by
  refine List.all_eq_true.mpr fun c hc => ?_
  have hp : c ≠ ')' := ne_of_isPlain (h c hc) (by decide)
  simp [isPrinted, le_toNat_of_isPlain (h c hc), hp]

theorem whole_of_all_isPrinted {b : Bool} {line : List Char} (h : line.all (isPrinted b)) :
    '\n' ∉ line ∧ line.getLast? ≠ some '\r' := by
  have hprinted {c : Char} (hc : c ∈ line) : 0x20 ≤ c.toNat := by
    have h := List.all_eq_true.mp h c hc
    simp only [isPrinted, Bool.and_eq_true, decide_eq_true_eq] at h
    exact h.left
  exact ⟨fun hm => absurd (hprinted hm) (by decide),
    fun hr => absurd (hprinted (List.mem_of_getLast? hr)) (by decide)⟩

theorem all_text (st : Statement) : st.text.all (isPrinted st.hasParentheses) := by
  have hdigits (b : Bool) (n : Nat) : (digits n).all (isPrinted b) :=
    all_isPrinted b fun _ => isPlain_of_mem_digits
  have hword (b : Bool) (v : Variable) : v.word.all (isPrinted b) := all_isPrinted b v.isPlain_word
  have hfunction (b : Bool) (i f : Nat) : (functionWord i f).all (isPrinted b) :=
    all_isPrinted b (isPlain_functionWord i f)
  cases st
  case fill i m k =>
    rw [text, filling, mapKey, mapValue]
    split
    all_goals
      simp only [setting, Parts.text, Key.text, keyWord, List.all_append, List.all_cons, hdigits, hword]
      rfl
  all_goals
    simp only [text, sharing, opting, setting, Parts.text, Key.text, Include.written, toList_fileName,
      toList_libraryName, List.all_append, List.all_cons, hdigits, hword, hfunction]
    rfl

theorem blockMark?_text (st : Statement) : blockMark? st.text = none := by
  cases st <;> rfl

theorem writable_path {path front : List Char} {n : Nat} (d : Include.Delimiter) (hf : front.all isPlain)
    (hp : path = front ++ (digits n ++ ['.', 'a', 'u', '3'])) : Include.Writable d path := by
  have hsigns : ∀ c ∈ path, isPlain c ∨ c = '.' := by
    rw [hp, List.forall_mem_append, List.forall_mem_append]
    exact ⟨fun c hc => .inl (List.all_eq_true.mp hf c hc), fun c hc => .inl (isPlain_of_mem_digits hc),
      by simp [isPlain]⟩
  refine ⟨by simp [hp], trim_of_not_isBlank fun c hc hb => ?_, ?_, ?_⟩
  case refine_1 =>
    obtain hc | rfl := hsigns c hc
    case inl => exact not_isBlank_of_isPlain hc hb
    case inr => exact absurd hb (by decide)
  case refine_2 => exact fun hm => absurd (hsigns _ hm) (by decide)
  case refine_3 => exact fun hm => absurd (hsigns _ hm) (by cases d <;> decide)

-- Below, a case of its own is a statement that the scanner is meant for. All others fail at once, before
-- any of their numbers is read.

theorem include_text (st : Statement) (number : Nat) :
    Include.ofLine? ⟨number, st.text⟩ = st.included?.map fun x => ⟨x.1, x.2, number⟩ := by
  cases st
  case chain i =>
    rw [text, Include.ofLine?_written (writable_path .double rfl (toList_fileName i)), String.ofList_toList]
    rfl
  case library n =>
    rw [text, Include.ofLine?_written (writable_path .angle rfl (toList_libraryName n)), String.ofList_toList]
    rfl
  all_goals rfl

theorem declaration_text (st : Statement) (number : Nat) :
    Declaration.ofLine? ⟨number, st.text⟩ = st.declared?.map fun v => ⟨v.name, .globalVar, number⟩ := by
  cases st
  case declare v =>
    have hread := Declaration.ofLine?_written .globalVar v.word_ne_nil
      (fun c hc => isWord_of_isPlain (v.isPlain_word c hc)) number
    rw [v.ofList_word] at hread
    exact hread
  all_goals rfl

theorem assign_setting {margin value : List Char} {key : Key} (hm : ∀ c ∈ margin, isBlank c)
    (hk : key.Written (' ' :: '=' :: ' ' :: value)) :
    (setting margin v key value).Assign ('$' :: v.word) (setting margin v key value).text where
  text     := rfl
  margin   := hm
  name     := rfl
  key      := hk
  gap      := by simp [setting, isBlank]
  operator := by simp [setting, Assignment.operators]
  rest     := by simp [setting]

theorem isPlain_numbered {front : List Char} (hf : front.all isPlain) (n : Nat) :
    ∀ c ∈ front ++ digits n, isPlain c :=
  List.forall_mem_append.mpr ⟨List.all_eq_true.mp hf, fun _ => isPlain_of_mem_digits⟩

theorem written_dot {front rest : List Char} (hn : front ≠ []) (hf : front.all isPlain) (n : Nat) :
    Key.Written (' ' :: rest) (.dot (front ++ digits n)) :=
  .dot ⟨.of_cons (fun c hc => isWord_of_isPlain (isPlain_numbered hf n c hc)) (by decide), by simp [hn]⟩

theorem written_mapKey (k : Nat) (rest : List Char) : (mapKey k).Written (' ' :: rest) := by
  rw [mapKey]
  split
  case isTrue  => exact written_dot (by simp) rfl k
  case isFalse =>
    have hq : '"' ∉ keyWord k := fun hm => absurd (isPlain_numbered rfl k _ hm) (by decide)
    exact .bracket (by simp) (.inl rfl) (by simp [keyWord]) hq (by simp)

theorem assign_of_assigned? (h : st.assigned? = some (v, p)) :
    p.Assign ('$' :: v.word) st.text ∧ p.name = '$' :: v.word := by
  cases st <;> cases h
  case share i    => exact ⟨assign_setting (by simp) (written_dot (by simp) rfl i), rfl⟩
  case fill i m k => exact ⟨assign_setting (by simp) (written_mapKey k _), rfl⟩
  case option f   => exact ⟨assign_setting (by simp [indent, isBlank]) (written_dot (by simp) rfl f), rfl⟩

theorem assignment_text (st : Statement) (v : Variable) (number : Nat) :
    Assignment.ofLine? v.name.toList ⟨number, st.text⟩ =
      (st.assigned?.filter (·.1 = v)).map fun x => x.2.assignment number := by
  rw [v.toList_name]
  cases ha : st.assigned?
  case none =>
    cases st
    case share | fill | option => cases ha
    all_goals rfl
  case some x =>
    have ⟨hp, hn⟩ := assign_of_assigned? ha
    rw [Assignment.ofLine?_of_isPlain v.isPlain_word x.1.isPlain_word hp hn, Variable.sameAscii_word,
      Option.filter_some]
    split <;> rfl

-- The key that a statement assigns to the variable `v`.
def keyFor (v : Variable) (st : Statement) : Option String :=
  (st.assigned?.filter (·.1 = v)).map fun x => String.ofList x.2.key.name

theorem ofList_numbered (front : String) (n : Nat) :
    String.ofList (front.toList ++ digits n) = front ++ toString n := by
  rw [← toList_toString, ← String.toList_append, String.ofList_toList]

theorem keyFor_of_assigned? {front : String} {n : Nat} (h : st.assigned? = some (w, p))
    (hk : p.key.name = front.toList ++ digits n) (v : Variable) :
    st.keyFor v = if w = v then some (front ++ toString n) else none := by
  have hname : String.ofList p.key.name = front ++ toString n := by rw [hk, ofList_numbered]
  rw [keyFor, h, Option.filter_some]
  split <;> simp_all

theorem keyFor_of_assigned?_eq_none (h : st.assigned? = none) (v : Variable) : st.keyFor v = none := by
  rw [keyFor, h]
  rfl

theorem keyFor_share (v : Variable) (i : Nat) :
    (share i).keyFor v = if .shared = v then some ("file_" ++ toString i) else none :=
  keyFor_of_assigned? rfl rfl v

theorem keyFor_fill (v : Variable) (i m k : Nat) :
    (fill i m k).keyFor v = if .config i m = v then some ("key_" ++ toString k) else none := by
  refine keyFor_of_assigned? rfl ?_ v
  change (mapKey k).name = _
  rw [mapKey]
  split <;> rfl

theorem keyFor_option (v : Variable) (f : Nat) :
    (option f).keyFor v = if .target = v then some ("opt_" ++ toString f) else none :=
  keyFor_of_assigned? rfl rfl v

theorem assignment_opting (f number : Nat) :
    (opting f).assignment number = ⟨"opt_" ++ toString f, number, .dot⟩ := by
  rw [← ofList_numbered]
  rfl

theorem header?_text (st : Statement) :
    Function.header? st.text = st.opened?.map fun x => (functionWord x.1 x.2, parameterList) := by
  cases st
  case header i f =>
    have hword : ∀ c ∈ functionWord i f, isWord c :=
      fun c hc => isWord_of_isPlain (isPlain_functionWord i f c hc)
    exact Function.header?_written (by simp [functionWord]) hword (by decide)
  all_goals rfl

theorem ofHeader?_text (st : Statement) (number : Nat) :
    Function.ofHeader? ⟨number, st.text⟩ =
      st.opened?.map fun x => ⟨functionName x.1 x.2, [⟨Variable.target.name, true⟩], number, number⟩ := by
  have hparameters : Parameter.ofList parameterList = [⟨Variable.target.name, true⟩] := by decide +kernel
  simp [Function.ofHeader?, header?_text, Function.comp_def, hparameters, ofList_functionWord]

theorem isEnd_text (st : Statement) : Function.isEnd st.text = (st matches .close) := by
  cases st <;> rfl

theorem call_text (st : Statement) (v : Variable) (number : Nat) :
    Call.ofLine v.name.toList ⟨number, st.text⟩ =
      (st.called?.filter (.config ·.1 0 = v)).toList.map fun x => ⟨functionName x.1 x.2, 0, number⟩ := by
  cases hc : st.hasParentheses
  case false =>
    have hclosing : ')' ∉ st.text := by
      intro hm
      have hp := List.all_eq_true.mp st.all_text _ hm
      rw [hc] at hp
      exact absurd hp (by decide)
    rw [Call.ofLine_of_notMem hclosing]
    cases st
    case header | call => cases hc
    all_goals rfl
  case true =>
    cases st <;> cases hc
    case header i f => simp [Call.ofLine, header?_text, opened?, called?]
    case call i f   =>
      have hread := Call.ofLine_written (by simp [functionWord]) (isPlain_functionWord i f)
        (Variable.config i 0).isPlain_word (call i f).header?_text v.name.toList number
      rw [text, hread, ofList_functionWord, v.toList_name, sameAscii_cons, Variable.sameAscii_word, called?,
        Option.filter_some]
      split <;> rfl

end Statement

end Fixture

end ScriptMaps
