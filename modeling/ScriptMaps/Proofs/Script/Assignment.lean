import ScriptMaps.Proofs.Script.Lines
import ScriptMaps.Proofs.Script.Readers
import ScriptMaps.Proofs.Text.Runs

namespace ScriptMaps
open Text

namespace Assignment

def operators : List (List Char) :=
  [['='], ['+', '='], ['-', '='], ['*', '='], ['/', '='], ['&', '=']]

-- A key as it is written after the name of the Map.
inductive Key
  | dot (word : List Char)
  | bracket (before : List Char) (quote : Char) (literal behind : List Char)
  deriving DecidableEq

namespace Key

def form : Key → KeyForm
  | dot ..     => .dot
  | bracket .. => .bracket

def name : Key → List Char
  | dot word              => word
  | bracket _ _ literal _ => literal

def text : Key → List Char
  | dot word                            => '.' :: word
  | bracket before quote literal behind =>
    '[' :: (before ++ quote :: (literal ++ quote :: (behind ++ [']'])))

-- The key before `rest` is a whole word, or a literal that is not empty and holds no quote of its kind.
inductive Written (rest : List Char) : Key → Prop
  | dot {word : List Char} (whole : WholeWord word rest) : Written rest (.dot word)
  | bracket {before literal behind : List Char} {quote : Char}
      (before_blank : ∀ c ∈ before, isBlank c) (quotes : quote = '"' ∨ quote = '\'') (ne : literal ≠ [])
      (closed : quote ∉ literal) (behind_blank : ∀ c ∈ behind, isBlank c) :
      Written rest (.bracket before quote literal behind)

end Key

-- A line that assigns to a key, in parts.
structure Parts where
  margin   : List Char
  name     : List Char
  key      : Key
  gap      : List Char
  operator : List Char
  rest     : List Char
  deriving DecidableEq

namespace Parts

def text (p : Parts) : List Char :=
  p.margin ++ (p.name ++ (p.key.text ++ (p.gap ++ (p.operator ++ p.rest))))

def assignment (p : Parts) (number : Nat) : Assignment where
  key  := String.ofList p.key.name
  line := number
  form := p.key.form

-- The parts of a line that assigns to a key of the Map `map`.
structure Assign (p : Parts) (map line : List Char) : Prop where
  text     : p.text = line
  margin   : ∀ c ∈ p.margin, isBlank c
  name     : p.name.map fold = map.map fold
  key      : p.key.Written (p.gap ++ (p.operator ++ p.rest))
  gap      : ∀ c ∈ p.gap, isBlank c
  operator : p.operator ∈ operators
  rest     : p.rest.head? ≠ some '='

end Parts

variable {map line cs rest : List Char} {p q : Parts}

theorem startsEquals_iff : startsEquals cs ↔ ∃ rest, cs = '=' :: rest ∧ rest.head? ≠ some '=' := by
  match cs with
  | []          => simp [startsEquals]
  | [c]         => by_cases hc : c = '=' <;> simp [startsEquals, hc]
  | c :: d :: _ => by_cases hc : c = '=' <;> by_cases hd : d = '=' <;> simp [startsEquals, hc, hd]

theorem startsOperator_iff :
    startsOperator cs ↔ ∃ operator ∈ operators, ∃ rest, cs = operator ++ rest ∧ rest.head? ≠ some '=' := by
  constructor
  case mp =>
    intro h
    cases cs
    case nil => cases h
    case cons c cs =>
      have hsigned : ∀ c ∈ ['-', '+', '*', '/', '&'], [c, '='] ∈ operators := by simp [operators]
      rw [startsOperator_cons] at h
      split at h
      case isTrue hc =>
        obtain ⟨rest, rfl, hr⟩ := startsEquals_iff.mp h
        exact ⟨[c, '='], hsigned c hc, rest, rfl, hr⟩
      case isFalse =>
        obtain ⟨rest, hs, hr⟩ := startsEquals_iff.mp h
        exact ⟨['='], by simp [operators], rest, hs, hr⟩
  case mpr =>
    rintro ⟨operator, ho, rest, rfl, hr⟩
    have he : startsEquals ('=' :: rest) := startsEquals_iff.mpr ⟨rest, rfl, hr⟩
    simp only [operators, List.mem_cons, List.not_mem_nil, or_false] at ho
    obtain rfl | rfl | rfl | rfl | rfl | rfl := ho <;> simp [startsOperator_cons, he]

-- No operator starts with a blank or with a word.
theorem head_of_mem_operators {operator : List Char} (h : operator ∈ operators) (rest : List Char) :
    ∀ c ∈ (operator ++ rest).head?, ¬isBlank c ∧ ¬isWord c := by
  simp only [operators, List.mem_cons, List.not_mem_nil, or_false] at h
  obtain rfl | rfl | rfl | rfl | rfl | rfl := h
  all_goals
    rintro c ⟨⟩
    decide

theorem operator_ends {operator : List Char} (h : operator ∈ operators) :
    ∃ sign, operator = sign ++ ['='] ∧ '=' ∉ sign := by
  have hall : ∀ operator ∈ operators, operator = operator.dropLast ++ ['='] ∧ '=' ∉ operator.dropLast := by
    decide
  exact ⟨operator.dropLast, hall operator h⟩

theorem run_gap {gap operator : List Char} (hg : ∀ c ∈ gap, isBlank c) (ho : operator ∈ operators)
    (rest : List Char) : Run isBlank gap (operator ++ rest) :=
  ⟨hg, fun c hc => (head_of_mem_operators ho rest c hc).left⟩

theorem startsOperator_trimStart_iff :
    startsOperator (trimStart cs) ↔ ∃ gap operator rest, cs = gap ++ (operator ++ rest) ∧
      (∀ c ∈ gap, isBlank c) ∧ operator ∈ operators ∧ rest.head? ≠ some '=' := by
  constructor
  case mp =>
    intro h
    have ⟨operator, ho, rest, hs, hr⟩ := startsOperator_iff.mp h
    have ⟨gap, hcs, hg⟩ := exists_margin cs
    exact ⟨gap, operator, rest, hs ▸ hcs, hg.all, ho, hr⟩
  case mpr =>
    rintro ⟨gap, operator, rest, rfl, hg, ho, hr⟩
    rw [trimStart_append <| run_gap hg ho rest]
    exact startsOperator_iff.mpr ⟨operator, ho, rest, rfl, hr⟩

theorem readDot?_eq_some_iff {word : List Char} :
    readDot? cs = some word ↔
      ∃ rest, cs = (Key.dot word).text ++ rest ∧ WholeWord word rest ∧ startsOperator (trimStart rest) := by
  simp only [readDot?, Option.bind_eq_bind, Option.bind_eq_some_iff, afterChar?_eq_some_iff, Prod.exists,
    word?_eq_some_iff, Option.ite_none_right_eq_some, Option.pure_def, Option.some.injEq, Key.text]
  constructor
  case mp =>
    rintro ⟨_, rfl, _, rest, ⟨rfl, hw⟩, ho, rfl⟩
    exact ⟨rest, rfl, hw, ho⟩
  case mpr =>
    rintro ⟨rest, rfl, hw, ho⟩
    exact ⟨word ++ rest, rfl, word, rest, ⟨rfl, hw⟩, ho, rfl⟩

theorem not_isBlank_of_quote {quote : Char} (h : quote = '"' ∨ quote = '\'') : ¬isBlank quote := by
  obtain rfl | rfl := h <;> decide

theorem readQuoted?_eq_some_iff {literal : List Char} :
    readQuoted? cs = some (literal, rest) ↔
      ∃ quote, (quote = '"' ∨ quote = '\'') ∧ cs = quote :: (literal ++ quote :: rest) ∧ quote ∉ literal := by
  constructor
  case mp =>
    intro h
    unfold readQuoted? at h
    split at h
    case h_1 =>
      have ⟨hs, hn⟩ := until?_eq_some_iff.mp h
      exact ⟨'"', .inl rfl, congrArg _ hs, hn⟩
    case h_2 =>
      have ⟨hs, hn⟩ := until?_eq_some_iff.mp h
      exact ⟨'\'', .inr rfl, congrArg _ hs, hn⟩
    case h_3 => cases h
  case mpr =>
    rintro ⟨quote, rfl | rfl, rfl, hn⟩ <;> exact until?_append hn rest

theorem readBracket?_eq_some_iff {literal : List Char} :
    readBracket? cs = some literal ↔
      ∃ before quote behind rest, cs = (Key.bracket before quote literal behind).text ++ rest ∧
        (∀ c ∈ before, isBlank c) ∧ (quote = '"' ∨ quote = '\'') ∧ quote ∉ literal ∧
        (∀ c ∈ behind, isBlank c) ∧ startsOperator (trimStart rest) := by
  simp only [readBracket?, Option.bind_eq_bind, Option.bind_eq_some_iff, afterChar?_eq_some_iff, Prod.exists,
    readQuoted?_eq_some_iff, Option.ite_none_right_eq_some, Option.pure_def, Option.some.injEq, Key.text]
  constructor
  case mp =>
    rintro ⟨inner, rfl, _, outer, ⟨quote, hq, hi, hn⟩, rest, ho, hs, rfl⟩
    have ⟨before, hbefore, hb⟩ := exists_margin inner
    have ⟨behind, hbehind, hb'⟩ := exists_margin outer
    refine ⟨before, quote, behind, rest, ?_, hb.all, hq, hn, hb'.all, hs⟩
    rw [hbefore, hi, hbehind, ho]
    simp
  case mpr =>
    rintro ⟨before, quote, behind, rest, rfl, hb, hq, hn, hb', hs⟩
    refine ⟨_, rfl, literal, behind ++ ']' :: rest, ⟨quote, hq, ?_, hn⟩, rest, ?_, hs, rfl⟩
    case refine_1 => simpa using trimStart_append (.of_cons hb <| not_isBlank_of_quote hq)
    case refine_2 => exact trimStart_append (.of_cons hb' (by decide))

section
variable (hm : map.head? = some '$')
include hm

-- Only `$` itself is folded to `$`.
theorem head?_of_folded {name : List Char} (hf : name.map fold = map.map fold) : name.head? = some '$' := by
  obtain ⟨rest, rfl⟩ := List.head?_eq_some_iff.mp hm
  obtain ⟨c, _, rfl, hc, _⟩ := List.map_eq_cons_iff.mp hf
  cases eq_of_fold_eq (d := '$') (by decide) (by decide) hc
  rfl

-- The name of a Map is read after all the blanks.
theorem pastBlanks?_afterFolded? {α : Type} (r : List Char → Option α) (line : List Char) :
    pastBlanks? (fun cs => (afterFolded? map cs).bind r) line =
      (afterFolded? map (trimStart line)).bind r := by
  refine pastBlanks?_eq_trimStart ?_ line
  intro c cs hc
  cases hf : afterFolded? map (c :: cs)
  case none => rfl
  case some =>
    have ⟨name, hs, hn⟩ := afterFolded?_eq_some_iff.mp hf
    obtain ⟨_, rfl⟩ := List.head?_eq_some_iff.mp <| head?_of_folded hm hn
    cases hs
    cases hc

theorem Parts.Assign.run_margin (hp : p.Assign map line) :
    Run isBlank p.margin (p.name ++ (p.key.text ++ (p.gap ++ (p.operator ++ p.rest)))) := by
  refine ⟨hp.margin, ?_⟩
  simp [List.head?_append, head?_of_folded hm hp.name, show isBlank '$' = false from rfl]

theorem exists_parts_iff {key : Key} :
    (∃ p : Parts, p.Assign map line ∧ p.key = key) ↔
      ∃ rest, afterFolded? map (trimStart line) = some (key.text ++ rest) ∧ key.Written rest ∧
        startsOperator (trimStart rest) := by
  constructor
  case mp =>
    rintro ⟨p, hp, rfl⟩
    refine ⟨p.gap ++ (p.operator ++ p.rest), ?_, hp.key, ?_⟩
    case refine_1 =>
      rw [← hp.text, Parts.text, trimStart_append (hp.run_margin hm)]
      exact afterFolded?_eq_some_iff.mpr ⟨p.name, rfl, hp.name⟩
    case refine_2 => exact startsOperator_trimStart_iff.mpr ⟨_, _, _, rfl, hp.gap, hp.operator, hp.rest⟩
  case mpr =>
    rintro ⟨rest, hn, hk, ho⟩
    obtain ⟨gap, operator, rest, rfl, hgap, hop, hrest⟩ := startsOperator_trimStart_iff.mp ho
    obtain ⟨name, hs, hname⟩ := afterFolded?_eq_some_iff.mp hn
    obtain ⟨margin, hline, hmargin⟩ := exists_margin line
    exact ⟨⟨margin, name, key, gap, operator, rest⟩, {
      text     := by rw [hline, hs]; rfl
      margin   := hmargin.all
      name     := hname
      key      := hk
      gap      := hgap
      operator := hop
      rest     := hrest
    }, rfl⟩

theorem ofLine?_eq_some_iff {number : Nat} {a : Assignment} :
    ofLine? map ⟨number, line⟩ = some a ↔ ∃ p : Parts, p.Assign map line ∧ p.assignment number = a := by
  have hdot := pastBlanks?_afterFolded? hm readDot? line
  have hbracket := pastBlanks?_afterFolded? hm readBracket? line
  rw [ofLine?, dotKey?, bracketKey?, hdot, hbracket]
  constructor
  case mp =>
    intro h
    split at h
    case h_1 word hd =>
      cases h
      obtain ⟨_, hn, hd⟩ := Option.bind_eq_some_iff.mp hd
      obtain ⟨rest, rfl, hw, ho⟩ := readDot?_eq_some_iff.mp hd
      obtain ⟨p, hp, hk⟩ := (exists_parts_iff hm).mpr ⟨rest, hn, .dot hw, ho⟩
      exact ⟨p, hp, by simp [Parts.assignment, hk, Key.name, Key.form]⟩
    case h_2 =>
      split at h
      case h_2 => cases h
      case h_1 c literal hb =>
        cases h
        obtain ⟨_, hn, hb⟩ := Option.bind_eq_some_iff.mp hb
        obtain ⟨before, quote, behind, rest, rfl, hb, hq, hc, hb', ho⟩ := readBracket?_eq_some_iff.mp hb
        have hk : Key.Written rest (.bracket before quote (c :: literal) behind) :=
          .bracket hb hq (by simp) hc hb'
        obtain ⟨p, hp, hk⟩ := (exists_parts_iff hm).mpr ⟨rest, hn, hk, ho⟩
        exact ⟨p, hp, by simp [Parts.assignment, hk, Key.name, Key.form]⟩
  case mpr =>
    rintro ⟨p, hp, rfl⟩
    obtain ⟨rest, hn, hk, ho⟩ := (exists_parts_iff hm).mp ⟨p, hp, rfl⟩
    rw [hn, Parts.assignment]
    generalize p.key = key at hk
    cases hk
    case dot word hw =>
      have hd : readDot? ((Key.dot word).text ++ rest) = some word :=
        readDot?_eq_some_iff.mpr ⟨rest, rfl, hw, ho⟩
      simp [hd, Key.name, Key.form]
    case bracket before literal behind quote hb hq hne hc hb' =>
      have hd : readDot? ((Key.bracket before quote literal behind).text ++ rest) = none := rfl
      have hb : readBracket? ((Key.bracket before quote literal behind).text ++ rest) = some literal :=
        readBracket?_eq_some_iff.mpr ⟨_, _, _, _, rfl, hb, hq, hc, hb', ho⟩
      obtain ⟨c, literal, rfl⟩ := List.exists_cons_of_ne_nil hne
      simp [hd, hb, Key.name, Key.form]

end

-- What follows the name shows which form the key has and where it ends.
theorem Key.Written.unique {key key' : Key} {rest' : List Char} (h : key.Written rest) (h' : key'.Written rest')
    (he : key.text ++ rest = key'.text ++ rest') : key = key' ∧ rest = rest' := by
  cases h <;> cases h' <;> simp only [Key.text, List.cons_append, List.append_assoc, List.cons.injEq] at he
  case dot.bracket => exact absurd he.left (by decide)
  case bracket.dot => exact absurd he.left (by decide)
  case dot.dot hw _ hw' =>
    have ⟨hword, hrest⟩ := hw.unique hw'.toRun he.right
    exact ⟨congrArg _ hword, hrest⟩
  case bracket.bracket hb hq _ hc hd _ _ _ _ hb' hq' _ hc' hd' =>
    have ⟨hbefore, he⟩ := (Run.of_cons hb <| not_isBlank_of_quote hq).unique
      (.of_cons hb' <| not_isBlank_of_quote hq') he.right
    obtain ⟨rfl, he⟩ := List.cons.inj he
    have ⟨hliteral, he⟩ := eq_of_append_cons hc hc' he
    have ⟨hbehind, he⟩ := (Run.of_cons hd (by decide)).unique (.of_cons hd' (by decide)) he
    exact ⟨by rw [hbefore, hliteral, hbehind], (List.cons.inj he).right⟩

theorem Parts.Assign.unique (hm : map.head? = some '$') (hp : p.Assign map line) (hq : q.Assign map line) :
    p = q := by
  have ⟨hmargin, he⟩ := (hp.run_margin hm).unique (hq.run_margin hm) (hp.text.trans hq.text.symm)
  have hlength : p.name.length = q.name.length := by
    simpa using congrArg List.length (hp.name.trans hq.name.symm)
  have ⟨hname, he⟩ := List.append_inj he hlength
  have ⟨hkey, he⟩ := hp.key.unique hq.key he
  have ⟨hgap, he⟩ := (run_gap hp.gap hp.operator p.rest).unique (run_gap hq.gap hq.operator q.rest) he
  have ⟨sign, hs, hn⟩ := operator_ends hp.operator
  have ⟨sign', hs', hn'⟩ := operator_ends hq.operator
  rw [hs, hs', List.append_assoc, List.append_assoc] at he
  have ⟨hsign, hrest⟩ := eq_of_append_cons hn hn' he
  cases p
  cases q
  simp_all

end Assignment

namespace Script

-- A line assigns to a key iff it is written as an assignment to that key, and there is one way only to see
-- it as such. So a key is found in one form, and no line has two.
theorem mem_assignments_iff_parts (s : Script) (map : String) (hm : map.toList.head? = some '$') :
    (∀ a, a ∈ s.assignments map ↔ ∃ line ∈ s.lines, ∃ p : Assignment.Parts,
      p.Assign map.toList line.text ∧ p.assignment line.number = a) ∧
    (∀ (line : List Char) (p q : Assignment.Parts),
      p.Assign map.toList line → q.Assign map.toList line → p = q) ∧
    (∀ a ∈ s.assignments map, (s.assignments map).filter (·.line = a.line) = [a]) ∧
    (s.assignments map).Pairwise (·.line < ·.line) := by
  refine ⟨?written, fun _ _ _ hp hq => hp.unique hm hq, ?alone, s.pairwise_assignments map⟩
  case written =>
    intro a
    simp only [assignments, List.mem_filterMap, Assignment.ofLine?_eq_some_iff hm]
  case alone => exact fun a ha => filter_line_eq (s.pairwise_assignments map) ha

-- The second line compares and the third one is about another Map.
theorem mem_assignments_bracket :
    let s := ofText "\t$M[ 'a b' ] += 1\n$m.x == 1\n$mx.y = 1\n"
    let p : Assignment.Parts :=
      ⟨['\t'], ['$', 'M'], .bracket [' '] '\'' "a b".toList [' '], [' '], ['+', '='], [' ', '1']⟩
    p.Assign "$m".toList "\t$M[ 'a b' ] += 1".toList ∧
      (∀ q : Assignment.Parts, q.Assign "$m".toList "\t$M[ 'a b' ] += 1".toList → q = p) ∧
      ⟨"a b", 0, .bracket⟩ ∈ s.assignments "$m" ∧ s.assignments "$m" = [⟨"a b", 0, .bracket⟩] := by
  intro s p
  have ⟨hwritten, hunique, _⟩ := s.mem_assignments_iff_parts "$m" rfl
  have hp : p.Assign "$m".toList "\t$M[ 'a b' ] += 1".toList := {
    text     := by decide
    margin   := List.all_eq_true.mp (by decide)
    name     := by decide +kernel
    key      := .bracket (List.all_eq_true.mp (by decide)) (.inr rfl) (by decide) (by decide)
      (List.all_eq_true.mp (by decide))
    gap      := List.all_eq_true.mp (by decide)
    operator := by decide
    rest     := by decide
  }
  have ha : ⟨"a b", 0, .bracket⟩ ∈ s.assignments "$m" :=
    (hwritten _).mpr ⟨⟨0, "\t$M[ 'a b' ] += 1".toList⟩, by decide +kernel, p, hp, rfl⟩
  exact ⟨hp, fun q hq => hunique _ q p hq hp, ha, by decide +kernel⟩

end Script

end ScriptMaps
