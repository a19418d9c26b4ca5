import ScriptMaps.Proofs.Script.Lines
import ScriptMaps.Proofs.Text.Fold

namespace ScriptMaps
open Text

namespace Scope

variable {scope scope' : Scope} {keyword cs rest : List Char}

-- The keywords differ in their first letters, whatever the case.
theorem eq_of_head? (h : (scope.name.toList.map fold).head? = (scope'.name.toList.map fold).head?) :
    scope = scope' := by
  revert h
  cases scope <;> cases scope' <;> decide

theorem eq_of_sameAscii (h : sameAscii scope.name.toList keyword) (h' : sameAscii scope'.name.toList keyword) :
    scope = scope' := by
  have hfold := (map_fold_eq_of_sameAscii h).trans (map_fold_eq_of_sameAscii h').symm
  exact eq_of_head? (congrArg _ hfold)

theorem isWord_of_map_fold (h : keyword.map fold = scope.name.toList.map fold) :
    keyword ≠ [] ∧ ∀ c ∈ keyword, isWord c := by
  have hall : (scope.name.toList.map fold).all fun d => d.toNat ≠ 0 ∧ d.toNat < 0x80 ∧ isWord d := by
    cases scope <;> decide
  refine ⟨?ne, ?word⟩
  case ne =>
    rintro rfl
    exact absurd h (by cases scope <;> decide)
  case word =>
    intro c hc
    have hascii := List.all_eq_true.mp hall (fold c) (h ▸ List.mem_map_of_mem hc)
    have ⟨h0, hlt, hw⟩ := of_decide_eq_true hascii
    exact isWord_of_fold_eq h0 hlt hw rfl

theorem isWord_of_sameAscii (h : sameAscii scope.name.toList keyword) :
    keyword ≠ [] ∧ ∀ c ∈ keyword, isWord c :=
  isWord_of_map_fold (map_fold_eq_of_sameAscii h).symm

theorem read?_eq_some_iff :
    read? cs = some (keyword, rest) ↔
      cs = keyword ++ rest ∧ ∃ scope : Scope, keyword.map fold = scope.name.toList.map fold := by
  have hread {keyword rest : List Char} (h : read? cs = some (keyword, rest)) :
      cs = keyword ++ rest ∧ ∃ scope : Scope, keyword.map fold = scope.name.toList.map fold := by
    have ⟨scope, _, h⟩ := List.exists_of_findSome?_eq_some h
    exact (readFolded?_eq_some_iff.mp h).imp id (⟨scope, ·⟩)
  refine ⟨hread, ?_⟩
  intro ⟨hs, scope, hk⟩
  have hsome : (read? cs).isSome := by
    refine List.findSome?_isSome_iff.mpr ⟨scope, by cases scope <;> decide, ?_⟩
    rw [readFolded?_eq_some_iff.mpr ⟨hs, hk⟩, Option.isSome_some]
  have ⟨⟨keyword', rest'⟩, h⟩ := Option.isSome_iff_exists.mp hsome
  obtain ⟨hs', scope', hk'⟩ := hread h
  -- Both keywords are at the front of the text, so the scopes are the same, and the lengths too.
  have hhead {front rest : List Char} {scope : Scope} (hf : front.map fold = scope.name.toList.map fold)
      (hs : cs = front ++ rest) : (scope.name.toList.map fold).head? = (cs.map fold).head? := by
    rw [hs, List.map_append, List.head?_append_of_ne_nil _ (by simpa using (isWord_of_map_fold hf).left), hf]
  cases eq_of_head? ((hhead hk hs).trans (hhead hk' hs').symm)
  have hl : keyword.length = keyword'.length := by simpa using congrArg List.length (hk.trans hk'.symm)
  obtain ⟨rfl, rfl⟩ := List.append_inj (hs.symm.trans hs') hl
  exact h

theorem ofKeyword?_eq_some_iff :
    ofKeyword? (String.ofList keyword) = some scope ↔ sameAscii scope.name.toList keyword := by
  have hfind : ofKeyword? (String.ofList keyword) =
      all.find? fun scope => sameAscii scope.name.toList keyword := by
    simp only [ofKeyword?, sameName, String.toList_ofList]
  have hfound {scope : Scope} (h : ofKeyword? (String.ofList keyword) = some scope) :
      sameAscii scope.name.toList keyword := by
    have hp := List.find?_some (hfind ▸ h)
    exact hp
  refine ⟨hfound, fun h => ?_⟩
  have hsome : (ofKeyword? (String.ofList keyword)).isSome := by
    rw [hfind]
    exact List.find?_isSome.mpr ⟨scope, by cases scope <;> decide, h⟩
  have ⟨scope', hs⟩ := Option.isSome_iff_exists.mp hsome
  cases eq_of_sameAscii h (hfound hs)
  exact hs

end Scope

namespace Declaration

-- A `Local` or `Global` before the keyword, with the blanks after it.
structure Modifier where
  word   : List Char
  blanks : List Char
  deriving DecidableEq

structure Modifier.Written (m : Modifier) : Prop where
  word   : sameAscii Scope.localVar.name.toList m.word ∨ sameAscii Scope.globalVar.name.toList m.word
  ne     : m.blanks ≠ []
  blanks : ∀ c ∈ m.blanks, isBlank c

-- A declaration from its keyword on, in parts: the name of the Map is `word` after a `$`, and `outer` and
-- `inner` are the blanks before and inside the brackets.
structure Body where
  keyword : List Char
  gap     : List Char
  word    : List Char
  outer   : List Char
  inner   : List Char
  rest    : List Char
  deriving DecidableEq

namespace Body

def afterName (b : Body) : List Char :=
  b.outer ++ '[' :: (b.inner ++ ']' :: b.rest)

def text (b : Body) : List Char :=
  b.keyword ++ (b.gap ++ '$' :: (b.word ++ b.afterName))

-- Any word may stand in the place of the keyword.
structure Written (b : Body) : Prop where
  keyword_ne : b.keyword ≠ []
  keyword    : ∀ c ∈ b.keyword, isWord c
  gap_ne     : b.gap ≠ []
  gap        : ∀ c ∈ b.gap, isBlank c
  word       : WholeWord b.word b.afterName
  outer      : ∀ c ∈ b.outer, isBlank c
  inner      : ∀ c ∈ b.inner, isBlank c

end Body

-- A line with a declaration, in parts.
structure Parts where
  margin   : List Char
  modifier : Option Modifier
  body     : Body
  deriving DecidableEq

namespace Parts

def statement (p : Parts) : List Char :=
  match p.modifier with
  | none   => p.body.text
  | some m => m.word ++ (m.blanks ++ p.body.text)

def text (p : Parts) : List Char :=
  p.margin ++ p.statement

structure Written (p : Parts) (line : List Char) : Prop where
  text     : p.text = line
  margin   : ∀ c ∈ p.margin, isBlank c
  modifier : ∀ m ∈ p.modifier, m.Written
  body     : p.body.Written

def declaration (p : Parts) (scope : Scope) (number : Nat) : Declaration where
  name  := String.ofList ('$' :: p.body.word)
  scope := scope
  line  := number

end Parts

variable {cs line keyword name rest : List Char} {b b' : Body} {p q : Parts} {m : Modifier}

theorem afterModifier?_eq_some_iff :
    afterModifier? cs = some rest ↔
      ∃ m : Modifier, m.Written ∧ cs = m.word ++ (m.blanks ++ rest) ∧ Run isBlank m.blanks rest := by
  have hlocal : FoldsAscii Scope.localVar.name.toList := by decide
  have hglobal : FoldsAscii Scope.globalVar.name.toList := by decide
  rw [afterModifier?, hlocal.afterFolded?, hglobal.afterFolded?, Option.bind_eq_some_iff]
  constructor
  case mp =>
    intro ⟨_, hk, hb⟩
    obtain ⟨blanks, hn, rfl, hr⟩ := afterBlanks?_eq_some_iff.mp hb
    obtain hk | ⟨_, hk⟩ := Option.or_eq_some_iff.mp hk
    all_goals obtain ⟨word, rfl, hs⟩ := afterKeyword?_eq_some_iff.mp hk
    case inl => exact ⟨⟨word, blanks⟩, ⟨.inl hs, hn, hr.all⟩, rfl, hr⟩
    case inr => exact ⟨⟨word, blanks⟩, ⟨.inr hs, hn, hr.all⟩, rfl, hr⟩
  case mpr =>
    rintro ⟨m, hm, rfl, hr⟩
    refine ⟨m.blanks ++ rest, Option.or_eq_some_iff.mpr ?_, afterBlanks?_eq_some_iff.mpr ⟨_, hm.ne, rfl, hr⟩⟩
    cases hm.word
    case inl h => exact .inl <| afterKeyword?_append h _
    case inr h =>
      have hread := afterKeyword?_append h (m.blanks ++ rest)
      refine .inr ⟨?_, hread⟩
      by_contra hn
      have ⟨_, hread'⟩ := Option.ne_none_iff_exists'.mp hn
      have hhead := head?_of_afterKeyword? hread (by decide)
      rw [head?_of_afterKeyword? hread' (by decide)] at hhead
      exact absurd hhead (by decide)

theorem read?_eq_some_iff :
    read? cs = some (keyword, name) ↔ ∃ b : Body, b.Written ∧ b.text = cs ∧
      (∃ scope : Scope, b.keyword.map fold = scope.name.toList.map fold) ∧ b.keyword = keyword ∧
        '$' :: b.word = name := by
  simp only [read?, Option.bind_eq_bind, Option.bind_eq_some_iff, Prod.exists, Scope.read?_eq_some_iff,
    afterBlanks?_eq_some_iff, afterChar?_eq_some_iff, word?_eq_some_iff, Option.pure_def, Option.some.injEq,
    Prod.mk.injEq]
  constructor
  case mp =>
    rintro ⟨_, _, ⟨rfl, scope, hk⟩, _, ⟨gap, hn, rfl, hg⟩, _, rfl, word, afterName, ⟨rfl, hw⟩,
      inside, ho, rest, hi, rfl, rfl⟩
    have ⟨outer, houter, hout⟩ := exists_margin afterName
    have ⟨inner, hinner, hin⟩ := exists_margin inside
    rw [ho, hinner, hi] at houter
    subst houter
    have ⟨hne, hword⟩ := Scope.isWord_of_map_fold hk
    exact ⟨⟨_, gap, word, outer, inner, rest⟩, ⟨hne, hword, hn, hg.all, hw, hout.all, hin.all⟩, rfl,
      ⟨scope, hk⟩, rfl, rfl⟩
  case mpr =>
    rintro ⟨b, hb, rfl, hk, rfl, rfl⟩
    refine ⟨b.keyword, _, ⟨rfl, hk⟩, _, ⟨b.gap, hb.gap_ne, rfl, .of_cons hb.gap (by decide)⟩, _, rfl,
      b.word, b.afterName, ⟨rfl, hb.word⟩, b.inner ++ ']' :: b.rest, ?_, b.rest, ?_, rfl, rfl⟩
    case refine_1 => exact trimStart_append <| .of_cons hb.outer (by decide)
    case refine_2 => exact trimStart_append <| .of_cons hb.inner (by decide)

theorem Body.Written.head_text (h : b.Written) : ∀ c ∈ b.text.head?, isWord c := by
  rw [Body.text, List.head?_append_of_ne_nil _ h.keyword_ne]
  exact fun c hc => h.keyword c <| List.mem_of_head? hc

theorem Body.Written.unique (h : b.Written) (h' : b'.Written) (he : b.text = b'.text) : b = b' := by
  have ⟨hkeyword, he⟩ :=
    (Run.of_blanks h.keyword h.gap_ne h.gap _).unique (.of_blanks h'.keyword h'.gap_ne h'.gap _) he
  have ⟨hgap, he⟩ := (Run.of_cons h.gap (by decide)).unique (.of_cons h'.gap (by decide)) he
  have ⟨hword, he⟩ := h.word.unique h'.word.toRun (List.cons.inj he).right
  have ⟨houter, he⟩ := (Run.of_cons h.outer (by decide)).unique (.of_cons h'.outer (by decide)) he
  have ⟨hinner, he⟩ :=
    (Run.of_cons h.inner (by decide)).unique (.of_cons h'.inner (by decide)) (List.cons.inj he).right
  cases b
  cases b'
  simp_all

namespace Modifier.Written

theorem isWord (h : m.Written) : m.word ≠ [] ∧ ∀ c ∈ m.word, isWord c :=
  h.word.elim Scope.isWord_of_sameAscii Scope.isWord_of_sameAscii

theorem run_word (h : m.Written) (rest : List Char) : Run Text.isWord m.word (m.blanks ++ rest) :=
  .of_blanks h.isWord.right h.ne h.blanks rest

theorem run_blanks (h : m.Written) (hb : b.Written) : Run isBlank m.blanks b.text :=
  ⟨h.blanks, fun c hc hblank => not_isWord_of_isBlank hblank <| hb.head_text c hc⟩

-- What follows a modifier is a word, what follows the keyword is the name of the Map.
theorem text_ne (h : m.Written) (hb : b.Written) (hb' : b'.Written) :
    m.word ++ (m.blanks ++ b.text) ≠ b'.text := by
  intro he
  have ⟨_, he⟩ := (h.run_word _).unique (.of_blanks hb'.keyword hb'.gap_ne hb'.gap _) he
  have ⟨_, he⟩ := (h.run_blanks hb).unique (.of_cons hb'.gap (by decide)) he
  exact absurd (hb.head_text '$' (by simp [he])) (by decide)

end Modifier.Written

namespace Parts.Written

theorem run_margin (hp : p.Written line) : Run isBlank p.margin p.statement := by
  refine ⟨hp.margin, ?_⟩
  suffices h : ∀ c ∈ p.statement.head?, isWord c from
    fun c hc hblank => not_isWord_of_isBlank hblank <| h c hc
  rw [statement]
  split
  case h_1      => exact hp.body.head_text
  case h_2 m hm =>
    have ⟨hn, hw⟩ := (hp.modifier m hm).isWord
    rw [List.head?_append_of_ne_nil _ hn]
    exact fun c hc => hw c <| List.mem_of_head? hc

theorem unique (hp : p.Written line) (hq : q.Written line) : p = q := by
  have ⟨hmargin, he⟩ := hp.run_margin.unique hq.run_margin (hp.text.trans hq.text.symm)
  obtain ⟨margin, modifier, body⟩ := p
  obtain ⟨margin', modifier', body'⟩ := q
  cases hmargin
  cases modifier <;> cases modifier'
  case none.some m => exact absurd he.symm <| (hq.modifier m rfl).text_ne hq.body hp.body
  case some.none m => exact absurd he <| (hp.modifier m rfl).text_ne hp.body hq.body
  case none.none   =>
    cases hp.body.unique hq.body he
    rfl
  case some.some m m' =>
    have hm := hp.modifier m rfl
    have hm' := hq.modifier m' rfl
    have ⟨hword, he⟩ := (hm.run_word _).unique (hm'.run_word _) he
    have ⟨hblanks, he⟩ := (hm.run_blanks hp.body).unique (hm'.run_blanks hq.body) he
    cases hp.body.unique hq.body he
    cases m
    cases m'
    simp_all

end Parts.Written

-- Where a modifier can be read, its word is not the keyword.
theorem bind_afterModifier?_eq_some_iff :
    (afterModifier? (trimStart line)).bind read? = some (keyword, name) ↔
      ∃ p : Parts, p.Written line ∧ p.modifier.isSome ∧
        (∃ scope : Scope, p.body.keyword.map fold = scope.name.toList.map fold) ∧ p.body.keyword = keyword ∧
          '$' :: p.body.word = name := by
  rw [Option.bind_eq_some_iff]
  constructor
  case mp =>
    intro ⟨_, hm, hr⟩
    obtain ⟨b, hb, rfl, hread⟩ := read?_eq_some_iff.mp hr
    obtain ⟨m, hm, hs, _⟩ := afterModifier?_eq_some_iff.mp hm
    obtain ⟨margin, hl, hmargin⟩ := exists_margin line
    exact ⟨⟨margin, some m, b⟩, ⟨by rw [hl, hs]; rfl, hmargin.all, by simpa using hm, hb⟩, rfl, hread⟩
  case mpr =>
    intro ⟨p, hp, hs, hread⟩
    have ⟨m, hm⟩ := Option.isSome_iff_exists.mp hs
    have hw := hp.modifier m hm
    refine ⟨p.body.text, ?_, read?_eq_some_iff.mpr ⟨p.body, hp.body, rfl, hread⟩⟩
    rw [← hp.text, Parts.text, trimStart_append hp.run_margin]
    exact afterModifier?_eq_some_iff.mpr ⟨m, hw, by rw [Parts.statement, hm], hw.run_blanks hp.body⟩

theorem read?_trimStart_eq_some_iff :
    read? (trimStart line) = some (keyword, name) ↔
      ∃ p : Parts, p.Written line ∧ p.modifier = none ∧
        (∃ scope : Scope, p.body.keyword.map fold = scope.name.toList.map fold) ∧ p.body.keyword = keyword ∧
          '$' :: p.body.word = name := by
  rw [read?_eq_some_iff]
  constructor
  case mp =>
    intro ⟨b, hb, hs, hread⟩
    obtain ⟨margin, hl, hmargin⟩ := exists_margin line
    exact ⟨⟨margin, none, b⟩, ⟨by rw [hl, ← hs]; rfl, hmargin.all, by simp, hb⟩, rfl, hread⟩
  case mpr =>
    intro ⟨p, hp, hm, hread⟩
    refine ⟨p.body, hp.body, ?_, hread⟩
    rw [← hp.text, Parts.text, trimStart_append hp.run_margin, Parts.statement, hm]

-- A keyword is read with or without a modifier before it, but not both ways on one line.
theorem read?_line_eq_some_iff :
    ((afterModifier? (trimStart line)).bind read?).or (read? (trimStart line)) = some (keyword, name) ↔
      ∃ p : Parts, p.Written line ∧
        (∃ scope : Scope, p.body.keyword.map fold = scope.name.toList.map fold) ∧ p.body.keyword = keyword ∧
          '$' :: p.body.word = name := by
  rw [Option.or_eq_some_iff]
  constructor
  case mp =>
    rintro (h | ⟨_, h⟩)
    case inl =>
      obtain ⟨p, hp, _, hread⟩ := bind_afterModifier?_eq_some_iff.mp h
      exact ⟨p, hp, hread⟩
    case inr =>
      obtain ⟨p, hp, _, hread⟩ := read?_trimStart_eq_some_iff.mp h
      exact ⟨p, hp, hread⟩
  case mpr =>
    intro ⟨p, hp, hread⟩
    cases hm : p.modifier
    case some m => exact .inl <| bind_afterModifier?_eq_some_iff.mpr ⟨p, hp, by simp [hm], hread⟩
    case none   =>
      refine .inr ⟨?_, read?_trimStart_eq_some_iff.mpr ⟨p, hp, hm, hread⟩⟩
      by_contra h
      obtain ⟨_, h⟩ := Option.ne_none_iff_exists'.mp h
      obtain ⟨q, hq, hs, _⟩ := bind_afterModifier?_eq_some_iff.mp h
      cases hp.unique hq
      simp [hm] at hs

-- Of the keywords that are read, those of a scope are spelled with ASCII letters.
theorem ofLine?_eq_some_iff {line : CodeLine} {d : Declaration} :
    ofLine? line = some d ↔ ∃ (p : Parts) (scope : Scope), p.Written line.text ∧
      sameAscii scope.name.toList p.body.keyword ∧ p.declaration scope line.number = d := by
  simp only [ofLine?, Option.bind_eq_bind, Option.bind_eq_some_iff, Prod.exists, read?_line_eq_some_iff,
    Scope.ofKeyword?_eq_some_iff, Option.pure_def, Option.some.injEq]
  constructor
  case mp =>
    rintro ⟨_, _, ⟨p, hp, _, rfl, rfl⟩, scope, hk, hd⟩
    exact ⟨p, scope, hp, hk, hd⟩
  case mpr =>
    rintro ⟨p, scope, hp, hk, hd⟩
    exact ⟨_, _, ⟨p, hp, ⟨scope, (map_fold_eq_of_sameAscii hk).symm⟩, rfl, rfl⟩, scope, hk, hd⟩

end Declaration

namespace Script

-- A line declares a Map iff it is written as a declaration. The keywords are told by their ASCII letters
-- alone: a line with any other word in the place of the keyword declares nothing.
theorem mem_declarations_iff_parts (s : Script) :
    (∀ d, d ∈ s.declarations ↔ ∃ line ∈ s.lines, ∃ (p : Declaration.Parts) (scope : Scope),
      p.Written line.text ∧ sameAscii scope.name.toList p.body.keyword ∧
        p.declaration scope line.number = d) ∧
    (∀ line ∈ s.lines, ∀ p : Declaration.Parts, p.Written line.text →
      (∀ scope : Scope, ¬sameAscii scope.name.toList p.body.keyword) →
      ∀ d ∈ s.declarations, d.line ≠ line.number) ∧
    (∀ d ∈ s.declarations, s.declarations.filter (·.line = d.line) = [d]) ∧
    s.declarations.Pairwise (·.line < ·.line) := by
  have hwritten (d : Declaration) : d ∈ s.declarations ↔
      ∃ line ∈ s.lines, ∃ (p : Declaration.Parts) (scope : Scope), p.Written line.text ∧
        sameAscii scope.name.toList p.body.keyword ∧ p.declaration scope line.number = d := by
    simp only [s.declarations_eq, List.mem_filterMap, Declaration.ofLine?_eq_some_iff]
  refine ⟨hwritten, ?other, fun d hd => filter_line_eq s.pairwise_declarations hd, s.pairwise_declarations⟩
  case other =>
    intro line hl p hp hk d hd hn
    obtain ⟨line', hl', q, scope, hq, hkq, rfl⟩ := (hwritten d).mp hd
    cases eq_of_number s.pairwise_lines hl' hl hn
    cases hp.unique hq
    exact hk scope hkq

-- `Local` is a modifier on the first line and the keyword on the second. The third line has a long s.
theorem mem_declarations_modifier :
    let s := ofText "Local static\t$m [ ]\nLOCAL $n[]\nLocal ſtatic $o[]\n"
    let static : Declaration.Parts :=
      ⟨[], some ⟨"Local".toList, [' ']⟩, ⟨"static".toList, ['\t'], ['m'], [' '], [' '], []⟩⟩
    let long : Declaration.Parts :=
      ⟨[], some ⟨"Local".toList, [' ']⟩, ⟨"ſtatic".toList, [' '], ['o'], [], [], []⟩⟩
    static.Written "Local static\t$m [ ]".toList ∧ ⟨"$m", .staticVar, 0⟩ ∈ s.declarations ∧
      long.Written "Local ſtatic $o[]".toList ∧ (∀ d ∈ s.declarations, d.line ≠ 2) ∧
      s.declarations = [⟨"$m", .staticVar, 0⟩, ⟨"$n", .localVar, 1⟩] := by
  intro s static long
  have ⟨hwritten, hother, _⟩ := s.mem_declarations_iff_parts
  have hmodifier : Declaration.Modifier.Written ⟨"Local".toList, [' ']⟩ :=
    ⟨.inl (by decide), by decide, by simp [isBlank]⟩
  have hbody : static.body.Written := {
    keyword_ne := by decide
    keyword    := List.all_eq_true.mp (by decide)
    gap_ne     := by decide
    gap        := List.all_eq_true.mp (by decide)
    word       := ⟨.of_cons (List.all_eq_true.mp (by decide)) (by decide), by decide⟩
    outer      := List.all_eq_true.mp (by decide)
    inner      := List.all_eq_true.mp (by decide)
  }
  have hlongBody : long.body.Written := {
    keyword_ne := by decide
    keyword    := List.all_eq_true.mp (by decide +kernel)
    gap_ne     := by decide
    gap        := List.all_eq_true.mp (by decide)
    word       := ⟨.of_cons (List.all_eq_true.mp (by decide)) (by decide), by decide⟩
    outer      := List.all_eq_true.mp (by decide)
    inner      := List.all_eq_true.mp (by decide)
  }
  have hstatic : static.Written "Local static\t$m [ ]".toList :=
    ⟨by decide, by simp [static], by simpa [static] using hmodifier, hbody⟩
  have hlong : long.Written "Local ſtatic $o[]".toList :=
    ⟨by decide, by simp [long], by simpa [long] using hmodifier, hlongBody⟩
  refine ⟨hstatic, ?_, hlong, ?_, by decide +kernel⟩
  case refine_1 =>
    exact (hwritten _).mpr ⟨⟨0, "Local static\t$m [ ]".toList⟩, by decide +kernel, static, .staticVar, hstatic,
      by decide, by decide⟩
  case refine_2 =>
    refine hother ⟨2, "Local ſtatic $o[]".toList⟩ (by decide +kernel) long hlong ?_
    intro scope
    cases scope <;> decide

end Script

end ScriptMaps
