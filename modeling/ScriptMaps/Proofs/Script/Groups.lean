import ScriptMaps.Proofs.Script.Calls

namespace ScriptMaps
open Text

namespace Call

-- A pair of parentheses in a code text, with the word before it.
structure Group where
  start    : List Char
  function : List Char
  gap      : List Char
  content  : List Char
  rest     : List Char
  deriving DecidableEq

namespace Group

def before (g : Group) : List Char :=
  g.start ++ (g.function ++ g.gap)

def text (g : Group) : List Char :=
  g.before ++ '(' :: (g.content ++ ')' :: g.rest)

-- `function` is all there is of the word that `start` leads up to, and blanks follow it.
structure Named (start function gap : List Char) : Prop where
  start    : ∀ c ∈ start.getLast?, ¬isWord c
  function : ∀ c ∈ function, isWord c
  gap      : ∀ c ∈ gap, isBlank c

-- The parenthesis after the opening one is its partner, and a word is called.
structure Called (g : Group) (code : List Char) : Prop where
  text      : g.text = code
  named     : Named g.start g.function g.gap
  called    : g.function ≠ []
  innermost : ∀ c ∈ g.content, c ≠ '(' ∧ c ≠ ')'

end Group

-- A Map that is passed on a line: the group of the call, the arguments before the Map with their commas,
-- and the argument itself.
structure Passage where
  line     : CodeLine
  group    : Group
  passed   : List Char
  argument : List Char

namespace Passage

def call (p : Passage) : Call where
  function := String.ofList p.group.function
  position := p.passed.count ','
  line     := p.line.number

-- Where the argument starts in its line.
def column (p : Passage) : Nat :=
  p.group.before.length + 1 + p.passed.length

def Before (p q : Passage) : Prop :=
  p.line.number < q.line.number ∨ p.line = q.line ∧ p.column < q.column

-- The line is searched for calls, and an argument of a group of its code is the Map `map`.
structure Passes (p : Passage) (map : List Char) : Prop where
  code     : ¬isComment p.line.text
  header   : Function.header? p.line.text = none
  group    : p.group.Called (beforeComment none p.line.text)
  argument : Piece ',' p.group.content p.passed p.argument
  named    : sameAscii (trim p.argument) map

end Passage

variable {map code before cs start function gap : List Char} {line : CodeLine} {c : Char}
  {g g' : Group} {p q : Passage}

theorem trail_append_singleton : trail (cs ++ [c]) = (trail cs).push c := by
  simp [trail]

-- Only a word leads a trail that goes on.
theorem trail_of_getLast? (h : ∀ c ∈ cs.getLast?, ¬isWord c) : (trail cs).ended ∨ (trail cs).word = [] := by
  obtain rfl | ⟨cs, c, rfl⟩ := cs.eq_nil_or_concat'
  case inl => exact .inr rfl
  case inr =>
    have hc : ¬isWord c := h c (by simp)
    rw [trail_append_singleton, Trail.push, if_neg hc]
    split
    case isTrue  => exact .inl rfl
    case isFalse => exact .inr rfl

theorem Group.Named.word_trail (h : Named start function gap) (hn : function ≠ []) :
    (trail (start ++ (function ++ gap))).word = function.reverse := by
  have ht := trail_of_getLast? h.start
  rw [trail, List.foldl_append, List.foldl_append, Trail.word_foldl_push_blanks h.gap]
  exact Trail.word_foldl_push_word hn h.function ht

-- The trail is empty after what is neither a word nor blank.
theorem word_trail_of_getLast? (h : ∀ c ∈ cs.getLast?, ¬isWord c ∧ ¬isBlank c) : (trail cs).word = [] := by
  obtain rfl | ⟨cs, c, rfl⟩ := cs.eq_nil_or_concat'
  case inl => rfl
  case inr =>
    have ⟨hw, hb⟩ := h c (by simp)
    simp [trail_append_singleton, Trail.push, hw, hb]

theorem exists_named (before : List Char) :
    ∃ start function gap, before = start ++ (function ++ gap) ∧ Group.Named start function gap ∧
      (function = [] → (trail before).word = []) := by
  obtain ⟨front, gap, rfl, hg⟩ := exists_trailing isBlank before
  obtain ⟨start, function, rfl, hf⟩ := exists_trailing isWord front
  refine ⟨start, function, gap, by simp, ?_, ?_⟩
  case refine_1 => exact ⟨by simpa using hf.ends, by simpa using hf.all, by simpa using hg.all⟩
  case refine_2 =>
    rintro rfl
    have hs : (trail start).word = [] :=
      word_trail_of_getLast? fun c hc => ⟨hf.ends c (by simpa using hc), hg.ends c (by simpa using hc)⟩
    rw [trail, List.foldl_append, Trail.word_foldl_push_blanks (by simpa using hg.all)]
    simpa [trail] using hs

namespace Group

theorem Named.run_function (h : Named start function gap) : Run isWord function.reverse start.reverse where
  all  := by simpa using h.function
  ends := by simpa using h.start

theorem Named.run_gap (h : Named start function gap) (hn : function ≠ []) :
    Run isBlank gap.reverse (function.reverse ++ start.reverse) where
  all  := by simpa using h.gap
  ends := by
    rw [List.head?_append_of_ne_nil _ (by simpa using hn)]
    intro c hc hb
    exact not_isWord_of_isBlank hb <| h.function c <| List.mem_reverse.mp <| List.mem_of_head? hc

-- The word before a parenthesis ends where its blanks start, and starts where no word is before it.
theorem Called.unique (h : g.Called code) (h' : g'.Called code) (hl : g.before.length = g'.before.length) :
    g = g' := by
  have ⟨hb, he⟩ := List.append_inj (h.text.trans h'.text.symm) hl
  have ⟨hc, hr⟩ := eq_of_append_cons (fun hm => (h.innermost _ hm).right rfl)
    (fun hm => (h'.innermost _ hm).right rfl) (List.cons.inj he).right
  have hb : g.gap.reverse ++ (g.function.reverse ++ g.start.reverse) =
      g'.gap.reverse ++ (g'.function.reverse ++ g'.start.reverse) := by
    simpa [before] using congrArg List.reverse hb
  have ⟨hgap, hb⟩ := (h.named.run_gap h.called).unique (h'.named.run_gap h'.called) hb
  have ⟨hfunction, hstart⟩ := h.named.run_function.unique h'.named.run_function hb
  cases g
  cases g'
  simp_all

-- The groups of a code text do not overlap.
theorem Called.length_lt (h : g.Called code) (h' : g'.Called code) (hl : g.before.length < g'.before.length) :
    g.before.length + 1 + g.content.length < g'.before.length := by
  -- Else the content of `g` would hold the parenthesis that opens the other group.
  by_contra hn
  obtain ⟨k, hk⟩ := Nat.exists_eq_add_of_lt hl
  have ho : code[g'.before.length]? = some '(' := by simp [← h'.text, Group.text]
  rw [hk, ← h.text, Group.text, List.getElem?_append_right (by omega), Nat.add_assoc, Nat.add_sub_cancel_left,
    List.getElem?_cons_succ, List.append_cons, List.getElem?_append_left (by simp; omega)] at ho
  cases List.mem_append.mp <| List.mem_of_getElem? ho
  case inl hm => exact (h.innermost _ hm).left rfl
  case inr hm => exact absurd hm (by decide)

end Group

theorem opened?_eq_some_iff {o : List Char × List Char} :
    opened? (trail before) c cs = some o ↔
      ∃ g : Group, g.Called (before ++ c :: cs) ∧ g.before = before ∧ (g.function, g.content) = o := by
  constructor
  case mp =>
    intro h
    obtain ⟨function, content⟩ := o
    obtain ⟨rfl, hn, rfl, ha⟩ := opened?_eq_some h
    obtain ⟨hi, rest, rfl⟩ := arguments?_eq_some ha
    obtain ⟨start, function, gap, rfl, hnamed, hf⟩ := exists_named before
    have hc : function ≠ [] := fun he => hn (hf he)
    refine ⟨⟨start, function, gap, content, rest⟩, ⟨rfl, hnamed, hc, hi⟩, rfl, ?_⟩
    simp [hnamed.word_trail hc]
  case mpr =>
    rintro ⟨g, hg, rfl, rfl⟩
    obtain ⟨rfl, rfl⟩ := List.cons.inj <| List.append_cancel_left hg.text
    have hw : (trail g.before).word = g.function.reverse := hg.named.word_trail hg.called
    simp [opened?, hw, hg.called, arguments?_of_closed hg.innermost]

-- The groups that open at the character `c` or later, by those that open after it.
theorem Group.Called.opens_iff (hg : g.Called (before ++ c :: cs)) :
    before.length ≤ g.before.length ↔ g.before = before ∨ (before ++ [c]).length ≤ g.before.length := by
  constructor
  case mp =>
    intro hl
    obtain hl | hl := Nat.eq_or_lt_of_le hl
    case inl => exact .inl (List.append_inj hg.text hl.symm).left
    case inr => exact .inr (by rwa [List.length_append])
  case mpr =>
    rintro (rfl | hl)
    case inl => exact Nat.le_refl _
    case inr => exact Nat.le_trans (by simp) hl

-- The scan finds the groups that open where it stands or later.
theorem exists_groupsFrom (before cs : List Char) :
    ∃ groups : List Group, groups.map (fun g => (g.function, g.content)) = groupsFrom (trail before) cs ∧
      groups.Pairwise (·.before.length < ·.before.length) ∧
      ∀ g, g ∈ groups ↔ g.Called (before ++ cs) ∧ before.length ≤ g.before.length := by
  induction cs generalizing before
  case nil =>
    refine ⟨[], rfl, .nil, fun g => ?_⟩
    simp only [List.not_mem_nil, false_iff, not_and, Nat.not_le, List.append_nil]
    intro hg
    rw [← hg.text, Group.text]
    simp
  case cons c cs hi =>
    obtain ⟨groups, hs, hp, hm⟩ := hi (before ++ [c])
    rw [← List.append_cons] at hm
    rw [groupsFrom, ← trail_append_singleton, ← hs]
    cases ho : opened? (trail before) c cs
    case none =>
      refine ⟨groups, rfl, hp, fun g => (hm g).trans <| and_congr_right fun hg => ?_⟩
      refine (hg.opens_iff.trans <| or_iff_right fun hb => ?_).symm
      simp [opened?_eq_some_iff.mpr ⟨g, hg, hb, rfl⟩] at ho
    case some o =>
      obtain ⟨first, hf, hb, rfl⟩ := opened?_eq_some_iff.mp ho
      refine ⟨first :: groups, rfl, .cons ?later hp, fun g => ?found⟩
      case later =>
        intro g hg
        exact hb ▸ Nat.lt_of_lt_of_le (by simp) ((hm g).mp hg).right
      case found =>
        rw [List.mem_cons, hm]
        constructor
        case mp =>
          rintro (rfl | ⟨hg, hl⟩)
          case inl => exact ⟨hf, hf.opens_iff.mpr (.inl hb)⟩
          case inr => exact ⟨hg, hg.opens_iff.mpr (.inr hl)⟩
        case mpr =>
          -- The first group is the only one that opens at `c`.
          rintro ⟨hg, hl⟩
          refine (hg.opens_iff.mp hl).imp (fun he => ?_) (⟨hg, ·⟩)
          exact hg.unique hf (by rw [he, hb])

def passagesIn (map : List Char) (line : CodeLine) (g : Group) : List Passage :=
  ((piecesAfter ',' [] <| g.content.splitOn ',').filter fun x => sameAscii (trim x.2) map).map fun
    (passed, argument) => ⟨line, g, passed, argument⟩

theorem map_call_passagesIn (map : List Char) (line : CodeLine) (g : Group) :
    (passagesIn map line g).map (·.call) =
      (positions map g.content).map fun position => ⟨String.ofList g.function, position, line.number⟩ := by
  have hp : positions map g.content = _ :=
    positionsFrom_eq map [] fun _ => separator_notMem_of_mem_splitOn
  simp [hp, passagesIn, Passage.call]

theorem mem_passagesIn_iff :
    p ∈ passagesIn map line g ↔ p.line = line ∧ p.group = g ∧ Piece ',' g.content p.passed p.argument ∧
      sameAscii (trim p.argument) map := by
  obtain ⟨line', g', passed, argument⟩ := p
  simp only [passagesIn, List.mem_map, List.mem_filter, Prod.exists, mem_piecesAfter_splitOn_iff,
    Passage.mk.injEq]
  constructor
  case mp =>
    rintro ⟨_, _, ⟨hp, hn⟩, rfl, rfl, rfl, rfl⟩
    exact ⟨rfl, rfl, hp, hn⟩
  case mpr =>
    rintro ⟨rfl, rfl, hp, hn⟩
    exact ⟨passed, argument, ⟨hp, hn⟩, rfl, rfl, rfl, rfl⟩

theorem pairwise_passagesIn (map : List Char) (line : CodeLine) (g : Group) :
    (passagesIn map line g).Pairwise Passage.Before := by
  refine List.pairwise_map.mpr <| ((pairwise_piecesAfter [] _).filter _).imp ?_
  exact fun hl => .inr ⟨rfl, Nat.add_lt_add_left hl _⟩

-- The arguments of a group end before the next group starts.
theorem before_of_mem_passagesIn (hg : g.Called code) (hg' : g'.Called code)
    (hl : g.before.length < g'.before.length) (hp : p ∈ passagesIn map line g)
    (hq : q ∈ passagesIn map line g') : p.Before q := by
  obtain ⟨hline, rfl, hpiece, _⟩ := mem_passagesIn_iff.mp hp
  obtain ⟨hline', rfl, _⟩ := mem_passagesIn_iff.mp hq
  have := hg.length_lt hg' hl
  have := hpiece.length_le
  refine .inr ⟨hline.trans hline'.symm, ?_⟩
  rw [Passage.column, Passage.column]
  omega

-- The calls of a line by their passages, which come from left to right.
theorem exists_passages (map : List Char) (line : CodeLine) :
    ∃ passages : List Passage, passages.map (·.call) = ofLine map line ∧ passages.Pairwise Passage.Before ∧
      ∀ p, p ∈ passages ↔ p.line = line ∧ p.Passes map := by
  rw [ofLine]
  split
  case isTrue hs =>
    refine ⟨[], rfl, .nil, fun p => ?_⟩
    simp only [List.not_mem_nil, false_iff, not_and]
    rintro rfl hp
    simp [hp.code, hp.header] at hs
  case isFalse hs =>
    simp only [Bool.or_eq_true, not_or, Bool.not_eq_true, Option.isSome_eq_false_iff,
      Option.isNone_iff_eq_none] at hs
    obtain ⟨groups, hgroups, hordered, hfound⟩ := exists_groupsFrom [] (beforeComment none line.text)
    refine ⟨groups.flatMap (passagesIn map line), ?_, ?_, fun p => ?_⟩
    case refine_1 =>
      rw [Call.groups_eq, ← hgroups, List.map_flatMap, List.flatMap_map]
      exact List.flatMap_congr fun g _ => map_call_passagesIn map line g
    case refine_2 =>
      refine List.pairwise_flatMap.mpr ⟨fun g _ => pairwise_passagesIn map line g, hordered.imp_of_mem ?_⟩
      intro g g' hg hg' hl p hp q hq
      exact before_of_mem_passagesIn ((hfound g).mp hg).left ((hfound g').mp hg').left hl hp hq
    case refine_3 =>
      simp only [List.mem_flatMap, mem_passagesIn_iff]
      constructor
      case mp =>
        rintro ⟨g, hg, rfl, rfl, hpiece, hn⟩
        exact ⟨rfl, by simp [hs], hs.right, ((hfound _).mp hg).left, hpiece, hn⟩
      case mpr =>
        rintro ⟨rfl, hp⟩
        exact ⟨p.group, (hfound _).mpr ⟨hp.group, by simp⟩, rfl, rfl, hp.argument, hp.named⟩

end Call

namespace Script

-- The calls that pass a Map are the groups of the code lines with an argument that is the Map, one call to
-- each such argument, in the order of the lines and from left to right on each.
theorem calls_enumerate_groups (s : Script) (map : String) :
    ∃ passages : List Call.Passage,
      passages.map (·.call) = s.calls map ∧
      passages.Pairwise Call.Passage.Before ∧
      ∀ p, p ∈ passages ↔ p.line ∈ s.lines ∧ p.Passes map.toList := by
  choose passages hcall hordered hfound using Call.exists_passages map.toList
  refine ⟨s.lines.flatMap passages, ?_, ?_, fun p => ?_⟩
  case refine_1 =>
    rw [List.map_flatMap]
    exact List.flatMap_congr fun line _ => hcall line
  case refine_2 =>
    refine List.pairwise_flatMap.mpr ⟨fun line _ => hordered line, s.pairwise_lines.imp ?_⟩
    intro line line' hl p hp q hq
    rw [((hfound line p).mp hp).left.symm, ((hfound line' q).mp hq).left.symm] at hl
    exact .inl hl
  case refine_3 =>
    simp only [List.mem_flatMap, hfound]
    constructor
    case mp =>
      rintro ⟨_, hl, rfl, hp⟩
      exact ⟨hl, hp⟩
    case mpr => exact fun ⟨hl, hp⟩ => ⟨p.line, hl, rfl, hp⟩

-- The first group is not innermost, the last one is open, and no word is before the last but one.
example :
    (ofText "F(G ($m), H( $M ,1,$m), 2) ($m) K($m\n;F($m)\nFunc F($m)\n").calls "$m" =
      [⟨"G", 0, 0⟩, ⟨"H", 0, 0⟩, ⟨"H", 2, 0⟩] := by
  decide +kernel

end Script

end ScriptMaps
