import ScriptMaps.Proofs.Script.Scanners
import ScriptMaps.Proofs.Text.Lines
import ScriptMaps.Proofs.Text.Runs

namespace ScriptMaps
open Text

namespace Include

-- What the target of a directive stands between.
inductive Delimiter
  | double
  | single
  | angle
  deriving DecidableEq

namespace Delimiter

def opening : Delimiter → Char
  | double => '"'
  | single => '\''
  | angle  => '<'

def closing : Delimiter → Char
  | double => '"'
  | single => '\''
  | angle  => '>'

def kind : Delimiter → IncludeKind
  | double => .relative
  | single => .relative
  | angle  => .library

theorem not_isBlank_opening (d : Delimiter) : ¬isBlank d.opening := by
  cases d <;> decide

theorem ne_line_end (d : Delimiter) : d.opening ≠ '\n' ∧ d.closing ≠ '\n' ∧ d.closing ≠ '\r' := by
  cases d <;> decide

end Delimiter

-- A line with a directive, in parts.
structure Parts where
  margin    : List Char
  keyword   : List Char
  gap       : List Char
  delimiter : Delimiter
  target    : List Char
  rest      : List Char
  deriving DecidableEq

namespace Parts

def afterKeyword (p : Parts) : List Char :=
  p.gap ++ p.delimiter.opening :: (p.target ++ p.delimiter.closing :: p.rest)

def text (p : Parts) : List Char :=
  p.margin ++ (p.keyword ++ p.afterKeyword)

structure Written (p : Parts) (line : List Char) : Prop where
  text    : p.text = line
  margin  : ∀ c ∈ p.margin, isBlank c
  keyword : sameAscii "#include".toList p.keyword
  gap     : ∀ c ∈ p.gap, isBlank c
  closed  : p.delimiter.closing ∉ p.target
  path    : trim p.target ≠ []

def directive (p : Parts) (number : Nat) : Include where
  kind := p.delimiter.kind
  path := String.ofList (trim p.target)
  line := number

end Parts

variable {cs line : List Char} {p : Parts} {number : Nat}

theorem readTarget?_eq_some_iff {kind : IncludeKind} {target : List Char} :
    readTarget? cs = some (kind, target) ↔
      ∃ (d : Delimiter) (rest : List Char), cs = d.opening :: (target ++ d.closing :: rest) ∧
        d.closing ∉ target ∧ d.kind = kind := by
  constructor
  case mp =>
    intro h
    unfold readTarget? at h
    split at h
    case h_4 => cases h
    all_goals
      obtain ⟨⟨_, rest⟩, hu, he⟩ := Option.map_eq_some_iff.mp h
      cases he
      have ⟨hs, hn⟩ := until?_eq_some_iff.mp hu
    case h_1 => exact ⟨.double, rest, congrArg _ hs, hn, rfl⟩
    case h_2 => exact ⟨.single, rest, congrArg _ hs, hn, rfl⟩
    case h_3 => exact ⟨.angle, rest, congrArg _ hs, hn, rfl⟩
  case mpr =>
    rintro ⟨d, rest, rfl, hn, rfl⟩
    cases d <;> exact congrArg (Option.map _) (until?_append hn rest)

theorem ofTarget?_eq_some_iff {x : IncludeKind × List Char} {i : Include} :
    ofTarget? number x = some i ↔ trim x.2 ≠ [] ∧ ⟨x.1, String.ofList (trim x.2), number⟩ = i := by
  rw [ofTarget?]
  split
  case h_1 h => simp [h]
  case h_2 h => simp [show trim x.2 ≠ [] from h]

theorem Parts.Written.run_margin (h : p.Written line) :
    Run isBlank p.margin (p.keyword ++ p.afterKeyword) := by
  have hl : '#' :: "include".toList = lowerAscii p.keyword := sameAscii_iff.mp h.keyword
  obtain ⟨c, rest, hk, hc, _⟩ := List.map_eq_cons_iff.mp hl.symm
  cases eq_of_toLower_eq (d := '#') (by decide) hc
  rw [hk]
  exact .of_cons h.margin (by decide)

theorem ofLine?_eq_some_iff {line : CodeLine} {i : Include} :
    ofLine? line = some i ↔ ∃ p : Parts, p.Written line.text ∧ p.directive line.number = i := by
  rw [ofLine?_eq]
  simp only [Option.bind_eq_some_iff, afterKeyword?_eq_some_iff, Prod.exists, readTarget?_eq_some_iff,
    ofTarget?_eq_some_iff]
  constructor
  case mp =>
    rintro ⟨cs, ⟨keyword, hs, hk⟩, kind, target, ⟨d, rest, ht, hn, rfl⟩, hp, rfl⟩
    have ⟨margin, hl, hmargin⟩ := exists_margin line.text
    have ⟨gap, hcs, hgap⟩ := exists_margin cs
    exact ⟨⟨margin, keyword, gap, d, target, rest⟩, {
      text    := by rw [hl, hs, hcs, ht]; rfl
      margin  := hmargin.all
      keyword := hk
      gap     := hgap.all
      closed  := hn
      path    := hp
    }, rfl⟩
  case mpr =>
    rintro ⟨p, hp, rfl⟩
    refine ⟨p.afterKeyword, ⟨p.keyword, ?_, hp.keyword⟩, _, p.target, ⟨p.delimiter, p.rest, ?_, hp.closed, rfl⟩,
      hp.path, rfl⟩
    case refine_1 => rw [← hp.text, Parts.text, trimStart_append hp.run_margin]
    case refine_2 => exact trimStart_append <| .of_cons hp.gap p.delimiter.not_isBlank_opening

def command : List Char :=
  ['#', 'i', 'n', 'c', 'l', 'u', 'd', 'e', ' ']

-- The line of a directive for a path.
def written (d : Delimiter) (path : List Char) : List Char :=
  command ++ d.opening :: (path ++ [d.closing])

-- A path that a directive can hold as it is.
structure Writable (d : Delimiter) (path : List Char) : Prop where
  ne      : path ≠ []
  trimmed : trim path = path
  oneLine : '\n' ∉ path
  closed  : d.closing ∉ path

-- Directives, one on each line.
def write (directives : List (Delimiter × String)) : String :=
  String.ofList <| (directives.map fun x => written x.1 x.2.toList).flatMap (· ++ ['\n'])

variable {d : Delimiter} {path : List Char} {directives : List (Delimiter × String)}

theorem ofLine?_written (h : Writable d path) (number : Nat) :
    ofLine? ⟨number, written d path⟩ = some ⟨d.kind, String.ofList path, number⟩ := by
  refine ofLine?_eq_some_iff.mpr ⟨⟨[], "#include".toList, [' '], d, path, []⟩, ?_, ?_⟩
  case refine_1 => exact {
    text    := rfl
    margin  := by simp
    keyword := by simp [sameAscii]
    gap     := by simp [isBlank]
    closed  := h.closed
    path    := h.trimmed.symm ▸ h.ne
  }
  case refine_2 => simp [Parts.directive, h.trimmed]

theorem blockMark?_written (d : Delimiter) (path : List Char) : blockMark? (written d path) = none :=
  rfl

-- The path keeps to its line, whatever other characters of control it holds.
theorem written_line (h : Writable d path) : '\n' ∉ written d path ∧ (written d path).getLast? ≠ some '\r' := by
  have ⟨ho, hc, hr⟩ := d.ne_line_end
  have hk : '\n' ∉ command := by decide
  constructor
  case left  => simp [written, hk, h.oneLine, ho.symm, hc.symm]
  case right => simp [written, List.getLast?_append, List.getLast?_cons, hr]

theorem ofText_of_lines {text : String} (h : ∀ x ∈ directives, Writable x.1 x.2.toList)
    (hm : text.toList.head? ≠ some '\uFEFF')
    (hl : lines text.toList = directives.map fun x => written x.1 x.2.toList) :
    ofText text = directives.zipIdx.map fun x => ⟨x.1.1.kind, x.1.2, x.2⟩ := by
  have hmarks : ∀ line ∈ directives.map fun x => written x.1 x.2.toList, blockMark? line = none :=
    List.forall_mem_map.mpr fun x _ => blockMark?_written x.1 x.2.toList
  rw [ofText, codeLines, withoutMark_of_head? hm, hl, codeLinesFrom_eq_zipIdx hmarks, List.filterMap_map,
    List.zipIdx_map, List.filterMap_map, ← List.filterMap_eq_map]
  refine List.filterMap_congr ?_
  intro x hx
  have hw := h x.1 (List.fst_mem_of_mem_zipIdx hx)
  simpa using ofLine?_written hw x.2

-- Lines that are ended are followed by a tail, which is nothing or a line that is not ended.
theorem ofText_of_tail {text : String} {front rest : List (Delimiter × String)} (tail : List Char)
    (h : ∀ x ∈ front ++ rest, Writable x.1 x.2.toList) (hm : tail.head? ≠ some '\uFEFF')
    (hl : lines tail = rest.map fun x => written x.1 x.2.toList)
    (ht : text.toList = (front.map fun x => written x.1 x.2.toList).flatMap (· ++ ['\n']) ++ tail) :
    ofText text = (front ++ rest).zipIdx.map fun x => ⟨x.1.1.kind, x.1.2, x.2⟩ := by
  refine ofText_of_lines h ?_ ?_
  case refine_1 =>
    cases front
    case nil  => simpa [ht] using hm
    case cons => simp [ht, written, command]
  case refine_2 =>
    have hfront := (List.forall_mem_append.mp h).left
    rw [ht, lines_flatMap_append (List.forall_mem_map.mpr fun x hx => written_line (hfront x hx)), hl,
      List.map_append]

theorem ofText_write {text : String} (h : ∀ x ∈ directives, Writable x.1 x.2.toList)
    (ht : text = write directives ∨ text ++ "\n" = write directives) :
    ofText text = directives.zipIdx.map fun x => ⟨x.1.1.kind, x.1.2, x.2⟩ := by
  cases ht
  case inl ht =>
    rw [← directives.append_nil] at h ⊢
    exact ofText_of_tail [] h (by simp) rfl (by simp [ht, write])
  case inr ht =>
    have ht : text.toList ++ ['\n'] =
        (directives.map fun x => written x.1 x.2.toList).flatMap (· ++ ['\n']) := by
      simpa [write] using congrArg String.toList ht
    obtain rfl | ⟨front, last, rfl⟩ := directives.eq_nil_or_concat'
    case inl => simp at ht
    case inr =>
      have ⟨hn, _⟩ := written_line <| h last (by simp)
      refine ofText_of_tail _ h ?_ (lines_of_notMem hn ?_) ?_
      case refine_1 => simp [written, command]
      case refine_2 => simp [written]
      case refine_3 =>
        rw [List.map_append, List.flatMap_append, List.map_singleton, List.flatMap_singleton,
          ← List.append_assoc] at ht
        exact List.append_cancel_right ht

-- A line has an include directive iff it is written as one, and no line has two. Directives that are
-- written one to a line are read back with their paths and numbers, also if the last line does not end.
theorem mem_ofText_iff_parts (text : String) :
    (∀ i, i ∈ ofText text ↔ ∃ line ∈ codeLines text.toList, ∃ p : Parts,
      p.Written line.text ∧ p.directive line.number = i) ∧
    (∀ i ∈ ofText text, (ofText text).filter (·.line = i.line) = [i]) ∧
    ∀ directives : List (Delimiter × String), (∀ x ∈ directives, Writable x.1 x.2.toList) →
      (text = write directives ∨ text ++ "\n" = write directives) →
      ofText text = directives.zipIdx.map fun x => ⟨x.1.1.kind, x.1.2, x.2⟩ := by
  refine ⟨?written, fun i hi => filter_line_eq (pairwise_ofText text) hi, fun _ => ofText_write⟩
  case written =>
    intro i
    simp only [ofText, List.mem_filterMap, ofLine?_eq_some_iff]

-- The second path holds the quote and the bracket of other delimiters, and a carriage return inside. In the
-- other text there are blanks around the path, the last one a no-break space, and these are no part of it.
theorem mem_ofText_unended :
    let directives : List (Delimiter × String) := [(.angle, "lib/a b.au3"), (.single, "x\r\"y;<.au3")]
    let text := "#include <lib/a b.au3>\n#include 'x\r\"y;<.au3'"
    let spaced : Parts := ⟨['\t'], "#Include".toList, [], .double, " ../z z.au3\u00A0".toList, "; z".toList⟩
    (∀ x ∈ directives, Writable x.1 x.2.toList) ∧ text ++ "\n" = write directives ∧
      ofText text = [⟨.library, "lib/a b.au3", 0⟩, ⟨.relative, "x\r\"y;<.au3", 1⟩] ∧
      spaced.Written "\t#Include\" ../z z.au3\u00A0\"; z".toList ∧
      ⟨.relative, "../z z.au3", 1⟩ ∈ ofText "\n\t#Include\" ../z z.au3\u00A0\"; z" := by
  intro directives text spaced
  have ⟨_, _, hread⟩ := mem_ofText_iff_parts text
  have hlibrary : Writable .angle "lib/a b.au3".toList := ⟨by decide, by decide, by decide, by decide⟩
  have hrelative : Writable .single "x\r\"y;<.au3".toList := ⟨by decide, by decide, by decide, by decide⟩
  have hwritable : ∀ x ∈ directives, Writable x.1 x.2.toList := by
    simpa [directives] using And.intro hlibrary hrelative
  have ht : text ++ "\n" = write directives := by decide +kernel
  have hspaced : spaced.Written "\t#Include\" ../z z.au3\u00A0\"; z".toList := {
    text    := by decide
    margin  := List.all_eq_true.mp (by decide)
    keyword := by decide
    gap     := List.forall_mem_nil _
    closed  := by decide
    path    := by decide
  }
  have ⟨hwritten, _⟩ := mem_ofText_iff_parts "\n\t#Include\" ../z z.au3\u00A0\"; z"
  refine ⟨hwritable, ht, hread directives hwritable (.inr ht), hspaced, (hwritten _).mpr ?_⟩
  exact ⟨⟨1, "\t#Include\" ../z z.au3\u00A0\"; z".toList⟩, by decide +kernel, spaced, hspaced, by decide⟩

end Include

end ScriptMaps
