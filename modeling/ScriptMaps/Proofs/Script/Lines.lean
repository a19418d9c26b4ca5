import Mathlib.Data.List.Nodup
import Mathlib.Data.List.Pairwise
import ScriptMaps.Include.Directive
import ScriptMaps.Script.Basic

namespace ScriptMaps

theorem number_le_of_mem_codeLinesFrom {number depth : Nat} {lines : List (List Char)}
    {line : CodeLine} (h : line ∈ codeLinesFrom number depth lines) : number ≤ line.number := by
  fun_induction codeLinesFrom
  case case1 => simp at h
  case case5 hi =>
    cases h
    case head   => exact Nat.le_refl _
    case tail h => exact Nat.le_of_succ_le <| hi h
  all_goals exact Nat.le_of_succ_le <| ‹_ → _› h

theorem pairwise_codeLinesFrom (number depth : Nat) (lines : List (List Char)) :
    (codeLinesFrom number depth lines).Pairwise (·.number < ·.number) := by
  fun_induction codeLinesFrom
  case case1    => exact .nil
  case case5 hi => exact .cons (fun _ h => number_le_of_mem_codeLinesFrom h) hi
  all_goals assumption

theorem getElem?_of_mem_codeLinesFrom {number depth : Nat} {lines : List (List Char)} {line : CodeLine}
    (h : line ∈ codeLinesFrom number depth lines) : lines[line.number - number]? = some line.text := by
  have hnext {number depth : Nat} {first : List Char} {rest : List (List Char)}
      (h : line ∈ codeLinesFrom (number + 1) depth rest)
      (hi : rest[line.number - (number + 1)]? = some line.text) :
      (first :: rest)[line.number - number]? = some line.text := by
    have := number_le_of_mem_codeLinesFrom h
    rwa [show line.number - number = line.number - (number + 1) + 1 by omega, List.getElem?_cons_succ]
  fun_induction codeLinesFrom
  case case1 => cases h
  case case5 hi =>
    cases h
    case head   => simp
    case tail h => exact hnext h <| hi h
  all_goals exact hnext h <| ‹_ → _› h

-- Without comment blocks all lines are code.
theorem codeLinesFrom_eq_zipIdx {lines : List (List Char)} (h : ∀ line ∈ lines, blockMark? line = none)
    (number : Nat) : codeLinesFrom number 0 lines = (lines.zipIdx number).map fun x => ⟨x.2, x.1⟩ := by
  induction lines generalizing number
  case nil => rfl
  case cons line lines hi =>
    have ⟨hm, h⟩ := List.forall_mem_cons.mp h
    simp [codeLinesFrom, hm, hi h]

theorem withoutMark_of_head? {cs : List Char} (h : cs.head? ≠ some '\uFEFF') : withoutMark cs = cs := by
  rw [withoutMark]
  rintro _ rfl
  simp at h

-- Lines in order are told apart by their numbers.
theorem eq_of_number {lines : List CodeLine} (hl : lines.Pairwise (·.number < ·.number))
    {line line' : CodeLine} (hm : line ∈ lines) (hm' : line' ∈ lines) (hn : line.number = line'.number) :
    line = line' :=
  List.inj_on_of_nodup_map (List.pairwise_map.mpr <| hl.imp Nat.ne_of_lt) hm hm' hn

-- What comes in line order stands alone on its line.
theorem filter_line_eq {β : Type} {lineOf : β → Nat} {found : List β} {b : β}
    (h : found.Pairwise (lineOf · < lineOf ·)) (hb : b ∈ found) :
    found.filter (lineOf · = lineOf b) = [b] := by
  induction h
  case nil => cases hb
  case cons c rest hc _ hi =>
    cases hb
    case head =>
      have hn : rest.filter (lineOf · = lineOf b) = [] :=
        List.filter_eq_nil_iff.mpr fun d hd => by simpa using Nat.ne_of_gt (hc d hd)
      simp [hn]
    case tail hb => rw [List.filter_cons_of_neg (by simpa using Nat.ne_of_lt (hc b hb)), hi hb]

theorem Declaration.line_of_ofLine? {line : CodeLine} {d : Declaration} (h : ofLine? line = some d) :
    d.line = line.number := by
  have ⟨_, _, h⟩ := Option.bind_eq_some_iff.mp h
  have ⟨_, _, h⟩ := Option.bind_eq_some_iff.mp h
  cases h
  rfl

theorem Assignment.line_of_ofLine? {map : List Char} {line : CodeLine} {a : Assignment}
    (h : ofLine? map line = some a) : a.line = line.number := by
  rw [ofLine?] at h
  split at h
  case h_1 => cases h; rfl
  case h_2 =>
    split at h
    case h_1 => cases h; rfl
    case h_2 => cases h

theorem Include.line_of_ofLine? {line : CodeLine} {d : Include} (h : ofLine? line = some d) :
    d.line = line.number := by
  have ⟨_, _, h⟩ := Option.bind_eq_some_iff.mp h
  have ⟨⟨kind, target⟩, _, h⟩ := Option.bind_eq_some_iff.mp h
  dsimp only at h
  split at h
  case h_1 => cases h
  case h_2 => cases h; rfl

theorem Include.pairwise_ofText (text : String) : (ofText text).Pairwise (·.line < ·.line) := by
  refine (pairwise_codeLinesFrom ..).filterMap _ ?_
  intro line line' hl d hd d' hd'
  rwa [line_of_ofLine? hd, line_of_ofLine? hd']

namespace Function

theorem line_of_ofHeader? {line : CodeLine} {f : Function} (h : ofHeader? line = some f) :
    f.line = line.number := by
  simp only [ofHeader?, Option.map_eq_some_iff] at h
  obtain ⟨_, _, rfl⟩ := h
  rfl

-- A block that is closed keeps its start.
theorem mem_closed {current : Option Function} {endLine : Function → Nat} {f : Function}
    (h : f ∈ (current.map fun g => { g with endLine := endLine g }).toList) :
    ∃ g ∈ current, f.line = g.line ∧ f.endLine = endLine g := by
  obtain ⟨g, hg, rfl⟩ := Option.map_eq_some_iff.mp <| Option.mem_toList.mp h
  exact ⟨g, hg, rfl, rfl⟩

-- A block starts where the open one does, or at one of the lines.
theorem line_of_mem_ofLinesFrom {current : Option Function} {last : Nat} {lines : List CodeLine}
    {f : Function} (h : f ∈ ofLinesFrom current last lines) :
    (∃ g ∈ current, f.line = g.line) ∨ ∃ line ∈ lines, f.line = line.number := by
  fun_induction ofLinesFrom
  case case1 =>
    have ⟨g, hg, hl, _⟩ := mem_closed h
    exact .inl ⟨g, hg, hl⟩
  case case2 line lines g hg hi =>
    cases List.mem_append.mp h
    case inl h =>
      have ⟨g, hg, hl, _⟩ := mem_closed h
      exact .inl ⟨g, hg, hl⟩
    case inr h =>
      obtain ⟨_, he, hl⟩ | ⟨line', hm, hl⟩ := hi h
      case inl =>
        cases he
        exact .inr ⟨line, .head _, hl.trans <| line_of_ofHeader? hg⟩
      case inr => exact .inr ⟨line', .tail _ hm, hl⟩
  case case3 line lines _ _ hi =>
    cases List.mem_append.mp h
    case inl h =>
      have ⟨g, hg, hl, _⟩ := mem_closed h
      exact .inl ⟨g, hg, hl⟩
    case inr h =>
      obtain ⟨_, hn, _⟩ | ⟨line', hm, hl⟩ := hi h
      case inl => simp at hn
      case inr => exact .inr ⟨line', .tail _ hm, hl⟩
  case case4 hi =>
    refine (hi h).imp_right ?_
    intro ⟨line', hm, hl⟩
    exact ⟨line', .tail _ hm, hl⟩

theorem pairwise_closed_append {current : Option Function} {endLine : Function → Nat}
    {rest : List Function} (h : rest.Pairwise (·.endLine < ·.line))
    (hlt : ∀ g ∈ current, ∀ f ∈ rest, endLine g < f.line) :
    List.Pairwise (·.endLine < ·.line)
      ((current.map fun g : Function => { g with endLine := endLine g }).toList ++ rest) := by
  refine List.pairwise_append.mpr ⟨?single, h, ?before⟩
  case single => cases current <;> simp
  case before =>
    intro f hf f' hf'
    have ⟨g, hg, _, he⟩ := mem_closed hf
    exact he ▸ hlt g hg f' hf'

-- The open block starts before all the lines, so it is closed before the next one starts.
theorem pairwise_ofLinesFrom {current : Option Function} {lines : List CodeLine} (last : Nat)
    (hl : lines.Pairwise (·.number < ·.number))
    (hc : ∀ g ∈ current, ∀ line ∈ lines, g.line < line.number) :
    (ofLinesFrom current last lines).Pairwise (·.endLine < ·.line) := by
  fun_induction ofLinesFrom
  case case1 current _ => cases current <;> simp
  case case2 line lines f hf hi =>
    have ⟨hn, hl⟩ := List.pairwise_cons.mp hl
    have hf := line_of_ofHeader? hf
    refine pairwise_closed_append (hi hl ?current) ?before
    case current =>
      intro g hg line' hm
      cases hg
      exact hf ▸ hn line' hm
    case before =>
      intro g hg f' hf'
      have hgl := hc g hg line (.head _)
      obtain ⟨_, he, hs⟩ | ⟨line', hm, hs⟩ := line_of_mem_ofLinesFrom hf'
      case inl => cases he; omega
      case inr => have := hn line' hm; omega
  case case3 line lines _ _ hi =>
    have ⟨hn, hl⟩ := List.pairwise_cons.mp hl
    refine pairwise_closed_append (hi hl <| by simp) ?before
    case before =>
      intro g _ f' hf'
      obtain ⟨_, he, _⟩ | ⟨line', hm, hs⟩ := line_of_mem_ofLinesFrom hf'
      case inl => simp at he
      case inr => exact hs ▸ hn line' hm
  case case4 hi => exact hi hl.of_cons fun g hg line hm => hc g hg line <| .tail _ hm

theorem contains_iff {f : Function} {line : Nat} :
    f.contains line ↔ f.line ≤ line ∧ line ≤ f.endLine := by
  simp [contains]

end Function

namespace Script

variable (s : Script)

theorem pairwise_lines : s.lines.Pairwise (·.number < ·.number) :=
  s.lines_eq ▸ pairwise_codeLinesFrom ..

theorem pairwise_declarations : s.declarations.Pairwise (·.line < ·.line) := by
  rw [s.declarations_eq]
  refine s.pairwise_lines.filterMap _ ?_
  intro line line' hl d hd d' hd'
  rwa [Declaration.line_of_ofLine? hd, Declaration.line_of_ofLine? hd']

theorem pairwise_assignments (map : String) : (s.assignments map).Pairwise (·.line < ·.line) := by
  refine s.pairwise_lines.filterMap _ ?_
  intro line line' hl a ha a' ha'
  rwa [Assignment.line_of_ofLine? ha, Assignment.line_of_ofLine? ha']

-- The assignments on some lines are those read from these lines.
theorem filter_assignments (map : String) (p : Nat → Bool) :
    (s.assignments map).filter (p ·.line) =
      (s.lines.filter (p ·.number)).filterMap (Assignment.ofLine? map.toList) := by
  rw [assignments, List.filter_filterMap, List.filterMap_filter]
  refine List.filterMap_congr ?_
  intro line _
  cases ha : Assignment.ofLine? map.toList line
  case none   => simp
  case some a => simp [Option.filter_some, Assignment.line_of_ofLine? ha]

theorem pairwise_functions : s.functions.Pairwise (·.endLine < ·.line) :=
  s.functions_eq ▸ Function.pairwise_ofLinesFrom 0 s.pairwise_lines (by simp)

variable {s}

-- A line lies in one function at most.
theorem eq_of_contains {f g : Function} {line : Nat} (hf : f ∈ s.functions) (hg : g ∈ s.functions)
    (hfl : f.contains line) (hgl : g.contains line) : f = g := by
  have hapart : s.functions.Pairwise fun f g => ¬(f.contains line ∧ g.contains line) := by
    refine s.pairwise_functions.imp ?_
    intro f g hlt ⟨hf, hg⟩
    have := (Function.contains_iff.mp hf).right
    have := (Function.contains_iff.mp hg).left
    omega
  have : Std.Symm fun f g : Function => ¬(f.contains line ∧ g.contains line) :=
    ⟨fun _ _ h h' => h h'.symm⟩
  by_contra hne
  exact hapart.forall hf hg hne ⟨hfl, hgl⟩

end Script

end ScriptMaps
