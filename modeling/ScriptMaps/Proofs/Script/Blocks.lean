import Mathlib.Data.List.Basic
import ScriptMaps.Proofs.Script.Lines
import ScriptMaps.Proofs.Text.Scan

namespace ScriptMaps
open Text

namespace Function

-- The line on which an open block ends, if `last` is the last line before the lines.
def endFrom (last : Nat) : List CodeLine → Nat
  | []           => last
  | line :: rest =>
    if (header? line.text).isSome then line.number - 1
    else if isEnd line.text then line.number
    else endFrom line.number rest

-- The blocks that start on the lines, each with the end that the lines after its header give it.
def blocksOf : List CodeLine → List Function
  | []           => []
  | line :: rest =>
    (ofHeader? line).toList.map (fun f => { f with endLine := endFrom line.number rest }) ++
      blocksOf rest

-- A line that neither starts nor ends a block.
structure IsPlain (line : CodeLine) : Prop where
  header : header? line.text = none
  isEnd  : isEnd line.text = false

-- The first line after `start` that starts or ends a block.
structure IsBound (lines : List CodeLine) (start : Nat) (line : CodeLine) : Prop where
  mem    : line ∈ lines
  after  : start < line.number
  bounds : ¬IsPlain line
  first  : ∀ between ∈ lines, start < between.number → between.number < line.number → IsPlain between

-- Where the block of a header on the line `start` ends.
inductive EndsAt (lines : List CodeLine) (start : Nat) : Nat → Prop
  | closed {line : CodeLine} (bound : IsBound lines start line) (isEnd : isEnd line.text) :
      EndsAt lines start line.number
  | cut {line : CodeLine} (bound : IsBound lines start line) (header : (header? line.text).isSome) :
      EndsAt lines start (line.number - 1)
  | unbounded {line : CodeLine} (last : lines.getLast? = some line)
      (plain : ∀ after ∈ lines, start < after.number → IsPlain after) :
      EndsAt lines start line.number

variable {f g : Function} {line : CodeLine} {lines : List CodeLine} {last start n : Nat}

theorem ofHeader?_isSome : (ofHeader? line).isSome = (header? line.text).isSome := by
  simp [ofHeader?]

theorem ofHeader?_eq_none_iff : ofHeader? line = none ↔ header? line.text = none := by
  simp [ofHeader?]

-- The block that is open before the lines comes first, and those that start on the lines follow.
theorem ofLinesFrom_eq_blocksOf {current : Option Function}
    (hl : lines.Pairwise (·.number < ·.number)) (hn : ∀ line ∈ lines, last ≤ line.number)
    (hc : ∀ g ∈ current, g.line ≤ last) :
    ofLinesFrom current last lines =
      (current.map fun g => { g with endLine := endFrom last lines }).toList ++ blocksOf lines := by
  fun_induction ofLinesFrom
  case case1 current last =>
    cases current
    case none   => rfl
    case some g => simp [endFrom, blocksOf, Nat.max_eq_left <| hc g rfl]
  case case2 line rest f hf hi =>
    obtain ⟨hlt, hl⟩ := List.pairwise_cons.mp hl
    have hh : (header? line.text).isSome := by rw [← ofHeader?_isSome, hf, Option.isSome_some]
    rw [hi hl (fun l hm => Nat.le_of_lt <| hlt l hm) (by simp [line_of_ofHeader? hf])]
    simp [blocksOf, endFrom, hf, hh]
  case case3 line rest hf he hi =>
    obtain ⟨hlt, hl⟩ := List.pairwise_cons.mp hl
    rw [hi hl (fun l hm => Nat.le_of_lt <| hlt l hm) (by simp)]
    simp [blocksOf, endFrom, hf, ofHeader?_eq_none_iff.mp hf, he]
  case case4 current last line rest hf he hi =>
    obtain ⟨hlt, hl⟩ := List.pairwise_cons.mp hl
    have hle := hn line (.head _)
    rw [hi hl (fun l hm => Nat.le_of_lt <| hlt l hm) fun g hg => Nat.le_trans (hc g hg) hle]
    simp [blocksOf, endFrom, hf, ofHeader?_eq_none_iff.mp hf, he]

-- Up to their ends, the blocks are what the headers open.
theorem map_blocksOf (lines : List CodeLine) :
    (blocksOf lines).map (fun f => { f with endLine := f.line }) = lines.filterMap ofHeader? := by
  induction lines
  case nil => rfl
  case cons line rest hi =>
    cases hf : ofHeader? line
    case none   => simp [blocksOf, hf, hi]
    case some f =>
      obtain ⟨_, _, rfl⟩ := Option.map_eq_some_iff.mp hf
      simp [blocksOf, hf, hi]

-- A block has a header, and its end is found in the lines after it.
theorem of_mem_blocksOf (h : f ∈ blocksOf lines) :
    ∃ before line after, lines = before ++ line :: after ∧ f.line = line.number ∧
      f.endLine = endFrom line.number after := by
  induction lines
  case nil => cases h
  case cons line rest hi =>
    cases List.mem_append.mp h
    case inl h =>
      obtain ⟨g, hg, rfl⟩ := List.mem_map.mp h
      have hg : ofHeader? line = some g := by simpa using hg
      have hn := line_of_ofHeader? hg
      exact ⟨[], line, rest, rfl, hn, rfl⟩
    case inr h =>
      have ⟨before, line', after, hs, hl⟩ := hi h
      exact ⟨line :: before, line', after, congrArg _ hs, hl⟩

theorem le_endFrom (hl : lines.Pairwise (·.number < ·.number)) (hn : ∀ line ∈ lines, last < line.number) :
    last ≤ endFrom last lines := by
  induction lines generalizing last
  case nil => exact Nat.le_refl _
  case cons line rest hi =>
    have hlt := hn line (.head _)
    have ⟨hr, hl⟩ := List.pairwise_cons.mp hl
    have hle := hi hl hr
    rw [endFrom]
    split
    case isTrue  => omega
    case isFalse => split <;> omega

-- A line in front that bounds no block after `start` has no part in where the block ends.
theorem IsBound.cons {bound : CodeLine} (hp : start < line.number → IsPlain line)
    (h : IsBound lines start bound) : IsBound (line :: lines) start bound where
  mem    := .tail _ h.mem
  after  := h.after
  bounds := h.bounds
  first  := by
    intro between hm hs hlt
    cases hm
    case head    => exact hp hs
    case tail hm => exact h.first between hm hs hlt

theorem EndsAt.cons (hp : start < line.number → IsPlain line) (h : EndsAt lines start n) :
    EndsAt (line :: lines) start n := by
  cases h
  case closed hb he => exact .closed (hb.cons hp) he
  case cut hb hh    => exact .cut (hb.cons hp) hh
  case unbounded hl ha =>
    refine .unbounded (by simp [List.getLast?_cons, hl]) ?_
    exact List.forall_mem_cons.mpr ⟨hp, ha⟩

theorem EndsAt.append_left {before : List CodeLine} (hb : ∀ line ∈ before, line.number ≤ start)
    (h : EndsAt lines start n) : EndsAt (before ++ lines) start n := by
  induction before
  case nil => exact h
  case cons line before hi =>
    have ⟨hle, hb⟩ := List.forall_mem_cons.mp hb
    exact (hi hb).cons fun hlt => absurd hlt <| Nat.not_lt.mpr hle

-- The lines from the header on up to `line` are read, and none of them ends the block.
theorem endsAt_endFrom (hl : (line :: lines).Pairwise (·.number < ·.number)) (hs : start ≤ line.number)
    (hp : start < line.number → IsPlain line) :
    EndsAt (line :: lines) start (endFrom line.number lines) := by
  induction lines generalizing line
  case nil => exact .unbounded rfl <| List.forall_mem_cons.mpr ⟨hp, by simp⟩
  case cons next rest hi =>
    have ⟨hlt, hl⟩ := List.pairwise_cons.mp hl
    have hsn : start < next.number := Nat.lt_of_le_of_lt hs <| hlt next (.head _)
    have hbound (hn : ¬IsPlain next) : IsBound (next :: rest) start next := {
      mem    := .head _
      after  := hsn
      bounds := hn
      first  := by
        intro between hm _ hb
        cases hm
        case head    => omega
        case tail hm => have := (List.pairwise_cons.mp hl).left between hm; omega
    }
    refine EndsAt.cons hp ?_
    rw [endFrom]
    split
    case isTrue hh => exact .cut (hbound fun hn => by simp [hn.header] at hh) hh
    case isFalse hh =>
      split
      case isTrue he  => exact .closed (hbound fun hn => by simp [hn.isEnd] at he) he
      case isFalse he => exact hi hl (Nat.le_of_lt hsn) fun _ => ⟨by simpa using hh, by simpa using he⟩

theorem EndsAt.isPlain (h : EndsAt lines start n) (hm : line ∈ lines) (hs : start < line.number)
    (hn : line.number < n) : IsPlain line := by
  cases h
  case closed hb _    => exact hb.first line hm hs hn
  case cut hb _       => exact hb.first line hm hs (by omega)
  case unbounded _ hp => exact hp line hm hs

-- No line does both: a header begins with `f` or `v`, an end with `e`.
theorem isEnd_of_header? {text : List Char} (h : (header? text).isSome) : isEnd text = false := by
  have hstart : (lowerAscii (trimStart text)).head? = some 'v' ∨
      (lowerAscii (trimStart text)).head? = some 'f' := by
    have ⟨_, h⟩ := Option.isSome_iff_exists.mp h
    obtain h | ⟨_, h⟩ := Option.or_eq_some_iff.mp h
    case inl =>
      have ⟨_, h, _⟩ := Option.bind_eq_some_iff.mp h
      have ⟨_, h, _⟩ := Option.bind_eq_some_iff.mp h
      exact .inl <| head?_of_afterKeyword? h (by simp)
    case inr =>
      have ⟨_, h, _⟩ := Option.bind_eq_some_iff.mp h
      exact .inr <| head?_of_afterKeyword? h (by simp)
  rw [isEnd]
  split
  case h_1    => rfl
  case h_2 he =>
    rw [head?_of_afterKeyword? he (by simp)] at hstart
    simp [lowerAscii] at hstart

theorem IsBound.unique {line' : CodeLine} (hl : lines.Pairwise (·.number < ·.number))
    (h : IsBound lines start line) (h' : IsBound lines start line') : line = line' := by
  have : ¬line.number < line'.number := fun hlt => h.bounds <| h'.first line h.mem h.after hlt
  have : ¬line'.number < line.number := fun hlt => h'.bounds <| h.first line' h'.mem h'.after hlt
  exact eq_of_number hl h.mem h'.mem (by omega)

-- Where a block ends is determined by the lines after its header.
theorem EndsAt.unique {n' : Nat} (hl : lines.Pairwise (·.number < ·.number))
    (h : EndsAt lines start n) (h' : EndsAt lines start n') : n = n' := by
  cases h <;> cases h'
  case closed.closed hb _ _ hb' _ => rw [hb.unique hl hb']
  case cut.cut hb _ _ hb' _       => rw [hb.unique hl hb']
  case closed.cut hb he _ hb' hh =>
    cases hb.unique hl hb'
    simp [isEnd_of_header? hh] at he
  case cut.closed hb hh _ hb' he =>
    cases hb.unique hl hb'
    simp [isEnd_of_header? hh] at he
  case unbounded.unbounded hl _ _ hl' _ => simp_all
  case unbounded.closed hp _ hb _ => exact absurd (hp _ hb.mem hb.after) hb.bounds
  case unbounded.cut hp _ hb _    => exact absurd (hp _ hb.mem hb.after) hb.bounds
  case closed.unbounded hb _ _ _ hp => exact absurd (hp _ hb.mem hb.after) hb.bounds
  case cut.unbounded hb _ _ _ hp    => exact absurd (hp _ hb.mem hb.after) hb.bounds

end Function

namespace Script

variable (s : Script)

theorem functions_eq_blocksOf : s.functions = Function.blocksOf s.lines := by
  rw [s.functions_eq, Function.ofLines,
    Function.ofLinesFrom_eq_blocksOf s.pairwise_lines (by simp) (by simp)]
  rfl

-- Each header opens one function, in the order of the lines.
theorem map_functions :
    s.functions.map (fun f => { f with endLine := f.line }) = s.lines.filterMap Function.ofHeader? :=
  s.functions_eq_blocksOf ▸ Function.map_blocksOf s.lines

variable {s} {f : Function}

theorem line_le_endLine (hf : f ∈ s.functions) : f.line ≤ f.endLine := by
  have ⟨before, line, after, hs, hl, he⟩ := Function.of_mem_blocksOf (s.functions_eq_blocksOf ▸ hf)
  have hp := (List.pairwise_append.mp (hs ▸ s.pairwise_lines)).right.left
  have ⟨hlt, hp⟩ := List.pairwise_cons.mp hp
  rw [hl, he]
  exact Function.le_endFrom hp hlt

theorem endsAt_endLine (hf : f ∈ s.functions) : Function.EndsAt s.lines f.line f.endLine := by
  have ⟨before, line, after, hs, hl, he⟩ := Function.of_mem_blocksOf (s.functions_eq_blocksOf ▸ hf)
  have ⟨_, hp, hlt⟩ := List.pairwise_append.mp (hs ▸ s.pairwise_lines)
  rw [hs, hl, he]
  refine (Function.endsAt_endFrom hp (Nat.le_refl _) fun h => absurd h <| Nat.lt_irrefl _).append_left ?_
  exact fun l hm => Nat.le_of_lt <| hlt l hm line (.head _)

-- A function is read off from each header, with the header's line. Its block ends before the next one
-- starts and has no header and no `EndFunc` inside, and its last line is where such a block has to end.
theorem functions_span_blocks (s : Script) :
    (s.functions.map fun f => (f.name, f.parameters, f.line)) =
      (s.lines.filterMap fun line => (Function.header? line.text).map fun (name, list) =>
        (String.ofList name, Parameter.ofList list, line.number)) ∧
    s.functions.Pairwise (·.endLine < ·.line) ∧
    (∀ line, ∀ f ∈ s.functions, ∀ g ∈ s.functions, f.contains line → g.contains line → f = g) ∧
    ∀ f ∈ s.functions,
      f.line ≤ f.endLine ∧
      (∀ line ∈ s.lines, f.line < line.number → line.number < f.endLine →
        Function.header? line.text = none ∧ Function.isEnd line.text = false) ∧
      ∀ n, Function.EndsAt s.lines f.line n ↔ n = f.endLine := by
  refine ⟨?headers, s.pairwise_functions, fun _ _ hf _ hg => eq_of_contains hf hg, ?_⟩
  case headers =>
    have hm := congrArg (List.map fun f => (f.name, f.parameters, f.line)) s.map_functions
    simpa [Function.ofHeader?, List.map_filterMap, Function.comp_def] using hm
  intro f hf
  have he := endsAt_endLine hf
  refine ⟨line_le_endLine hf, ?plain, fun n => ⟨fun h => h.unique s.pairwise_lines he, fun h => h ▸ he⟩⟩
  case plain =>
    intro line hm hs hn
    have hp := he.isPlain hm hs hn
    exact ⟨hp.header, hp.isEnd⟩

-- `A` is cut off by the header of `B`, for the `EndFunc` before it is commented out. The first and the
-- last `EndFunc` end nothing, and `C` runs to the last line.
theorem functions_span_stray_ends :
    let s := ofText <| "EndFunc\nFunc A()\n#cs\nEndFunc\n#ce\nFunc B($p)\n$p.x = 1\nEndFunc ; B\n" ++
      "EndFunc\nVolatile Func C()\n$x = 1\n"
    s.functions = [⟨"A", [], 1, 4⟩, ⟨"B", [⟨"$p", false⟩], 5, 7⟩, ⟨"C", [], 9, 10⟩] ∧
      Function.EndsAt s.lines 1 4 ∧ Function.EndsAt s.lines 5 7 ∧ Function.EndsAt s.lines 9 10 := by
  intro s
  have hf : s.functions = [⟨"A", [], 1, 4⟩, ⟨"B", [⟨"$p", false⟩], 5, 7⟩, ⟨"C", [], 9, 10⟩] := by
    decide +kernel
  have ⟨_, _, _, hends⟩ := s.functions_span_blocks
  have hends {f : Function} (hm : f ∈ s.functions) : Function.EndsAt s.lines f.line f.endLine :=
    ((hends f hm).right.right f.endLine).mpr rfl
  exact ⟨hf, hends (f := ⟨"A", [], 1, 4⟩) (by simp [hf]),
    hends (f := ⟨"B", [⟨"$p", false⟩], 5, 7⟩) (by simp [hf]), hends (f := ⟨"C", [], 9, 10⟩) (by simp [hf])⟩

end Script

end ScriptMaps
