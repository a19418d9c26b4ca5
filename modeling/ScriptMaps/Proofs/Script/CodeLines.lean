import ScriptMaps.Proofs.Script.CommentBlocks

-- A closing line where no block is open closes nothing, so the number of open blocks is not the surplus of
-- opening lines over closing ones. It is the largest surplus of the lines from some line on.

namespace ScriptMaps
open Text

variable {number depth i : Nat} {line stray plain : List Char} {lines : List (List Char)}

theorem nextDepth_eq_max (depth : Nat) (line : List Char) :
    (nextDepth depth line : Int) = max 0 (depth + markWeight line) := by
  rw [nextDepth, markWeight]
  split <;> omega

theorem nextDepth_zero (h : blockMark? line ≠ some .opening) : nextDepth 0 line = 0 := by
  rw [nextDepth]
  split
  case h_1 hm => exact absurd hm h
  all_goals rfl

-- The blocks that are open after some lines: those that were open before, unless too many are closed on the
-- way, or those that are left open from one of the lines on.
theorem depthAfter_le_iff {most : Nat} :
    depthAfter depth lines ≤ most ↔
      depth + balance lines ≤ most ∧ ∀ j, balance (lines.drop j) ≤ most := by
  induction lines generalizing depth
  case nil => simp [depthAfter]
  case cons line lines hi =>
    have hnext := nextDepth_eq_max depth line
    have hd : depthAfter depth (line :: lines) = depthAfter (nextDepth depth line) lines := rfl
    rw [hd, hi, ← Nat.and_forall_add_one (p := fun j => balance ((line :: lines).drop j) ≤ most)]
    simp only [List.drop_zero, List.drop_succ_cons, balance_cons]
    constructor
    case mp =>
      rintro ⟨hb, hs⟩
      exact ⟨by omega, by omega, hs⟩
    case mpr =>
      -- where the depth is cut off at zero, the bound is that of the lines after this one
      rintro ⟨hb, _, hs⟩
      have hrest : balance lines ≤ most := hs 0
      exact ⟨by omega, hs⟩

theorem depthAfter_eq_zero_iff : depthAfter 0 lines = 0 ↔ ∀ j, balance (lines.drop j) ≤ 0 := by
  rw [← Nat.le_zero, depthAfter_le_iff]
  exact ⟨fun h => h.right, fun h => ⟨by simpa using h 0, h⟩⟩

theorem mem_codeLinesFrom_iff {line : CodeLine} :
    line ∈ codeLinesFrom number depth lines ↔
      ∃ i, line.number = number + i ∧ lines[i]? = some line.text ∧
        blockMark? line.text ≠ some .opening ∧ depthAfter depth (lines.take i) = 0 := by
  induction lines generalizing number depth
  case nil => simp [codeLinesFrom]
  case cons first lines hi =>
    rw [codeLinesFrom_cons, List.mem_append, hi]
    refine .trans (or_congr ?first ?rest) Nat.or_exists_add_one
    case first =>
      simp only [List.getElem?_cons_zero, Option.some_inj]
      constructor
      case mp =>
        intro h
        split at h
        case isTrue hf =>
          cases List.mem_singleton.mp h
          exact ⟨rfl, rfl, hf.right, hf.left⟩
        case isFalse => cases h
      case mpr =>
        obtain ⟨n, text⟩ := line
        rintro ⟨rfl, rfl, hm, hd⟩
        rw [if_pos ⟨hd, hm⟩]
        exact .head _
    case rest =>
      have hd (i : Nat) : depthAfter depth ((first :: lines).take (i + 1)) =
          depthAfter (nextDepth depth first) (lines.take i) := rfl
      simp only [hd, List.getElem?_cons_succ, Nat.add_assoc, Nat.add_comm 1]

theorem mem_codeLinesFrom_zero_iff :
    ⟨i, line⟩ ∈ codeLinesFrom 0 0 lines ↔
      lines[i]? = some line ∧ blockMark? line ≠ some .opening ∧
        ∀ j ≤ i, balance ((lines.take i).drop j) ≤ 0 := by
  have hsums : (∀ j ≤ i, balance ((lines.take i).drop j) ≤ 0) ↔ depthAfter 0 (lines.take i) = 0 := by
    rw [depthAfter_eq_zero_iff]
    refine ⟨fun h j => ?_, fun h j _ => h j⟩
    by_cases hj : j ≤ i
    case pos => exact h j hj
    case neg => simp [List.drop_take, Nat.sub_eq_zero_of_le (Nat.le_of_not_le hj)]
  rw [mem_codeLinesFrom_iff, hsums]
  simp

-- A line that closes a block where none is open is read as a line without a mark would be in its place.
theorem codeLinesFrom_set_stray (hs : ⟨i, stray⟩ ∈ codeLinesFrom 0 0 lines)
    (hc : blockMark? stray = some .closing) (hp : blockMark? plain = none) :
    codeLinesFrom 0 0 (lines.set i plain) =
      (codeLinesFrom 0 0 lines).map fun line => if line.number = i then ⟨i, plain⟩ else line := by
  obtain ⟨k, hk, hl, _, hd⟩ := mem_codeLinesFrom_iff.mp hs
  obtain rfl : i = k := by simpa using hk
  obtain ⟨hi, hstray⟩ := List.getElem?_eq_some_iff.mp hl
  obtain ⟨before, after, hlines, hlen, hset⟩ : ∃ before after, lines = before ++ lines[i] :: after ∧
      before.length = i ∧ lines.set i plain = before ++ plain :: after := List.exists_of_set hi
  rw [hstray] at hlines
  rw [hlines, ← hlen, List.take_left] at hd
  have hcons (line : List Char) (hm : blockMark? line ≠ some .opening) :
      codeLinesFrom i 0 (line :: after) = ⟨i, line⟩ :: codeLinesFrom (i + 1) 0 after := by
    rw [codeLinesFrom_cons, if_pos ⟨rfl, hm⟩, nextDepth_zero hm]
    rfl
  have hkeep (others : List CodeLine) (h : ∀ line ∈ others, line.number ≠ i) :
      others.map (fun line => if line.number = i then ⟨i, plain⟩ else line) = others :=
    (List.map_congr_left fun line hm => if_neg (h line hm)).trans <| List.map_id _
  have hbefore : ∀ line ∈ codeLinesFrom 0 0 before, line.number ≠ i := by
    intro line hm
    have := lt_of_mem_codeLinesFrom hm
    omega
  have hafter : ∀ line ∈ codeLinesFrom (i + 1) 0 after, line.number ≠ i := by
    intro line hm
    exact Nat.ne_of_gt <| number_le_of_mem_codeLinesFrom hm
  rw [hset, hlines, codeLinesFrom_append, codeLinesFrom_append, hd, Nat.zero_add, hlen,
    hcons plain (by simp [hp]), hcons stray (by simp [hc]), List.map_append, List.map_cons, if_pos rfl,
    hkeep _ hbefore, hkeep _ hafter]

-- The code lines of a text are its lines that open no block and before which no stretch of lines, however
-- long, opens more blocks than it closes. They come in order, and a line that closes a block which is not
-- open has no effect on the others.
theorem codeLines_outside_blocks (text : List Char) :
    let read := Text.lines (withoutMark text)
    (∀ i line, ⟨i, line⟩ ∈ codeLines text ↔
      read[i]? = some line ∧ blockMark? line ≠ some .opening ∧
        ∀ j ≤ i, balance ((read.take i).drop j) ≤ 0) ∧
    (codeLines text).Pairwise (·.number < ·.number) ∧
    ∀ i stray plain text', ⟨i, stray⟩ ∈ codeLines text → blockMark? stray = some .closing →
      blockMark? plain = none → Text.lines (withoutMark text') = read.set i plain →
      codeLines text' =
        (codeLines text).map fun line => if line.number = i then ⟨i, plain⟩ else line := by
  intro read
  refine ⟨fun i line => mem_codeLinesFrom_zero_iff, pairwise_codeLinesFrom .., ?_⟩
  intro i stray plain text' hs hc hp ht
  rw [codeLines, ht]
  exact codeLinesFrom_set_stray hs hc hp

-- Closing lines stand at the start, after a nested block and inside of it; the last block stays open.
theorem codeLines_outside_blocks_stray :
    let text := "\uFEFF#ce\na\n#cs\n\t#CS\nb\n#ce\nc\n#ce\n#Comments-End;\nd\n#cs\n#ce x\n#cs\ne".toList
    let text' := "#ce\na\n#cs\n\t#CS\nb\n#ce\nc\n#ce\nf\nd\n#cs\n#ce x\n#cs\ne".toList
    let stray := "#Comments-End;".toList
    (codeLines text).map (·.number) = [0, 1, 8, 9] ∧
    (codeLines text).Pairwise (·.number < ·.number) ∧
    (∀ j ≤ 9, balance (((Text.lines (withoutMark text)).take 9).drop j) ≤ 0) ∧
    (⟨6, "c".toList⟩ ∉ codeLines text ∧
      balance (((Text.lines (withoutMark text)).take 6).drop 2) = 1) ∧
    ⟨8, stray⟩ ∈ codeLines text ∧ blockMark? stray = some .closing ∧
    codeLines text' =
      (codeLines text).map fun line => if line.number = 8 then ⟨8, "f".toList⟩ else line := by
  intro text text' stray
  obtain ⟨hmem, hpairwise, hstray⟩ := codeLines_outside_blocks text
  have hs : ⟨8, stray⟩ ∈ codeLines text := by decide +kernel
  have hd : ⟨9, "d".toList⟩ ∈ codeLines text := by decide +kernel
  have hb : balance (((Text.lines (withoutMark text)).take 6).drop 2) = 1 := by decide +kernel
  refine ⟨by decide +kernel, hpairwise, ((hmem 9 _).mp hd).right.right, ⟨?_, hb⟩, hs, by decide +kernel,
    hstray 8 stray "f".toList text' hs (by decide +kernel) (by decide +kernel) (by decide +kernel)⟩
  intro hc
  have := ((hmem 6 _).mp hc).right.right 2 (by decide)
  omega

end ScriptMaps
