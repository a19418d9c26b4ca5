import Mathlib.Data.List.Infix
import ScriptMaps.Proofs.Script.Lines
import ScriptMaps.Proofs.Text.Lines
import ScriptMaps.Script.Keys

namespace ScriptMaps
open Text

-- How many more blocks are open after a line than before it, where a block is open to be closed.
def markWeight (line : List Char) : Int :=
  match blockMark? line with
  | some .opening => 1
  | some .closing => -1
  | none          => 0

-- The lines that open blocks less those that close them.
def balance (lines : List (List Char)) : Int :=
  lines.foldr (markWeight · + ·) 0

def nextDepth (depth : Nat) (line : List Char) : Nat :=
  match blockMark? line with
  | some .opening => depth + 1
  | some .closing => depth - 1
  | none          => depth

def depthAfter (depth : Nat) (lines : List (List Char)) : Nat :=
  lines.foldl nextDepth depth

-- A block that is closed by its last line and by none before it.
structure IsCommentBlock (block : List (List Char)) : Prop where
  opening  : block.head?.bind blockMark? = some .opening
  closing  : block.getLast?.bind blockMark? = some .closing
  inside   : ∀ front, front <+: block → front ≠ [] → front ≠ block → 1 ≤ balance front
  balanced : balance block = 0

-- Lines that start inside `depth` open blocks, of which one at least stays open up to the last line.
def StayInside (depth : Nat) (lines : List (List Char)) : Prop :=
  ∀ front, front <+: lines → front ≠ lines → 1 ≤ depth + balance front

variable {number depth : Nat} {line : List Char} {lines before block after : List (List Char)}

@[simp]
theorem balance_nil : balance [] = 0 :=
  rfl

@[simp]
theorem balance_cons (line : List Char) (lines : List (List Char)) :
    balance (line :: lines) = markWeight line + balance lines :=
  rfl

theorem codeLinesFrom_cons (number depth : Nat) (line : List Char) (lines : List (List Char)) :
    codeLinesFrom number depth (line :: lines) =
      (if depth = 0 ∧ blockMark? line ≠ some .opening then [⟨number, line⟩] else []) ++
        codeLinesFrom (number + 1) (nextDepth depth line) lines := by
  cases hm : blockMark? line <;> try cases ‹BlockMark›
  all_goals cases depth <;> simp [codeLinesFrom, nextDepth, hm]

theorem codeLinesFrom_append (number depth : Nat) (before after : List (List Char)) :
    codeLinesFrom number depth (before ++ after) =
      codeLinesFrom number depth before ++
        codeLinesFrom (number + before.length) (depthAfter depth before) after := by
  induction before generalizing number depth
  case nil => rfl
  case cons line before hi =>
    rw [List.cons_append, codeLinesFrom_cons, codeLinesFrom_cons, hi, List.append_assoc, List.length_cons,
      Nat.add_right_comm, Nat.add_assoc]
    rfl

theorem codeLinesFrom_add (number k depth : Nat) (lines : List (List Char)) :
    codeLinesFrom (number + k) depth lines =
      (codeLinesFrom number depth lines).map fun line => { line with number := line.number + k } := by
  induction lines generalizing number depth
  case nil => rfl
  case cons line lines hi =>
    rw [codeLinesFrom_cons, codeLinesFrom_cons, Nat.add_right_comm, hi, List.map_append]
    split <;> rfl

namespace StayInside

theorem pos (h : StayInside depth (line :: lines)) : 0 < depth := by
  have := h [] (List.nil_prefix) (by simp)
  simp at this
  omega

theorem nextDepth_eq (h : StayInside depth (line :: lines)) :
    (nextDepth depth line : Int) = depth + markWeight line := by
  have := h.pos
  rw [nextDepth, markWeight]
  split <;> omega

theorem tail (h : StayInside depth (line :: lines)) : StayInside (nextDepth depth line) lines := by
  intro front hp hn
  have := h (line :: front) (List.cons_prefix_cons.mpr ⟨rfl, hp⟩) (by simpa using hn)
  rw [h.nextDepth_eq]
  simp at this
  omega

-- None of the lines is code.
theorem codeLinesFrom_eq_nil (h : StayInside depth lines) : codeLinesFrom number depth lines = [] := by
  induction lines generalizing number depth
  case nil => rfl
  case cons line lines hi =>
    have := h.pos
    rw [codeLinesFrom_cons, if_neg (by omega), hi h.tail]
    rfl

theorem depthAfter_eq (h : StayInside depth lines) :
    (depthAfter depth lines : Int) = depth + balance lines := by
  induction lines generalizing depth
  case nil => simp [depthAfter]
  case cons line lines hi =>
    have hn := h.nextDepth_eq
    have hd := hi h.tail
    rw [balance_cons, ← Int.add_assoc, ← hn, ← hd]
    rfl

end StayInside

namespace IsCommentBlock

-- After its first line, a block is inside of itself.
theorem exists_cons (h : IsCommentBlock block) :
    ∃ line lines, block = line :: lines ∧ blockMark? line = some .opening ∧ balance lines = -1 ∧
      ∀ depth, StayInside (depth + 1) lines := by
  match block, h with
  | line :: lines, h =>
    have hm : blockMark? line = some .opening := by simpa using h.opening
    have hw : markWeight line = 1 := by rw [markWeight, hm]
    refine ⟨line, lines, rfl, hm, ?balance, ?inside⟩
    case balance =>
      have := h.balanced
      simp [hw] at this
      omega
    case inside =>
      intro depth front hp hn
      have := h.inside (line :: front) (List.cons_prefix_cons.mpr ⟨rfl, hp⟩) (by simp) (by simpa using hn)
      simp [hw] at this
      omega
  | [], h => simpa using h.opening

-- The lines after a block are read as if they stood in its place, whatever blocks are open there.
theorem codeLinesFrom_skip (h : IsCommentBlock block) (number depth : Nat) (after : List (List Char)) :
    codeLinesFrom number depth (block ++ after) = codeLinesFrom (number + block.length) depth after := by
  obtain ⟨line, lines, rfl, hm, hb, hs⟩ := h.exists_cons
  have hd : depthAfter (depth + 1) lines = depth := by
    have := (hs depth).depthAfter_eq
    omega
  rw [List.cons_append, codeLinesFrom_cons, if_neg (by simp [hm]), List.nil_append,
    show nextDepth depth line = depth + 1 by rw [nextDepth, hm], codeLinesFrom_append,
    (hs depth).codeLinesFrom_eq_nil, hd, List.nil_append, List.length_cons, Nat.add_right_comm, Nat.add_assoc]

end IsCommentBlock

-- Where the line `number` is after `count` lines are put before the line `n`.
def movedDown (n count number : Nat) : Nat :=
  if n ≤ number then number + count else number

theorem lt_of_mem_codeLinesFrom {line : CodeLine} (h : line ∈ codeLinesFrom number depth lines) :
    line.number < number + lines.length := by
  have := number_le_of_mem_codeLinesFrom h
  have ⟨hlt, _⟩ := List.getElem?_eq_some_iff.mp <| getElem?_of_mem_codeLinesFrom h
  omega

-- A block that is put before line `n` moves the lines from there on.
theorem codeLinesFrom_insert (h : IsCommentBlock block) (lines : List (List Char)) (n : Nat) :
    codeLinesFrom 0 0 (lines.take n ++ block ++ lines.drop n) =
      (codeLinesFrom 0 0 lines).map fun line =>
        { line with number := movedDown n block.length line.number } := by
  have hlines : codeLinesFrom 0 0 lines = _ :=
    congrArg (codeLinesFrom 0 0) (List.take_append_drop n lines).symm
  rw [hlines, List.append_assoc, codeLinesFrom_append, h.codeLinesFrom_skip, codeLinesFrom_append,
    codeLinesFrom_add, List.map_append]
  congr 1
  case e_a =>
    refine (List.map_id _).symm.trans <| List.map_congr_left ?_
    intro line hl
    have hlt := lt_of_mem_codeLinesFrom hl
    rw [List.length_take] at hlt
    rw [movedDown, if_neg (by omega)]
    rfl
  case e_a =>
    refine List.map_congr_left ?_
    intro line hl
    have hle := number_le_of_mem_codeLinesFrom hl
    have hlt := lt_of_mem_codeLinesFrom hl
    rw [List.length_take, List.length_drop] at hlt
    rw [List.length_take] at hle
    rw [movedDown, if_pos (by omega)]

-- The number of a line has no part in what is recognised on it, apart from the line of the result.
theorem Declaration.ofLine?_renumber (line : CodeLine) (number : Nat) :
    ofLine? { line with number } = (ofLine? line).map ({ · with line := number }) := by
  simp only [ofLine?, Option.bind_eq_bind, Option.map_bind]
  congr
  funext (keyword, name)
  cases h : Scope.ofKeyword? (String.ofList keyword) <;> simp [h]

theorem Assignment.ofLine?_renumber (map : List Char) (line : CodeLine) (number : Nat) :
    ofLine? map { line with number } = (ofLine? map line).map ({ · with line := number }) := by
  rw [ofLine?, ofLine?]
  cases dotKey? map line.text
  case some key => rfl
  case none     =>
    cases bracketKey? map line.text
    case none     => rfl
    case some key => cases key <;> rfl

theorem Include.ofLine?_renumber (line : CodeLine) (number : Nat) :
    ofLine? { line with number } = (ofLine? line).map ({ · with line := number }) := by
  simp only [ofLine?, Option.bind_eq_bind]
  cases afterKeyword? "#include".toList (trimStart line.text)
  case none    => rfl
  case some cs =>
    rw [Option.bind_some, Option.bind_some]
    cases readTarget? (trimStart cs)
    case none   => rfl
    case some x =>
      rw [Option.bind_some, Option.bind_some]
      cases trim x.2 <;> rfl

theorem Call.ofLine_renumber (map : List Char) (line : CodeLine) (number : Nat) :
    ofLine map { line with number } = (ofLine map line).map ({ · with line := number }) := by
  rw [ofLine, ofLine]
  split
  case isTrue  => rfl
  case isFalse =>
    simp only [List.map_flatMap, List.map_map]
    rfl

theorem Call.line_of_mem_ofLine {map : List Char} {line : CodeLine} {call : Call}
    (h : call ∈ ofLine map line) : call.line = line.number := by
  rw [ofLine] at h
  split at h
  case isTrue  => cases h
  case isFalse =>
    obtain ⟨_, _, h⟩ := List.mem_flatMap.mp h
    obtain ⟨_, _, rfl⟩ := List.mem_map.mp h
    rfl

-- What is read from lines moves with them.
theorem filterMap_map_number {β : Type} {read : CodeLine → Option β} {place : β → Nat → β}
    {lineOf : β → Nat} (hr : ∀ line number, read { line with number } = (read line).map (place · number))
    (hl : ∀ {line b}, read line = some b → lineOf b = line.number) (move : Nat → Nat)
    (lines : List CodeLine) :
    (lines.map fun line => { line with number := move line.number }).filterMap read =
      (lines.filterMap read).map fun b => place b (move (lineOf b)) := by
  rw [List.filterMap_map, List.map_filterMap]
  refine List.filterMap_congr ?_
  intro line _
  rw [Function.comp_apply, hr]
  cases hb : read line
  case none   => rfl
  case some b => rw [Option.map_some, Option.map_some, hl hb]

theorem Call.flatMap_map_number (map : List Char) (move : Nat → Nat) (lines : List CodeLine) :
    (lines.map fun line => { line with number := move line.number }).flatMap (ofLine map) =
      (lines.flatMap (ofLine map)).map fun call => { call with line := move call.line } := by
  rw [List.flatMap_map, List.map_flatMap]
  refine List.flatMap_congr ?_
  intro line _
  rw [ofLine_renumber]
  refine List.map_congr_left ?_
  intro call hc
  rw [line_of_mem_ofLine hc]

namespace Script

variable {s t : Script} {n : Nat}

theorem lines_of_madeOf (h : MadeOf s.source.toList lines) : s.lines = codeLinesFrom 0 0 lines := by
  rw [s.lines_eq, codeLines, withoutMark_of_head? h.unmarked, h.lines_eq]

theorem directKeys_everywhere (s : Script) (map : String) :
    (s.keysAt map .everywhere).directKeys = ((s.assignments map).map (·.key)).eraseDups := by
  simp [keysAt, visibility, Visibility.contains]

-- Lines between which a comment block is put are recognised as they were. Those after it are moved down by
-- the length of the block, and the keys of the whole script stay the same.
theorem insert_commentBlock (s t : Script) (lines block : List (List Char)) (n : Nat)
    (hs : MadeOf s.source.toList lines) (hb : IsCommentBlock block)
    (ht : MadeOf t.source.toList (lines.take n ++ block ++ lines.drop n)) :
    let moved := movedDown n block.length
    t.declarations = s.declarations.map (fun d => { d with line := moved d.line }) ∧
    (∀ map, t.assignments map = (s.assignments map).map fun a => { a with line := moved a.line }) ∧
    (∀ map, t.calls map = (s.calls map).map fun call => { call with line := moved call.line }) ∧
    Include.ofText t.source = (Include.ofText s.source).map (fun i => { i with line := moved i.line }) ∧
    ∀ map, (t.keysAt map .everywhere).directKeys = (s.keysAt map .everywhere).directKeys := by
  intro moved
  have hlines : t.lines = s.lines.map fun line => { line with number := moved line.number } := by
    rw [lines_of_madeOf ht, lines_of_madeOf hs]
    exact codeLinesFrom_insert hb lines n
  have hassignments (map : String) :
      t.assignments map = (s.assignments map).map fun a => { a with line := moved a.line } := by
    rw [assignments, hlines]
    exact filterMap_map_number (Assignment.ofLine?_renumber _) Assignment.line_of_ofLine? moved s.lines
  refine ⟨?declarations, hassignments, ?calls, ?includes, ?keys⟩
  case declarations =>
    rw [t.declarations_eq, hlines, s.declarations_eq]
    exact filterMap_map_number Declaration.ofLine?_renumber Declaration.line_of_ofLine? moved s.lines
  case calls =>
    intro map
    rw [calls, hlines]
    exact Call.flatMap_map_number _ moved s.lines
  case includes =>
    rw [Include.ofText, Include.ofText, ← t.lines_eq, ← s.lines_eq, hlines]
    exact filterMap_map_number Include.ofLine?_renumber Include.line_of_ofLine? moved s.lines
  case keys =>
    intro map
    simp [directKeys_everywhere, hassignments, Function.comp_def]

-- The block is nested, holds code and is put into another block, which a stray end follows.
theorem insert_commentBlock_nested :
    let s := ofText "$m.a = 1\n#cs\n#ce\n#ce\nf($m)\nGlobal $m[]\n#include <x>"
    let t := ofText <| "$m.a = 1\n#cs\n\t#Comments-Start\n$m.b = 1\n#cs\n#ce\n#include <y>\n#CE;\n" ++
      "#ce\n#ce\nf($m)\nGlobal $m[]\n#include <x>"
    let block := ["\t#Comments-Start", "$m.b = 1", "#cs", "#ce", "#include <y>", "#CE;"].map String.toList
    IsCommentBlock block ∧
    s.declarations = [⟨"$m", .globalVar, 5⟩] ∧ t.declarations = [⟨"$m", .globalVar, 11⟩] ∧
    t.assignments "$m" = s.assignments "$m" ∧ t.calls "$m" = [⟨"f", 0, 10⟩] ∧
    Include.ofText t.source = [⟨.library, "x", 12⟩] ∧
    (t.keysAt "$m" .everywhere).directKeys = (s.keysAt "$m" .everywhere).directKeys := by
  intro s t block
  let lines := ["$m.a = 1", "#cs", "#ce", "#ce", "f($m)", "Global $m[]", "#include <x>"].map String.toList
  have hb : IsCommentBlock block := by
    refine ⟨by decide +kernel, by decide +kernel, ?inside, by decide +kernel⟩
    have h : ∀ front ∈ block.inits, front ≠ [] → front ≠ block → 1 ≤ balance front := by decide +kernel
    exact fun front hp => h front ((List.mem_inits front block).mpr hp)
  have hs : MadeOf s.source.toList lines :=
    ⟨by decide +kernel, by decide +kernel, .inr (by decide +kernel)⟩
  have ht : MadeOf t.source.toList (lines.take 2 ++ block ++ lines.drop 2) :=
    ⟨by decide +kernel, by decide +kernel, .inr (by decide +kernel)⟩
  have ⟨hdeclarations, hassignments, hcalls, hincludes, hkeys⟩ :=
    insert_commentBlock s t lines block 2 hs hb ht
  refine ⟨hb, by decide +kernel, ?_, ?_, ?_, ?_, hkeys "$m"⟩
  case refine_1 => rw [hdeclarations]; decide +kernel
  case refine_2 => rw [hassignments]; decide +kernel
  case refine_3 => rw [hcalls]; decide +kernel
  case refine_4 => rw [hincludes]; decide +kernel

end Script

end ScriptMaps
