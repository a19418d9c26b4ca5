import ScriptMaps.Proofs.Script.Alike
import ScriptMaps.Proofs.Script.Scanners
import ScriptMaps.Proofs.Text.Lines

namespace ScriptMaps
open Text

theorem head?_appendToLine (c : Char) (suffix : List Char) (n : Nat) (d : Char) (cs : List Char) :
    (appendToLine (c :: suffix) n (d :: cs)).head? = some c ∨
      (appendToLine (c :: suffix) n (d :: cs)).head? = some d := by
  -- The equation keeps the head in the cases, which do not say what `d` is.
  generalize ht : d :: cs = text
  fun_cases appendToLine (c :: suffix) n text
  all_goals simp_all

-- The mark at the start of a text stays there, for the suffix does not start with one.
theorem withoutMark_appendToLine {c : Char} (hc : c ≠ '\uFEFF') (suffix : List Char) (n : Nat)
    (text : List Char) :
    withoutMark (appendToLine (c :: suffix) n text) = appendToLine (c :: suffix) n (withoutMark text) := by
  cases text
  case nil => cases n <;> simp [withoutMark, appendToLine, hc]
  case cons d cs =>
    by_cases hd : d = '\uFEFF'
    case pos => subst hd; cases n <;> rfl
    case neg =>
      have hhead : (appendToLine (c :: suffix) n (d :: cs)).head? ≠ some '\uFEFF' := by
        obtain h | h := head?_appendToLine c suffix n d cs <;> simp [h, hc, hd]
      rw [withoutMark_of_head? hhead, withoutMark_of_head? (by simpa using hd)]

-- The line with more text at its end, if it is line `n`.
def CodeLine.extend (n : Nat) (text : List Char) (line : CodeLine) : CodeLine :=
  { line with text := if line.number = n then line.text ++ text else line.text }

-- Text that bounds no comment block, at the end of a line, changes the text of that line alone.
theorem codeLinesFrom_modify {lines : List (List Char)} {n : Nat} {line text : List Char}
    (hl : lines[n]? = some line) (hm : blockMark? (line ++ text) = blockMark? line) (depth : Nat) :
    codeLinesFrom 0 depth (lines.modify n (· ++ text)) =
      (codeLinesFrom 0 depth lines).map (·.extend n text) := by
  rw [eq_comm, ← List.forall₂_eq_eq_eq, List.forall₂_map_left_iff]
  refine (forall₂_codeLinesFrom (R := fun i l l' => l' = if i = n then l ++ text else l)
    0 depth (by simp) ?lines).imp ?extend
  case extend =>
    intro a b ⟨hn, ht⟩
    cases a
    cases b
    simp_all [CodeLine.extend]
  case lines =>
    intro i l l' hi hi'
    rw [List.getElem?_modify, hi] at hi'
    rw [Nat.zero_add]
    by_cases hn : i = n
    case pos =>
      subst hn
      cases hi.symm.trans hl
      have hl' : l' = line ++ text := by simpa using hi'.symm
      exact ⟨hl' ▸ hm.symm, by rw [if_pos rfl, hl']⟩
    case neg =>
      have hl' : l' = l := by simpa [Ne.symm hn] using hi'.symm
      exact ⟨by rw [hl'], by rw [if_neg hn, hl']⟩

namespace Script

variable {s : Script} {line : CodeLine} {comment : String}

-- The script with a comment at the end of the line `n`.
def withComment (s : Script) (n : Nat) (comment : String) : Script :=
  ofText <| String.ofList <| appendToLine (" ; ".toList ++ comment.toList) n s.source.toList

theorem lines_withComment (hl : line ∈ s.lines) (ho : EndsOutside none line.text)
    (hc : '\n' ∉ comment.toList) :
    ∃ kept, Kept comment.toList kept ∧
      (s.withComment line.number comment).lines =
        s.lines.map (·.extend line.number (' ' :: ';' :: ' ' :: kept)) := by
  rw [s.lines_eq] at hl ⊢
  have hline := getElem?_of_mem_codeLinesFrom hl
  have ⟨hlt, _⟩ := List.getElem?_eq_some_iff.mp hline
  have ⟨_, hsuffix, ht⟩ : ∃ kept, Kept (" ; ".toList ++ comment.toList) kept ∧ _ :=
    lines_appendToLine (by simpa using hc) (by simp) hlt
  obtain ⟨kept, hkept, rfl⟩ := hsuffix.of_append (by decide)
  refine ⟨kept, hkept, ?_⟩
  rw [Script.lines_eq, codeLines, withComment, source_ofText, String.toList_ofList]
  have hmark : withoutMark (appendToLine (" ; ".toList ++ comment.toList) line.number s.source.toList) =
      appendToLine (" ; ".toList ++ comment.toList) line.number (withoutMark s.source.toList) :=
    withoutMark_appendToLine (by decide) _ _ _
  rw [hmark]
  exact (congrArg (codeLinesFrom 0 0) ht).trans <| codeLinesFrom_modify hline (blockMark?_append ho) 0

variable {β γ : Type} {text : List Char}

-- What does not change on the line itself does not change on any line.
theorem apply_extend {g : CodeLine → γ} (hl : line ∈ s.lines)
    (hg : g ⟨line.number, line.text ++ text⟩ = g line) :
    ∀ other ∈ s.lines, g (other.extend line.number text) = g other := by
  intro other hm
  by_cases hn : other.number = line.number
  case pos =>
    cases eq_of_number s.pairwise_lines hm hl hn
    simpa [CodeLine.extend] using hg
  case neg => simp [CodeLine.extend, hn]

theorem filterMap_extend {f : CodeLine → Option β} (hl : line ∈ s.lines)
    (hf : f ⟨line.number, line.text ++ text⟩ = f line) :
    (s.lines.map (·.extend line.number text)).filterMap f = s.lines.filterMap f := by
  rw [List.filterMap_map]
  exact List.filterMap_congr <| apply_extend hl hf

-- What appears on a line that had nothing is found nowhere else.
theorem filterMap_extend_ne {f : CodeLine → Option β} {lineOf : β → Nat}
    (hf : ∀ {line b}, f line = some b → lineOf b = line.number) (hl : line ∈ s.lines)
    (hn : f line = none) (hs : (f ⟨line.number, line.text ++ text⟩).isSome) :
    (s.lines.map (·.extend line.number text)).filterMap f ≠ s.lines.filterMap f := by
  intro he
  have ⟨b, hb⟩ := Option.isSome_iff_exists.mp hs
  have hmem : b ∈ (s.lines.map (·.extend line.number text)).filterMap f :=
    List.mem_filterMap.mpr ⟨_, List.mem_map_of_mem hl, by simpa [CodeLine.extend] using hb⟩
  have ⟨other, hm, ho⟩ := List.mem_filterMap.mp <| he ▸ hmem
  have hline := hf hb
  cases eq_of_number s.pairwise_lines hm hl <| (hf ho).symm.trans hline
  simp [hn] at ho

theorem declarations_withComment (hl : line ∈ s.lines) (ho : EndsOutside none line.text)
    (hc : '\n' ∉ comment.toList) :
    (s.withComment line.number comment).declarations = s.declarations := by
  have ⟨kept, _, ht⟩ := lines_withComment hl ho hc
  rw [Script.declarations_eq, ht, s.declarations_eq]
  exact filterMap_extend hl <| Declaration.ofLine?_append ho

theorem calls_withComment (hl : line ∈ s.lines) (ho : EndsOutside none line.text)
    (hc : '\n' ∉ comment.toList) (map : String) :
    (s.withComment line.number comment).calls map = s.calls map := by
  have ⟨kept, _, ht⟩ := lines_withComment hl ho hc
  rw [calls, calls, ht, List.flatMap_map]
  exact List.flatMap_congr <| apply_extend hl <| Call.ofLine_append ho

theorem assignments_withComment (hl : line ∈ s.lines) (ho : EndsOutside none line.text)
    (hc : '\n' ∉ comment.toList) {map : String} (hm : ∀ c ∈ map.toList, c ∉ marks) :
    (s.withComment line.number comment).assignments map = s.assignments map := by
  have ⟨kept, _, ht⟩ := lines_withComment hl ho hc
  rw [assignments, assignments, ht]
  exact filterMap_extend hl <| Assignment.ofLine?_append hm ho

theorem functions_withComment_iff (hl : line ∈ s.lines) (ho : EndsOutside none line.text)
    (hc : '\n' ∉ comment.toList) :
    (s.withComment line.number comment).functions = s.functions ↔
      ¬(Function.IsUnclosed line.text ∧ ')' ∈ comment.toList) := by
  have ⟨kept, hkept, ht⟩ := lines_withComment hl ho hc
  have hparen : ')' ∈ ' ' :: kept ↔ ')' ∈ comment.toList := by simp [hkept.mem_iff]
  rw [← hparen]
  obtain ⟨hu, hp, hn, hs⟩ | ⟨hu, he⟩ := Function.header?_append_cases ho
  case inl =>
    refine iff_of_false ?_ fun h => h ⟨hu, hp⟩
    intro he
    -- The ends of functions may move with the new header, so only their heads are compared.
    have hheads := congrArg (List.map fun f : Function => { f with endLine := f.line }) he
    rw [map_functions, map_functions, ht] at hheads
    refine filterMap_extend_ne Function.line_of_ofHeader? hl ?_ ?_ hheads
    case refine_1 => exact Function.ofHeader?_eq_none_iff.mpr hn
    case refine_2 => rwa [Function.ofHeader?_isSome]
  case inr =>
    refine iff_of_true ?_ hu
    rw [Script.functions_eq, s.functions_eq, ht]
    refine Function.ofLinesFrom_congr none 0 ?_
    rw [List.forall₂_map_left_iff, List.forall₂_same]
    intro other hm
    have hheader := apply_extend (g := Function.ofHeader?) hl (congrArg (Option.map _) he) other hm
    exact ⟨rfl, hheader, apply_extend (g := (Function.isEnd ·.text)) hl (Function.isEnd_append ho) other hm⟩

theorem includes_withComment_iff (hl : line ∈ s.lines) (ho : EndsOutside none line.text)
    (hc : '\n' ∉ comment.toList) :
    Include.ofText (s.withComment line.number comment).source = Include.ofText s.source ↔
      ¬(Include.IsUnclosed line.text ∧ '>' ∈ comment.toList) := by
  have ⟨kept, hkept, ht⟩ := lines_withComment hl ho hc
  have hbracket : '>' ∈ ' ' :: kept ↔ '>' ∈ comment.toList := by simp [hkept.mem_iff]
  rw [← hbracket, Include.ofText, Include.ofText, ← Script.lines_eq, ← s.lines_eq, ht]
  obtain ⟨hu, hb, hn, hs⟩ | ⟨hu, he⟩ := Include.ofLine?_append_cases ho
  case inl => exact iff_of_false (filterMap_extend_ne Include.line_of_ofLine? hl hn hs) fun h => h ⟨hu, hb⟩
  case inr => exact iff_of_true (filterMap_extend hl he) hu

-- A comment that ends a line of code is not code, unless it closes a parameter list or the target of a
-- library include that the line leaves open. Of assignments this holds for names in which no comment and
-- no literal starts.
theorem withComment_keeps_code (hl : line ∈ s.lines) (ho : EndsOutside none line.text)
    (hc : '\n' ∉ comment.toList) :
    let t := s.withComment line.number comment
    t.declarations = s.declarations ∧
    (∀ map, t.calls map = s.calls map) ∧
    (∀ map, (∀ c ∈ map.toList, c ∉ marks) → t.assignments map = s.assignments map) ∧
    (t.functions = s.functions ↔ ¬(Function.IsUnclosed line.text ∧ ')' ∈ comment.toList)) ∧
    (Include.ofText t.source = Include.ofText s.source ↔
      ¬(Include.IsUnclosed line.text ∧ '>' ∈ comment.toList)) :=
  ⟨declarations_withComment hl ho hc, calls_withComment hl ho hc,
    fun _ hm => assignments_withComment hl ho hc hm, functions_withComment_iff hl ho hc,
    includes_withComment_iff hl ho hc⟩

-- The comment holds an assignment, a call and a parenthesis, but the line closes its own.
theorem withComment_keeps_call :
    let s := ofText "Global $a[]\nFunc F($p)\n$a.k = F($a)\nEndFunc\n#include <lib.au3>\n"
    let t := s.withComment 2 "$a.x = F($a)"
    t.source = "Global $a[]\nFunc F($p)\n$a.k = F($a) ; $a.x = F($a)\nEndFunc\n#include <lib.au3>\n" ∧
    t.declarations = s.declarations ∧ t.functions = s.functions ∧
    t.assignments "$a" = s.assignments "$a" ∧ t.calls "$a" = s.calls "$a" ∧
    Include.ofText t.source = Include.ofText s.source := by
  intro s t
  have hl : ⟨2, "$a.k = F($a)".toList⟩ ∈ s.lines := by decide +kernel
  have hc : '\n' ∉ "$a.x = F($a)".toList := by decide +kernel
  have ⟨hd, hcalls, ha, hf, hi⟩ := withComment_keeps_code hl (by decide +kernel) hc
  refine ⟨by decide +kernel, hd, hf.mpr ?_, ha "$a" (by simp [marks]), hcalls "$a", hi.mpr ?_⟩
  case refine_1 => exact fun h => Function.notMem_of_isUnclosed h.left (by decide +kernel)
  case refine_2 => exact fun h => absurd h.right (by decide +kernel)

-- Comments that close a header and an include, and one that goes on with the name of a Map.
theorem comment_read_as_code :
    let s := ofText "Func F($a, _\n$b)\n#include <lib\n$a\n"
    (∀ line ∈ s.lines, EndsOutside none line.text) ∧ s.lines.map (·.number) = [0, 1, 2, 3] ∧
    s.functions = [] ∧
    (s.withComment 0 "and $b)").functions = [⟨"F", [⟨"$a", false⟩, ⟨"$b", false⟩], 0, 3⟩] ∧
    Include.ofText s.source = [] ∧
    Include.ofText (s.withComment 2 "x>").source = [⟨.library, "lib ; x", 2⟩] ∧
    s.assignments "$a ; b" = [] ∧
    (s.withComment 3 "b.k = 1").assignments "$a ; b" = [⟨"k", 3, .dot⟩] := by
  decide +kernel

end Script

end ScriptMaps
