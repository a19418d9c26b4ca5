import ScriptMaps.Proofs.Script.Isolation
import ScriptMaps.Proofs.Text.Lines

namespace ScriptMaps
open Text

namespace Text

variable {current cs line : List Char} {c : Char}

inductive LineEnd
  | lf
  | crlf
  deriving DecidableEq, Repr

namespace LineEnd

def text : LineEnd → List Char
  | lf   => ['\n']
  | crlf => ['\r', '\n']

-- The text with every line feed replaced by the line end.
def write (e : LineEnd) (cs : List Char) : List Char :=
  cs.flatMap fun c => if c = '\n' then e.text else [c]

theorem write_cons_of_ne (e : LineEnd) (h : c ≠ '\n') (cs : List Char) :
    e.write (c :: cs) = c :: e.write cs := by
  simp [write, h]

theorem write_newline (e : LineEnd) (cs : List Char) : e.write ('\n' :: cs) = e.text ++ e.write cs := by
  simp [write]

-- The first character of a text is written as it is, or as the start of a line end.
theorem head?_write_ne {d : Char} (e : LineEnd) (hr : d ≠ '\r') (h : cs.head? ≠ some d) :
    (e.write cs).head? ≠ some d := by
  cases cs
  case nil => simp [write]
  case cons c cs =>
    by_cases hn : c = '\n'
    case neg => simpa [e.write_cons_of_ne hn] using h
    case pos =>
      subst hn
      rw [write_newline]
      cases e
      case lf   => simpa [text] using h
      case crlf => simpa [text] using hr.symm

-- Both line ends finish the line that is being read, and leave nothing of themselves in it.
theorem linesFrom_text_append (e : LineEnd) (h : current.head? ≠ some '\r') (cs : List Char) :
    linesFrom current (e.text ++ cs) = current.reverse :: linesFrom [] cs := by
  cases e
  case lf   => simp [text, linesFrom, finishLine_of_head? h]
  case crlf => simp [text, linesFrom, finishLine]

-- A carriage return of the text itself could be taken for a part of the line end that follows it. There
-- is none in the rest of the text, and none at the end of what has been read.
theorem linesFrom_write (e : LineEnd) (hc : current.head? ≠ some '\r') (h : '\r' ∉ cs) :
    linesFrom current (e.write cs) = linesFrom current cs := by
  induction cs generalizing current
  case nil => rfl
  case cons c cs hi =>
    have ⟨hr, hcs⟩ : c ≠ '\r' ∧ '\r' ∉ cs := by simpa [eq_comm] using h
    by_cases hn : c = '\n'
    case pos =>
      subst hn
      have hlf : linesFrom current ('\n' :: cs) = current.reverse :: linesFrom [] cs :=
        lf.linesFrom_text_append hc cs
      rw [write_newline, e.linesFrom_text_append hc, hlf, hi (by simp) hcs]
    case neg =>
      rw [e.write_cons_of_ne hn, linesFrom, if_neg hn, linesFrom, if_neg hn]
      exact hi (by simpa using hr) hcs

end LineEnd

theorem mem_of_mem_finishLine (h : c ∈ finishLine current) : c ∈ current := by
  rw [finishLine.eq_def] at h
  split at h
  case h_1 => exact .tail _ <| List.mem_reverse.mp h
  case h_2 => exact List.mem_reverse.mp h

-- Lines hold no characters but those of the text.
theorem mem_of_mem_linesFrom (hl : line ∈ linesFrom current cs) (hc : c ∈ line) : c ∈ current ∨ c ∈ cs := by
  fun_induction linesFrom current cs
  case case1 => cases hl
  case case2 =>
    cases List.mem_singleton.mp hl
    exact .inl <| List.mem_reverse.mp hc
  case case3 hi =>
    cases hl
    case head    => exact .inl <| mem_of_mem_finishLine hc
    case tail hl => exact .inr <| .tail _ <| (hi hl).resolve_left (by simp)
  case case4 hi =>
    cases hi hl
    case inl h =>
      cases h
      case head   => exact .inr <| .head _
      case tail h => exact .inl h
    case inr h => exact .inr <| .tail _ h

end Text

-- A way to save a script.
structure Encoding where
  lineEnd : LineEnd
  marked  : Bool
  deriving DecidableEq, Repr

namespace Encoding

variable {cs : List Char}

def write (e : Encoding) (cs : List Char) : List Char :=
  if e.marked then '\uFEFF' :: e.lineEnd.write cs else e.lineEnd.write cs

theorem withoutMark_write (e : Encoding) (h : cs.head? ≠ some '\uFEFF') :
    withoutMark (e.write cs) = e.lineEnd.write cs := by
  rw [write]
  split
  case isTrue  => rfl
  case isFalse => exact withoutMark_of_head? <| e.lineEnd.head?_write_ne (by decide) h

theorem codeLines_write (e : Encoding) (hr : '\r' ∉ cs) (hm : cs.head? ≠ some '\uFEFF') :
    codeLines (e.write cs) = codeLines cs := by
  have hl : lines (e.lineEnd.write cs) = lines cs := e.lineEnd.linesFrom_write (by simp) hr
  rw [codeLines, codeLines, e.withoutMark_write hm, withoutMark_of_head? hm, hl]

end Encoding

theorem notMem_of_mem_codeLines {c : Char} {cs : List Char} (h : c ∉ cs)
    (hm : cs.head? ≠ some '\uFEFF') {line : CodeLine} (hl : line ∈ codeLines cs) : c ∉ line.text := by
  rw [codeLines, withoutMark_of_head? hm] at hl
  have hl : line.text ∈ lines cs := List.mem_of_getElem? <| getElem?_of_mem_codeLinesFrom hl
  exact fun hc => h <| (mem_of_mem_linesFrom hl hc).resolve_left (by simp)

-- Of a text only the code lines are read.
theorem Include.ofText_congr {text text' : String} (h : codeLines text.toList = codeLines text'.toList) :
    ofText text = ofText text' := by
  rw [ofText, ofText, h]

namespace Script

section Congruence

variable {s t : Script} (h : s.lines = t.lines)
include h

theorem declarations_congr : s.declarations = t.declarations := by
  rw [s.declarations_eq, t.declarations_eq, h]

theorem functions_congr : s.functions = t.functions := by
  rw [s.functions_eq, t.functions_eq, h]

theorem assignments_congr (map : String) : s.assignments map = t.assignments map := by
  rw [assignments, assignments, h]

theorem calls_congr (map : String) : s.calls map = t.calls map := by
  rw [calls, calls, h]

theorem keysAt_congr (map : String) (point : QueryPoint) : s.keysAt map point = t.keysAt map point := by
  have hf := functions_congr h
  have hv := visibility_congr (declarations_congr h) hf map point
  have hthrough : s.keysThrough = t.keysThrough := by
    funext call f
    simp only [keysThrough, assignments_congr h]
  have hk : s.keysOfCall = t.keysOfCall := by
    funext call
    rw [keysOfCall, keysOfCall, hf, hthrough]
  rw [keysAt, keysAt, hv, hk, assignments_congr h, calls_congr h]

end Congruence

-- A text without carriage returns and without a mark of its own can be saved in any way: its code lines stay
-- the same, free of carriage returns, and so does all that is recognised in them.
theorem ofText_write_alike (text : String) (hr : '\r' ∉ text.toList)
    (hm : text.toList.head? ≠ some '\uFEFF') (e : Encoding) :
    let saved := String.ofList (e.write text.toList)
    let s := ofText text
    let t := ofText saved
    codeLines saved.toList = codeLines text.toList ∧
    (∀ line ∈ codeLines saved.toList, '\r' ∉ line.text) ∧
    Include.ofText saved = Include.ofText text ∧
    t.declarations = s.declarations ∧ t.functions = s.functions ∧
    (∀ map, t.assignments map = s.assignments map) ∧ (∀ map, t.calls map = s.calls map) ∧
    ∀ map point, t.keysAt map point = s.keysAt map point := by
  intro saved s t
  have hcode : codeLines saved.toList = codeLines text.toList := by
    rw [String.toList_ofList]
    exact e.codeLines_write hr hm
  have hlines : t.lines = s.lines := hcode
  refine ⟨hcode, ?_, Include.ofText_congr hcode, declarations_congr hlines, functions_congr hlines,
    assignments_congr hlines, calls_congr hlines, keysAt_congr hlines⟩
  intro line hl
  rw [hcode] at hl
  exact notMem_of_mem_codeLines hr hm hl

-- The text has an empty line, a comment block, operators at the ends of lines, and no end to its last line.
theorem ofText_write_alike_marked :
    let text := "Global $m[]\n\n#cs\n$m.no = 1\n#ce\nFunc f(ByRef $p)\n$p.x =\nEndFunc\n#include <a>\nf($m)\n" ++
      "$m[\"k\"] ="
    let saved := "\uFEFFGlobal $m[]\r\n\r\n#cs\r\n$m.no = 1\r\n#ce\r\nFunc f(ByRef $p)\r\n$p.x =\r\nEndFunc\r\n" ++
      "#include <a>\r\nf($m)\r\n$m[\"k\"] ="
    '\r' ∉ text.toList ∧ text.toList.head? ≠ some '\uFEFF' ∧
    String.ofList (Encoding.write ⟨.crlf, true⟩ text.toList) = saved ∧
    codeLines saved.toList = codeLines text.toList ∧
    Include.ofText saved = [⟨.library, "a", 8⟩] ∧
    (ofText saved).keysAt "$m" (.line 10) = ⟨["k"], [⟨"x", "f", "$p", 9, 5, true⟩]⟩ := by
  intro text saved
  have hr : '\r' ∉ text.toList := by decide +kernel
  have hm : text.toList.head? ≠ some '\uFEFF' := by decide +kernel
  have hs : String.ofList (Encoding.write ⟨.crlf, true⟩ text.toList) = saved := by decide +kernel
  have ⟨hcode, _, hincludes, _, _, _, _, hkeys⟩ := ofText_write_alike text hr hm ⟨.crlf, true⟩
  rw [hs] at hcode hincludes hkeys
  refine ⟨hr, hm, hs, hcode, ?includes, ?keys⟩
  case includes => rw [hincludes]; decide +kernel
  case keys     => rw [hkeys]; decide +kernel

end Script

end ScriptMaps
