import Mathlib.Data.List.Basic
import ScriptMaps.Text.Line

namespace ScriptMaps.Text

-- The text with `suffix` at the end of its line `n`, before the characters that end the line.
def appendToLine (suffix : List Char) : (n : Nat) → List Char → List Char
  | 0,     []                 => suffix
  | 0,     '\n' :: cs         => suffix ++ '\n' :: cs
  | 0,     '\r' :: '\n' :: cs => suffix ++ '\r' :: '\n' :: cs
  | 0,     c :: cs            => c :: appendToLine suffix 0 cs
  | _ + 1, []                 => []
  | n + 1, c :: cs            => c :: appendToLine suffix (if c = '\n' then n else n + 1) cs

variable {suffix cs current : List Char}

theorem linesFrom_append {a : List Char} (h : '\n' ∉ a) (current cs : List Char) :
    linesFrom current (a ++ cs) = linesFrom (a.reverse ++ current) cs := by
  induction a generalizing current
  case nil => rfl
  case cons c a hi =>
    have ⟨hc, ha⟩ : c ≠ '\n' ∧ '\n' ∉ a := by simpa [eq_comm] using h
    simp [linesFrom, hc, hi ha]

theorem finishLine_of_head? (h : current.head? ≠ some '\r') : finishLine current = current.reverse := by
  rw [finishLine]
  rintro _ rfl
  simp at h

theorem lines_of_notMem (h : '\n' ∉ cs) (hn : cs ≠ []) : lines cs = [cs] := by
  have hl := linesFrom_append h [] []
  rw [List.append_nil, List.append_nil] at hl
  simpa [lines, linesFrom, hn] using hl

-- A line that does not end in a carriage return is read as it was written.
theorem lines_flatMap_append {written : List (List Char)}
    (h : ∀ line ∈ written, '\n' ∉ line ∧ line.getLast? ≠ some '\r') (cs : List Char) :
    lines (written.flatMap (· ++ ['\n']) ++ cs) = written ++ lines cs := by
  induction written
  case nil => rfl
  case cons line written hi =>
    have ⟨⟨hn, hr⟩, h⟩ := List.forall_mem_cons.mp h
    have hfinish : finishLine line.reverse = line := by
      rw [finishLine_of_head? (by simpa using hr), List.reverse_reverse]
    rw [List.flatMap_cons, List.append_assoc, List.append_assoc, lines, linesFrom_append hn]
    simpa [linesFrom, hfinish, lines] using hi h

-- A text without a mark at its start that is made of lines, of which the last one need not be ended.
structure MadeOf (text : List Char) (written : List (List Char)) : Prop where
  whole    : ∀ line ∈ written, '\n' ∉ line ∧ line.getLast? ≠ some '\r'
  unmarked : text.head? ≠ some '\uFEFF'
  text_eq  : text = written.flatMap (· ++ ['\n']) ∨
    text ++ ['\n'] = written.flatMap (· ++ ['\n']) ∧ written.getLast? ≠ some []

theorem MadeOf.lines_eq {text : List Char} {written : List (List Char)} (h : MadeOf text written) :
    lines text = written := by
  obtain ht | ⟨ht, hlast⟩ := h.text_eq
  case inl => simpa [ht, lines, linesFrom] using lines_flatMap_append h.whole []
  case inr =>
    obtain rfl | ⟨front, last, rfl⟩ := written.eq_nil_or_concat'
    case inl => simp at ht
    case inr =>
      have ⟨hfront, hwhole⟩ := List.forall_mem_append.mp h.whole
      have ht : text = front.flatMap (· ++ ['\n']) ++ last := by simpa [← List.append_assoc] using ht
      have hlast : lines last = [last] :=
        lines_of_notMem (hwhole last (by simp)).left (by simpa using hlast)
      rw [ht, lines_flatMap_append hfront, hlast]

-- What is left of the suffix in the line: a carriage return at its end may become part of the line's end.
inductive Kept (suffix : List Char) : List Char → Prop
  | all : Kept suffix suffix
  | init {kept : List Char} (h : suffix = kept ++ ['\r']) : Kept suffix kept

theorem Kept.mem_iff {kept : List Char} {d : Char} (h : Kept suffix kept) (hd : d ≠ '\r') :
    d ∈ kept ↔ d ∈ suffix := by
  cases h
  case all    => rfl
  case init h => simp [h, hd]

-- Of a suffix whose beginning does not end in a carriage return, the beginning is kept.
theorem Kept.of_append {front rest kept : List Char} (h : Kept (front ++ rest) kept)
    (hf : front.getLast? ≠ some '\r') : ∃ kept', Kept rest kept' ∧ kept = front ++ kept' := by
  cases h
  case all    => exact ⟨rest, .all, rfl⟩
  case init h =>
    obtain rfl | ⟨init, c, rfl⟩ := rest.eq_nil_or_concat
    case inl =>
      rw [List.append_nil] at h
      simp [h] at hf
    case inr =>
      rw [List.concat_eq_append, ← List.append_assoc] at h
      have ⟨hk, hc⟩ := List.append_inj' h rfl
      cases hc
      exact ⟨init, .init (by simp), hk.symm⟩

theorem exists_kept (hn : suffix ≠ []) (current : List Char) :
    ∃ kept, Kept suffix kept ∧ finishLine (suffix.reverse ++ current) = current.reverse ++ kept := by
  by_cases hr : suffix.reverse.head? = some '\r'
  case pos =>
    have ⟨kept, hk⟩ : ∃ kept, suffix = kept ++ ['\r'] := List.getLast?_eq_some_iff.mp (by simpa using hr)
    exact ⟨kept, .init hk, by simp [hk, finishLine]⟩
  case neg =>
    refine ⟨suffix, .all, ?_⟩
    have hr : (suffix.reverse ++ current).head? ≠ some '\r' := by
      rwa [List.head?_append_of_ne_nil _ (by simpa using hn)]
    simp [finishLine_of_head? hr]

-- As long as line `n` is being read, the carriage return that belongs to its end is not taken into it.
theorem linesFrom_appendToLine {n : Nat} (hs : '\n' ∉ suffix) (hn : suffix ≠ [])
    (hc : n = 0 → current.head? = some '\r' → cs.head? ≠ some '\n')
    (hl : n < (linesFrom current cs).length) :
    ∃ kept, Kept suffix kept ∧
      linesFrom current (appendToLine suffix n cs) = (linesFrom current cs).modify n (· ++ kept) := by
  fun_induction appendToLine suffix n cs generalizing current
  case case1 =>
    have hne : current ≠ [] := by
      rintro rfl
      simp [linesFrom] at hl
    refine ⟨suffix, .all, ?_⟩
    rw [← List.append_nil suffix, linesFrom_append hs]
    simp [linesFrom, hne]
  case case2 cs =>
    have ⟨kept, hk, hf⟩ := exists_kept hn current
    have hr : current.head? ≠ some '\r' := fun hr => hc rfl hr rfl
    refine ⟨kept, hk, ?_⟩
    rw [linesFrom_append hs]
    simp [linesFrom, hf, finishLine_of_head? hr]
  case case3 cs =>
    refine ⟨suffix, .all, ?_⟩
    rw [linesFrom_append hs]
    simp [linesFrom, finishLine]
  case case4 c cs hlf hcr hi =>
    have hcons (cs : List Char) : linesFrom current (c :: cs) = linesFrom (c :: current) cs :=
      if_neg hlf
    rw [hcons] at hl ⊢
    rw [hcons]
    refine hi ?_ hl
    intro _ hr hh
    have ⟨rest, hrest⟩ := List.head?_eq_some_iff.mp hh
    exact hcr rest (by simpa using hr) hrest
  case case5 =>
    exfalso
    rw [linesFrom] at hl
    split at hl <;> simp at hl
  case case6 n c cs hi =>
    by_cases hlf : c = '\n'
    case pos =>
      simp only [linesFrom, hlf, if_true, List.length_cons] at hl hi ⊢
      have ⟨kept, hk, he⟩ := hi (by simp) (Nat.lt_of_succ_lt_succ hl)
      exact ⟨kept, hk, by rw [he]; rfl⟩
    case neg =>
      simp only [linesFrom, hlf, if_false] at hl hi ⊢
      exact hi (by simp) hl

-- A comment or any other text at the end of a line is added to that line alone.
theorem lines_appendToLine {n : Nat} (hs : '\n' ∉ suffix) (hn : suffix ≠ []) (hl : n < (lines cs).length) :
    ∃ kept, Kept suffix kept ∧ lines (appendToLine suffix n cs) = (lines cs).modify n (· ++ kept) :=
  linesFrom_appendToLine hs hn (by simp) hl

end ScriptMaps.Text
