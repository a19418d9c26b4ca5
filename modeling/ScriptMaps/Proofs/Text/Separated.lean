
namespace ScriptMaps.Text

variable {separator : Char}

theorem separator_notMem_of_mem_splitOn {text piece : List Char} (h : piece ∈ text.splitOn separator) :
    separator ∉ piece := by
  induction text generalizing piece
  case nil =>
    simp at h
    simp [h]
  case cons c text hi =>
    rw [List.splitOn_cons_eq_if_modifyHead] at h
    split at h
    case isTrue =>
      cases h
      case head   => simp
      case tail h => exact hi h
    case isFalse hc =>
      cases hs : text.splitOn separator <;> simp [hs] at h hi
      case cons hd tl =>
        cases h
        case inl h => simp_all [Ne.symm]
        case inr h => exact hi.right _ h

-- Each piece with the text that stands before it, which is `passed` for the first one.
def piecesAfter (separator : Char) (passed : List Char) :
    List (List Char) → List (List Char × List Char)
  | []              => []
  | piece :: pieces =>
    (passed, piece) :: piecesAfter separator (passed ++ piece ++ [separator]) pieces

-- A piece reaches from one separator to the next, or to an end of the text.
theorem of_mem_piecesAfter {passed before piece : List Char} {pieces : List (List Char)}
    (h : (before, piece) ∈ piecesAfter separator passed pieces) :
    piece ∈ pieces ∧ (before = passed ∨ before.getLast? = some separator) ∧
      ∃ after, passed ++ [separator].intercalate pieces = before ++ piece ++ after ∧
        (after = [] ∨ after.head? = some separator) := by
  induction pieces generalizing passed
  case nil => simp [piecesAfter] at h
  case cons first pieces hi =>
    by_cases hp : pieces = []
    case pos =>
      subst hp
      have ⟨hb, hf⟩ : before = passed ∧ piece = first := by simpa [piecesAfter] using h
      exact ⟨by simp [hf], .inl hb, [], by simp [hb, hf], .inl rfl⟩
    case neg =>
      rw [List.intercalate_cons_of_ne_nil hp]
      cases h
      case head =>
        exact ⟨.head _, .inl rfl, separator :: [separator].intercalate pieces, by simp, .inr rfl⟩
      case tail h =>
        have ⟨hm, hb, after, ha, hh⟩ := hi h
        refine ⟨.tail _ hm, ?_, after, ?_, hh⟩
        case refine_1 => exact .inr <| hb.elim (fun hb => by simp [hb]) id
        case refine_2 => simpa using ha

theorem length_le_of_mem_piecesAfter {passed before piece : List Char} {pieces : List (List Char)}
    (h : (before, piece) ∈ piecesAfter separator passed pieces) : passed.length ≤ before.length := by
  induction pieces generalizing passed
  case nil => cases h
  case cons first pieces hi =>
    cases h
    case head   => exact Nat.le_refl _
    case tail h => exact Nat.le_trans (by simp) (hi h)

-- The pieces come in the order of the text.
theorem pairwise_piecesAfter (passed : List Char) (pieces : List (List Char)) :
    (piecesAfter separator passed pieces).Pairwise (·.1.length < ·.1.length) := by
  induction pieces generalizing passed
  case nil => exact .nil
  case cons piece pieces hi =>
    refine .cons ?_ (hi _)
    exact fun _ h => Nat.lt_of_lt_of_le (by simp) (length_le_of_mem_piecesAfter h)

-- `piece` stands in `text` after `before`, and reaches from one separator or end of it to the next.
structure Piece (separator : Char) (text before piece : List Char) : Prop where
  starts : before = [] ∨ before.getLast? = some separator
  whole  : separator ∉ piece
  ends   : ∃ after, text = before ++ (piece ++ after) ∧ (after = [] ∨ after.head? = some separator)

theorem Piece.length_le {text before piece : List Char} (h : Piece separator text before piece) :
    before.length ≤ text.length := by
  have ⟨_, ht, _⟩ := h.ends
  simp [ht]

theorem Piece.mem_piecesAfter {text before piece : List Char} (h : Piece separator text before piece)
    (passed : List Char) :
    (passed ++ before, piece) ∈ piecesAfter separator passed (text.splitOn separator) := by
  obtain ⟨after, rfl, ha⟩ := h.ends
  by_cases hs : separator ∈ before
  case pos =>
    -- The first piece is before this one, and this one is a piece of what follows it.
    obtain ⟨first, before, rfl, hf⟩ := List.eq_append_cons_of_mem hs
    have hn : Piece separator (before ++ (piece ++ after)) before piece := {
      starts := by
        cases before
        case nil  => exact .inl rfl
        case cons => simpa using h.starts
      whole  := h.whole
      ends   := ⟨after, rfl, ha⟩
    }
    have hm := hn.mem_piecesAfter (passed ++ first ++ [separator])
    rw [List.append_assoc, List.cons_append, List.splitOn_append_cons_self_of_not_mem hf, piecesAfter]
    exact List.mem_cons_of_mem _ (by simpa using hm)
  case neg =>
    obtain rfl : before = [] := h.starts.resolve_right fun hl => hs <| List.mem_of_getLast? hl
    cases after
    case nil => simp [List.splitOn_eq_singleton h.whole, piecesAfter]
    case cons c after =>
      obtain rfl : c = separator := by simpa using ha
      simp [List.splitOn_append_cons_self_of_not_mem h.whole, piecesAfter]
termination_by before.length

theorem mem_piecesAfter_splitOn_iff {text before piece : List Char} :
    (before, piece) ∈ piecesAfter separator [] (text.splitOn separator) ↔
      Piece separator text before piece := by
  refine ⟨?_, fun h => h.mem_piecesAfter []⟩
  intro h
  have ⟨hm, hs, after, ht, ha⟩ := of_mem_piecesAfter h
  rw [List.intercalate_splitOn, List.nil_append, List.append_assoc] at ht
  exact ⟨hs, separator_notMem_of_mem_splitOn hm, after, ht, ha⟩

end ScriptMaps.Text
