import ScriptMaps.Proofs.Text.Scan

namespace ScriptMaps.Text

-- `run` stands before `rest` and is all there is of the class `p` up to there.
structure Run (p : Char → Bool) (run rest : List Char) : Prop where
  all  : ∀ c ∈ run, p c
  ends : ∀ c ∈ rest.head?, ¬p c

-- A word that does not go on in what follows it.
structure WholeWord (word rest : List Char) : Prop extends Run isWord word rest where
  ne : word ≠ []

variable {p : Char → Bool} {cs run rest : List Char}

namespace Run

theorem of_cons {c : Char} (ha : ∀ c ∈ run, p c) (hc : ¬p c) : Run p run (c :: rest) where
  all  := ha
  ends := by simpa using hc

theorem takeWhile (h : Run p run rest) : (run ++ rest).takeWhile p = run := by
  rw [List.takeWhile_append_of_pos h.all]
  cases rest
  case nil      => simp
  case cons c _ => simp [h.ends c rfl]

theorem dropWhile (h : Run p run rest) : (run ++ rest).dropWhile p = rest := by
  rw [List.dropWhile_append_of_pos h.all]
  cases rest
  case nil      => rfl
  case cons c _ => simp [h.ends c rfl]

theorem takeWhile_dropWhile (p : Char → Bool) (cs : List Char) :
    Run p (cs.takeWhile p) (cs.dropWhile p) where
  all  := fun _ => List.mem_takeWhile_imp
  ends := by
    intro c hc hp
    have := List.head?_dropWhile_not p cs
    simp_all

theorem unique {run' rest' : List Char} (h : Run p run rest) (h' : Run p run' rest')
    (he : run ++ rest = run' ++ rest') : run = run' ∧ rest = rest' :=
  ⟨by rw [← h.takeWhile, he, h'.takeWhile], by rw [← h.dropWhile, he, h'.dropWhile]⟩

end Run

theorem toNat_of_isBlank {c : Char} (h : isBlank c) :
    c.toNat ∈ [9, 10, 11, 12, 13, 0x20, 0x85, 0xA0, 0x1680, 0x2000, 0x2001, 0x2002, 0x2003, 0x2004, 0x2005,
      0x2006, 0x2007, 0x2008, 0x2009, 0x200A, 0x2028, 0x2029, 0x202F, 0x205F, 0x3000] := by
  simp only [isBlank, Bool.or_eq_true, Bool.and_eq_true, decide_eq_true_eq, beq_iff_eq] at h
  simp only [List.mem_cons, List.not_mem_nil]
  omega

theorem not_isWord_of_isBlank {c : Char} (h : isBlank c) : ¬isWord c := by
  have hn := toNat_of_isBlank h
  rw [← c.ofNat_toNat]
  revert hn
  generalize c.toNat = n
  revert n
  decide +kernel

theorem isWord_of_toLower {c : Char} (h : isWord c.toLower) : isWord c := by
  by_cases hc : c.val ≥ 'A'.val ∧ c.val ≤ 'Z'.val
  case neg => exact (dif_neg hc : c.toLower = c) ▸ h
  case pos =>
    have hhigh : c.toNat ≤ 90 := UInt32.le_iff_toNat_le.mp hc.right
    have halpha : c.isAlpha := Bool.or_eq_true_iff.mpr (.inl (decide_eq_true hc))
    simp [isWord, Char.isAlphanum, halpha, show c.toNat < 128 by omega]

-- Blanks end a word.
theorem Run.of_blanks {blanks : List Char} (hw : ∀ c ∈ run, isWord c) (hn : blanks ≠ [])
    (hb : ∀ c ∈ blanks, isBlank c) (rest : List Char) : Run isWord run (blanks ++ rest) where
  all  := hw
  ends := by
    rw [List.head?_append_of_ne_nil _ hn]
    exact fun c hc => not_isWord_of_isBlank <| hb c <| List.mem_of_head? hc

theorem exists_margin (cs : List Char) :
    ∃ margin, cs = margin ++ trimStart cs ∧ Run isBlank margin (trimStart cs) :=
  ⟨cs.takeWhile isBlank, List.takeWhile_append_dropWhile.symm, .takeWhile_dropWhile isBlank cs⟩

-- A text ends with a run as well as it starts with one.
theorem exists_trailing (p : Char → Bool) (cs : List Char) :
    ∃ rest run, cs = rest ++ run ∧ Run p run.reverse rest.reverse :=
  ⟨(cs.reverse.dropWhile p).reverse, (cs.reverse.takeWhile p).reverse, by simp [← List.reverse_append],
    by simpa using Run.takeWhile_dropWhile p cs.reverse⟩

theorem trimStart_append (h : Run isBlank run rest) : trimStart (run ++ rest) = rest :=
  h.dropWhile

-- No blank is given back to a reader that takes none off the front.
theorem pastBlanks?_eq_trimStart {α : Type} {r : List Char → Option α}
    (h : ∀ c cs, isBlank c → r (c :: cs) = none) (cs : List Char) : pastBlanks? r cs = r (trimStart cs) := by
  induction cs
  case nil => rfl
  case cons c cs hi =>
    by_cases hc : isBlank c
    case pos => simp [pastBlanks?, hc, h c cs hc, hi, trimStart]
    case neg => simp [pastBlanks?, hc, trimStart]

theorem afterChar?_eq_some_iff {d : Char} : afterChar? d cs = some rest ↔ cs = d :: rest := by
  refine ⟨afterChar?_eq_some, ?_⟩
  rintro rfl
  exact if_pos rfl

theorem afterBlanks?_eq_some_iff :
    afterBlanks? cs = some rest ↔ ∃ blanks, blanks ≠ [] ∧ cs = blanks ++ rest ∧ Run isBlank blanks rest := by
  constructor
  case mp =>
    intro h
    cases cs
    case nil => cases h
    case cons c cs =>
      rw [afterBlanks?] at h
      split at h
      case isFalse => cases h
      case isTrue hc =>
        cases h
        obtain ⟨margin, hs, hr⟩ := exists_margin cs
        exact ⟨c :: margin, by simp, congrArg _ hs, List.forall_mem_cons.mpr ⟨hc, hr.all⟩, hr.ends⟩
  case mpr =>
    rintro ⟨_ | ⟨c, blanks⟩, hn, rfl, hr⟩
    case nil  => contradiction
    case cons =>
      obtain ⟨hc, hb⟩ := List.forall_mem_cons.mp hr.all
      rw [List.cons_append, afterBlanks?, if_pos hc, trimStart_append ⟨hb, hr.ends⟩]

theorem word?_eq_some_iff {word : List Char} :
    word? cs = some (word, rest) ↔ cs = word ++ rest ∧ WholeWord word rest := by
  constructor
  case mp =>
    intro h
    rw [word?] at h
    split at h
    case h_1      => cases h
    case h_2 hn =>
      cases h
      exact ⟨List.takeWhile_append_dropWhile.symm, .takeWhile_dropWhile isWord cs, hn⟩
  case mpr =>
    rintro ⟨rfl, hw⟩
    simp [word?, hw.takeWhile, hw.dropWhile, hw.ne]

theorem until?_eq_some_iff {d : Char} {text : List Char} :
    until? d cs = some (text, rest) ↔ cs = text ++ d :: rest ∧ d ∉ text := by
  constructor
  case mp =>
    intro h
    by_cases hd : d ∈ cs
    case neg => simp [until?_of_notMem hd] at h
    case pos =>
      obtain ⟨front, rest', rfl, hn⟩ := List.eq_append_cons_of_mem hd
      rw [until?_append hn] at h
      cases h
      exact ⟨rfl, hn⟩
  case mpr =>
    rintro ⟨rfl, hn⟩
    exact until?_append hn rest

theorem eq_of_append_cons {d : Char} {text text' rest' : List Char} (h : d ∉ text) (h' : d ∉ text')
    (he : text ++ d :: rest = text' ++ d :: rest') : text = text' ∧ rest = rest' := by
  have hu := until?_append h rest
  rw [he, until?_append h' rest'] at hu
  cases hu
  exact ⟨rfl, rfl⟩

theorem sameAscii_iff {a b : List Char} : sameAscii a b ↔ lowerAscii a = lowerAscii b :=
  beq_iff_eq

theorem afterKeyword?_append {word front : List Char} (h : sameAscii word front) (rest : List Char) :
    afterKeyword? word (front ++ rest) = some rest := by
  rw [sameAscii_iff] at h
  induction word generalizing front
  case nil =>
    cases List.map_eq_nil_iff.mp h.symm
    rfl
  case cons w ws hi =>
    obtain ⟨c, front, rfl, hc, hf⟩ := List.map_eq_cons_iff.mp h.symm
    simpa [afterKeyword?, hc] using hi hf.symm

theorem afterKeyword?_eq_some_iff {word : List Char} :
    afterKeyword? word cs = some rest ↔ ∃ front, cs = front ++ rest ∧ sameAscii word front := by
  constructor
  case mp =>
    intro h
    have ⟨front, hs, hl⟩ := afterKeyword?_eq_some h
    exact ⟨front, hs, sameAscii_iff.mpr hl.symm⟩
  case mpr =>
    rintro ⟨front, rfl, hs⟩
    exact afterKeyword?_append hs rest

theorem afterFolded?_eq_some_iff {name : List Char} :
    afterFolded? name cs = some rest ↔ ∃ front, cs = front ++ rest ∧ front.map fold = name.map fold := by
  induction name generalizing cs
  case nil => simp [afterFolded?, eq_comm]
  case cons n ns hi =>
    constructor
    case mp =>
      intro h
      cases cs
      case nil => cases h
      case cons c cs =>
        rw [afterFolded?] at h
        split at h
        case isFalse   => cases h
        case isTrue hc =>
          obtain ⟨front, rfl, hf⟩ := hi.mp h
          exact ⟨c :: front, rfl, by simp [hc, hf]⟩
    case mpr =>
      rintro ⟨front, rfl, hf⟩
      obtain ⟨c, front, rfl, hc, hf⟩ := List.map_eq_cons_iff.mp hf
      simpa [afterFolded?, hc] using hi.mpr ⟨front, rfl, hf⟩

end ScriptMaps.Text
