import ScriptMaps.Proofs.Script.Assignment
import ScriptMaps.Proofs.Script.Declaration
import ScriptMaps.Proofs.Script.Groups
import ScriptMaps.Proofs.Script.Scanners
import ScriptMaps.Proofs.Script.Spelling
import ScriptMaps.Proofs.Text.Plain

namespace ScriptMaps
open Text

variable {word word' name list content cs : List Char} {number : Nat}

namespace Text

theorem trimStart_of_head? (h : ∀ c ∈ cs.head?, ¬isBlank c) : trimStart cs = cs :=
  trimStart_append ⟨List.forall_mem_nil _, h⟩

theorem trim_of_not_isBlank (h : ∀ c ∈ cs, ¬isBlank c) : trim cs = cs := by
  have hstart : trimStart cs = cs := trimStart_of_head? fun c hc => h c (List.mem_of_head? hc)
  have hend : trimStart cs.reverse = cs.reverse :=
    trimStart_of_head? fun c hc => h c (List.mem_reverse.mp <| List.mem_of_head? hc)
  rw [trim, hstart, trimEnd, ← trimStart, hend, List.reverse_reverse]

theorem map_fold_of_isPlain (h : ∀ c ∈ word, isPlain c) : word.map fold = lowerAscii word :=
  List.map_congr_left fun c hc => fold_of_isPlain (h c hc)

end Text

theorem beforeComment_of_notMem_marks (h : ∀ c ∈ cs, c ∉ marks) : beforeComment none cs = cs := by
  induction cs
  case nil => rfl
  case cons c cs hi =>
    have ⟨hc, h⟩ := List.forall_mem_cons.mp h
    have hs : c ≠ ';' := fun he => hc (by simp [he, marks])
    rw [beforeComment_cons, if_neg (by simp [hs]), nextQuote_of_notMem_marks hc, hi h]

theorem Declaration.ofLine?_written (scope : Scope) (hn : word ≠ []) (hw : ∀ c ∈ word, isWord c)
    (number : Nat) :
    ofLine? ⟨number, scope.name.toList ++ ' ' :: '$' :: (word ++ ['[', ']'])⟩ =
      some ⟨String.ofList ('$' :: word), scope, number⟩ := by
  have hk : sameAscii scope.name.toList scope.name.toList := by simp [sameAscii]
  obtain ⟨hne, hkeyword⟩ := Scope.isWord_of_sameAscii hk
  let body : Body := ⟨scope.name.toList, [' '], word, [], [], []⟩
  have hbody : body.Written := {
    keyword_ne := hne
    keyword    := hkeyword
    gap_ne     := by simp [body]
    gap        := by simp [body, isBlank]
    word       := ⟨.of_cons hw (by decide), hn⟩
    outer      := by simp [body]
    inner      := by simp [body]
  }
  exact ofLine?_eq_some_iff.mpr ⟨⟨[], none, body⟩, scope, ⟨rfl, by simp, by simp, hbody⟩, hk, rfl⟩

namespace Assignment

variable {p q : Parts} {line : List Char}

-- The name ends where the key starts, whatever other characters are folded to the letters of a plain name.
theorem Parts.Assign.run_name (h : ∀ c ∈ word, isPlain c) (hp : p.Assign ('$' :: word) line) :
    Run (fun c => fold c == '$' || isPlain (fold c)) p.name
      (p.key.text ++ (p.gap ++ (p.operator ++ p.rest))) where
  all := by
    intro c hc
    have hm : fold c ∈ ('$' :: word).map fold := hp.name ▸ List.mem_map_of_mem hc
    obtain hm | ⟨d, hd, he⟩ : fold c = fold '$' ∨ ∃ d ∈ word, fold d = fold c := by simpa using hm
    case inl => simp [hm, show fold '$' = '$' by decide]
    case inr =>
      rw [fold_of_isPlain (h d hd)] at he
      simp [← he, isPlain_toLower (h d hd)]
  ends := by
    intro c hc
    cases hk : p.key
    all_goals
      rw [hk] at hc
      cases hc
      decide

-- `word'` is the name that is written, and `word` the one that is asked about.
theorem ofLine?_of_isPlain (h : ∀ c ∈ word, isPlain c) (h' : ∀ c ∈ word', isPlain c)
    (hp : p.Assign ('$' :: word') line) (hn : p.name = '$' :: word') (number : Nat) :
    ofLine? ('$' :: word) ⟨number, line⟩ =
      if sameAscii word' word then some (p.assignment number) else none := by
  split
  case isTrue hs =>
    have hfold : ('$' :: word').map fold = ('$' :: word).map fold := by
      rw [List.map_cons, List.map_cons, map_fold_eq_of_sameAscii hs]
    exact (ofLine?_eq_some_iff rfl).mpr ⟨p, { hp with name := hp.name.trans hfold }, rfl⟩
  case isFalse hs =>
    by_contra hsome
    obtain ⟨a, ha⟩ := Option.ne_none_iff_exists'.mp hsome
    obtain ⟨q, hq, _⟩ := (ofLine?_eq_some_iff rfl).mp ha
    have ⟨_, he⟩ := (hp.run_margin rfl).unique (hq.run_margin rfl) (hp.text.trans hq.text.symm)
    have ⟨hname, _⟩ := (hp.run_name h').unique (hq.run_name h) he
    have hfold : ('$' :: word').map fold = ('$' :: word).map fold := by rw [← hn, hname, hq.name]
    have hfold := (List.cons.inj hfold).right
    rw [map_fold_of_isPlain h, map_fold_of_isPlain h'] at hfold
    exact hs (sameAscii_iff.mpr hfold)

end Assignment

theorem Function.header?_written (hn : name ≠ []) (hw : ∀ c ∈ name, isWord c) (hl : ')' ∉ list) :
    header? ("Func ".toList ++ (name ++ '(' :: (list ++ [')']))) = some (name, list) := by
  let rest := '(' :: (list ++ [')'])
  have hgap : afterBlanks? (' ' :: (name ++ rest)) = some (name ++ rest) := by
    refine congrArg some <| trimStart_of_head? ?_
    rw [List.head?_append_of_ne_nil _ hn]
    exact fun c hc hb => not_isWord_of_isBlank hb <| hw c <| List.mem_of_head? hc
  have hword : word? (name ++ rest) = some (name, rest) :=
    word?_eq_some_iff.mpr ⟨rfl, .of_cons hw (by decide), hn⟩
  have hlist : until? ')' (list ++ [')']) = some (list, []) := until?_append hl []
  calc
    _ = (afterBlanks? (' ' :: (name ++ rest))).bind fun cs => (word? cs).bind fun x =>
        (afterChar? '(' (trimStart x.2)).bind fun cs => (until? ')' cs).bind fun y => some (x.1, y.1) := rfl
    _ = (until? ')' (list ++ [')'])).bind fun y => some (name, y.1) := by
      rw [hgap, Option.bind_some, hword]
      rfl
    _ = some (name, list) := by rw [hlist, Option.bind_some]

namespace Call

theorem groups_written (hn : word ≠ []) (hw : ∀ c ∈ word, isWord c)
    (hc : ∀ c ∈ content, c ≠ '(' ∧ c ≠ ')') :
    groups (word ++ '(' :: (content ++ [')'])) = [(word, content)] := by
  have hread : readGroup? (word ++ '(' :: (content ++ [')'])) = some ((word, content), []) :=
    readGroup?_eq_some_iff.mpr ⟨hn, hw, hc, [], List.forall_mem_nil _, rfl⟩
  rw [groups_of_readGroup? hread, groups]

-- A line without a closing parenthesis has no calls.
theorem ofLine_of_notMem {line : CodeLine} (h : ')' ∉ line.text) (map : List Char) :
    ofLine map line = [] := by
  have ⟨comment, hs, _⟩ := exists_comment none line.text
  have hcode : ')' ∉ beforeComment none line.text := fun hm => h (hs ▸ List.mem_append_left comment hm)
  rw [ofLine, groups_of_notMem hcode]
  split <;> rfl

theorem positions_of_single (hc : ',' ∉ content) (hb : ∀ c ∈ content, ¬isBlank c) (map : List Char) :
    positions map content = if sameAscii content map then [0] else [] := by
  rw [positions, List.splitOn_eq_singleton hc]
  simp [positionsFrom, trim_of_not_isBlank hb]

-- A call of a function with one variable passes this variable and no other.
theorem ofLine_written (hn : name ≠ []) (hname : ∀ c ∈ name, isPlain c) (hword : ∀ c ∈ word, isPlain c)
    (hh : Function.header? (name ++ '(' :: ('$' :: word ++ [')'])) = none) (map : List Char) (number : Nat) :
    ofLine map ⟨number, name ++ '(' :: ('$' :: word ++ [')'])⟩ =
      if sameAscii ('$' :: word) map then [⟨String.ofList name, 0, number⟩] else [] := by
  have hcomment : isComment (name ++ '(' :: ('$' :: word ++ [')'])) = false := by
    obtain ⟨c, name, rfl⟩ := List.exists_cons_of_ne_nil hn
    have hc := hname c (.head _)
    have hs : c ≠ ';' := ne_of_isPlain hc (by decide)
    rw [isComment, trimStart_of_head? (by simpa using not_isBlank_of_isPlain hc)]
    simpa using hs
  have hcode : beforeComment none (name ++ '(' :: ('$' :: word ++ [')'])) =
      name ++ '(' :: ('$' :: word ++ [')']) := by
    have hplain {cs : List Char} (h : ∀ c ∈ cs, isPlain c) : ∀ c ∈ cs, c ∉ marks :=
      fun c hc => notMem_marks_of_isWord (isWord_of_isPlain (h c hc))
    refine beforeComment_of_notMem_marks ?_
    simpa [or_imp, forall_and] using ⟨hplain hname, by decide, by decide, hplain hword, by decide⟩
  have hcontent {p : Char → Prop} (hd : p '$') (hp : ∀ c, isPlain c → p c) : ∀ c ∈ '$' :: word, p c :=
    List.forall_mem_cons.mpr ⟨hd, fun c hc => hp c (hword c hc)⟩
  have hparens : ∀ c ∈ '$' :: word, c ≠ '(' ∧ c ≠ ')' :=
    hcontent (by decide) fun c hc => ⟨ne_of_isPlain hc (by decide), ne_of_isPlain hc (by decide)⟩
  have hcomma : ∀ c ∈ '$' :: word, c ≠ ',' := hcontent (by decide) fun c hc => ne_of_isPlain hc (by decide)
  have hblank : ∀ c ∈ '$' :: word, ¬isBlank c := hcontent (by decide) fun c => not_isBlank_of_isPlain
  have hpositions := positions_of_single (fun hm => hcomma _ hm rfl) hblank map
  rw [ofLine, hcomment, hh, hcode, if_neg (by simp),
    groups_written hn (fun c hc => isWord_of_isPlain (hname c hc)) hparens, List.flatMap_singleton]
  simp only [hpositions]
  split <;> rfl

end Call

end ScriptMaps
