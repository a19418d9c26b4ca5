import ScriptMaps.Include.Directive
import ScriptMaps.Proofs.Script.Blocks
import ScriptMaps.Proofs.Script.Readers
import ScriptMaps.Proofs.Script.Trail

namespace ScriptMaps
open Text

variable {line comment : List Char} {number : Nat}

-- The word of a directive, at the first character of the line.
def readDirective? : List Char → Option (List Char)
  | '#' :: rest =>
    match rest.takeWhile isDirectiveChar with
    | []   => none
    | word => some (lowerAscii word)
  | _ => none

theorem readsUpTo_readDirective? : ReadsUpTo comment readDirective? readDirective? where
  start  := rfl
  append := by
    intro cs _
    match cs with
    | []      => rfl
    | c :: cs =>
      by_cases hc : c = '#'
      case neg => simp [readDirective?, hc]
      case pos =>
        have ht := takeWhile_append_cons (p := isDirectiveChar) (d := ' ') rfl cs (';' :: comment)
        simp [readDirective?, hc, ht]

theorem blockMark?_append (ho : EndsOutside none line) :
    blockMark? (line ++ ' ' :: ';' :: comment) = blockMark? line := by
  have hd : directive? (line ++ ' ' :: ';' :: comment) = directive? line :=
    readsUpTo_readDirective?.trim.append line ho
  rw [blockMark?, blockMark?, hd]

theorem Declaration.readsUpTo_read? : ReadsUpTo comment read? read? := by
  have hclose (x : List Char × List Char) :
      ReadsUpTo comment (fun cs => (afterChar? ']' cs).bind fun _ => some x) _ :=
    (Advances.char (by decide) (by decide)).bind fun _ _ => rfl
  have hopen (x : List Char × List Char) :=
    (Advances.char (d := '[') (by decide) (by decide)).bindTo (hclose x).trim
  have hname (keyword : List Char) :=
    (Advances.char (d := '$') (by decide) (by decide)).bindTo <|
      Advances.word.bindWith fun word => (hopen (keyword, '$' :: word)).trim
  exact Scope.advancesWith_read?.bindWith fun keyword => (hname keyword).blanks rfl

theorem Declaration.ofLine?_append (ho : EndsOutside none line) :
    ofLine? ⟨number, line ++ ' ' :: ';' :: comment⟩ = ofLine? ⟨number, line⟩ := by
  have hblanks : ReadsUpTo comment (fun cs => (afterBlanks? cs).bind read?) _ :=
    readsUpTo_read?.blanks rfl
  have hmodifier : ReadsUpTo comment (fun cs => (afterModifier? cs).bind read?)
      (fun cs => (afterModifier? cs).bind read?) := by
    simpa only [afterModifier?, Option.bind_assoc] using
      (Scope.localVar.advancesTo_name.or Scope.globalVar.advancesTo_name).bindTo hblanks
  exact ((hmodifier.or readsUpTo_read?).andThen _).trim.append line ho

theorem Assignment.ofLine?_append {map : List Char} (hm : ∀ c ∈ map, c ∉ marks)
    (ho : EndsOutside none line) :
    ofLine? map ⟨number, line ++ ' ' :: ';' :: comment⟩ = ofLine? map ⟨number, line⟩ := by
  have hdot : ReadsUpTo comment readDot? readDot? :=
    (Advances.char (d := '.') (by decide) (by decide)).bindTo <|
      Advances.word.bindWith fun key => (ReadsUpTo.operator key).trim
  have hbracket : ReadsUpTo comment readBracket? readBracket? :=
    (Advances.char (d := '[') (by decide) (by decide)).bindTo <| ReadsUpTo.trim <|
      ReadsUpTo.quoted fun key =>
        ((Advances.char (d := ']') (by decide) (by decide)).bindTo (ReadsUpTo.operator key).trim).trim
  rw [ofLine?, ofLine?, dotKey?, bracketKey?, (hdot.folded hm rfl).pastBlanks.append line ho,
    (hbracket.folded hm rfl).pastBlanks.append line ho]
  rfl

namespace Function

theorem advancesTo_func : AdvancesTo (afterKeyword? "func".toList) :=
  Advances.keyword (by decide) (by decide) (forall_mem_marks.mpr (by decide))

theorem advancesTo_volatile : AdvancesTo (afterKeyword? "volatile".toList) :=
  Advances.keyword (by decide) (by decide) (forall_mem_marks.mpr (by decide))

-- Whether the keyword `EndFunc` at the front is a word of its own.
def readEnd? (cs : List Char) : Option Bool :=
  (afterKeyword? "endfunc".toList cs).bind fun rest => some (!rest.head?.any isWord)

theorem readsUpTo_readEnd? : ReadsUpTo comment readEnd? readEnd? := by
  refine (Advances.keyword (by decide) (by decide) (forall_mem_marks.mpr (by decide))).bind ?_
  intro rest _
  cases rest <;> rfl

theorem isEnd_eq (line : List Char) : isEnd line = (readEnd? (trimStart line)).getD false := by
  rw [isEnd, readEnd?]
  split
  case h_1 h => rw [h]; rfl
  case h_2 h => rw [h]; rfl

theorem isEnd_append (ho : EndsOutside none line) :
    isEnd (line ++ ' ' :: ';' :: comment) = isEnd line := by
  rw [isEnd_eq, isEnd_eq, readsUpTo_readEnd?.trim.append line ho]

-- The name of a function and what follows the parenthesis, at the keyword `Func`.
def readOpening? (cs : List Char) : Option (List Char × List Char) := do
  let cs ← afterKeyword? "func".toList cs
  let cs ← afterBlanks? cs
  let (name, cs) ← word? cs
  let list ← afterChar? '(' (trimStart cs)
  return (name, list)

-- A header up to its parenthesis, and what follows.
def opening? (line : List Char) : Option (List Char × List Char) :=
  let cs := trimStart line
  (((afterKeyword? "volatile".toList cs).bind afterBlanks?).bind readOpening?).or (readOpening? cs)

def close? (opening : List Char × List Char) : Option (List Char × List Char) :=
  (until? ')' opening.2).map fun x => (opening.1, x.1)

-- A header whose parameter list does not end on its line.
def IsUnclosed (line : List Char) : Prop :=
  ∃ name list, opening? line = some (name, list) ∧ ')' ∉ list

theorem readHeader?_eq (cs : List Char) : readHeader? cs = (readOpening? cs).bind close? := by
  simp only [readHeader?, readOpening?, Option.bind_eq_bind, Option.bind_assoc, Option.pure_def,
    Option.bind_some, close?, Option.map_eq_bind]
  rfl

-- A line that starts with `Volatile` does not start with `Func`.
theorem header?_eq (line : List Char) : header? line = (opening? line).bind close? := by
  have hbind (rest : Option (List Char)) : rest.bind readHeader? = (rest.bind readOpening?).bind close? := by
    cases rest
    case none   => rfl
    case some r => exact readHeader?_eq r
  rw [header?, opening?, hbind, readHeader?_eq]
  cases hv : afterKeyword? "volatile".toList (trimStart line)
  case none   => rfl
  case some r =>
    have hf : readOpening? (trimStart line) = none := by
      by_contra hf
      have ⟨_, hf⟩ := Option.ne_none_iff_exists'.mp hf
      have ⟨_, hf, _⟩ := Option.bind_eq_some_iff.mp hf
      have he := (head?_of_afterKeyword? hv (by simp)).symm.trans (head?_of_afterKeyword? hf (by simp))
      simp [lowerAscii] at he
    rw [hf, Option.bind_none, Option.or_none, Option.or_none]

theorem readsUpTo_readOpening? :
    ReadsUpTo comment readOpening? (fun cs => (readOpening? cs).map (Prod.map id (· ++ ' ' :: ';' :: comment))) := by
  have hlist (name : List Char) :
      ReadsUpTo comment (fun cs => (afterChar? '(' cs).bind fun list => some (name, list))
        (fun cs => (afterChar? '(' cs).bind fun list => some (name, list ++ ' ' :: ';' :: comment)) :=
    (Advances.char (by decide) (by decide)).bind fun _ _ => rfl
  simp only [readOpening?, Option.map_bind, Option.bind_eq_bind, Function.comp_def, Option.pure_def,
    Option.map_some]
  exact advancesTo_func.bindTo <| ReadsUpTo.blanks
    (Advances.word.bindWith fun name => (hlist name).trim) rfl

theorem opening?_append (ho : EndsOutside none line) :
    opening? (line ++ ' ' :: ';' :: comment) =
      (opening? line).map (Prod.map id (· ++ ' ' :: ';' :: comment)) := by
  have hvolatile : ReadsUpTo comment
      (fun cs => ((afterKeyword? "volatile".toList cs).bind afterBlanks?).bind readOpening?)
      (fun cs => (((afterKeyword? "volatile".toList cs).bind afterBlanks?).bind readOpening?).map
        (Prod.map id (· ++ ' ' :: ';' :: comment))) := by
    simpa only [Option.map_bind, Option.bind_assoc, Function.comp_def] using
      advancesTo_volatile.bindTo <| readsUpTo_readOpening?.blanks rfl
  have h := (hvolatile.or readsUpTo_readOpening?).trim.append line ho
  rw [← Option.map_or] at h
  exact h

theorem header?_append (ho : EndsOutside none line) :
    header? (line ++ ' ' :: ';' :: comment) =
      (opening? line).bind fun (name, list) => close? (name, list ++ ' ' :: ';' :: comment) := by
  rw [header?_eq, opening?_append ho]
  cases opening? line <;> rfl

-- A comment completes a header or leaves it alone.
theorem header?_append_cases (ho : EndsOutside none line) :
    IsUnclosed line ∧ ')' ∈ comment ∧ header? line = none ∧
      (header? (line ++ ' ' :: ';' :: comment)).isSome ∨
    ¬(IsUnclosed line ∧ ')' ∈ comment) ∧
      header? (line ++ ' ' :: ';' :: comment) = header? line := by
  rw [header?_append ho, header?_eq]
  cases hl : opening? line
  case none   => exact .inr ⟨fun ⟨⟨_, _, h, _⟩, _⟩ => by simp [hl] at h, rfl⟩
  case some x =>
    have hunclosed : IsUnclosed line ↔ ')' ∉ x.2 := by
      simp only [IsUnclosed, hl, Option.some.injEq]
      exact ⟨fun ⟨_, _, h, hn⟩ => h ▸ hn, fun hn => ⟨x.1, x.2, rfl, hn⟩⟩
    simp only [hunclosed, Option.bind_some, close?]
    obtain ⟨hx, hc, hn, read, rest, hr, _⟩ | ⟨hn, he⟩ :=
      until?_append_cases (d := ')') (by decide) (by decide) x.2 comment
    case inl => exact .inl ⟨hx, hc, by rw [hn]; rfl, by rw [hr]; rfl⟩
    case inr =>
      refine .inr ⟨hn, ?_⟩
      simpa [Function.comp_def] using congrArg (Option.map (x.1, ·)) he

theorem mem_of_readOpening? {cs name list : List Char} (h : readOpening? cs = some (name, list))
    (hm : ')' ∈ cs) : ')' ∈ list := by
  have ⟨_, hfunc, h⟩ := Option.bind_eq_some_iff.mp h
  have ⟨_, hblanks, h⟩ := Option.bind_eq_some_iff.mp h
  have ⟨_, hword, h⟩ := Option.bind_eq_some_iff.mp h
  have ⟨_, hlist, h⟩ := Option.bind_eq_some_iff.mp h
  cases h
  have hm := mem_of_afterBlanks? (mem_of_afterKeyword? hm hfunc (by decide)) hblanks (by decide)
  exact mem_of_afterChar? (mem_trimStart (mem_of_word? hm hword (by decide)) (by decide)) hlist (by decide)

-- The parenthesis that an open header lacks is nowhere on its line.
theorem notMem_of_isUnclosed (h : IsUnclosed line) : ')' ∉ line := by
  have ⟨name, list, ho, hn⟩ := h
  intro hm
  have hm := mem_trimStart hm (by decide)
  obtain ho | ⟨_, ho⟩ := Option.or_eq_some_iff.mp ho
  case inr => exact hn <| mem_of_readOpening? ho hm
  case inl =>
    have ⟨_, hblanks, ho⟩ := Option.bind_eq_some_iff.mp ho
    have ⟨_, hvolatile, hblanks⟩ := Option.bind_eq_some_iff.mp hblanks
    have hm := mem_of_afterBlanks? (mem_of_afterKeyword? hm hvolatile (by decide)) hblanks (by decide)
    exact hn <| mem_of_readOpening? ho hm

end Function

namespace Include

-- What follows the bracket of a library include.
def opening? (line : List Char) : Option (List Char) :=
  (afterKeyword? "#include".toList (trimStart line)).bind fun cs => afterChar? '<' (trimStart cs)

-- A library include whose target does not end on its line.
def IsUnclosed (line : List Char) : Prop :=
  ∃ target, opening? line = some target ∧ '>' ∉ target

def ofTarget? (number : Nat) (x : IncludeKind × List Char) : Option Include :=
  match trim x.2 with
  | []   => none
  | path => some ⟨x.1, String.ofList path, number⟩

theorem ofLine?_eq (number : Nat) (line : List Char) :
    ofLine? ⟨number, line⟩ = (afterKeyword? "#include".toList (trimStart line)).bind fun cs =>
      (readTarget? (trimStart cs)).bind (ofTarget? number) :=
  rfl

-- A target in brackets is read on into the comment.
def readTargetBefore? (comment : List Char) (cs : List Char) : Option (IncludeKind × List Char) :=
  match afterChar? '<' cs with
  | some target => (until? '>' (target ++ ' ' :: ';' :: comment)).map fun x => (.library, x.1)
  | none        => readTarget? cs

theorem readsUpTo_readTarget? : ReadsUpTo comment readTarget? (readTargetBefore? comment) where
  start  := rfl
  append := by
    intro cs ho
    have hclosed {quote : Char} {cs : List Char} (ho : EndsOutside (some quote) cs) :
        (until? quote (cs ++ ' ' :: ';' :: comment)).map (fun x => (IncludeKind.relative, x.1)) =
          (until? quote cs).map fun x => (.relative, x.1) := by
      have ⟨target, rest, _, hu⟩ := ho.until?_append
      have hcs : until? quote cs = some (target, rest) := by simpa using hu []
      rw [hu, hcs]
      rfl
    match cs with
    | []      => rfl
    | c :: cs =>
      by_cases hlib : c = '<'
      case pos => subst hlib; rfl
      by_cases hdouble : c = '"'
      case pos => subst hdouble; exact hclosed <| ho.tail (by simp)
      by_cases hsingle : c = '\''
      case pos => subst hsingle; exact hclosed <| ho.tail (by simp)
      simp [readTargetBefore?, readTarget?, afterChar?, hlib, hdouble, hsingle]

theorem ofLine?_append (ho : EndsOutside none line) :
    ofLine? ⟨number, line ++ ' ' :: ';' :: comment⟩ =
      (afterKeyword? "#include".toList (trimStart line)).bind fun cs =>
        (readTargetBefore? comment (trimStart cs)).bind (ofTarget? number) :=
  ((Advances.keyword (by decide) (by decide) (forall_mem_marks.mpr (by decide))).bindTo
    (readsUpTo_readTarget?.andThen (ofTarget? number)).trim).trim.append line ho

theorem ofTarget?_isSome {x : IncludeKind × List Char} {c : Char} (hm : c ∈ x.2) (hb : ¬isBlank c) :
    (ofTarget? number x).isSome := by
  rw [ofTarget?]
  split
  case h_1 h => simpa [h] using mem_trim hm hb
  case h_2   => rfl

-- A comment completes an include or leaves it alone.
theorem ofLine?_append_cases (ho : EndsOutside none line) :
    IsUnclosed line ∧ '>' ∈ comment ∧ ofLine? ⟨number, line⟩ = none ∧
      (ofLine? ⟨number, line ++ ' ' :: ';' :: comment⟩).isSome ∨
    ¬(IsUnclosed line ∧ '>' ∈ comment) ∧
      ofLine? ⟨number, line ++ ' ' :: ';' :: comment⟩ = ofLine? ⟨number, line⟩ := by
  have hnone (h : opening? line = none) : ¬(IsUnclosed line ∧ '>' ∈ comment) :=
    fun ⟨⟨_, hs, _⟩, _⟩ => by simp [h] at hs
  rw [ofLine?_append ho, ofLine?_eq]
  cases hk : afterKeyword? "#include".toList (trimStart line)
  case none    => exact .inr ⟨hnone (by rw [opening?, hk]; rfl), rfl⟩
  case some cs =>
    have hopening : opening? line = afterChar? '<' (trimStart cs) := by rw [opening?, hk]; rfl
    cases ht : afterChar? '<' (trimStart cs)
    case none        => exact .inr ⟨hnone (hopening.trans ht), by simp [readTargetBefore?, ht]⟩
    case some target =>
      have hunclosed : IsUnclosed line ↔ '>' ∉ target := by simp [IsUnclosed, hopening, ht]
      have hread : readTarget? (trimStart cs) = (until? '>' target).map fun x => (.library, x.1) := by
        rw [afterChar?_eq_some ht]
        rfl
      simp only [Option.bind_some, readTargetBefore?, ht, hread, hunclosed]
      obtain ⟨hx, hc, hn, read, rest, hr, hm⟩ | ⟨hn, he⟩ :=
        until?_append_cases (d := '>') (by decide) (by decide) target comment
      case inl =>
        refine .inl ⟨hx, hc, by rw [hn]; rfl, ?_⟩
        rw [hr]
        exact ofTarget?_isSome hm (by decide)
      case inr =>
        have he := congrArg (Option.map (IncludeKind.library, ·)) he
        simp only [Option.map_map, Function.comp_def] at he
        exact .inr ⟨hn, by rw [he]⟩

end Include

-- The code of a line stays as it is, up to the blank before the comment.
theorem beforeComment_append {quote : Option Char} (ho : EndsOutside quote line) :
    beforeComment quote (line ++ ' ' :: ';' :: comment) = beforeComment quote line ∨
      beforeComment quote (line ++ ' ' :: ';' :: comment) = beforeComment quote line ++ [' '] := by
  induction line generalizing quote
  case nil =>
    cases quote
    case none   => exact .inr rfl
    case some q => cases ho
  case cons c cs hi =>
    rw [List.cons_append, beforeComment_cons, beforeComment_cons]
    split
    case isTrue    => exact .inl rfl
    case isFalse h => simpa using hi (ho.tail h)

-- A line with code in it is no comment, whatever follows.
theorem isComment_append {d : Char} (hd : d ∈ beforeComment none line) (hb : ¬isBlank d) (text : List Char) :
    isComment (line ++ text) = false := by
  induction line
  case nil => cases hd
  case cons c cs hi =>
    rw [beforeComment_cons] at hd
    split at hd
    case isTrue     => cases hd
    case isFalse hs =>
      by_cases hc : isBlank c
      case pos =>
        rw [nextQuote_of_notMem_marks <| notMem_marks_of_isBlank hc] at hd
        have hne : d ≠ c := fun he => hb (he ▸ hc)
        simpa [isComment, trimStart, hc] using hi ((List.mem_cons.mp hd).resolve_left hne)
      case neg => simpa [isComment, trimStart, hc] using hs

namespace Call

theorem arguments?_cons (c : Char) (cs : List Char) :
    arguments? (c :: cs) =
      if c = ')' then some [] else if c = '(' then none else (arguments? cs).map (c :: ·) := by
  rw [arguments?, arguments?]
  by_cases hclose : c = ')'
  case pos => simp [hclose]
  by_cases hopen : c = '('
  case pos => simp [hopen]
  have hc : (c != '(' && c != ')') = true := by simp [hclose, hopen]
  simp only [List.dropWhile_cons, List.takeWhile_cons, hc, if_neg hclose, if_neg hopen, if_true]
  split <;> rfl

theorem arguments?_append (cs : List Char) : arguments? (cs ++ [' ']) = arguments? cs := by
  induction cs
  case nil => rfl
  case cons c cs hi => rw [List.cons_append, arguments?_cons, arguments?_cons, hi]

theorem groupsFrom_append (trail : Trail) (cs : List Char) :
    groupsFrom trail (cs ++ [' ']) = groupsFrom trail cs := by
  induction cs generalizing trail
  case nil => simp [groupsFrom, opened?]
  case cons c cs hi =>
    have ho : opened? trail c (cs ++ [' ']) = opened? trail c cs := by
      rw [opened?, opened?, arguments?_append]
    simp only [List.cons_append, groupsFrom, ho, hi]

-- A line that has a parenthesis in its code is no comment and no open header, and its groups end before
-- the blank. All other lines have no groups.
theorem ofLine_append {map : List Char} (ho : EndsOutside none line) :
    ofLine map ⟨number, line ++ ' ' :: ';' :: comment⟩ = ofLine map ⟨number, line⟩ := by
  have hgroups : groups (beforeComment none (line ++ ' ' :: ';' :: comment)) = groups (beforeComment none line) := by
    obtain hcode | hcode := beforeComment_append ho
    case inl => rw [hcode]
    case inr => rw [hcode, groups_eq, groups_eq, groupsFrom_append]
  rw [ofLine, ofLine, hgroups]
  by_cases hm : ')' ∈ beforeComment none line
  case neg =>
    have hnil : groups (beforeComment none line) = [] := groups_of_notMem hm
    simp [hnil]
  case pos =>
    have hline : ')' ∈ line := by
      have ⟨_, hs, _⟩ := exists_comment none line
      rw [hs]
      exact List.mem_append_left _ hm
    have hheader : Function.header? (line ++ ' ' :: ';' :: comment) = Function.header? line := by
      obtain ⟨hu, _⟩ | ⟨_, he⟩ := Function.header?_append_cases ho
      case inl => exact absurd hline <| Function.notMem_of_isUnclosed hu
      case inr => exact he
    have hcomment := isComment_append hm (by decide)
    have hplain : isComment line = false := by simpa using hcomment []
    simp only [hcomment, hheader, hplain]

end Call

end ScriptMaps
