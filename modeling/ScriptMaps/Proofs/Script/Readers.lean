import ScriptMaps.Proofs.Script.Literals
import ScriptMaps.Proofs.Text.Fold
import ScriptMaps.Script.Basic

-- A reader that takes blanks, words, keywords and closed literals off the front of a line gives the same
-- answer with a comment as without it.

namespace ScriptMaps
open Text

-- Where a comment follows the text, `p` answers as `q` does without it. At the comment it answers as `q`
-- does at the end of the text, for the blank before the comment may be read already.
structure ReadsUpTo {α : Type} (comment : List Char) (p q : List Char → Option α) : Prop where
  append : ∀ cs, EndsOutside none cs → p (cs ++ ' ' :: ';' :: comment) = q cs
  start  : p (';' :: comment) = q []

-- A reader that stops before a blank and takes no characters that open literals or comments. What it
-- reads holds the rest of the text, and can be extended by more text.
structure Advances {β : Type} (rest : β → List Char) (extend : β → List Char → β)
    (r : List Char → Option β) : Prop where
  nil    : r [] = none
  start  : ∀ comment, r (';' :: comment) = none
  append : ∀ cs text, r (cs ++ ' ' :: text) = (r cs).map (extend · (' ' :: text))
  front  : ∀ cs b, r cs = some b → ∃ front, cs = front ++ rest b ∧ ∀ c ∈ front, c ∉ marks

abbrev AdvancesTo (r : List Char → Option (List Char)) : Prop :=
  Advances id (· ++ ·) r

abbrev AdvancesWith {γ : Type} (r : List Char → Option (γ × List Char)) : Prop :=
  Advances Prod.snd (fun x text => (x.1, x.2 ++ text)) r

variable {α β : Type} {comment : List Char}

theorem notMem_marks_of_isBlank {c : Char} (h : isBlank c) : c ∉ marks := by
  have hm : ∀ c ∈ marks, ¬isBlank c := forall_mem_marks.mpr (by decide)
  exact fun hc => hm c hc h

theorem notMem_marks_of_isWord {c : Char} (h : isWord c) : c ∉ marks := by
  have hm : ∀ c ∈ marks, ¬isWord c := forall_mem_marks.mpr (by decide)
  exact fun hc => hm c hc h

theorem mem_marks_of_fold_eq {c d : Char} (hd : d ∈ marks) (h : fold c = fold d) : c ∈ marks := by
  have hm : ∀ d ∈ marks, fold d = d ∧ d.toNat ≠ 0 ∧ d.toNat < 'A'.toNat := forall_mem_marks.mpr (by decide)
  have ⟨hfold, h0, hlt⟩ := hm d hd
  exact eq_of_fold_eq h0 hlt (h.trans hfold) ▸ hd

theorem EndsOutside.trimStart {cs : List Char} (h : EndsOutside none cs) :
    EndsOutside none (trimStart cs) := by
  have ⟨blanks, hs, hb⟩ := trimStart_eq cs
  exact (hs ▸ h).of_append fun c hc => notMem_marks_of_isBlank <| hb c hc

-- What is read up to a `d` changes only if the text has no `d` and the comment has one.
theorem until?_append_cases {d : Char} (hb : d ≠ ' ') (hm : d ∉ marks) (text comment : List Char) :
    (d ∉ text ∧ d ∈ comment ∧ until? d text = none ∧
      ∃ read rest, until? d (text ++ ' ' :: ';' :: comment) = some (read, rest) ∧ ';' ∈ read) ∨
    ¬(d ∉ text ∧ d ∈ comment) ∧
      (until? d (text ++ ' ' :: ';' :: comment)).map Prod.fst = (until? d text).map Prod.fst := by
  have hs : d ≠ ';' := fun h => hm <| by simp [marks, h]
  by_cases hx : d ∈ text
  case pos => exact .inr ⟨fun h => h.left hx, until?_append_of_mem hx _⟩
  by_cases hc : d ∈ comment
  case pos =>
    obtain ⟨front, rest, rfl, hn⟩ := List.eq_append_cons_of_mem hc
    have hread : d ∉ text ++ ' ' :: ';' :: front := by simp [hx, hn, hb, hs]
    refine .inl ⟨hx, hc, until?_of_notMem hx, text ++ ' ' :: ';' :: front, rest, ?_, by simp⟩
    simpa using until?_append hread rest
  case neg =>
    have hn : d ∉ text ++ ' ' :: ';' :: comment := by simp [hx, hc, hb, hs]
    exact .inr ⟨fun h => hc h.right, by rw [until?_of_notMem hx, until?_of_notMem hn]⟩

-- A literal that starts before the comment ends before it.
theorem EndsOutside.until?_append {quote : Char} {cs : List Char} (h : EndsOutside (some quote) cs) :
    ∃ literal rest, EndsOutside none rest ∧
      ∀ text, until? quote (cs ++ text) = some (literal, rest ++ text) := by
  obtain ⟨literal, rest, rfl, hq, ho⟩ := h.exists_closed
  refine ⟨literal, rest, ho, ?_⟩
  intro text
  rw [List.append_assoc, List.cons_append, Text.until?_append hq]

namespace Advances

theorem bind {rest : β → List Char} {extend : β → List Char → β} {r : List Char → Option β}
    {p q : β → Option α} (hr : Advances rest extend r)
    (h : ∀ b, EndsOutside none (rest b) → p (extend b (' ' :: ';' :: comment)) = q b) :
    ReadsUpTo comment (fun cs => (r cs).bind p) (fun cs => (r cs).bind q) where
  start  := by rw [hr.start, hr.nil]; rfl
  append := by
    intro cs ho
    rw [hr.append]
    cases hb : r cs
    case none   => rfl
    case some b =>
      have ⟨front, hs, hf⟩ := hr.front cs b hb
      exact h b <| (hs ▸ ho).of_append hf

theorem bindTo {r : List Char → Option (List Char)} {p q : List Char → Option α} (hr : AdvancesTo r)
    (h : ReadsUpTo comment p q) :
    ReadsUpTo comment (fun cs => (r cs).bind p) (fun cs => (r cs).bind q) :=
  hr.bind h.append

theorem bindWith {r : List Char → Option (β × List Char)} {p q : β → List Char → Option α}
    (hr : AdvancesWith r) (h : ∀ b, ReadsUpTo comment (p b) (q b)) :
    ReadsUpTo comment (fun cs => (r cs).bind fun x => p x.1 x.2) (fun cs => (r cs).bind fun x => q x.1 x.2) :=
  hr.bind fun x => (h x.1).append x.2

theorem char {d : Char} (hb : d ≠ ' ') (hm : d ∉ marks) : AdvancesTo (afterChar? d) where
  nil    := rfl
  start  := fun comment => if_neg (by rintro rfl; simp [marks] at hm)
  append := by
    intro cs text
    cases cs
    case nil       => exact if_neg hb.symm
    case cons c cs => by_cases hc : c = d <;> simp [afterChar?, hc]
  front  := fun cs rest h => ⟨[d], afterChar?_eq_some h, by simpa using hm⟩

theorem word : AdvancesWith word? where
  nil    := rfl
  start  := fun _ => rfl
  append := by
    intro cs text
    have hb : isWord ' ' = false := by decide
    rw [word?, word?, takeWhile_append_cons hb, dropWhile_append_cons hb]
    split <;> rfl
  front  := by
    rintro cs ⟨word, rest⟩ h
    obtain ⟨hs, hw⟩ := word?_eq_some h
    exact ⟨word, hs, fun c hc => notMem_marks_of_isWord <| hw c hc⟩

-- A keyword has no blank and no mark in it, whatever the case of the letters.
theorem keyword {word : List Char} (hn : word ≠ []) (hb : ' ' ∉ lowerAscii word)
    (hm : ∀ c ∈ marks, c ∉ lowerAscii word) : AdvancesTo (afterKeyword? word) where
  nil    := by cases word <;> trivial
  start  := by
    intro comment
    cases word
    case nil       => contradiction
    case cons w ws =>
      refine if_neg fun hw => ?_
      simp [lowerAscii, hw, marks] at hm
  append := by
    intro cs text
    clear hn hm
    induction word generalizing cs
    case nil => cases cs <;> rfl
    case cons w ws hi =>
      obtain ⟨hne, hws⟩ : w.toLower ≠ ' ' ∧ ' ' ∉ lowerAscii ws := by
        simpa [lowerAscii, eq_comm] using hb
      cases cs
      case nil       => exact if_neg hne
      case cons c cs => by_cases hc : w.toLower = c.toLower <;> simp [afterKeyword?, hc, hi hws]
  front  := by
    intro cs rest h
    have hlower : ∀ c ∈ marks, c.toLower = c := forall_mem_marks.mpr (by decide)
    obtain ⟨front, hs, hl⟩ := afterKeyword?_eq_some h
    refine ⟨front, hs, ?_⟩
    intro c hc hmark
    refine hm c hmark ?_
    rw [← hl]
    exact List.mem_map.mpr ⟨c, hc, hlower c hmark⟩

-- Nor has a name that is read up to case folding, if no blank folds into it.
theorem folded {name : List Char} (hn : name ≠ []) (hb : fold ' ' ∉ name.map fold)
    (hm : ∀ c ∈ name, c ∉ marks) : AdvancesTo (afterFolded? name) where
  nil    := by cases name <;> trivial
  start  := by
    intro comment
    cases name
    case nil       => contradiction
    case cons n ns => exact if_neg fun he => hm n (.head _) <| mem_marks_of_fold_eq (by decide) he
  append := by
    intro cs text
    clear hn hm
    induction name generalizing cs
    case nil => cases cs <;> rfl
    case cons n ns hi =>
      obtain ⟨hne, hns⟩ : fold n ≠ fold ' ' ∧ fold ' ' ∉ ns.map fold := by
        rw [List.map_cons, List.mem_cons, not_or] at hb
        exact ⟨Ne.symm hb.left, hb.right⟩
      cases cs
      case nil       => exact if_neg hne
      case cons c cs => by_cases hc : fold n = fold c <;> simp [afterFolded?, hc, hi hns]
  front  := by
    intro cs rest h
    obtain ⟨front, hs, hf⟩ := afterFolded?_eq_some_iff.mp h
    refine ⟨front, hs, ?_⟩
    intro c hc hmark
    obtain ⟨d, hd, he⟩ := List.mem_map.mp (hf ▸ List.mem_map_of_mem hc : fold c ∈ name.map fold)
    exact hm d hd <| mem_marks_of_fold_eq hmark he

theorem readFolded {name : List Char} (hn : name ≠ []) (hb : fold ' ' ∉ name.map fold)
    (hm : ∀ c ∈ name, c ∉ marks) : AdvancesWith (readFolded? name) where
  nil    := by rw [readFolded?, (folded hn hb hm).nil]; rfl
  start  := fun comment => by rw [readFolded?, (folded hn hb hm).start]; rfl
  append := by
    intro cs text
    rw [readFolded?, readFolded?, (folded hn hb hm).append]
    cases h : afterFolded? name cs
    case none      => rfl
    case some rest =>
      obtain ⟨front, rfl, hf⟩ := afterFolded?_eq_some_iff.mp h
      have hl : name.length = front.length := by simpa using (congrArg List.length hf).symm
      simp [hl]
  front  := by
    rintro cs ⟨written, rest⟩ h
    obtain ⟨_, hrest, he⟩ := Option.map_eq_some_iff.mp h
    cases he
    exact (folded hn hb hm).front cs rest hrest

theorem or {r r' : List Char → Option (List Char)} (h : AdvancesTo r) (h' : AdvancesTo r') :
    AdvancesTo fun cs => (r cs).or (r' cs) where
  nil    := by rw [h.nil, h'.nil]; rfl
  start  := fun comment => by rw [h.start, h'.start]; rfl
  append := by
    intro cs text
    rw [h.append, h'.append, Option.map_or]
  front  := by
    intro cs rest hr
    obtain hr | ⟨_, hr⟩ := Option.or_eq_some_iff.mp hr
    case inl => exact h.front cs rest hr
    case inr => exact h'.front cs rest hr

end Advances

theorem Scope.plain_name (scope : Scope) :
    scope.name.toList ≠ [] ∧ fold ' ' ∉ scope.name.toList.map fold ∧ ∀ c ∈ scope.name.toList, c ∉ marks := by
  have hm : ∀ c ∈ marks, c ∉ scope.name.toList := forall_mem_marks.mpr (by cases scope <;> decide)
  exact ⟨by cases scope <;> decide, by cases scope <;> decide, fun c hc hm' => hm c hm' hc⟩

theorem Scope.advancesTo_name (scope : Scope) : AdvancesTo (afterFolded? scope.name.toList) :=
  have ⟨hn, hb, hm⟩ := scope.plain_name
  .folded hn hb hm

theorem Scope.advancesWith_name (scope : Scope) : AdvancesWith (readFolded? scope.name.toList) :=
  have ⟨hn, hb, hm⟩ := scope.plain_name
  .readFolded hn hb hm

theorem Scope.advancesWith_read? : AdvancesWith Scope.read? where
  nil    := rfl
  start  := by
    intro comment
    exact List.findSome?_eq_none_iff.mpr fun scope _ => scope.advancesWith_name.start comment
  append := by
    intro cs text
    have hk (scope : Scope) := scope.advancesWith_name.append cs text
    simp only [read?, hk, List.map_findSome?, Function.comp_def]
  front  := by
    intro cs b h
    have ⟨scope, _, h⟩ := List.exists_of_findSome?_eq_some h
    exact scope.advancesWith_name.front cs b h

namespace Assignment

-- An equals sign that no second one follows.
def startsEquals : List Char → Bool
  | '=' :: '=' :: _ => false
  | '=' :: _        => true
  | _               => false

theorem startsOperator_cons (c : Char) (cs : List Char) :
    startsOperator (c :: cs) =
      if c ∈ ['-', '+', '*', '/', '&'] then startsEquals cs else startsEquals (c :: cs) :=
  apply_ite startsEquals ..

theorem startsEquals_append (cs text : List Char) :
    startsEquals (cs ++ ' ' :: text) = startsEquals cs := by
  match cs with
  | []           => rfl
  | [c]          => by_cases hc : c = '=' <;> simp [startsEquals, hc]
  | c :: d :: cs => by_cases hc : c = '=' <;> by_cases hd : d = '=' <;> simp [startsEquals, hc, hd]

theorem startsOperator_append (cs text : List Char) :
    startsOperator (cs ++ ' ' :: text) = startsOperator cs := by
  cases cs
  case nil       => rfl
  case cons c cs =>
    rw [List.cons_append, startsOperator_cons, startsOperator_cons, startsEquals_append, ← List.cons_append,
      startsEquals_append]

end Assignment

namespace ReadsUpTo

variable {p q : List Char → Option α}

theorem trim (h : ReadsUpTo comment p q) :
    ReadsUpTo comment (fun cs => p (trimStart cs)) (fun cs => q (trimStart cs)) where
  start  := h.start
  append := by
    intro cs ho
    have ht : trimStart (cs ++ ' ' :: ';' :: comment) =
        if (trimStart cs).isEmpty then ';' :: comment else trimStart cs ++ ' ' :: ';' :: comment :=
      List.dropWhile_append
    rw [ht]
    split
    case isTrue he  => rw [h.start, List.isEmpty_iff.mp he]
    case isFalse he => exact h.append _ ho.trimStart

theorem andThen (h : ReadsUpTo comment p q) (k : α → Option β) :
    ReadsUpTo comment (fun cs => (p cs).bind k) (fun cs => (q cs).bind k) where
  append := fun cs ho => by rw [h.append cs ho]
  start  := by rw [h.start]

theorem or {p' q' : List Char → Option α} (h : ReadsUpTo comment p q) (h' : ReadsUpTo comment p' q') :
    ReadsUpTo comment (fun cs => (p cs).or (p' cs)) (fun cs => (q cs).or (q' cs)) where
  append := fun cs ho => by rw [h.append cs ho, h'.append cs ho]
  start  := by rw [h.start, h'.start]

theorem blanks (h : ReadsUpTo comment p q) (hq : q [] = none) :
    ReadsUpTo comment (fun cs => (afterBlanks? cs).bind p) (fun cs => (afterBlanks? cs).bind q) where
  start  := rfl
  append := by
    intro cs ho
    cases cs
    case nil       => exact h.start.trans hq
    case cons c cs =>
      by_cases hc : isBlank c
      case pos => simpa [afterBlanks?, hc] using h.trim.append cs <| ho.of_cons <| notMem_marks_of_isBlank hc
      case neg => simp [afterBlanks?, hc]

-- A name without marks does not reach into a comment, up to the blank before it at most.
theorem folded {name : List Char} (hn : ∀ c ∈ name, c ∉ marks) (h : ReadsUpTo comment p q)
    (hq : q [] = none) :
    ReadsUpTo comment (fun cs => (afterFolded? name cs).bind p) (fun cs => (afterFolded? name cs).bind q) := by
  have hend (name : List Char) : (afterFolded? name []).bind q = none := by
    cases name
    case nil  => exact hq
    case cons => rfl
  have hstart {name : List Char} (hn : ∀ c ∈ name, c ∉ marks) :
      (afterFolded? name (';' :: comment)).bind p = none := by
    cases name
    case nil       => exact h.start.trans hq
    case cons n ns =>
      have hne : fold n ≠ fold ';' := fun he => hn n (.head _) <| mem_marks_of_fold_eq (by decide) he
      simp [afterFolded?, hne]
  refine ⟨?_, (hstart hn).trans (hend name).symm⟩
  intro cs ho
  induction name generalizing cs
  case nil =>
    cases cs
    case nil  => exact h.append [] ho
    case cons => exact h.append _ ho
  case cons n ns hi =>
    obtain ⟨hnm, hns⟩ := List.forall_mem_cons.mp hn
    cases cs
    case nil =>
      by_cases hc : fold n = fold ' '
      case pos => simpa [afterFolded?, hc] using hstart hns
      case neg => simp [afterFolded?, hc]
    case cons c cs =>
      by_cases hc : fold n = fold c
      case neg => simp [afterFolded?, hc]
      case pos =>
        have hcm : c ∉ marks := fun hcm => hnm <| mem_marks_of_fold_eq hcm hc
        simpa [afterFolded?, hc] using hi hns cs (ho.of_cons hcm)

-- The leading blanks are given back one by one, but never the blank before the comment alone.
theorem pastBlanks (h : ReadsUpTo comment p q) : ReadsUpTo comment (pastBlanks? p) (pastBlanks? q) where
  start  := h.start
  append := by
    intro cs ho
    induction cs
    case nil =>
      have hp : p (' ' :: ';' :: comment) = q [] := h.append [] ho
      simp [pastBlanks?, hp, h.start, show isBlank ' ' = true from rfl, show isBlank ';' = false from rfl]
    case cons c cs hi =>
      have hp : p (c :: (cs ++ ' ' :: ';' :: comment)) = q (c :: cs) := h.append (c :: cs) ho
      by_cases hc : isBlank c
      case pos => simp [pastBlanks?, hc, hp, hi <| ho.of_cons <| notMem_marks_of_isBlank hc]
      case neg => simp [pastBlanks?, hc, hp]

theorem operator (key : List Char) :
    ReadsUpTo comment (fun cs => if Assignment.startsOperator cs then some key else none)
      (fun cs => if Assignment.startsOperator cs then some key else none) where
  start  := rfl
  append := fun cs _ => by rw [Assignment.startsOperator_append]

theorem quoted {p q : List Char → List Char → Option α} (h : ∀ key, ReadsUpTo comment (p key) (q key)) :
    ReadsUpTo comment (fun cs => (Assignment.readQuoted? cs).bind fun (key, cs) => p key cs)
      (fun cs => (Assignment.readQuoted? cs).bind fun (key, cs) => q key cs) where
  start  := rfl
  append := by
    intro cs ho
    have hclosed {quote : Char} {cs : List Char} (ho : EndsOutside (some quote) cs) :
        ((until? quote (cs ++ ' ' :: ';' :: comment)).bind fun (key, cs) => p key cs) =
          (until? quote cs).bind fun (key, cs) => q key cs := by
      have ⟨key, rest, ho, hu⟩ := ho.until?_append
      have hcs : until? quote cs = some (key, rest) := by simpa using hu []
      rw [hu, hcs]
      exact (h key).append rest ho
    cases cs
    case nil => rfl
    case cons c cs =>
      by_cases hdouble : c = '"'
      case pos => subst hdouble; exact hclosed <| ho.tail (by simp)
      by_cases hsingle : c = '\''
      case pos => subst hsingle; exact hclosed <| ho.tail (by simp)
      have hn (cs : List Char) : Assignment.readQuoted? (c :: cs) = none := by
        simp [Assignment.readQuoted?, hdouble, hsingle]
      simp [hn]

end ReadsUpTo

end ScriptMaps
