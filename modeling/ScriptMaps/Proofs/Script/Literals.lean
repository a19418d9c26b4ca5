import Mathlib.Data.List.Basic
import ScriptMaps.Script.CodeLine

namespace ScriptMaps

-- The literal that a text is in after one more character, given by its quote character.
def nextQuote (quote : Option Char) (c : Char) : Option Char :=
  match quote with
  | some q => if c = q then none else some q
  | none   => if c = '"' ∨ c = '\'' then some c else none

def quoteAfter (quote : Option Char) (text : List Char) : Option Char :=
  text.foldl nextQuote quote

-- The characters inside literals, or those outside, of a text that starts in the literal of `quote`. The
-- quote that opens a literal is outside of it, the one that closes it is inside.
def literalPart (inside : Bool) (quote : Option Char) : List Char → List Char
  | []      => []
  | c :: cs =>
    if quote.isSome = inside then c :: literalPart inside (nextQuote quote c) cs
    else literalPart inside (nextQuote quote c) cs

def outsideLiterals (quote : Option Char) (text : List Char) : List Char :=
  literalPart false quote text

def insideLiterals (quote : Option Char) (text : List Char) : List Char :=
  literalPart true quote text

@[simp]
theorem outsideLiterals_none (c : Char) (cs : List Char) :
    outsideLiterals none (c :: cs) = c :: outsideLiterals (nextQuote none c) cs :=
  rfl

@[simp]
theorem outsideLiterals_some (q c : Char) (cs : List Char) :
    outsideLiterals (some q) (c :: cs) = outsideLiterals (nextQuote (some q) c) cs :=
  rfl

@[simp]
theorem insideLiterals_none (c : Char) (cs : List Char) :
    insideLiterals none (c :: cs) = insideLiterals (nextQuote none c) cs :=
  rfl

@[simp]
theorem insideLiterals_some (q c : Char) (cs : List Char) :
    insideLiterals (some q) (c :: cs) = c :: insideLiterals (nextQuote (some q) c) cs :=
  rfl

@[simp]
theorem quoteAfter_cons (quote : Option Char) (c : Char) (cs : List Char) :
    quoteAfter quote (c :: cs) = quoteAfter (nextQuote quote c) cs :=
  rfl

theorem beforeComment_cons (quote : Option Char) (c : Char) (cs : List Char) :
    beforeComment quote (c :: cs) =
      if quote = none ∧ c = ';' then [] else c :: beforeComment (nextQuote quote c) cs := by
  cases quote
  case none   => by_cases hc : c = ';' <;> simp [beforeComment, nextQuote, hc]
  case some q => simp [beforeComment, nextQuote]

-- The code of a line is the line up to its first semicolon outside literals.
theorem exists_comment (quote : Option Char) (line : List Char) :
    ∃ comment, line = beforeComment quote line ++ comment ∧
      ';' ∉ outsideLiterals quote (beforeComment quote line) ∧
      (comment = [] ∨
        comment.head? = some ';' ∧ quoteAfter quote (beforeComment quote line) = none) := by
  induction line generalizing quote
  case nil => exact ⟨[], by simp [beforeComment, outsideLiterals, literalPart]⟩
  case cons c cs hi =>
    rw [beforeComment_cons]
    split
    case isTrue h =>
      exact ⟨c :: cs, by simp [h, outsideLiterals, literalPart, quoteAfter]⟩
    case isFalse h =>
      have ⟨comment, hs, hm, hc⟩ := hi (nextQuote quote c)
      refine ⟨comment, congrArg (c :: ·) hs, ?_, hc⟩
      cases quote
      case none   => exact List.not_mem_cons_of_ne_of_not_mem (fun hc => h ⟨rfl, hc.symm⟩) hm
      case some q => exact hm

theorem count_literals (quote : Option Char) (text : List Char) (c : Char) :
    (outsideLiterals quote text).count c + (insideLiterals quote text).count c = text.count c := by
  induction text generalizing quote
  case nil => rfl
  case cons d text hi =>
    cases quote
    case none   =>
      simp only [outsideLiterals_none, insideLiterals_none, List.count_cons, ← hi (nextQuote none d)]
      omega
    case some q =>
      simp only [outsideLiterals_some, insideLiterals_some, List.count_cons, ← hi (nextQuote (some q) d)]
      omega

theorem outsideLiterals_append (quote : Option Char) (a b : List Char) :
    outsideLiterals quote (a ++ b) =
      outsideLiterals quote a ++ outsideLiterals (quoteAfter quote a) b := by
  induction a generalizing quote
  case nil => rfl
  case cons c a hi => cases quote <;> simp [hi]

theorem insideLiterals_append (quote : Option Char) (a b : List Char) :
    insideLiterals quote (a ++ b) = insideLiterals quote a ++ insideLiterals (quoteAfter quote a) b := by
  induction a generalizing quote
  case nil => rfl
  case cons c a hi => cases quote <;> simp [hi]

-- Where a character that is inside no literal stands, no literal is open.
theorem quoteAfter_of_notMem_insideLiterals {quote : Option Char} {before after : List Char} {c : Char}
    (h : c ∉ insideLiterals quote (before ++ c :: after)) : quoteAfter quote before = none := by
  rw [insideLiterals_append] at h
  cases hq : quoteAfter quote before
  case none   => rfl
  case some q => simp [hq] at h

-- The characters that the scan for a line's comment looks at.
def marks : List Char :=
  [';', '"', '\'']

theorem forall_mem_marks {p : Char → Prop} : (∀ c ∈ marks, p c) ↔ p ';' ∧ p '"' ∧ p '\'' := by
  simp [marks]

-- A line that ends outside of literals: in a comment, or with none open.
def EndsOutside (quote : Option Char) (line : List Char) : Prop :=
  quoteAfter quote (beforeComment quote line) = none

instance {quote : Option Char} {line : List Char} : Decidable (EndsOutside quote line) :=
  inferInstanceAs <| Decidable (_ = _)

theorem nextQuote_of_notMem_marks {c : Char} (h : c ∉ marks) : nextQuote none c = none := by
  simp [marks] at h
  simp [nextQuote, h]

namespace EndsOutside

theorem tail {quote : Option Char} {c : Char} {cs : List Char} (h : EndsOutside quote (c :: cs))
    (hc : ¬(quote = none ∧ c = ';')) : EndsOutside (nextQuote quote c) cs := by
  rwa [EndsOutside, beforeComment_cons, if_neg hc] at h

theorem of_cons {c : Char} {cs : List Char} (h : EndsOutside none (c :: cs)) (hc : c ∉ marks) :
    EndsOutside none cs :=
  nextQuote_of_notMem_marks hc ▸ h.tail (by simp_all [marks])

theorem of_append {front rest : List Char} (h : EndsOutside none (front ++ rest))
    (hf : ∀ c ∈ front, c ∉ marks) : EndsOutside none rest := by
  induction front
  case nil => exact h
  case cons c front hi =>
    have ⟨hc, hf⟩ := List.forall_mem_cons.mp hf
    exact hi (h.of_cons hc) hf

-- A literal that is open is closed in a line that ends outside of literals.
theorem exists_closed {q : Char} {cs : List Char} (h : EndsOutside (some q) cs) :
    ∃ text rest, cs = text ++ q :: rest ∧ q ∉ text ∧ EndsOutside none rest := by
  induction cs
  case nil => cases h
  case cons c cs hi =>
    have h := h.tail (by simp)
    by_cases hc : c = q
    case pos =>
      subst hc
      exact ⟨[], cs, rfl, by simp, by simpa [nextQuote] using h⟩
    case neg =>
      have ⟨text, rest, hs, hq, hr⟩ := hi (by simpa [nextQuote, hc] using h)
      exact ⟨c :: text, rest, by simp [hs], by simp [hq, Ne.symm hc], hr⟩

end EndsOutside

end ScriptMaps
