import ScriptMaps.Proofs.Text.Runs
import ScriptMaps.Script.Call

-- The groups of a code text, found one character after the other. Such a scan looks for them inside other
-- groups as well, and there are none.

namespace ScriptMaps
open Text

namespace Call

-- The word that ends where the scan stands, given backwards, and whether blanks follow it.
structure Trail where
  word  : List Char := []
  ended : Bool := false

namespace Trail

def push (t : Trail) (c : Char) : Trail :=
  if isWord c then
    if t.ended then { word := [c] } else { word := c :: t.word }
  else if isBlank c then { t with ended := true }
  else {}

-- The word is the called one of a group. What is left of it comes next.
inductive Leads (t : Trail) : List Char → Prop
  | intro {left gap content rest : List Char} (word : t.word ≠ []) (all : ∀ c ∈ left, isWord c)
      (ended : t.ended → left = []) (blank : ∀ c ∈ gap, isBlank c)
      (innermost : ∀ c ∈ content, c ≠ '(' ∧ c ≠ ')') :
      t.Leads (left ++ (gap ++ '(' :: (content ++ ')' :: rest)))

end Trail

-- The group that a character opens, given the trail before it and the text after it.
def opened? (trail : Trail) (c : Char) (cs : List Char) : Option (List Char × List Char) :=
  if c = '(' ∧ trail.word ≠ [] then (arguments? cs).map (trail.word.reverse, ·) else none

def groupsFrom (trail : Trail) : List Char → List (List Char × List Char)
  | [] => []
  | c :: cs =>
    match opened? trail c cs with
    | some group => group :: groupsFrom (trail.push c) cs
    | none => groupsFrom (trail.push c) cs

def trail (before : List Char) : Trail :=
  before.foldl Trail.push {}

variable {cs rest function content arguments : List Char} {c : Char} {t : Trail}

theorem arguments?_eq_some (h : arguments? cs = some arguments) :
    (∀ c ∈ arguments, c ≠ '(' ∧ c ≠ ')') ∧ ∃ after, cs = arguments ++ ')' :: after := by
  rw [arguments?] at h
  split at h
  case h_1 after hd =>
    cases h
    refine ⟨?_, after, ?_⟩
    case refine_1 => exact fun c hc => by simpa using List.mem_takeWhile_imp hc
    case refine_2 => exact hd ▸ List.takeWhile_append_dropWhile.symm
  case h_2 => contradiction

theorem arguments?_of_closed (h : ∀ c ∈ content, c ≠ '(' ∧ c ≠ ')') (rest : List Char) :
    arguments? (content ++ ')' :: rest) = some content := by
  have hr : Run (fun c => c != '(' && c != ')') content (')' :: rest) := .of_cons (by simpa using h) (by simp)
  simp only [arguments?, hr.dropWhile, hr.takeWhile]

theorem readGroup?_eq_some_iff :
    readGroup? cs = some ((function, content), rest) ↔
      function ≠ [] ∧ (∀ c ∈ function, isWord c) ∧ (∀ c ∈ content, c ≠ '(' ∧ c ≠ ')') ∧
        ∃ gap, (∀ c ∈ gap, isBlank c) ∧ cs = function ++ (gap ++ '(' :: (content ++ ')' :: rest)) := by
  simp only [readGroup?, Option.bind_eq_bind, Option.bind_eq_some_iff]
  constructor
  case mp =>
    rintro ⟨⟨_, after⟩, hw, opened, ho, _, ha, h⟩
    cases h
    obtain ⟨rfl, hword⟩ := word?_eq_some_iff.mp hw
    obtain ⟨gap, hs, hgap⟩ := exists_margin after
    obtain ⟨hi, rest, rfl⟩ := arguments?_eq_some ha
    rw [afterChar?_eq_some ho] at hs
    exact ⟨hword.ne, hword.all, hi, gap, hgap.all, by simp [hs]⟩
  case mpr =>
    rintro ⟨hn, hf, hi, gap, hgap, rfl⟩
    have hopen : Run isBlank gap ('(' :: (content ++ ')' :: rest)) := .of_cons hgap (by decide)
    have hword : WholeWord function (gap ++ '(' :: (content ++ ')' :: rest)) := by
      refine ⟨?_, hn⟩
      cases gap
      case nil        => exact .of_cons hf (by decide)
      case cons b gap => exact .of_cons hf (not_isWord_of_isBlank (hgap b (.head _)))
    refine ⟨_, word?_eq_some_iff.mpr ⟨rfl, hword⟩, _, afterChar?_eq_some_iff.mpr (trimStart_append hopen),
      content, arguments?_of_closed hi rest, ?_⟩
    simp

theorem groups_of_readGroup? {group : List Char × List Char} (h : readGroup? cs = some (group, rest)) :
    groups cs = group :: groups rest := by
  cases cs
  case nil => cases h
  case cons c cs =>
    rw [groups]
    split
    case h_1 h' => cases h.symm.trans h'; rfl
    case h_2 h' => cases h.symm.trans h'

theorem groups_of_notMem (h : ')' ∉ cs) : groups cs = [] := by
  fun_induction groups cs
  case case1 => rfl
  case case2 hg _ =>
    obtain ⟨_, _, _, _, _, hs⟩ := readGroup?_eq_some_iff.mp hg
    exact absurd (by simp [hs]) h
  case case3 hi => exact hi fun hm => h <| .tail _ hm

theorem opened?_eq_some {word : List Char} (h : opened? t c cs = some (word, arguments)) :
    c = '(' ∧ t.word ≠ [] ∧ word = t.word.reverse ∧ arguments? cs = some arguments := by
  rw [opened?] at h
  split at h
  case isFalse    => contradiction
  case isTrue hc  =>
    obtain ⟨_, ha, he⟩ := Option.map_eq_some_iff.mp h
    cases he
    exact ⟨hc.left, hc.right, rfl, ha⟩

theorem groupsFrom_append_of_notMem (h : '(' ∉ cs) (t : Trail) (rest : List Char) :
    groupsFrom t (cs ++ rest) = groupsFrom (cs.foldl Trail.push t) rest := by
  induction cs generalizing t
  case nil => rfl
  case cons c cs hi =>
    have ⟨hc, hcs⟩ : c ≠ '(' ∧ '(' ∉ cs := by simpa [eq_comm] using h
    simp [groupsFrom, opened?, hc, hi hcs]

namespace Trail

theorem foldl_push_word {word : List Char} (hw : ∀ c ∈ cs, isWord c) :
    cs.foldl push ⟨word, false⟩ = ⟨cs.reverse ++ word, false⟩ := by
  induction cs generalizing word
  case nil => rfl
  case cons c cs hi =>
    have ⟨hc, hw⟩ := List.forall_mem_cons.mp hw
    simp [push, hc, hi hw]

theorem word_foldl_push_blanks (hb : ∀ c ∈ cs, isBlank c) : (cs.foldl push t).word = t.word := by
  induction cs generalizing t
  case nil => rfl
  case cons c cs hi =>
    have ⟨hc, hb⟩ := List.forall_mem_cons.mp hb
    rw [List.foldl_cons, hi hb]
    simp [push, hc, not_isWord_of_isBlank hc]

-- A word that starts here is all of the trail.
theorem word_foldl_push_word (hn : cs ≠ []) (hw : ∀ c ∈ cs, isWord c) (ht : t.ended ∨ t.word = []) :
    (cs.foldl push t).word = cs.reverse := by
  obtain ⟨c, cs, rfl⟩ := List.exists_cons_of_ne_nil hn
  have ⟨hc, hw⟩ := List.forall_mem_cons.mp hw
  have hp : t.push c = ⟨[c], false⟩ := by
    obtain ⟨word, _ | _⟩ := t <;> simp_all [push]
  simp [hp, foldl_push_word hw]

theorem not_leads_empty : ¬Leads {} cs :=
  fun ⟨word, _, _, _, _⟩ => word rfl

-- A trail that leads on from the next place either leads on from here or starts here.
theorem not_leads_push (ht : ¬t.Leads (c :: cs)) (hn : readGroup? (c :: cs) = none) : ¬(t.push c).Leads cs := by
  rintro @⟨left, gap, content, rest, word, all, ended, blank, innermost⟩
  by_cases hw : isWord c
  case pos =>
    have hread : readGroup? (c :: (left ++ (gap ++ '(' :: (content ++ ')' :: rest)))) =
        some ((c :: left, content), rest) :=
      readGroup?_eq_some_iff.mpr ⟨by simp, List.forall_mem_cons.mpr ⟨hw, all⟩, innermost, gap, blank, rfl⟩
    cases hn.symm.trans hread
  case neg =>
    rw [push, if_neg hw] at word ended
    split at word
    case isFalse    => exact word rfl
    case isTrue hb =>
      rw [if_pos hb] at ended
      cases ended rfl
      have hgap : ∀ b ∈ c :: gap, isBlank b := List.forall_mem_cons.mpr ⟨hb, blank⟩
      have hnil : ∀ c ∈ ([] : List Char), isWord c := List.forall_mem_nil _
      exact ht <| @Leads.intro t [] (c :: gap) content rest word hnil (fun _ => rfl) hgap innermost

end Trail

-- The trail is not in the middle of a called word when it comes to one, and it is empty behind each group.
theorem groups_eq_groupsFrom (ht : ¬t.Leads cs) : groups cs = groupsFrom t cs := by
  fun_induction groups cs generalizing t
  case case1 => rfl
  case case2 c cs group rest hg hi =>
    obtain ⟨function, content⟩ := group
    obtain ⟨hn, hf, hc, gap, hgap, hs⟩ := readGroup?_eq_some_iff.mp hg
    have hopen : '(' ∉ function ++ gap := by
      intro hm
      cases List.mem_append.mp hm
      case inl hm => exact absurd (hf _ hm) (by decide)
      case inr hm => exact absurd (hgap _ hm) (by decide)
    have hstart : t.ended ∨ t.word = [] := by
      by_contra h
      rw [not_or] at h
      exact ht (hs ▸ .intro h.right hf (fun he => absurd he h.left) hgap hc)
    have hword : ((function ++ gap).foldl Trail.push t).word = function.reverse := by
      rw [List.foldl_append, Trail.word_foldl_push_blanks hgap, Trail.word_foldl_push_word hn hf hstart]
    have hopened : opened? ((function ++ gap).foldl Trail.push t) '(' (content ++ ')' :: rest) =
        some (function, content) := by
      rw [opened?, hword, arguments?_of_closed hc, if_pos (by simpa using hn), Option.map_some,
        List.reverse_reverse]
    have hclose : '(' ∉ content ++ [')'] := by simpa using fun hm => (hc _ hm).left rfl
    have hlast (t : Trail) : (content ++ [')']).foldl Trail.push t = {} := by
      rw [List.foldl_append]
      rfl
    rw [hs, ← List.append_assoc, groupsFrom_append_of_notMem hopen, groupsFrom, hopened, List.append_cons,
      groupsFrom_append_of_notMem hclose, hlast, hi Trail.not_leads_empty]
  case case3 c cs hg hi =>
    have hopened : opened? t c cs = none := by
      by_contra h
      obtain ⟨⟨word, content⟩, h⟩ := Option.ne_none_iff_exists'.mp h
      obtain ⟨rfl, hw, _, ha⟩ := opened?_eq_some h
      obtain ⟨hc, after, rfl⟩ := arguments?_eq_some ha
      exact ht <| @Trail.Leads.intro t [] [] content after hw (by simp) (fun _ => rfl) (by simp) hc
    rw [groupsFrom, hopened, hi (Trail.not_leads_push ht hg)]

theorem groups_eq (cs : List Char) : groups cs = groupsFrom (trail []) cs :=
  groups_eq_groupsFrom Trail.not_leads_empty

end Call

end ScriptMaps
