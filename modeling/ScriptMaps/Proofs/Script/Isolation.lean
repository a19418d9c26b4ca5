import ScriptMaps.Proofs.Script.Alike
import ScriptMaps.Proofs.Script.Blocks
import ScriptMaps.Proofs.Script.Visibility

namespace ScriptMaps
open Text

namespace Script

variable {s t : Script} {g : Function} {map : String} {last n : Nat}

-- The lines of the text, those in comments included.
def textLines (s : Script) : List (List Char) :=
  Text.lines (withoutMark s.source.toList)

-- A line that bounds no comment and, if it is code, neither declares a Map nor bounds a function.
structure IsInert (s : Script) (line : CodeLine) : Prop where
  unmarked   : blockMark? line.text = none
  undeclared : line ∈ s.lines → Declaration.ofLine? line = none
  plain      : line ∈ s.lines → Function.IsPlain line

theorem isInert_iff {line : CodeLine} :
    s.IsInert line ↔ blockMark? line.text = none ∧ (line ∈ s.lines →
      Declaration.ofLine? line = none ∧ Function.header? line.text = none ∧ Function.isEnd line.text = false) where
  mp  := fun h => ⟨h.unmarked, fun hm => ⟨h.undeclared hm, (h.plain hm).header, (h.plain hm).isEnd⟩⟩
  mpr := fun ⟨hu, h⟩ => ⟨hu, fun hm => (h hm).left, fun hm => ⟨(h hm).right.left, (h hm).right.right⟩⟩

instance {line : CodeLine} : Decidable (s.IsInert line) :=
  decidable_of_iff _ isInert_iff.symm

-- Two scripts of equally many lines that differ on inert lines of a function only. The header and the
-- end of the function are no such lines.
structure DifferInside (s t : Script) (g : Function) : Prop where
  length_eq : s.textLines.length = t.textLines.length
  inside    : ∀ n line line', s.textLines[n]? = some line → t.textLines[n]? = some line' → line ≠ line' →
    g.contains n ∧ s.IsInert ⟨n, line⟩ ∧ t.IsInert ⟨n, line'⟩

-- What may stand on the line `n` of two such scripts.
def Alike (s t : Script) (g : Function) (n : Nat) (line line' : List Char) : Prop :=
  line = line' ∨ g.contains n ∧ s.IsInert ⟨n, line⟩ ∧ t.IsInert ⟨n, line'⟩

namespace DifferInside

variable (h : s.DifferInside t g)
include h

theorem forall₂_lines :
    List.Forall₂ (fun a b : CodeLine => a = b ∨ a.number = b.number ∧ g.contains a.number ∧
      Declaration.ofLine? a = none ∧ Declaration.ofLine? b = none ∧
      Function.IsPlain a ∧ Function.IsPlain b) s.lines t.lines := by
  have hcode : List.Forall₂ (fun a b : CodeLine => a.number = b.number ∧ Alike s t g a.number a.text b.text)
      s.lines t.lines := by
    rw [s.lines_eq, t.lines_eq]
    refine forall₂_codeLinesFrom 0 0 h.length_eq ?_
    intro n line line' hn hn'
    by_cases hl : line = line'
    case pos => exact ⟨congrArg _ hl, .inl hl⟩
    case neg =>
      have ⟨hg, hs, ht⟩ := h.inside n line line' hn hn' hl
      rw [Nat.zero_add]
      exact ⟨hs.unmarked.trans ht.unmarked.symm, .inr ⟨hg, hs, ht⟩⟩
  have ⟨hlen, hcode⟩ := List.forall₂_iff_zip.mp hcode
  refine List.forall₂_iff_zip.mpr ⟨hlen, ?_⟩
  intro a b hm
  have ⟨ha, hb⟩ := List.of_mem_zip hm
  obtain ⟨hn, ht | ⟨hg, hia, hib⟩⟩ := hcode hm
  case inl => exact .inl <| by cases a; cases b; simp_all
  case inr =>
    refine .inr ⟨hn, hg, hia.undeclared ha, ?_, hia.plain ha, ?_⟩
    case refine_1 => exact (hn ▸ hib.undeclared) hb
    case refine_2 => exact (hn ▸ hib.plain) hb

theorem declarations_eq : s.declarations = t.declarations := by
  rw [s.declarations_eq, t.declarations_eq]
  refine filterMap_eq_of_forall₂ <| h.forall₂_lines.imp ?_
  rintro a b (rfl | ⟨_, _, ha, hb, _⟩)
  case inl => rfl
  case inr => rw [ha, hb]

theorem functions_eq : s.functions = t.functions := by
  rw [s.functions_eq, t.functions_eq]
  refine Function.ofLinesFrom_congr none 0 <| h.forall₂_lines.imp ?_
  rintro a b (rfl | ⟨hn, _, _, _, ha, hb⟩)
  case inl => exact ⟨rfl, rfl, rfl⟩
  case inr =>
    rw [Function.ofHeader?_eq_none_iff.mpr ha.header, Function.ofHeader?_eq_none_iff.mpr hb.header]
    exact ⟨hn, rfl, ha.isEnd.trans hb.isEnd.symm⟩

theorem filter_lines_eq {p : Nat → Bool} (hp : ∀ n, p n → ¬g.contains n) :
    s.lines.filter (p ·.number) = t.lines.filter (p ·.number) := by
  have hl := h.forall₂_lines
  generalize s.lines = l, t.lines = l' at hl ⊢
  induction hl
  case nil => rfl
  case cons a b _ _ hab _ hi =>
    obtain rfl | ⟨hn, hg, _⟩ := hab
    case inl => rw [List.filter_cons, List.filter_cons, hi]
    case inr =>
      have hpa : ¬p a.number := fun hp' => hp a.number hp' hg
      rw [List.filter_cons, List.filter_cons, if_neg hpa, if_neg (hn ▸ hpa), hi]

end DifferInside

theorem visibility_congr (hd : s.declarations = t.declarations) (hf : s.functions = t.functions)
    (map : String) (point : QueryPoint) : s.visibility map point = t.visibility map point := by
  have hl : ∀ f, s.localDeclarations f map = t.localDeclarations f map := fun _ => by
    rw [localDeclarations, localDeclarations, hd]
  have hfile : s.fileDeclarations map = t.fileDeclarations map := by
    rw [fileDeclarations, fileDeclarations, hd, hf]
  have hb : ∀ f, s.binds f map = t.binds f map := fun f => by
    rw [binds, binds, hl]
  simp only [visibility, hf, hl, hfile, hb]

-- From outside of a function that binds the name, none of its lines is seen.
theorem VisibleAt.not_contains (h : s.VisibleAt map last n) (hg : g ∈ s.functions) (hb : s.Binds g map)
    (hlast : ¬g.contains last) : ¬g.contains n := by
  cases h
  case inside f hm hc _ _ hn _ => exact fun hgn => hlast <| eq_of_contains hm hg hn hgn ▸ hc
  case outside _ _ hh _        => exact hh g hg hb

-- The other lines are the same in both scripts and are recognised alike, so outside of the function the
-- same lines are visible, and none of them is inside of it.
theorem directKeys_eq_of_differInside (h : s.DifferInside t g) (hg : g ∈ s.functions)
    (hb : s.Binds g map) (hlast : ¬g.contains last) :
    (s.keysAt map (.line last)).directKeys = (t.keysAt map (.line last)).directKeys := by
  have hv := visibility_congr h.declarations_eq h.functions_eq map (.line last)
  rw [directKeys_eq_lines, directKeys_eq_lines, ← hv, h.filter_lines_eq]
  intro n hn
  exact (visibility_contains_iff.mp hn).not_contains hg hb hlast

-- The parameter of `g` has the name of the global Map. One of the two lines on which the scripts differ is
-- in a comment, where a declaration counts for nothing.
theorem directKeys_eq_parameter :
    let text (commented assigned : String) := "Global $m[]\n$m.out = 1\nFunc g($m)\n#cs\n" ++ commented ++
      "\n#ce\n" ++ assigned ++ "\nEndFunc\n$m.late = 1\n"
    let s := ofText <| text "hidden" "$m.inner = 1"
    let t := ofText <| text "Local $m[]" "$M[\"other\"] = f($m)"
    s.DifferInside t ⟨"g", [⟨"$m", false⟩], 2, 7⟩ ∧
      (s.keysAt "$m" (.line 6)).directKeys = ["inner"] ∧ (t.keysAt "$m" (.line 6)).directKeys = ["other"] ∧
      (s.keysAt "$m" (.line 8)).directKeys = (t.keysAt "$m" (.line 8)).directKeys := by
  intro text s t
  have hd : s.DifferInside t ⟨"g", [⟨"$m", false⟩], 2, 7⟩ := by
    have hlines : ∀ n < s.textLines.length, ∀ line ∈ s.textLines[n]?, ∀ line' ∈ t.textLines[n]?, line ≠ line' →
        (⟨"g", [⟨"$m", false⟩], 2, 7⟩ : Function).contains n ∧ s.IsInert ⟨n, line⟩ ∧ t.IsInert ⟨n, line'⟩ := by
      decide +kernel
    refine ⟨by decide +kernel, ?_⟩
    intro n line line' hn hn'
    exact hlines n (List.getElem?_eq_some_iff.mp hn).choose line hn line' hn'
  refine ⟨hd, by decide +kernel, by decide +kernel, ?_⟩
  exact directKeys_eq_of_differInside hd (by decide +kernel)
    (.inl ⟨⟨"$m", false⟩, by decide +kernel⟩) (by decide +kernel)

end Script

end ScriptMaps
