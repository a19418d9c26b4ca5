import Mathlib.Data.List.Forall2
import ScriptMaps.Proofs.Script.Lines

namespace ScriptMaps
open Text

-- Lines that bound the same comments are code in both texts or in none.
theorem forall₂_codeLinesFrom {R : Nat → List Char → List Char → Prop} {lines lines' : List (List Char)}
    (number depth : Nat) (hl : lines.length = lines'.length)
    (h : ∀ n line line', lines[n]? = some line → lines'[n]? = some line' →
      blockMark? line = blockMark? line' ∧ R (number + n) line line') :
    List.Forall₂ (fun a b : CodeLine => a.number = b.number ∧ R a.number a.text b.text)
      (codeLinesFrom number depth lines) (codeLinesFrom number depth lines') := by
  induction lines generalizing lines' number depth
  case nil =>
    cases List.length_eq_zero_iff.mp hl.symm
    exact .nil
  case cons line lines hi =>
    cases lines'
    case nil => simp at hl
    case cons line' lines' =>
      have ⟨hm, hr⟩ := h 0 line line' rfl rfl
      have hrest (depth : Nat) := hi (number + 1) depth (by simpa using hl) fun n l l' hn hn' => by
        have := h (n + 1) l l' (by simpa using hn) (by simpa using hn')
        rwa [show number + 1 + n = number + (n + 1) by omega]
      cases hb : blockMark? line' <;> try cases ‹BlockMark›
      all_goals cases depth <;> simp only [codeLinesFrom, hm, hb]
      case none.zero         => exact .cons ⟨rfl, hr⟩ <| hrest 0
      case some.closing.zero => exact .cons ⟨rfl, hr⟩ <| hrest 0
      all_goals exact hrest _

theorem filterMap_eq_of_forall₂ {α β : Type} {f : α → Option β} {l l' : List α}
    (h : List.Forall₂ (f · = f ·) l l') : l.filterMap f = l'.filterMap f := by
  induction h
  case nil => rfl
  case cons ha _ hi => rw [List.filterMap_cons, List.filterMap_cons, ha, hi]

theorem Function.ofLinesFrom_congr {lines lines' : List CodeLine} (current : Option Function) (last : Nat)
    (h : List.Forall₂ (fun a b : CodeLine => a.number = b.number ∧ ofHeader? a = ofHeader? b ∧
      isEnd a.text = isEnd b.text) lines lines') :
    ofLinesFrom current last lines = ofLinesFrom current last lines' := by
  induction h generalizing current last
  case nil => rfl
  case cons ha _ hi =>
    have ⟨hn, hh, he⟩ := ha
    simp only [ofLinesFrom, hn, hh, he, hi]

end ScriptMaps
