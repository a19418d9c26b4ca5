import ScriptMaps.Proofs.Script.Calls

namespace ScriptMaps
open Text

-- Of lines in order, those up to `first` come before all others.
theorem filter_number_prefix {lines : List CodeLine} (h : lines.Pairwise (·.number < ·.number))
    {p q : Nat → Bool} (first : Nat) (hle : ∀ n ≤ first, p n = q n) (hlt : ∀ n, first < n → p n = false) :
    lines.filter (p ·.number) <+: lines.filter (q ·.number) := by
  induction lines
  case nil => exact List.nil_prefix
  case cons line lines hi =>
    have ⟨hn, h⟩ := List.pairwise_cons.mp h
    by_cases hl : line.number ≤ first
    case pos =>
      rw [List.filter_cons, List.filter_cons, hle line.number hl]
      split
      case isTrue  => exact List.cons_prefix_cons.mpr ⟨rfl, hi h⟩
      case isFalse => exact hi h
    case neg =>
      have hnil : (line :: lines).filter (p ·.number) = [] := by
        refine List.filter_eq_nil_iff.mpr <| List.forall_mem_cons.mpr ⟨?_, ?_⟩
        case refine_1 => simp [hlt line.number (by omega)]
        case refine_2 => exact fun l hm => by simp [hlt l.number (by have := hn l hm; omega)]
      exact hnil ▸ List.nil_prefix

namespace Script

variable {s : Script} {map : String} {first last line : Nat}

-- Two lines that lie in one function, or both in none.
def InSameBlock (s : Script) (first last : Nat) : Prop :=
  (∃ f ∈ s.functions, f.contains first ∧ f.contains last) ∨
    ∀ f ∈ s.functions, ¬f.contains first ∧ ¬f.contains last

theorem InSameBlock.contains_iff (h : s.InSameBlock first last) {f : Function} (hf : f ∈ s.functions) :
    f.contains first ↔ f.contains last := by
  obtain ⟨g, hg, hfirst, hlast⟩ | h := h
  case inr => simp [h f hf]
  case inl =>
    constructor
    case mp  => exact fun hc => eq_of_contains hf hg hc hfirst ▸ hlast
    case mpr => exact fun hc => eq_of_contains hf hg hc hlast ▸ hfirst

theorem undeclared_iff {matters : Declaration → Prop} (hm : ∀ d, matters d → sameName d.name map)
    (hu : s.Undeclared (sameName ·.name map) first last) (hle : first ≤ last) (line : Nat) :
    s.Undeclared matters line first ↔ s.Undeclared matters line last := by
  refine forall₂_congr fun d hd => imp_congr_right fun h => ?_
  have := hu d hd (hm d h)
  omega

-- What is done up to `first` is seen from both lines or from none.
theorem visibleAt_iff (hs : s.InSameBlock first last)
    (hu : s.Undeclared (sameName ·.name map) first last) (hle : first ≤ last) (hl : line ≤ first) :
    s.VisibleAt map first line ↔ s.VisibleAt map last line := by
  have hown {f : Function} : s.Undeclared (IsOwn f map) line first ↔ s.Undeclared (IsOwn f map) line last :=
    undeclared_iff (fun _ h => h.name) hu hle line
  have hfile : s.Undeclared (s.IsFileLevel map) line first ↔ s.Undeclared (s.IsFileLevel map) line last :=
    undeclared_iff (fun _ h => h.name) hu hle line
  constructor
  case mp =>
    intro h
    cases h
    case inside f hm hc hb _ hfl ho =>
      exact .inside f hm ((hs.contains_iff hm).mp hc) hb (by omega) hfl (hown.mp ho)
    case outside hf _ hh ho =>
      exact .outside (fun f hm hc => hf f hm <| (hs.contains_iff hm).mpr hc) (by omega) hh (hfile.mp ho)
  case mpr =>
    intro h
    cases h
    case inside f hm hc hb _ hfl ho =>
      exact .inside f hm ((hs.contains_iff hm).mpr hc) hb hl hfl (hown.mpr ho)
    case outside hf _ hh ho =>
      exact .outside (fun f hm hc => hf f hm <| (hs.contains_iff hm).mp hc) hl hh (hfile.mpr ho)

theorem VisibleAt.le (h : s.VisibleAt map last line) : line ≤ last := by
  cases h <;> assumption

theorem visibleLines_prefix (hs : s.InSameBlock first last)
    (hu : s.Undeclared (sameName ·.name map) first last) (hle : first ≤ last) :
    s.lines.filter (fun line => (s.visibility map (.line first)).contains line.number) <+:
      s.lines.filter (fun line => (s.visibility map (.line last)).contains line.number) := by
  refine filter_number_prefix s.pairwise_lines first ?_ ?_
  case refine_1 =>
    intro n hn
    rw [Bool.eq_iff_iff, visibility_contains_iff, visibility_contains_iff]
    exact visibleAt_iff hs hu hle hn
  case refine_2 =>
    intro n hn
    rw [Bool.eq_false_iff, ne_eq, visibility_contains_iff]
    exact fun h => by have := h.le; omega

-- The keys at a line are a beginning of those at a later line in the same function, if the Map is not
-- declared between them.
theorem keysAt_line_prefix (s : Script) (map : String) {first last : Nat} (hle : first ≤ last)
    (hs : s.InSameBlock first last)
    (hu : ∀ d ∈ s.declarations, sameName d.name map → ¬(first < d.line ∧ d.line ≤ last)) :
    (s.keysAt map (.line first)).directKeys <+: (s.keysAt map (.line last)).directKeys ∧
    (s.keysAt map (.line first)).functionKeys <+: (s.keysAt map (.line last)).functionKeys := by
  have hp := visibleLines_prefix hs hu hle
  constructor
  case left =>
    have ⟨rest, hr⟩ := (hp.filterMap (Assignment.ofLine? map.toList)).map (·.key)
    rw [directKeys_eq_lines, directKeys_eq_lines, ← hr, List.eraseDups_append]
    exact List.prefix_append ..
  case right =>
    have ⟨rest, hr⟩ := hp
    rw [functionKeys_eq_sites, functionKeys_eq_sites, ← hr, List.flatMap_append]
    exact List.prefix_append ..

-- The call and the assignments on the later lines add to what is known, inside the function that has the
-- Map as a parameter.
theorem keysAt_line_prefix_inside :
    let s := ofText <| "Func fill($p)\n$p.x = 1\nEndFunc\nFunc g(ByRef $m)\n$m.a = 1\nfill($m)\n" ++
      "$m.b = 1\n$m.a = 2\nfill($m)\nEndFunc\nGlobal $m[]\n"
    s.InSameBlock 5 9 ∧
      (s.keysAt "$m" (.line 5)).directKeys = ["a"] ∧ (s.keysAt "$m" (.line 9)).directKeys = ["a", "b"] ∧
      (s.keysAt "$m" (.line 5)).directKeys <+: (s.keysAt "$m" (.line 9)).directKeys ∧
      (s.keysAt "$m" (.line 5)).functionKeys <+: (s.keysAt "$m" (.line 9)).functionKeys := by
  intro s
  have hs : s.InSameBlock 5 9 := by
    refine .inl ⟨⟨"g", [⟨"$m", true⟩], 3, 9⟩, ?_⟩
    decide +kernel
  exact ⟨hs, by decide +kernel, by decide +kernel,
    s.keysAt_line_prefix "$m" (by decide) hs (by decide +kernel)⟩

end Script

end ScriptMaps
