import ScriptMaps.Proofs.Text.Fold
import ScriptMaps.Script.Keys

namespace ScriptMaps
open Text

namespace Text

variable {a b : List Char}

theorem sameAscii_congr (h : sameAscii a b) (name : List Char) : sameAscii name a = sameAscii name b := by
  rw [sameAscii, sameAscii, sameAscii_iff.mp h]

end Text

theorem Assignment.ofLine?_congr {map map' : List Char} (h : sameAscii map map') :
    ofLine? map = ofLine? map' := by
  have hname := afterFolded?_congr (map_fold_eq_of_sameAscii h)
  funext line
  rw [ofLine?, ofLine?, dotKey?, dotKey?, bracketKey?, bracketKey?]
  simp only [hname]

theorem Call.positionsFrom_congr {map map' : List Char} (h : sameAscii map map') (position : Nat)
    (pieces : List (List Char)) : positionsFrom map position pieces = positionsFrom map' position pieces := by
  induction pieces generalizing position
  case nil => rfl
  case cons piece pieces hi => rw [positionsFrom, positionsFrom, sameAscii_congr h, hi]

theorem Call.ofLine_congr {map map' : List Char} (h : sameAscii map map') : ofLine map = ofLine map' := by
  funext line
  simp only [ofLine, positions, positionsFrom_congr h]

namespace Script

variable {map map' : String}

theorem visibility_congr_name (s : Script) (h : sameName map map') (point : QueryPoint) :
    s.visibility map point = s.visibility map' point := by
  have hname (name : String) : sameName name map = sameName name map' := sameAscii_congr h name.toList
  simp only [visibility, binds, localDeclarations, fileDeclarations, hname]

-- The spelling of a Map's name makes no difference to what is assigned to it, where it is passed, and
-- which keys it has at any point.
theorem keysAt_eq_of_sameName (s : Script) (h : sameName map map') :
    s.assignments map = s.assignments map' ∧ s.calls map = s.calls map' ∧
      ∀ point, s.keysAt map point = s.keysAt map' point := by
  have hassignments : s.assignments map = s.assignments map' := by
    rw [assignments, assignments, Assignment.ofLine?_congr h]
  have hcalls : s.calls map = s.calls map' := by
    rw [calls, calls, Call.ofLine_congr h]
  refine ⟨hassignments, hcalls, fun point => ?_⟩
  rw [keysAt, keysAt, s.visibility_congr_name h point, hassignments, hcalls]

-- The Kelvin sign is a `k` in assignments and in nothing else, under both spellings of the name.
theorem keysAt_eq_kelvin :
    let s := ofText <| "Global $k[]\n$K.a = 1\nFunc f(ByRef $p)\n$P.x = 1\nEndFunc\nf($K)\nf($\u212A)\n" ++
      "$\u212A[\"b\"] = 1\nFunc g($K)\n$k.hidden = 1\nEndFunc\n"
    sameName "$k" "$K" ∧ s.assignments "$k" = s.assignments "$K" ∧ s.calls "$k" = s.calls "$K" ∧
      s.keysAt "$k" (.line 7) = s.keysAt "$K" (.line 7) ∧
      s.keysAt "$K" (.line 7) = ⟨["a", "b"], [⟨"x", "f", "$p", 5, 2, true⟩]⟩ := by
  intro s
  have hname : sameName "$k" "$K" := by decide
  have ⟨hassignments, hcalls, hkeys⟩ := s.keysAt_eq_of_sameName hname
  exact ⟨hname, hassignments, hcalls, hkeys _, by decide +kernel⟩

end Script

end ScriptMaps
