import Mathlib.Data.List.Basic
import ScriptMaps.Proofs.Script.Lines
import ScriptMaps.Script.Keys

namespace ScriptMaps
open Text

namespace Script

variable {s : Script} {map : String} {f : Function} {d : Declaration} {last line : Nat}

-- A declaration of the Map inside the function, with a keyword other than `Global`.
structure IsOwn (f : Function) (map : String) (d : Declaration) : Prop where
  scope    : d.scope ≠ .globalVar
  contains : f.contains d.line
  name     : sameName d.name map

-- A declaration of the Map that is `Global` or outside of all functions.
structure IsFileLevel (s : Script) (map : String) (d : Declaration) : Prop where
  name  : sameName d.name map
  scope : d.scope = .globalVar ∨ ∀ f ∈ s.functions, ¬f.contains d.line

-- A function binds the name of a Map by a parameter or by a declaration of its own.
def Binds (s : Script) (f : Function) (map : String) : Prop :=
  (∃ p ∈ f.parameters, sameName p.name map) ∨ ∃ d ∈ s.declarations, IsOwn f map d

-- None of the declarations that matter is on a line after `line` and up to `last`.
def Undeclared (s : Script) (matters : Declaration → Prop) (line last : Nat) : Prop :=
  ∀ d ∈ s.declarations, matters d → ¬(line < d.line ∧ d.line ≤ last)

-- Whether what is done to the Map on a line is seen from the line `last`.
inductive VisibleAt (s : Script) (map : String) (last line : Nat) : Prop
  | inside (f : Function) (mem : f ∈ s.functions) (encloses : f.contains last)
      (binds : s.Binds f map) (le : line ≤ last) (contains : f.contains line)
      (undeclared : s.Undeclared (IsOwn f map) line last)
  | outside (free : ∀ f ∈ s.functions, f.contains last → ¬s.Binds f map)
      (le : line ≤ last) (unhidden : ∀ f ∈ s.functions, s.Binds f map → ¬f.contains line)
      (undeclared : s.Undeclared (s.IsFileLevel map) line last)

theorem mem_localDeclarations : d ∈ s.localDeclarations f map ↔ d ∈ s.declarations ∧ IsOwn f map d := by
  simp only [localDeclarations, List.mem_filter, Bool.and_eq_true, bne_iff_ne, and_assoc]
  exact and_congr_right fun _ => ⟨fun ⟨hs, hc, hn⟩ => ⟨hs, hc, hn⟩, fun ⟨hs, hc, hn⟩ => ⟨hs, hc, hn⟩⟩

theorem mem_fileDeclarations :
    d ∈ s.fileDeclarations map ↔ d ∈ s.declarations ∧ s.IsFileLevel map d := by
  simp only [fileDeclarations, List.mem_filter, Bool.and_eq_true, Bool.or_eq_true, beq_iff_eq,
    Bool.not_eq_true', List.any_eq_false]
  exact and_congr_right fun _ => ⟨fun ⟨hn, hs⟩ => ⟨hn, hs⟩, fun ⟨hn, hs⟩ => ⟨hn, hs⟩⟩

theorem binds_iff : s.binds f map ↔ s.Binds f map := by
  simp only [binds, Binds, Bool.or_eq_true, List.any_eq_true, Bool.not_eq_true',
    List.isEmpty_eq_false_iff_exists_mem, mem_localDeclarations]

theorem line_le_of_getLast? {declarations : List Declaration}
    (h : declarations.Pairwise (·.line < ·.line)) (hd : declarations.getLast? = some d) :
    ∀ e ∈ declarations, e.line ≤ d.line := by
  obtain ⟨before, rfl⟩ := List.getLast?_eq_some_iff.mp hd
  intro e he
  cases List.mem_append.mp he
  case inl he => exact Nat.le_of_lt <| (List.pairwise_append.mp h).right.right e he d (.head _)
  case inr he => simp_all

-- The last of the declarations up to `last` is on a line or before it if none of them comes after it.
theorem lastLineUpTo?_getD_le {declarations : List Declaration}
    (h : declarations.Pairwise (·.line < ·.line)) {first : Nat}
    (hf : ∀ d ∈ declarations, first ≤ d.line) :
    (lastLineUpTo? last declarations).getD first ≤ line ↔
      first ≤ line ∧ ∀ d ∈ declarations, ¬(line < d.line ∧ d.line ≤ last) := by
  rw [lastLineUpTo?]
  cases hl : (declarations.filter (·.line ≤ last)).getLast?
  case none =>
    have hn : ∀ d ∈ declarations, ¬d.line ≤ last := by simpa using hl
    simp only [Option.map_none, Option.getD_none, iff_self_and]
    intro _ d hd hlast
    exact hn d hd hlast.right
  case some d =>
    have hd : d ∈ declarations ∧ d.line ≤ last := by simpa using List.mem_of_getLast? hl
    have hmax : ∀ e ∈ declarations, e.line ≤ last → e.line ≤ d.line := by
      simpa using line_le_of_getLast? (h.filter _) hl
    simp only [Option.map_some, Option.getD_some]
    constructor
    case mp =>
      intro hle
      refine ⟨Nat.le_trans (hf d hd.left) hle, ?_⟩
      intro e hm ⟨hlt, hlast⟩
      have := hmax e hm hlast
      omega
    case mpr =>
      intro ⟨_, hn⟩
      have := hn d hd.left
      omega

theorem pairwise_localDeclarations (s : Script) (f : Function) (map : String) :
    (s.localDeclarations f map).Pairwise (·.line < ·.line) :=
  s.pairwise_declarations.filter _

theorem pairwise_fileDeclarations (s : Script) (map : String) :
    (s.fileDeclarations map).Pairwise (·.line < ·.line) :=
  s.pairwise_declarations.filter _

-- The lines from the last declaration of its own that a function has.
theorem localStart_le_iff :
    (lastLineUpTo? last (s.localDeclarations f map)).getD f.line ≤ line ↔
      f.line ≤ line ∧ s.Undeclared (IsOwn f map) line last := by
  have hf : ∀ d ∈ s.localDeclarations f map, f.line ≤ d.line := by
    intro d hd
    exact (Function.contains_iff.mp (mem_localDeclarations.mp hd).right.contains).left
  rw [lastLineUpTo?_getD_le (s.pairwise_localDeclarations f map) hf]
  simp only [Undeclared, mem_localDeclarations, and_imp]

theorem fileStart_le_iff :
    (lastLineUpTo? last (s.fileDeclarations map)).getD 0 ≤ line ↔
      s.Undeclared (s.IsFileLevel map) line last := by
  rw [lastLineUpTo?_getD_le (s.pairwise_fileDeclarations map) fun _ _ => Nat.zero_le _]
  simp only [Undeclared, mem_fileDeclarations, and_imp, Nat.zero_le, true_and]

-- A function that binds the name and has the line is the one that is looked at.
theorem find?_functions_iff :
    (s.functions.find? (·.contains last)).filter (s.binds · map) = some f ↔
      f ∈ s.functions ∧ f.contains last ∧ s.Binds f map := by
  rw [Option.filter_eq_some_iff, binds_iff]
  constructor
  case mp =>
    intro ⟨hf, hb⟩
    exact ⟨List.mem_of_find?_eq_some hf, by simpa using List.find?_some hf, hb⟩
  case mpr =>
    intro ⟨hm, hc, hb⟩
    refine ⟨?_, hb⟩
    have hs : (s.functions.find? (·.contains last)).isSome := List.find?_isSome.mpr ⟨f, hm, hc⟩
    have ⟨g, hg⟩ := Option.isSome_iff_exists.mp hs
    have hgc : g.contains last := by simpa using List.find?_some hg
    rw [hg, eq_of_contains (List.mem_of_find?_eq_some hg) hm hgc hc]

-- The windows of lines that count hold the visible lines.
theorem visibility_contains_iff :
    (s.visibility map (.line last)).contains line ↔ s.VisibleAt map last line := by
  rw [visibility]
  split
  case h_1 f hf =>
    obtain ⟨hm, hc, hb⟩ := find?_functions_iff.mp hf
    have hlast := (Function.contains_iff.mp hc).right
    simp only [Visibility.contains, Bool.and_eq_true, decide_eq_true_eq, localStart_le_iff]
    constructor
    case mp =>
      intro ⟨⟨hfirst, hu⟩, hle⟩
      exact .inside f hm hc hb hle (Function.contains_iff.mpr ⟨hfirst, Nat.le_trans hle hlast⟩) hu
    case mpr =>
      intro h
      cases h
      case inside g hgm hgc _ hle hgl hu =>
        cases eq_of_contains hgm hm hgc hc
        exact ⟨⟨(Function.contains_iff.mp hgl).left, hu⟩, hle⟩
      case outside hfree _ _ _ => exact absurd hb <| hfree f hm hc
  case h_2 hn =>
    have hfree : ∀ f ∈ s.functions, f.contains last → ¬s.Binds f map := by
      intro f hm hc hb
      simp [find?_functions_iff.mpr ⟨hm, hc, hb⟩] at hn
    simp only [Visibility.contains, Bool.and_eq_true, decide_eq_true_eq, fileStart_le_iff,
      Bool.not_eq_true', List.any_eq_false, List.mem_filter, binds_iff, and_imp]
    constructor
    case mp =>
      intro ⟨⟨hu, hle⟩, hh⟩
      exact .outside hfree hle hh hu
    case mpr =>
      intro h
      cases h
      case inside f hm hc hb _ _ _ => exact absurd hb <| hfree f hm hc
      case outside _ hle hh hu => exact ⟨⟨hu, hle⟩, hh⟩

instance : Decidable (s.VisibleAt map last line) :=
  decidable_of_iff _ visibility_contains_iff

-- A visible assignment to the Map with no visible one before it that assigns the same key.
structure IsFirst (s : Script) (map : String) (last : Nat) (a : Assignment) : Prop where
  visible : s.VisibleAt map last a.line
  first   : ∀ b ∈ s.assignments map, s.VisibleAt map last b.line → b.key = a.key → a.line ≤ b.line

theorem isFirst_iff {a : Assignment} :
    s.IsFirst map last a ↔ s.VisibleAt map last a.line ∧
      ∀ b ∈ s.assignments map, s.VisibleAt map last b.line → b.key = a.key → a.line ≤ b.line where
  mp  := fun ⟨visible, first⟩ => ⟨visible, first⟩
  mpr := fun ⟨visible, first⟩ => ⟨visible, first⟩

instance {a : Assignment} : Decidable (s.IsFirst map last a) :=
  decidable_of_iff _ isFirst_iff.symm

end Script

-- Without repetitions, the keys are left that no assignment before assigns. What follows an assignment
-- is first among all if it has another key and is first among those that have another key.
theorem eraseDups_map_key {assignments : List Assignment}
    (h : assignments.Pairwise (·.line < ·.line)) :
    (assignments.map (·.key)).eraseDups =
      (assignments.filter fun a => ∀ b ∈ assignments, b.key = a.key → a.line ≤ b.line).map (·.key) := by
  match assignments with
  | []      => rfl
  | a :: as =>
    obtain ⟨ha, has⟩ := List.pairwise_cons.mp h
    have hfirst : ∀ b ∈ a :: as, b.key = a.key → a.line ≤ b.line := by
      intro b hb _
      cases hb
      case head    => exact Nat.le_refl _
      case tail hb => exact Nat.le_of_lt <| ha b hb
    have hrest : ∀ b ∈ as,
        (∀ c ∈ a :: as, c.key = b.key → b.line ≤ c.line) ↔
          (∀ c ∈ as.filter (!·.key == a.key), c.key = b.key → b.line ≤ c.line) ∧ b.key ≠ a.key := by
      intro b hb
      have := ha b hb
      grind
    rw [List.map_cons, List.eraseDups_cons, List.filter_map,
      List.filter_cons_of_pos (by simpa using hfirst), List.map_cons]
    simp only [Function.comp_def]
    rw [eraseDups_map_key <| has.filter _, List.filter_filter]
    refine congrArg (fun as : List Assignment => a.key :: as.map (·.key)) <| List.filter_congr ?_
    intro b hb
    rw [Bool.eq_iff_iff, decide_eq_true_iff, hrest b hb]
    simp
termination_by assignments.length
decreasing_by exact Nat.lt_succ_of_le <| List.length_filter_le _ _

namespace Script

variable {s : Script} {map : String} {last : Nat}

theorem visibility_contains_eq (line : Nat) :
    (s.visibility map (.line last)).contains line = decide (s.VisibleAt map last line) := by
  rw [Bool.eq_iff_iff, visibility_contains_iff, decide_eq_true_iff]

theorem directKeys_eq_lines (s : Script) (map : String) (point : QueryPoint) :
    (s.keysAt map point).directKeys =
      (((s.lines.filter ((s.visibility map point).contains ·.number)).filterMap
        (Assignment.ofLine? map.toList)).map (·.key)).eraseDups := by
  rw [keysAt, s.filter_assignments map (s.visibility map point).contains]

theorem directKeys_keysAt_line (s : Script) (map : String) (last : Nat) :
    (s.keysAt map (.line last)).directKeys =
      ((s.assignments map).filter (s.IsFirst map last ·)).map (·.key) := by
  simp only [keysAt, visibility_contains_eq]
  rw [eraseDups_map_key <| (s.pairwise_assignments map).filter _, List.filter_filter]
  refine congrArg (List.map _) <| List.filter_congr ?_
  intro a _
  rw [Bool.eq_iff_iff, decide_eq_true_iff, isFirst_iff]
  simp only [List.mem_filter, decide_eq_true_eq, Bool.and_eq_true, and_imp]
  exact and_comm

-- Of two visible assignments to a key, the later one is not the first.
theorem nodup_firstKeys (s : Script) (map : String) (last : Nat) :
    (((s.assignments map).filter (s.IsFirst map last ·)).map (·.key)).Nodup := by
  refine List.pairwise_map.mpr <| ((s.pairwise_assignments map).filter _).imp_of_mem ?_
  intro a b ha hb hlt he
  obtain ⟨ha, hfa⟩ := List.mem_filter.mp ha
  obtain ⟨_, hfb⟩ := List.mem_filter.mp hb
  have hle := (of_decide_eq_true hfb).first a ha (of_decide_eq_true hfa).visible he
  omega

-- The keys that a call contributes, with the functions, the parameter and the assignments spelled out.
theorem keysOfCall_eq (s : Script) (call : Call) :
    s.keysOfCall call =
      (s.functions.filter (sameName ·.name call.function)).flatMap fun f =>
        f.parameters[call.position]?.toList.flatMap fun p =>
          ((s.assignments p.name).filter fun a => f.line < a.line ∧ a.line ≤ f.endLine).map fun a =>
            ⟨a.key, f.name, p.name, call.line, f.line, p.byRef⟩ := by
  refine List.flatMap_congr ?_
  intro f _
  rw [keysThrough]
  cases f.parameters[call.position]?
  case none   => rfl
  case some p =>
    have hb : ∀ a : Assignment, (decide (f.line < a.line) && f.contains a.line) =
        decide (f.line < a.line ∧ a.line ≤ f.endLine) := by
      intro a
      rw [Bool.eq_iff_iff, Bool.and_eq_true, Function.contains_iff]
      simp
      omega
    simp only [hb, Option.toList_some, List.flatMap_singleton]

-- Direct keys are those of visible assignments, each once and where it is first assigned. A visible
-- call contributes what the functions of the called name assign to the parameter that it passes the
-- Map to, between the header and the end. There is one function at most that the line can be inside.
theorem keysAt_line_eq_visible (s : Script) (map : String) (last : Nat) :
    (∀ f ∈ s.functions, ∀ g ∈ s.functions, f.contains last → g.contains last → f = g) ∧
    (s.keysAt map (.line last)).directKeys =
      ((s.assignments map).filter (s.IsFirst map last ·)).map (·.key) ∧
    (s.keysAt map (.line last)).directKeys.Nodup ∧
    (s.keysAt map (.line last)).functionKeys =
      ((s.calls map).filter (s.VisibleAt map last ·.line)).flatMap fun call =>
        (s.functions.filter (sameName ·.name call.function)).flatMap fun f =>
          f.parameters[call.position]?.toList.flatMap fun p =>
            ((s.assignments p.name).filter fun a => f.line < a.line ∧ a.line ≤ f.endLine).map fun a =>
              { key            := a.key
                function       := f.name
                parameter      := p.name
                callLine       := call.line
                definitionLine := f.line
                byRef          := p.byRef } := by
  refine ⟨fun _ hf _ hg => eq_of_contains hf hg, s.directKeys_keysAt_line map last, ?nodup, ?calls⟩
  case nodup => exact s.directKeys_keysAt_line map last ▸ s.nodup_firstKeys map last
  case calls =>
    simp only [keysAt, visibility_contains_eq]
    exact List.flatMap_congr fun call _ => s.keysOfCall_eq call

-- `old` is assigned before the Map is declared anew, `hidden` to a parameter of the same name, and `late`
-- after the line.
theorem keysAt_line_redeclared :
    let s := ofText <| "Global $m[]\n$m.old = 1\nFunc fill(ByRef $p)\n$p.x = 1\nEndFunc\n" ++
      "Global $m[]\nFunc g($m)\n$m.hidden = 1\nEndFunc\nfill($m)\n$m.a = 2\n$m.a = 3\n$m.late = 1\n"
    (s.keysAt "$m" (.line 11)).directKeys = ["a"] ∧
      (s.keysAt "$m" (.line 11)).functionKeys = [⟨"x", "fill", "$p", 9, 2, true⟩] := by
  intro s
  have ⟨_, hdirect, _, hcalls⟩ := s.keysAt_line_eq_visible "$m" 11
  rw [hdirect, hcalls]
  decide +kernel

end Script

end ScriptMaps
