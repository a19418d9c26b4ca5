import ScriptMaps.Proofs.Fixture.Files
import ScriptMaps.Proofs.Script.Blocks
import ScriptMaps.Proofs.Script.Visibility

namespace ScriptMaps
open Text

theorem eraseDups_of_nodup {α : Type} [BEq α] [LawfulBEq α] {as : List α} (h : as.Nodup) :
    as.eraseDups = as := by
  induction h
  case nil => rfl
  case cons a as ha _ hi =>
    have hf : as.filter (!· == a) = as :=
      List.filter_eq_self.mpr fun b hb => by simpa using (ha b hb).symm
    rw [List.eraseDups_cons, hf, hi]

theorem flatMap_range_of_eq_nil {β : Type} {g : Nat → List β} {j n : Nat} (hj : j < n)
    (h : ∀ m, m ≠ j → g m = []) : (List.range n).flatMap g = g j := by
  induction n
  case zero => cases hj
  case succ n hi =>
    rw [List.range_succ, List.flatMap_append, List.flatMap_singleton]
    by_cases hn : n = j
    case pos =>
      have hnil : (List.range n).flatMap g = [] :=
        List.flatMap_eq_nil_iff.mpr fun m hm => h m <| hn ▸ Nat.ne_of_lt (List.mem_range.mp hm)
      rw [hnil, hn, List.nil_append]
    case neg => rw [hi (by omega), h n hn, List.append_nil]

theorem filter_range_eq {p : Nat → Bool} {j n : Nat} (hj : j < n) (h : ∀ m, p m ↔ m = j) :
    (List.range n).filter p = [j] := by
  have hflat : (List.range n).filter p = (List.range n).flatMap fun m => [m].filter p := by
    rw [← List.filter_flatMap, List.flatMap_singleton']
  have hone : (List.range n).flatMap (fun m => [m].filter p) = [j].filter p :=
    flatMap_range_of_eq_nil hj fun m hm => by simpa using fun hp => hm ((h m).mp hp)
  rw [hflat, hone, List.filter_cons_of_pos ((h j).mpr rfl), List.filter_nil]

theorem Function.blocksOf_append {before : List CodeLine} (h : ∀ line ∈ before, header? line.text = none)
    (rest : List CodeLine) : blocksOf (before ++ rest) = blocksOf rest := by
  induction before
  case nil => rfl
  case cons line before hi =>
    have ⟨hl, h⟩ := List.forall_mem_cons.mp h
    rw [List.cons_append, blocksOf, hi h, ofHeader?_eq_none_iff.mpr hl]
    rfl

namespace Fixture

open Statement

def function (x : Fixture) (i f : Nat) : Function where
  name       := functionName i f
  parameters := [⟨Variable.target.name, true⟩]
  line       := x.functionLine i f
  endLine    := x.functionLine i f + 4

variable (x : Fixture) (i : Nat)

theorem includes_script :
    (Include.ofText (x.script i).source).map (fun d => (d.kind, d.path)) =
      (if i < x.chainDepth ∧ i + 1 < x.fileCount then [(.relative, fileName (i + 1))] else []) ++
        (if 0 < x.libraryFiles then [(.library, libraryName (i % x.libraryFiles))] else []) := by
  have hread (st : Statement) (number : Nat) :
      (Include.ofLine? ⟨number, st.text⟩).map (fun d => (d.kind, d.path)) = st.included? := by
    rw [st.include_text]
    cases st.included? <;> rfl
  rw [Include.ofText, ← Script.lines_eq, lines_script, map_filterMap_numbered hread,
    filterMap_statements x i fun _ h => (of_isSilent h).left, filterMap_opening x i rfl rfl]
  simp [included?]

theorem declarations_script :
    (x.script i).declarations.map (fun d => (d.name, d.scope)) =
      (if i = 0 then [(sharedMap, .globalVar)] else []) ++
        (List.range x.mapsPerFile).map fun m => (mapName i m, .globalVar) := by
  have hread (st : Statement) (number : Nat) :
      (Declaration.ofLine? ⟨number, st.text⟩).map (fun d => (d.name, d.scope)) =
        st.declared?.map fun v => (v.name, .globalVar) := by
    rw [st.declaration_text]
    cases st.declared? <;> rfl
  have hs (st : Statement) (h : st.isSilent) :
      st.declared?.map (fun v => (v.name, Scope.globalVar)) = none := by
    rw [(of_isSilent h).right.left, Option.map_none]
  rw [Script.declarations_eq, lines_script, map_filterMap_numbered hread, filterMap_statements x i hs,
    filterMap_opening x i rfl rfl]
  simp [declared?, Variable.name, List.map_eq_flatMap]

theorem map_key_assignments (v : Variable) (start : Nat) (statements : List Statement) :
    ((numbered start statements).filterMap (Assignment.ofLine? v.name.toList)).map (·.key) =
      statements.filterMap (keyFor v) := by
  refine map_filterMap_numbered (fun st number => ?_) start statements
  rw [st.assignment_text, keyFor, Option.map_map]
  rfl

theorem keys_opening (v : Variable) :
    (x.opening i).filterMap (keyFor v) = ((share i).keyFor v).toList ++
      (List.range x.mapsPerFile).flatMap fun m =>
        (List.range x.keysPerMap).filterMap fun k => (fill i m k).keyFor v := by
  have hother (st : Statement) (h : st.assigned? = none) : st.keyFor v = none :=
    keyFor_of_assigned?_eq_none h v
  rw [filterMap_opening x i rfl rfl]
  simp [hother (chain _) rfl, hother (library _) rfl, hother (declare _) rfl]

theorem keys_script (v : Variable) :
    ((x.script i).assignments v.name).map (·.key) =
      (x.opening i).filterMap (keyFor v) ++
        (List.range x.functionsPerFile).flatMap fun f => ((option f).keyFor v).toList := by
  have hs (st : Statement) (h : st.isSilent) : st.keyFor v = none :=
    keyFor_of_assigned?_eq_none (of_isSilent h).right.right v
  have hheader (f : Nat) : (header i f).keyFor v = none := keyFor_of_assigned?_eq_none rfl v
  rw [Script.assignments, lines_script, map_key_assignments, filterMap_statements x i hs]
  simp [hheader]

theorem directKeys_shared :
    ((x.script i).keysAt sharedMap .everywhere).directKeys = ["file_" ++ toString i] := by
  have hkeys : ((x.script i).assignments sharedMap).map (·.key) = ["file_" ++ toString i] := by
    refine (x.keys_script i .shared).trans ?_
    simp [keys_opening, keyFor_share, keyFor_fill, keyFor_option]
  rw [Script.directKeys_everywhere, hkeys, eraseDups_of_nodup (List.nodup_singleton _)]

theorem directKeys_map {j : Nat} (hj : j < x.mapsPerFile) :
    ((x.script i).keysAt (mapName i j) .everywhere).directKeys =
      (List.range x.keysPerMap).map fun k => "key_" ++ toString k := by
  have hkeys : ((x.script i).assignments (mapName i j)).map (·.key) =
      (List.range x.keysPerMap).map fun k => "key_" ++ toString k := by
    have hmaps := flatMap_range_of_eq_nil hj
      (g := fun m => (List.range x.keysPerMap).filterMap fun k => (fill i m k).keyFor (.config i j))
      fun m hm => by simp [keyFor_fill, hm]
    refine (x.keys_script i (.config i j)).trans ?_
    rw [keys_opening, hmaps]
    simp [keyFor_share, keyFor_fill, keyFor_option]
  have hinj : Function.Injective fun k : Nat => "key_" ++ toString k := by
    intro a b h
    have h : digits a = digits b := by simpa [digits] using congrArg String.toList h
    exact digits_inj.mp h
  rw [Script.directKeys_everywhere, hkeys, eraseDups_of_nodup (List.nodup_range.map hinj)]

theorem blocksOf_function (f : Nat) (rest : List CodeLine) :
    Function.blocksOf (numbered (x.functionLine i f) (x.functionStatements i f) ++ rest) =
      x.function i f :: Function.blocksOf rest := by
  rw [functionStatements]
  split
  all_goals
    simp [numbered, Function.blocksOf, Function.endFrom, ofHeader?_text, header?_text, isEnd_text, opened?,
      function]

theorem functions_script :
    (x.script i).functions = (List.range x.functionsPerFile).map (x.function i) := by
  have hopening : ∀ line ∈ numbered 0 (x.opening i), Function.header? line.text = none := by
    refine List.forall_mem_map.mpr fun y hy => ?_
    rw [header?_text, (x.of_mem_opening i <| List.fst_mem_of_mem_zipIdx hy).left]
    rfl
  rw [Script.functions_eq_blocksOf, lines_script_eq, Function.blocksOf_append hopening]
  induction List.range x.functionsPerFile
  case nil => rfl
  case cons f fs hi => rw [List.flatMap_cons, blocksOf_function, hi, List.map_cons]

theorem assignments_target :
    (x.script i).assignments Variable.target.name =
      (List.range x.functionsPerFile).map fun f =>
        ⟨"opt_" ++ toString f, x.functionLine i f + 2, .dot⟩ := by
  have hopening :
      (numbered 0 (x.opening i)).filterMap (Assignment.ofLine? Variable.target.name.toList) = [] := by
    refine List.map_eq_nil_iff.mp <| (map_key_assignments _ _ _).trans ?_
    simp [keys_opening, keyFor_share, keyFor_fill]
  have hfunction (f : Nat) :
      (numbered (x.functionLine i f) (x.functionStatements i f)).filterMap
        (Assignment.ofLine? Variable.target.name.toList) =
          [⟨"opt_" ++ toString f, x.functionLine i f + 2, .dot⟩] := by
    rw [functionStatements]
    split
    all_goals simp [numbered, assignment_text, assigned?, assignment_opting]
  rw [Script.assignments, lines_script_eq, List.filterMap_append, hopening, List.filterMap_flatMap]
  simp only [hfunction]
  simp [List.map_eq_flatMap]

theorem calls_script (v : Variable) :
    (x.script i).calls v.name =
      if .config i 0 = v ∧ 0 < x.mapsPerFile then
        (List.range x.functionsPerFile).map fun f => ⟨functionName i f, 0, x.functionLine i f + 5⟩
      else [] := by
  have hopening : (numbered 0 (x.opening i)).flatMap (Call.ofLine v.name.toList) = [] := by
    rw [numbered, List.flatMap_map]
    refine List.flatMap_eq_nil_iff.mpr fun y hy => ?_
    rw [call_text, (x.of_mem_opening i <| List.fst_mem_of_mem_zipIdx hy).right]
    rfl
  have hfunction (f : Nat) :
      (numbered (x.functionLine i f) (x.functionStatements i f)).flatMap (Call.ofLine v.name.toList) =
        if .config i 0 = v ∧ 0 < x.mapsPerFile then [⟨functionName i f, 0, x.functionLine i f + 5⟩]
        else [] := by
    by_cases hv : .config i 0 = v <;> by_cases hm : 0 < x.mapsPerFile
    all_goals simp [functionStatements, numbered, call_text, called?, Option.filter_some, hv, hm]
  rw [Script.calls, lines_script_eq, List.flatMap_append, hopening, List.flatMap_assoc]
  simp only [hfunction]
  split <;> simp [List.map_eq_flatMap]

-- Of all the assignments to the parameter, the one on the third line of a function lies in this function.
theorem assigns_inside_iff {f g : Nat} :
    x.functionLine i f < x.functionLine i g + 2 ∧ x.functionLine i g + 2 ≤ x.functionLine i f + 4 ↔
      g = f := by
  constructor
  case mp =>
    intro h
    obtain hlt | he | hgt := Nat.lt_trichotomy g f
    case inl     => have := x.functionLine_add_le i hlt; omega
    case inr.inl => exact he
    case inr.inr => have := x.functionLine_add_le i hgt; omega
  case mpr =>
    rintro rfl
    omega

theorem keysOfCall_script {f : Nat} (hf : f < x.functionsPerFile) (line : Nat) :
    (x.script i).keysOfCall ⟨functionName i f, 0, line⟩ =
      [⟨"opt_" ++ toString f, functionName i f, Variable.target.name, line, x.functionLine i f, true⟩] := by
  have hcalled : (x.script i).functions.filter (fun g => sameName g.name (functionName i f)) =
      [x.function i f] := by
    have hp (g : Nat) : sameName (x.function i g).name (functionName i f) ↔ g = f := by
      simp [function, sameName_functionName_iff]
    rw [functions_script, List.filter_map, Function.comp_def, filter_range_eq hf hp, List.map_singleton]
  have hbody : ((x.script i).assignments Variable.target.name).filter
      (fun a => x.functionLine i f < a.line ∧ a.line ≤ x.functionLine i f + 4) =
        [⟨"opt_" ++ toString f, x.functionLine i f + 2, .dot⟩] := by
    rw [assignments_target, List.filter_map, Function.comp_def,
      filter_range_eq hf fun g => decide_eq_true_iff.trans (x.assigns_inside_iff i), List.map_singleton]
  have hparameter : (x.function i f).parameters[0]?.toList = [⟨Variable.target.name, true⟩] := rfl
  rw [Script.keysOfCall_eq, hcalled, List.flatMap_singleton, hparameter, List.flatMap_singleton]
  exact congrArg (List.map _) hbody

theorem functionKeys_script (v : Variable) :
    ((x.script i).keysAt v.name .everywhere).functionKeys =
      if .config i 0 = v ∧ 0 < x.mapsPerFile then
        (List.range x.functionsPerFile).map fun f =>
          ⟨"opt_" ++ toString f, functionName i f, Variable.target.name, x.functionLine i f + 5,
            x.functionLine i f, true⟩
      else [] := by
  have hkeys : ((x.script i).keysAt v.name .everywhere).functionKeys =
      ((x.script i).calls v.name).flatMap (x.script i).keysOfCall := by
    simp [Script.keysAt, Script.visibility, Visibility.contains]
  rw [hkeys, calls_script]
  split
  case isFalse => rfl
  case isTrue  =>
    rw [List.flatMap_map, List.map_eq_flatMap]
    exact List.flatMap_congr fun f hf => x.keysOfCall_script i (List.mem_range.mp hf) _

theorem mem_files_iff (hi : i < x.fileCount) (text : String) :
    ([fileName i], text) ∈ x.files ↔ text = (x.script i).source := by
  simp only [files, List.mem_append, List.mem_map, List.mem_range]
  constructor
  case mp =>
    rintro (⟨j, _, he⟩ | ⟨j, _, he⟩)
    case inl =>
      obtain ⟨hn, ht⟩ := Prod.mk.inj he
      cases fileName_inj.mp (List.cons.inj hn).left
      exact ht.symm
    case inr => simp at he
  case mpr =>
    rintro rfl
    exact .inl ⟨i, hi, rfl⟩

-- The one file of a name is recognised as what it was made up of, whatever numbers stand in its names: its
-- includes, Maps and functions, and the keys of every Map, those it is filled with and those of the
-- functions that it is passed to.
theorem recognised_as_made (x : Fixture) (i : Nat) (hi : i < x.fileCount) :
    let s := Script.ofText (textOf (x.fileLines i))
    (∀ text, ([fileName i], text) ∈ x.files ↔ text = s.source) ∧
    (Include.ofText s.source).map (fun d => (d.kind, d.path)) =
      (if i < x.chainDepth ∧ i + 1 < x.fileCount then [(.relative, fileName (i + 1))] else []) ++
        (if 0 < x.libraryFiles then [(.library, libraryName (i % x.libraryFiles))] else []) ∧
    s.declarations.map (fun d => (d.name, d.scope)) =
      (if i = 0 then [(sharedMap, .globalVar)] else []) ++
        (List.range x.mapsPerFile).map (fun m => (mapName i m, .globalVar)) ∧
    s.functions.map (fun f => (f.name, f.parameters)) =
      (List.range x.functionsPerFile).map (fun f => (functionName i f, [⟨"$mTarget", true⟩])) ∧
    s.keysAt sharedMap .everywhere = ⟨["file_" ++ toString i], []⟩ ∧
    ∀ j < x.mapsPerFile,
      let keys := s.keysAt (mapName i j) .everywhere
      keys.directKeys = (List.range x.keysPerMap).map (fun k => "key_" ++ toString k) ∧
      keys.functionKeys.map (fun k => (k.key, k.function, k.parameter, k.byRef)) =
        if j = 0 then
          (List.range x.functionsPerFile).map fun f =>
            ("opt_" ++ toString f, functionName i f, "$mTarget", true)
        else [] := by
  have hs : Script.ofText (textOf (x.fileLines i)) = x.script i := rfl
  rw [hs]
  refine ⟨x.mem_files_iff i hi, x.includes_script i, x.declarations_script i, ?functions, ?shared, ?maps⟩
  case functions =>
    rw [functions_script, List.map_map]
    rfl
  case shared =>
    have heta (keys : MapKeys) : keys = ⟨keys.directKeys, keys.functionKeys⟩ := rfl
    have hfunction : ((x.script i).keysAt sharedMap .everywhere).functionKeys = [] :=
      (x.functionKeys_script i .shared).trans <| if_neg (by simp)
    rw [heta ((x.script i).keysAt sharedMap .everywhere), directKeys_shared, hfunction]
  case maps =>
    intro j hj keys
    have hfunction : keys.functionKeys = _ := x.functionKeys_script i (.config i j)
    refine ⟨x.directKeys_map i hj, ?_⟩
    rw [hfunction]
    by_cases hz : j = 0
    case pos =>
      cases hz
      rw [if_pos ⟨rfl, hj⟩, if_pos rfl, List.map_map]
      rfl
    case neg => rw [if_neg (by simp [Ne.symm hz]), if_neg hz, List.map_nil]

-- The name of the last Map begins with the name of the second one, and the first Map alone is passed on.
theorem recognised_as_made_prefixes :
    let x : Fixture := ⟨3, 11, 2, 2, 2, 2⟩
    let s := Script.ofText (textOf (x.fileLines 1))
    1 < x.fileCount ∧ 10 < x.mapsPerFile ∧ ([fileName 1], s.source) ∈ x.files ∧
    (Include.ofText s.source).map (fun d => (d.kind, d.path)) =
      [(.relative, "file_2.au3"), (.library, "Udf_1.au3")] ∧
    s.functions.map (·.name) = ["Setup_1_0", "Setup_1_1"] ∧
    s.keysAt "$mShared" .everywhere = ⟨["file_1"], []⟩ ∧
    (s.keysAt "$mConfig_1_1" .everywhere).functionKeys = [] ∧
    (s.keysAt "$mConfig_1_10" .everywhere).directKeys = ["key_0", "key_1"] ∧
    (s.keysAt "$mConfig_1_0" .everywhere).functionKeys.map (fun k => (k.key, k.function)) =
      [("opt_0", "Setup_1_0"), ("opt_1", "Setup_1_1")] := by
  intro x s
  have ⟨hfiles, hincludes, _, hfunctions, hshared, hmaps⟩ := x.recognised_as_made 1 (by decide)
  have hfunctions := congrArg (List.map Prod.fst) hfunctions
  have hfirst := congrArg (List.map fun k => (k.1, k.2.1)) (hmaps 0 (by decide)).right
  have hsecond := (hmaps 1 (by decide)).right
  have hlast := (hmaps 10 (by decide)).left
  rw [List.map_map] at hfunctions hfirst
  exact ⟨by decide, by decide, (hfiles _).mpr rfl, hincludes.trans (by decide +kernel),
    hfunctions.trans (by decide +kernel), hshared.trans (by decide +kernel), List.map_eq_nil_iff.mp hsecond,
    hlast.trans (by decide +kernel), hfirst.trans (by decide +kernel)⟩

end Fixture

end ScriptMaps
