import ScriptMaps.Proofs.Fixture.Statements
import ScriptMaps.Proofs.Script.CommentBlocks

namespace ScriptMaps
open Text

namespace Fixture

open Assignment (Key Parts)
open Statement

def includeStatements (x : Fixture) (i : Nat) : List Statement :=
  (if i < x.chainDepth ∧ i + 1 < x.fileCount then [chain (i + 1)] else []) ++
    (if 0 < x.libraryFiles then [library (i % x.libraryFiles)] else [])

def sharedStatements (i : Nat) : List Statement :=
  (if i = 0 then [declare .shared] else []) ++ [share i]

def mapStatements (x : Fixture) (i m : Nat) : List Statement :=
  declare (.config i m) :: (List.range x.keysPerMap).map (fill i m) ++ [blank]

def functionStatements (x : Fixture) (i f : Nat) : List Statement :=
  [header i f, note f, option f, handBack, close] ++ (if 0 < x.mapsPerFile then [call i f] else []) ++ [blank]

-- What stands before the functions.
def opening (x : Fixture) (i : Nat) : List Statement :=
  [once] ++ x.includeStatements i ++ [blank] ++ sharedStatements i ++ [blank] ++
    (List.range x.mapsPerFile).flatMap (x.mapStatements i)

def statements (x : Fixture) (i : Nat) : List Statement :=
  x.opening i ++ (List.range x.functionsPerFile).flatMap (x.functionStatements i)

def script (x : Fixture) (i : Nat) : Script :=
  .ofText (textOf (x.fileLines i))

-- The code lines of statements that are numbered from `start` on.
def numbered (start : Nat) (statements : List Statement) : List CodeLine :=
  (statements.zipIdx start).map fun y => ⟨y.2, y.1.text⟩

-- The number of lines of a function with its call.
def functionLength (x : Fixture) : Nat :=
  6 + if 0 < x.mapsPerFile then 1 else 0

def functionLine (x : Fixture) (i f : Nat) : Nat :=
  (x.opening i).length + f * x.functionLength

variable (x : Fixture) (i : Nat)

theorem toList_sharedMap : sharedMap.toList = '$' :: Variable.shared.word :=
  Variable.shared.toList_name

theorem toList_mapName (m : Nat) : (mapName i m).toList = '$' :: (Variable.config i m).word :=
  (Variable.config i m).toList_name

theorem map_includeLines : (x.includeLines i).map String.toList = (x.includeStatements i).map text := by
  rw [includeLines, includeStatements]
  split <;> split
  all_goals
    simp [text, Include.written, Include.command, Include.Delimiter.opening, Include.Delimiter.closing]

theorem map_sharedLines : (sharedLines i).map String.toList = (sharedStatements i).map text := by
  rw [sharedLines, sharedStatements]
  split
  all_goals simp [toList_sharedMap, text, sharing, setting, Parts.text, Key.text, digits]

theorem toList_keyLine (m k : Nat) : (keyLine (mapName i m) k).toList = (fill i m k).text := by
  rw [keyLine, text, filling, mapKey, mapValue]
  split
  all_goals simp [toList_mapName, setting, Parts.text, Key.text, keyWord, digits]

theorem map_mapLines (m : Nat) : (x.mapLines i m).map String.toList = (x.mapStatements i m).map text := by
  simp [mapLines, mapStatements, Function.comp_def, toList_keyLine, toList_mapName, text]

theorem map_functionLines (f : Nat) :
    (x.functionLines i f).map String.toList = (x.functionStatements i f).map text := by
  rw [functionLines, functionStatements]
  split
  all_goals
    simp [toList_functionName, toList_mapName, text, parameterList, opting, setting, Parts.text, Key.text,
      indent, Variable.word, digits]

theorem map_fileLines : (x.fileLines i).map String.toList = (x.statements i).map text := by
  simp only [fileLines, statements, opening, List.map_append, List.map_flatMap, map_includeLines,
    map_sharedLines, map_mapLines, map_functionLines]
  rfl

theorem toList_textOf (lines : List String) :
    (textOf lines).toList = (lines.map String.toList).flatMap (· ++ ['\n']) := by
  simp [textOf, String.toList_join, List.flatMap_map]

theorem toList_source :
    (x.script i).source.toList = ((x.statements i).map text).flatMap (· ++ ['\n']) := by
  rw [script, Script.source_ofText, toList_textOf, map_fileLines]

theorem madeOf_source : MadeOf (x.script i).source.toList ((x.statements i).map text) where
  whole    := List.forall_mem_map.mpr fun st _ => whole_of_all_isPrinted st.all_text
  unmarked := by simp [toList_source, statements, opening, text]
  text_eq  := .inl (x.toList_source i)

theorem lines_script : (x.script i).lines = numbered 0 (x.statements i) := by
  have hmarks : ∀ line ∈ (x.statements i).map text, blockMark? line = none :=
    List.forall_mem_map.mpr fun st _ => st.blockMark?_text
  rw [Script.lines_of_madeOf (x.madeOf_source i), codeLinesFrom_eq_zipIdx hmarks, List.zipIdx_map,
    List.map_map]
  rfl

theorem numbered_append (start : Nat) (a b : List Statement) :
    numbered start (a ++ b) = numbered start a ++ numbered (start + a.length) b := by
  simp [numbered, List.zipIdx_append]

theorem numbered_flatMap_range {g : Nat → List Statement} {length : Nat} (h : ∀ f, (g f).length = length)
    (start n : Nat) :
    numbered start ((List.range n).flatMap g) =
      (List.range n).flatMap fun f => numbered (start + f * length) (g f) := by
  induction n
  case zero => rfl
  case succ n hi =>
    have hl : ((List.range n).flatMap g).length = n * length := by simp [List.length_flatMap, h]
    rw [List.range_succ, List.flatMap_append, List.flatMap_append, numbered_append, hi, hl]
    simp

theorem length_functionStatements (f : Nat) : (x.functionStatements i f).length = x.functionLength := by
  rw [functionStatements, functionLength]
  split <;> rfl

theorem lines_script_eq :
    (x.script i).lines = numbered 0 (x.opening i) ++
      (List.range x.functionsPerFile).flatMap fun f =>
        numbered (x.functionLine i f) (x.functionStatements i f) := by
  rw [lines_script, statements, numbered_append, Nat.zero_add,
    numbered_flatMap_range (x.length_functionStatements i)]
  rfl

theorem functionLine_add_le {f g : Nat} (h : f < g) : x.functionLine i f + 6 ≤ x.functionLine i g := by
  have hlength : 6 ≤ x.functionLength := Nat.le_add_right 6 _
  have hlines := Nat.mul_le_mul_right x.functionLength h
  rw [Nat.succ_mul] at hlines
  rw [functionLine, functionLine]
  omega

-- Apart from the numbers of their lines, the statements alone tell what is read.
theorem map_filterMap_numbered {β γ : Type} {read : CodeLine → Option β} {forget : β → γ}
    {sees : Statement → Option γ} (h : ∀ st number, (read ⟨number, st.text⟩).map forget = sees st)
    (start : Nat) (statements : List Statement) :
    ((numbered start statements).filterMap read).map forget = statements.filterMap sees := by
  have hsees : (fun y : Statement × Nat => (read ⟨y.2, y.1.text⟩).map forget) = sees ∘ Prod.fst :=
    funext fun y => h y.1 y.2
  rw [List.map_filterMap, numbered, List.filterMap_map, Function.comp_def, hsees, ← List.filterMap_map,
    List.zipIdx_map_fst]

section
variable {γ : Type} {sees : Statement → Option γ}

theorem filterMap_cons_statement (st : Statement) (statements : List Statement) :
    (st :: statements).filterMap sees = (sees st).toList ++ statements.filterMap sees := by
  cases h : sees st <;> simp [h]

theorem filterMap_opening (ho : sees once = none) (hb : sees blank = none) :
    (x.opening i).filterMap sees =
      (if i < x.chainDepth ∧ i + 1 < x.fileCount then (sees (chain (i + 1))).toList else []) ++
      (if 0 < x.libraryFiles then (sees (library (i % x.libraryFiles))).toList else []) ++
      (if i = 0 then (sees (declare .shared)).toList else []) ++ (sees (share i)).toList ++
      (List.range x.mapsPerFile).flatMap fun m => (sees (declare (.config i m))).toList ++
        (List.range x.keysPerMap).filterMap fun k => sees (fill i m k) := by
  have hincludes : (x.includeStatements i).filterMap sees =
      (if i < x.chainDepth ∧ i + 1 < x.fileCount then (sees (chain (i + 1))).toList else []) ++
        (if 0 < x.libraryFiles then (sees (library (i % x.libraryFiles))).toList else []) := by
    rw [includeStatements]
    split <;> split <;> simp [filterMap_cons_statement]
  have hshared : (sharedStatements i).filterMap sees =
      (if i = 0 then (sees (declare .shared)).toList else []) ++ (sees (share i)).toList := by
    rw [sharedStatements]
    split <;> simp [filterMap_cons_statement]
  have hmaps (m : Nat) : (x.mapStatements i m).filterMap sees = (sees (declare (.config i m))).toList ++
      (List.range x.keysPerMap).filterMap fun k => sees (fill i m k) := by
    simp [mapStatements, filterMap_cons_statement, hb, List.filterMap_map]
  simp [opening, List.filterMap_append, List.filterMap_flatMap, ho, hb, hincludes, hshared, hmaps]

theorem filterMap_statements (hs : ∀ st, st.isSilent → sees st = none) :
    (x.statements i).filterMap sees = (x.opening i).filterMap sees ++
      (List.range x.functionsPerFile).flatMap fun f =>
        (sees (header i f)).toList ++ (sees (option f)).toList := by
  have hfunctions (f : Nat) : (x.functionStatements i f).filterMap sees =
      (sees (header i f)).toList ++ (sees (option f)).toList := by
    rw [functionStatements]
    split
    all_goals
      simp [filterMap_cons_statement, hs (note f) rfl, hs handBack rfl, hs close rfl, hs (call i f) rfl,
        hs blank rfl]
  simp [statements, List.filterMap_append, List.filterMap_flatMap, hfunctions]

end

theorem of_mem_opening {st : Statement} (h : st ∈ x.opening i) : st.opened? = none ∧ st.called? = none := by
  have hnone : (x.opening i).filterMap (fun st => st.opened?.or st.called?) = [] := by
    rw [filterMap_opening x i rfl rfl]
    simp [opened?, called?]
  exact Option.or_eq_none_iff.mp <| List.filterMap_eq_nil_iff.mp hnone st h

end Fixture

end ScriptMaps
