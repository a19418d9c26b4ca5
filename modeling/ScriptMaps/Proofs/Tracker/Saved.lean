import ScriptMaps.Proofs.Tracker.Identity

namespace ScriptMaps

theorem Config.maxDepth_withPositiveDepth_ne_zero {fallback : Nat} (h : fallback ≠ 0) (c : Config) :
    (c.withPositiveDepth fallback).maxDepth ≠ 0 := by
  rw [withPositiveDepth]
  split
  case isTrue     => exact h
  case isFalse hc => exact hc

theorem Sources.under_nil (s : Sources) : s.under {} = s :=
  rfl

-- Writing at paths that are their own identity is inserting.
theorem MemoryFiles.foldl_write {entries : List (Path × Script)}
    (h : ∀ e ∈ entries, e.1.identity = e.1) (m : MemoryFiles) :
    entries.foldl (fun m e => m.write e.1 e.2.source) m =
      { m with texts := entries.foldl (fun t e => t.insert e.1 e.2.source) m.texts } := by
  induction entries generalizing m
  case nil => rfl
  case cons e entries hi =>
    have ⟨he, h⟩ := List.forall_mem_cons.mp h
    rw [List.foldl_cons, hi h, MemoryFiles.write, he, List.foldl_cons]

namespace Tracker

-- The files after every tracked text has been written to the path that it is tracked at.
def saved (t : Tracker) (m : MemoryFiles) : MemoryFiles :=
  t.scripts.entries.foldl (fun m e => m.write e.1 e.2.source) m

variable {workingDir : Path} {t : Tracker}

namespace Reached

theorem maxDepth_ne_zero (h : t.Reached workingDir) : t.config.maxDepth ≠ 0 :=
  h.with_any.config_of (P := (·.maxDepth ≠ 0))
    (fun {config} _ => config.maxDepth_withPositiveDepth_ne_zero <| by decide)
    (fun {config _} _ hc => config.maxDepth_withPositiveDepth_ne_zero hc)

-- A new tracker with the same configuration resolves includes the same way.
theorem create_config (h : t.Reached workingDir) :
    Tracker.create workingDir t.config = { t with scripts := {} } := by
  rw [Tracker.create, Config.withPositiveDepth, if_neg h.maxDepth_ne_zero, h.resolver_eq]

theorem distinct_scripts (h : t.Reached workingDir) : t.scripts.Distinct := by
  induction h
  case create             => exact .nil
  case update p text _ hi => exact hi.insert _ _
  case remove p _ hi      => exact hi.erase _
  case clear              => exact .nil
  case reconfigure hi     => rwa [scripts_reconfigure]
  case query sources p map point _ hi =>
    exact collect_of_update (Q := (·.scripts.Distinct)) (fun _ _ h => h.insert _ _) hi sources map _ _

theorem saved_eq (h : t.Reached workingDir) (m : MemoryFiles) :
    t.saved m =
      { m with texts := t.scripts.entries.foldl (fun t e => t.insert e.1 e.2.source) m.texts } := by
  apply MemoryFiles.foldl_write
  intro e he
  exact h.identity_of_mem_tracked <| mem_tracked.mpr ⟨e, he, rfl⟩

theorem find?_texts_saved (h : t.Reached workingDir) (m : MemoryFiles) (p : Path) :
    (t.saved m).texts.find? p = ((t.scripts.find? p).map (·.source)).or (m.texts.find? p) := by
  rw [h.saved_eq, PathTable.find?_foldl_insert h.distinct_scripts]

-- There is no telling a tracked script from a file with its text. Locked files are left out: a script
-- that is edited in place of one can be read, and the file cannot, whatever is written to it.
theorem sources_saved (h : t.Reached workingDir) (texts : PathTable String) :
    (t.saved { texts }).sources = ({ texts } : MemoryFiles).sources.under t.scripts := by
  have hl (p : Path) : (t.saved { texts }).isLocked p = false := by
    rw [h.saved_eq]
    rfl
  have hn (p : Path) : ({ texts } : MemoryFiles).isLocked p = false := rfl
  simp only [MemoryFiles.sources, Sources.under, PathTable.contains, h.find?_texts_saved, hl, hn]
  congr 1
  case e_isFile | e_read =>
    funext p
    cases t.scripts.find? p.identity <;> rfl

-- An unsaved text counts as if it had been saved: a tracker that has come to have scripts follows the
-- directives as one without scripts does, with the same configuration, over the files with the texts of
-- these scripts.
theorem traverse_eq_saved (h : t.Reached workingDir) (texts : PathTable String) (p : Path) :
    t.traverse ({ texts } : MemoryFiles).sources p =
      (Tracker.create workingDir t.config).traverse (t.saved { texts }).sources p := by
  rw [h.create_config, traverse, traverse, Sources.under_nil, h.sources_saved]

end Reached

-- A script in the workspace `/ws` includes a library that no longer includes what the file does, and
-- another script for which there is no file.
theorem traverse_eq_saved_edited :
    let main := Path.ofText "main.au3"
    let t := (((create (.ofText "/") { workspaceRoot := some (.ofText "/ws") }).update main
      "#include \"lib.au3\"\n#include \"new.au3\"\n").update (.ofText "lib.au3") "$m.a = 1\n").update
      (.ofText "new.au3") "$m.b = 2\n"
    let texts : PathTable String :=
      ⟨[(.ofText "/ws/lib.au3", "#include \"old.au3\"\n"), (.ofText "/ws/old.au3", "$m.c = 3\n")]⟩
    (t.traverse ({ texts } : MemoryFiles).sources main).files.map (·.text) =
      ["/ws/lib.au3", "/ws/new.au3"] ∧
    (t.saved { texts }).texts.entries.map (fun e => (e.1.text, e.2)) = [
      ("/ws/lib.au3", "$m.a = 1\n"), ("/ws/old.au3", "$m.c = 3\n"),
      ("/ws/main.au3", "#include \"lib.au3\"\n#include \"new.au3\"\n"), ("/ws/new.au3", "$m.b = 2\n")] ∧
    t.traverse ({ texts } : MemoryFiles).sources main =
      (create (.ofText "/") t.config).traverse (t.saved { texts }).sources main := by
  intro main t texts
  have hreach : t.Reached (.ofText "/") := .update _ _ <| .update _ _ <| .update _ _ <| .create _
  refine ⟨?files, by decide +kernel, hreach.traverse_eq_saved texts main⟩
  rw [traverse, Resolver.traverse_eq_advance 5 (by decide +kernel)]
  decide +kernel

end Tracker

end ScriptMaps
