import ScriptMaps.Proofs.Path.Climb
import ScriptMaps.Proofs.Tracker.Transparency

namespace ScriptMaps.Tracker

-- Tracks scripts one after the other.
def updateAll (t : Tracker) (files : List (Path × String)) : Tracker :=
  files.foldl (fun t f => t.update f.1 f.2) t

-- The texts of scripts at the paths by which they are tracked.
def textsOf (t : Tracker) (files : List (Path × String)) : PathTable String where
  entries := files.map fun f => (t.key f.1, f.2)

variable {sources : Sources} {t : Tracker} {files files' : List (Path × String)}

theorem updateAll_eq (t : Tracker) (files : List (Path × String)) :
    t.updateAll files =
      { t with
        scripts := (t.textsOf files).entries.foldl (fun s e => s.insert e.1 (.ofText e.2)) t.scripts } := by
  induction files generalizing t
  case nil => rfl
  case cons f files hi => exact hi (t.update f.1 f.2)

theorem key_updateAll (t : Tracker) (files : List (Path × String)) (p : Path) :
    (t.updateAll files).key p = t.key p := by
  rw [updateAll_eq]
  rfl

theorem distinct_textsOf (hr : t.resolver.IsAbsolute)
    (h : files.Pairwise fun f f' => t.key f.1 ≠ t.key f'.1) : (t.textsOf files).Distinct := by
  have hn (p : Path) : (t.key p).IsNormal := by
    rw [key_eq_absolutize]
    exact Path.isNormal_absolutize hr.base p
  refine List.pairwise_map.mpr <| h.imp fun {f f'} hne => ?_
  rwa [(hn f.1).beq_iff_eq (hn f'.1)]

theorem find?_updateAll (hs : t.scripts = {}) (hd : (t.textsOf files).Distinct) (p : Path) :
    (t.updateAll files).scripts.find? p = ((t.textsOf files).find? p).map .ofText := by
  rw [updateAll_eq, PathTable.find?_foldl_insert hd, hs]
  exact Option.or_none

theorem script?_updateAll (hs : t.scripts = {}) (hd : (t.textsOf files).Distinct) {f : Path × String}
    (hf : f ∈ files) : (t.updateAll files).script? f.1 = some (.ofText f.2) := by
  have he : (t.key f.1, f.2) ∈ (t.textsOf files).entries := List.mem_map.mpr ⟨f, hf, rfl⟩
  rw [script?, key_updateAll, find?_updateAll hs hd, hd.find?_of_mem he, Option.map_some]

theorem extends_updateAll_of_perm (hs : t.scripts = {}) (hd : (t.textsOf files).Distinct)
    (hp : files'.Perm files) (sources : Sources) :
    (t.updateAll files).Extends sources (t.updateAll files') := by
  have hperm : (t.textsOf files').entries.Perm (t.textsOf files).entries := hp.map _
  have hfind (p : Path) : (t.updateAll files').scripts.find? p = (t.updateAll files).scripts.find? p := by
    rw [find?_updateAll hs hd, find?_updateAll hs (hd.perm hperm), hd.find?_perm hperm]
  refine ⟨?config, ?resolver, fun {f script} => (hfind f).trans, ?isFile, ?read⟩
  case config   => rw [updateAll_eq, updateAll_eq]
  case resolver => rw [updateAll_eq, updateAll_eq]
  case isFile =>
    intro p _
    simp only [Sources.under, PathTable.contains, hfind]
  case read =>
    intro p _
    simp only [Sources.under, hfind]

end ScriptMaps.Tracker
